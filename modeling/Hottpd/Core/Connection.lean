import Hottpd.Core.Headers
import Hottpd.Core.Uri
import Hottpd.Core.FileSystem

/-!
# The connection and its surroundings

`Connection` has the fields of the class that the modelled functions read
or write. A file descriptor is kept as the path it was opened from, since
its number is only ever handed back to the operating system; the socket's
own number is in `Env`, together with the configuration and everything the
operating system answers during a run.

`St` adds to a connection what the rest of the process holds about it: the
epoll mask, its entries in the cull list, the bytes its socket has accepted
and the state of the attached modules. `trace` is ours: the core's actions
in the order in which they happened.
-/

namespace Hottpd

open Bytes

inductive HttpState where
  | waitRequest
  | recvReqbody
  | sendHeaders
  | sendData
  | finished
deriving DecidableEq, Repr

inductive HttpVersion where
  | unspecified
  | http10
  | http11
deriving DecidableEq, Repr

/-- `ResponseBackend` when it is not NULL; the server has one backend. -/
inductive Backend where
  | write
deriving DecidableEq, Repr

structure Connection where
  state : HttpState
  headers : HTTPHeaders
  sendq : Bytes
  requestbuf : Bytes
  requestsCompleted : Nat
  method : Bytes
  uri : Bytes
  uriquery : Bytes
  upath : Bytes
  httpVersion : HttpVersion
  keepalive : Bool
  requestBodyLength : Nat
  requestBody : Bytes
  responseBufferDone : Bool
  responseBackend : Option Backend
  filefd : Option Bytes
  rfilesize : Nat
  rfilesent : Nat
  quitting : Bool

/-- The constructor. -/
def Connection.new : Connection where
  state := .waitRequest
  headers := HTTPHeaders.clear
  sendq := []
  requestbuf := []
  requestsCompleted := 0
  method := []
  uri := []
  uriquery := []
  upath := []
  httpVersion := .unspecified
  keepalive := true
  requestBodyLength := 0
  requestBody := []
  responseBufferDone := false
  responseBackend := none
  filefd := none
  rfilesize := 0
  rfilesent := 0
  quitting := false

/-! ## What the core is given -/

/-- The settings the connection code reads. -/
structure Config where
  docRoot : Bytes
  maxPostBody : Int
  keepAliveMax : Int
  noAtime : Bool
  followSymLinks : Bool
  mimeType : Bytes → Bytes

/-- What one `send` on the socket does: it takes some of the bytes it is
offered, at most all of them, or fails with `EAGAIN` or with another error. -/
inductive SendRes where
  | took (n : Nat)
  | again
  | fail
deriving DecidableEq, Repr

/-- The operating system's answers over a run. The `n`-th `send` on the
socket is answered by `send n`; the other calls are numbered together. -/
structure Os where
  send : Nat → SendRes
  mmap : Nat → Bool
  stat : Nat → Bool → StatResults
  openFile : Nat → Bytes → Bool → Except Errno Unit
  content : Bytes → Bytes
  asctime : Nat → Bytes
  geteuid : Nat

/-- The configured size of the table of descriptors. -/
structure Env where
  cfg : Config
  os : Os
  maxDescriptors : Nat
  fd : Nat
  /-- The accept loop closes a descriptor from `MAX_DESCRIPTORS` on. -/
  fd_lt : fd < maxDescriptors

/-! ## The record of a run -/

/-- What `CheckRequest` decides about a header block: an error page, a body
to wait for, or a request to answer now. -/
inductive Verdict where
  | reject (code : Nat) (text : Bytes) (fatal : Bool)
  | body
  | dispatch
deriving DecidableEq

/-- What a hook returned; `none` is an exception, which the caller logs. -/
abbrev ModResult := Option Int

/-- An action of the core, as the trace records it. -/
inductive Ev where
  /-- `CheckRequest` took `block` off the buffer; `target` and `keepalive`
  are as the block and the checks on it leave them. -/
  | parsed (block target : Bytes) (keepalive : Bool) (verdict : Verdict)
  | cleaned
  | hook (k : Nat) (res : ModResult)
  /-- `ServeData` was called; `now` counts the answers of the operating
  system before it. -/
  | served (now : Nat) (method uri : Bytes) (headers : HTTPHeaders) (body : Bytes)
  | opened (path : Bytes) (size : Nat) (keepalive : Bool)
  /-- The header block of a response was queued. -/
  | head (status : Bytes) (headers : HTTPHeaders)
  | page (data : Bytes)
  /-- A fatal error page was begun. -/
  | fatal (keepalive : Bool)
  /-- A fatal `SendError` turned `keepalive` off at its end. -/
  | dropped (keepalive : Bool)
  /-- `FlushWriteBuf` offered the queue to the socket. -/
  | flush (accepted offered : Nat)
  | append (data : Bytes)
  | state (s : HttpState)
  /-- `EndRequest` ran, in this state. -/
  | ended (keepalive : Bool) (sendq : Bytes) (rfilesent rfilesize : Nat)
  | deleted
deriving DecidableEq

/-- The events of interest a descriptor is registered for. -/
structure EpollMask where
  epollin : Bool
  epollout : Bool
deriving DecidableEq, Repr

structure St (σ : Type) extends Connection where
  mask : EpollMask
  culls : Nat
  sends : Nat
  calls : Nat
  wire : Bytes
  mods : σ
  trace : List Ev

/-- A connection just accepted: constructed, and added to the engine, which
watches a `Readable` handler for input. -/
def St.init {σ : Type} (mods : σ) : St σ where
  toConnection := Connection.new
  mask := ⟨true, false⟩
  culls := 0
  sends := 0
  calls := 0
  wire := []
  mods := mods
  trace := []

end Hottpd
