import Hottpd.Core.Engines
import Hottpd.Modules.CgiServer

/-!
# The pipe from a process

The kernel's side of `m_cgi` on one connection: a child writes into its pipe and
exits, `epoll_wait` reports what it finds, and later, when `DispatchEvents` has
come to it, the handler is called for what was reported. The engine looks at the
reported events in its own order, a hang-up before anything else.

For a pipe whose writer has closed the kernel reports `EPOLLHUP`, together with
`EPOLLIN` while there is something left to read. `written` and `bodies` are ours:
all that a child has written, and what was queued as the body of a response.
-/

namespace Hottpd

open Bytes

/-! ## The engine -/

/-- The events `epoll_wait` reports for a descriptor. -/
structure EpollEvents where
  epollin : Bool
  epollout : Bool
  epollerr : Bool
  epollhup : Bool
deriving DecidableEq

/-- The body of the loop of `EPollEngine::DispatchEvents`. -/
def dispatchEvent (events : EpollEvents) : EventType :=
  if events.epollhup then .error
  else if events.epollerr then .error
  else if events.epollout then .write
  else .read

/-! ## A child and its pipe -/

structure Child where
  written : Bytes
  unread : Bytes
  exited : Bool
  /-- What `epoll_wait` has reported and `DispatchEvents` has not come to yet. -/
  reported : Option EpollEvents
deriving DecidableEq

def Child.new : Child := ⟨[], [], false, none⟩

/-- `epoll_wait`, for the pipe of this child. -/
def Child.poll (c : Child) : Child :=
  if c.exited ∨ c.unread ≠ [] then
    { c with reported := some ⟨c.unread ≠ [], false, false, c.exited⟩ }
  else c

def readBufferSize : Nat := 65535

/-- How many bytes `read` gives when it could give `n`. -/
def Child.readLength (c : Child) (n : Nat) : Nat :=
  min (max n 1) (min readBufferSize c.unread.length)

/-- `read(this->fd, ReadBuffer, 65535)`: at least one byte if there are any. -/
def Child.read (n : Nat) (c : Child) : ReadRes × Child :=
  if c.unread = [] then (if c.exited then .eof else .again, c)
  else
    (.data (c.unread.take (c.readLength n)),
      { c with unread := c.unread.drop (c.readLength n) })

/-! ## One connection and its children -/

structure PipeServer where
  conn : St CgiVars
  /-- The child of each `CGIRequest`. -/
  child : Nat → Child
  bodies : List (Nat × Bytes)

def PipeServer.new : PipeServer := ⟨St.init CgiVars.init, fun _ => Child.new, []⟩

def PipeServer.setChild (id : Nat) (c : Child) (f : PipeServer) : PipeServer :=
  { f with child := fun d => if d = id then c else f.child d }

/-- The answers to the module during an event on the pipe of a request. -/
def CgiOs.delivers (os : CgiOs) (id : Nat) (ev : CgiEvent) : CgiOs :=
  { os with event := fun _ => (id, ev) }

/-- The bodies among the calls of a module. -/
def bodiesOf (id : Nat) (calls : List ModCall) : List (Nat × Bytes) :=
  calls.filterMap fun call =>
    match call with
    | .write data => some (id, data)
    | _ => none

inductive PipeEvent where
  /-- An event on the connection's own socket, or a time-out. -/
  | client (os : CgiOs) (ev : Event)
  | childWrites (id : Nat) (data : Bytes)
  | childExits (id : Nat)
  | poll (id : Nat)
  /-- `DispatchEvents` comes to what was reported; a `read` could give `n` bytes. -/
  | dispatch (os : CgiOs) (id n : Nat)

def Event.isModule : Event → Bool
  | .module _ => true
  | _ => false

/-- Whether the engine still has a handler for the pipe: `ref[fd]`. -/
def PipeServer.watches (f : PipeServer) (id : Nat) : Bool :=
  f.conn.mods.live.any fun cr => cr.id = id ∧ cr.isOpen

section Run

variable (env : Env) (cfg : CgiConfig)

/-- The handler of a pipe is called. -/
def PipeServer.handle (os : CgiOs) (id : Nat) (ev : CgiEvent) (f : PipeServer) : PipeServer :=
  { f with
    conn := cgiEvent env cfg (os.delivers id ev) (.module 0) f.conn
    bodies := f.bodies ++ bodiesOf id (onEvent (os.delivers id ev) f.conn.mods).2 }

/-- The event that is handled when what was reported is dispatched, and the child behind it. -/
def PipeServer.incoming (f : PipeServer) (id n : Nat) (events : EpollEvents) : CgiEvent × Child :=
  let c := { f.child id with reported := none }
  match dispatchEvent events with
  | .error => (.error, c)
  | .write => (.write, c)
  | .read => (.read (c.read n).1, (c.read n).2)

/-- `none` is what cannot happen. Output that is not free of NUL is left out. -/
def PipeServer.step (f : PipeServer) : PipeEvent → Option PipeServer
  | .client os ev =>
      if ev.isModule then none else some { f with conn := cgiEvent env cfg os ev f.conn }
  | .childWrites id data =>
      if id < f.conn.mods.made ∧ (f.child id).exited = false ∧ 0 ∉ data then
        some (f.setChild id { f.child id with
          written := (f.child id).written ++ data
          unread := (f.child id).unread ++ data })
      else none
  | .childExits id =>
      if id < f.conn.mods.made ∧ (f.child id).exited = false then
        some (f.setChild id { f.child id with exited := true })
      else none
  | .poll id => if f.watches id then some (f.setChild id (f.child id).poll) else none
  | .dispatch os id n =>
      match (f.child id).reported with
      | none => none
      | some events =>
          if f.watches id then
            let (ev, c) := f.incoming id n events
            some ((f.setChild id c).handle env cfg os id ev)
          else some (f.setChild id { f.child id with reported := none })

def PipeServer.run (es : List PipeEvent) (f : PipeServer) : Option PipeServer :=
  Runs.run (PipeServer.step env cfg) f es

/-! ## Hang-ups that come too early -/

/-- The hang-up of a child is dispatched, and there is output that has not been read. -/
def PipeServer.hangsUpUnread (f : PipeServer) : PipeEvent → Bool
  | .dispatch _ id _ =>
      match (f.child id).reported with
      | none => false
      | some events => f.watches id ∧ events.epollhup ∧ (f.child id).unread ≠ []
  | _ => false

/-- The event gets between a request and its response. -/
def PipeServer.overtaken (f : PipeServer) : PipeEvent → Bool
  | .client os ev => overtakes env os ev f.conn
  | .dispatch os id n =>
      match (f.child id).reported with
      | none => false
      | some events =>
          f.watches id ∧
            overtakes env (os.delivers id (f.incoming id n events).1) (.module 0) f.conn
  | _ => false

/-- No event of the run is one of those. -/
def PipeServer.never (bad : PipeServer → PipeEvent → Bool) (es : List PipeEvent)
    (f : PipeServer) : Prop :=
  Runs.EachStep (PipeServer.step env cfg) f es fun f e => bad f e = false

instance (bad : PipeServer → PipeEvent → Bool) (es : List PipeEvent) (f : PipeServer) :
    Decidable (PipeServer.never env cfg bad es f) :=
  inferInstanceAs (Decidable (Runs.EachStep _ _ _ _))

end Run

end Hottpd
