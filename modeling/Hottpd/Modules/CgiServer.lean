import Hottpd.Modules.Cgi
import Mathlib.Algebra.GroupWithZero.Nat
import Hottpd.Core.World
import Hottpd.Lib.Runs

/-!
# A server with `m_cgi`

The connections of the server share one thing of the module's,
`total_cgi_processes`: the constructor of a `CGIRequest` adds to it and the
destructor takes off, so it counts the requests there are. A connection keeps its
place in the list, and what the operating system answers during an event comes
with the event.

At the end of a turn of the main loop `OnConnectionDisconnect` destroys the
request stored for a connection that is quitting. Requests that are not stored
outlive their connection.
-/

namespace Hottpd

open Bytes

structure CgiServer where
  conns : List (Option (St CgiVars))
  /-- What connections that are gone have left behind. -/
  orphans : List CGIRequest

def CgiServer.new : CgiServer := ⟨[], []⟩

inductive CgiServerEvent where
  | accept
  | on (c : Nat) (os : CgiOs) (ev : Event)
  /-- The cull list is applied to a connection. -/
  | disconnect (c : Nat)

def liveCount : Option (St CgiVars) → Nat
  | none => 0
  | some s => s.mods.live.length

def storedCount : Option (St CgiVars) → Nat
  | none => 0
  | some s => s.mods.stored.toList.length

/-- `total_cgi_processes`. -/
def CgiServer.total (f : CgiServer) : Nat := (f.conns.map liveCount).sum + f.orphans.length

/-- `CGIRequests.size()`. -/
def CgiServer.entries (f : CgiServer) : Nat := (f.conns.map storedCount).sum

def CgiServer.conn (f : CgiServer) (c : Nat) : Option (St CgiVars) := f.conns[c]?.join

/-- The answers as this connection gets them: the other processes are those of the server. -/
def CgiServer.answers (f : CgiServer) (s : St CgiVars) (os : CgiOs) : CgiOs :=
  { os with others := fun _ => f.total - s.mods.live.length }

/-- One event on a connection of a server where `m_cgi` is the only module. -/
def cgiEvent (env : Env) (cfg : CgiConfig) (os : CgiOs) (ev : Event) (s : St CgiVars) :
    St CgiVars :=
  handleEvent env [cgi env cfg os (Slot.whole CgiVars)] ev s

section Run

-- the surroundings of each connection
variable (env : Nat → Env) (cfg : CgiConfig)

/-- `none` is what cannot happen. -/
def CgiServer.step (f : CgiServer) : CgiServerEvent → Option CgiServer
  | .accept => some { f with conns := f.conns ++ [some (St.init CgiVars.init)] }
  | .on c os ev =>
      match f.conn c with
      | none => none
      | some s => some { f with
          conns := f.conns.set c (some (cgiEvent (env c) cfg (f.answers s os) ev s)) }
  | .disconnect c =>
      match f.conn c with
      | none => none
      | some s =>
          if s.quitting then
            some ⟨f.conns.set c none, f.orphans ++ (onFlushed s.mods).live⟩
          else none

def CgiServer.run (es : List CgiServerEvent) (f : CgiServer) : Option CgiServer :=
  Runs.run (CgiServer.step env cfg) f es

end Run

/-! ## Events that get between a request and its response -/

/-- There is a process whose response has not been queued. -/
def CgiVars.waiting (v : CgiVars) : Bool := v.live.any fun cr => cr.done = false

/-- A flush finds the queue empty or leaves it empty. -/
def drains {σ : Type} (env : Env) (s : St σ) : Bool :=
  if s.sendq = [] then true
  else
    match env.os.send s.sends with
    | .took n => s.sendq.length ≤ n
    | _ => false

/-- The event is the hang-up of a process from which nothing has been read. -/
def hangsUpSilently (os : CgiOs) (v : CgiVars) : Bool :=
  v.aborted = false ∧ (os.event v.calls).2 = .error ∧
    v.live.any fun cr => cr.id = (os.event v.calls).1 ∧ cr.isOpen ∧ cr.rbuf = []

/-- Client bytes complete a header block while a request is with a process. -/
def completes (ev : Event) (s : St CgiVars) : Bool :=
  match ev with
  | .read (.data bytes) =>
      s.mods.waiting ∧ s.state = .waitRequest ∧ s.quitting = false ∧
        (findRequestEnd (s.requestbuf ++ cstr bytes) s.requestbuf.length).isSome
  | _ => false

/-- The queue is emptied in the meantime. -/
def empties (env : Env) (ev : Event) (s : St CgiVars) : Bool :=
  match ev with
  | .write => s.mods.waiting ∧ drains env s
  | _ => false

/-- A response without a body ends in front of a header block that is complete. -/
def endsSilently (os : CgiOs) (ev : Event) (s : St CgiVars) : Bool :=
  match ev with
  | .module _ =>
      hangsUpSilently os s.mods ∧ s.keepalive ∧ (findRequestEnd s.requestbuf 0).isSome
  | _ => false

/-- The event lets the connection take up another request while one is stored. -/
def crowds (os : CgiOs) (ev : Event) (s : St CgiVars) : Bool :=
  completes ev s || endsSilently os ev s

/-- The client's side goes on while a request is with a process. -/
def intrudes (env : Env) (ev : Event) (s : St CgiVars) : Bool :=
  completes ev s || empties env ev s

def overtakes (env : Env) (os : CgiOs) (ev : Event) (s : St CgiVars) : Bool :=
  completes ev s || empties env ev s || endsSilently os ev s

/-- Whether the event does this to its connection. -/
def CgiServer.does (what : Nat → CgiOs → Event → St CgiVars → Bool) (f : CgiServer) :
    CgiServerEvent → Bool
  | .on c os ev =>
      match f.conn c with
      | none => false
      | some s => what c os ev s
  | _ => false

def CgiServer.crowded : CgiServer → CgiServerEvent → Bool :=
  CgiServer.does fun _ os ev s => crowds os ev s

def CgiServer.overtaken (env : Nat → Env) : CgiServer → CgiServerEvent → Bool :=
  CgiServer.does fun c os ev s => overtakes (env c) os ev s

/-- No event of the run is of this kind. -/
def CgiServer.never (env : Nat → Env) (cfg : CgiConfig)
    (bad : CgiServer → CgiServerEvent → Bool) (es : List CgiServerEvent) (f : CgiServer) : Prop :=
  Runs.EachStep (CgiServer.step env cfg) f es fun f e => bad f e = false

instance (env : Nat → Env) (cfg : CgiConfig) (bad : CgiServer → CgiServerEvent → Bool)
    (es : List CgiServerEvent) (f : CgiServer) : Decidable (CgiServer.never env cfg bad es f) :=
  inferInstanceAs (Decidable (Runs.EachStep _ _ _ _))

/-- What the module has of the connection when the handler of the event has done its own part and
calls the core, if the event is one for a request. -/
def heard (os : CgiOs) (v : CgiVars) : Event → CgiVars
  | .module 0 => (onEvent os v).1
  | _ => v

def CgiServerEvent.heard (c : Nat) (v : CgiVars) : CgiServerEvent → CgiVars
  | .on d os ev => if d = c then Hottpd.heard os v ev else v
  | _ => v

/-! ## A server to run -/

/-- A system that starts a process whenever it is asked to. -/
def willing (event : Nat × CgiEvent) : CgiOs where
  stat _ _ _ := .ok ⟨.reg, 0, 0⟩
  pipe _ := (true, true)
  fork _ := true
  addFd _ := true
  others _ := 0
  event _ := event

/-- One `cgi` block, and the default for the number of processes. -/
def phpConfig : CgiConfig := ⟨readTypes [(str "php", str "/usr/bin/php")], 2⟩

/-- Every file is empty. -/
def emptyWorld : Nat → Env := fun _ => smallWorld [] [] eager

/-- The first client sends these bytes. -/
def asks (text : String) : CgiServerEvent :=
  .on 0 (willing (0, .write)) (.read (.data (str text)))

/-- An event on the pipe from the first process of the first client. -/
def pipes (event : CgiEvent) : CgiServerEvent := .on 0 (willing (0, event)) (.module 0)

/-- The socket of the first client can be written to. -/
def writable : CgiServerEvent := .on 0 (willing (0, .write)) .write

end Hottpd
