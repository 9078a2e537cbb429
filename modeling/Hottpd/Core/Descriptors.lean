import Hottpd.Core.Culls
import Hottpd.Core.Engines

/-!
# Connections and their descriptors

The connections of the cull list have descriptors, which the kernel hands out and
takes back and the epoll engine watches. `DispatchEvents` works off what the kernel
has reported, one descriptor after the other, while the handlers it calls accept
further connections and give up others. `Apply` runs when all of it has been worked
off: it takes a connection out of the engine, closes its descriptor and destroys it.

A descriptor that is closed goes from the kernel's list, and the kernel hands out any
descriptor that is not open. The listeners are there from the beginning to the end.
-/

namespace Hottpd

/-- An entry of the array of `DispatchEvents`. The handler is ours: it is the one that was
registered when the kernel reported the descriptor. -/
structure Reported where
  fd : Int
  owner : Option Handler
deriving DecidableEq

/-- The server with its descriptors; `isOpen` is the kernel's. The last two are ours: whether a
handler has been called for a report that was for another, or one that does not exist any more,
and whether something has been closed that was not open. -/
structure Fleet where
  server : Server
  listening : List Handler
  engine : EPollEngine
  fdOf : Nat → Int
  isOpen : Int → Bool
  events : List Reported
  misdirected : Bool
  badClose : Bool

/-- The handler that a connection is. -/
def Fleet.handlerOf (f : Fleet) (c : Nat) : Handler := ⟨c, f.fdOf c, true⟩

/-- `Close`, with what the kernel does. -/
def Fleet.close (fd : Int) (f : Fleet) : Fleet :=
  { f with
    isOpen := Function.update f.isOpen fd false
    engine := { f.engine with kernel := Function.update f.engine.kernel fd none }
    badClose := f.badClose || !f.isOpen fd }

section Steps

variable (l : Limits)

/-- The listeners have been added, and there is no connection. -/
def Fleet.start (listening : List Handler) : Fleet where
  server := Server.new
  listening := listening
  engine := listening.foldl (fun e eh => (e.addFd l.maxDescriptors eh).2) EPollEngine.new
  fdOf _ := -1
  isOpen fd := decide (fd ∈ listening.map Handler.fd)
  events := []
  misdirected := false
  badClose := false

/-- What the accept loop does with the descriptor `accept` has returned. -/
def Fleet.accepted (time : Int) (nfd : Int) (named : Bool) (f : Fleet) : Fleet :=
  let f := { f with isOpen := if 0 ≤ nfd then Function.update f.isOpen nfd true else f.isOpen }
  let c := f.server.next
  let eh : Handler := ⟨c, nfd, true⟩
  let added := f.engine.addFd l.maxDescriptors eh
  let server := acceptTurn l time ⟨nfd, named, added.1⟩ f.server
  if (l.maxDescriptors : Int) ≤ nfd % 2 ^ 32 then
    if 0 ≤ nfd then { f with server := server }.close nfd else { f with server := server }
  else if -1 < nfd ∧ named then
    { f with server := server, engine := added.2, fdOf := Function.update f.fdOf c nfd }
  else if 0 ≤ nfd then { f with server := server }.close nfd
  else { f with server := server }

/-- The loop does not get as far as `accept`. -/
def Server.full (s : Server) : Prop :=
  s.localConnections.length + 1 > l.softLimit ∨ s.localConnections.length + 1 ≥ l.maxClients

instance (s : Server) : Decidable (s.full l) := inferInstanceAs (Decidable (_ ∨ _))

/-- The end of the loop of `Apply` for a connection. -/
def Fleet.destroy (c : Nat) (server : Server) (f : Fleet) : Fleet :=
  { f with
    server := server
    engine := (f.engine.delFd l.maxDescriptors (f.handlerOf c) false).2 }.close (f.fdOf c)

/-- `HandleEvent`. -/
def Fleet.handleEvent (time : Int) (eh : Handler) (f : Fleet) : Option Fleet :=
  if eh ∈ f.listening then
    (f.server.step l .readable).map fun server => { f with server := server }
  else
    match f.server.step l (.socketEvent time eh.id) with
    | none => some { f with misdirected := true }
    | some server => some { f with server := server }

/-- A turn of the loop of `DispatchEvents` for a descriptor: its handler is called, if it has
one. -/
def Fleet.turn (time : Int) (r : Reported) (f : Fleet) : Option Fleet :=
  match f.engine.ref r.fd with
  | none => some f
  | some eh =>
      { f with misdirected := f.misdirected || !decide (r.owner = some eh) }.handleEvent l time eh

inductive FleetEvent where
  /-- `epoll_wait` returns. -/
  | poll (fds : List Int)
  /-- A turn of the loop of `DispatchEvents`. -/
  | turn (time : Int)
  /-- A turn of the loop of a listener, with what `accept` and `getsockname` return. -/
  | accept (time : Int) (nfd : Int) (named : Bool)
  | timeOuts (time : Int)
  /-- Code of the core or of a module calls `Delete`. -/
  | delete (c : Nat)
  | apply
  | applyNext
deriving DecidableEq

/-- One event; `none` where it cannot come: `Run` goes on to `Apply` and the time-outs when
`DispatchEvents` has returned. -/
def Fleet.step (f : Fleet) : FleetEvent → Option Fleet
  | .poll fds =>
      if f.server.pc = .idle ∧ f.events = [] ∧ ∀ fd ∈ fds, (f.engine.kernel fd).isSome = true then
        some { f with events := fds.map fun fd => ⟨fd, f.engine.ref fd⟩ }
      else none
  | .turn time =>
      match f.events with
      | [] => none
      | r :: rest =>
          if f.server.pc = .idle then { f with events := rest }.turn l time r else none
  | .accept time nfd named =>
      if f.server.pc ≠ .accepting then none
      else if f.server.full l then
        (f.server.step l (.accept time ⟨nfd, named, false⟩)).map fun server =>
          { f with server := server }
      else if 0 ≤ nfd ∧ f.isOpen nfd = true then none
      else some (f.accepted l time nfd named)
  | .timeOuts time =>
      if f.events = [] then
        (f.server.step l (.timeOuts time)).map fun server => { f with server := server }
      else none
  | .delete c => (f.server.step l (.delete c)).map fun server => { f with server := server }
  | .apply =>
      if f.events = [] then
        (f.server.step l .apply).map fun server => { f with server := server }
      else none
  | .applyNext =>
      match f.server.pc with
      | .handlers c m =>
          if m < l.modules then
            (f.server.step l .applyNext).map fun server => { f with server := server }
          else (f.server.step l .applyNext).map fun server => f.destroy l c server
      | _ => (f.server.step l .applyNext).map fun server => { f with server := server }

end Steps

end Hottpd
