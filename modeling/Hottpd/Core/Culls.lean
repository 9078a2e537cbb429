import Mathlib.Algebra.Group.Int.Defs
import Mathlib.Logic.Function.Basic
import Hottpd.Core.Connection
import Hottpd.Lib.Runs

/-!
# The connection manager and the cull list

A connection is not destroyed where it is given up: `ConnectionManager::Delete`
puts it on the cull list, and `CullList::Apply`, once a turn of the main loop,
destroys what is on the list. Before it destroys a connection it calls the
modules' `OnConnectionDisconnect`, and they may give up further connections.

Module code runs in the middle of `Apply` and of the accept loop, so these are
taken step by step, with a program counter. A connection is its address; `next`
is the address of the next object. `calls` and `destroyed` are ours.
-/

namespace Hottpd

/-- What the manager reads and writes of a `Connection`. -/
structure Client where
  quitting : Bool
  state : HttpState
  age : Int
  lastSocketEvent : Int
deriving DecidableEq

/-- The constructor. -/
def Client.new (time : Int) : Client where
  quitting := false
  state := .waitRequest
  age := time
  lastSocketEvent := time

/-- Where the process is. -/
inductive Pc where
  /-- In `Run` or in the handler of a connection's event. -/
  | idle
  /-- At the top of the loop of `ListenSocket::HandleEvent`. -/
  | accepting
  /-- In `Apply`, at `while (list.size())`. -/
  | culling
  /-- In the loop over the modules for the connection, the next one being `m`. -/
  | handlers (c m : Nat)
  /-- In `OnConnectionDisconnect` of module `m`. -/
  | inHandler (c m : Nat)
deriving DecidableEq

structure Server where
  /-- The objects that have not been destroyed. -/
  objects : Nat → Option Client
  localConnections : List Nat
  cullList : List Nat
  next : Nat
  pc : Pc
  /-- The `OnConnectionDisconnect` calls made: the module and the connection. -/
  calls : List (Nat × Nat)
  destroyed : List Nat

def Server.new : Server where
  objects _ := none
  localConnections := []
  cullList := []
  next := 0
  pc := .idle
  calls := []
  destroyed := []

/-- What the manager is configured with; `modules` counts those that implement
`OnConnectionDisconnect`. -/
structure Limits where
  softLimit : Nat
  maxClients : Nat
  maxDescriptors : Nat
  canMultiaccept : Bool
  timeoutTotalLifetime : Int
  timeoutIdleLifetime : Int
  modules : Nat

def Server.modify (c : Nat) (f : Client → Client) (s : Server) : Server :=
  { s with objects := Function.update s.objects c ((s.objects c).map f) }

/-! ## `Add` and `Delete` -/

/-- `CullList::AddItem`. -/
def Server.addItem (c : Nat) (s : Server) : Server :=
  match s.objects c with
  | none => s
  | some o =>
      if o.quitting then s
      else { s with cullList := s.cullList ++ [c] }.modify c fun o => { o with quitting := true }

/-- `ConnectionManager::Delete`. -/
def deleteClient (c : Nat) (s : Server) : Server :=
  (Server.addItem c s).modify c fun o => { o with quitting := true, state := .finished }

/-- `ConnectionManager::Add`; `watched` is what `AddFd` returns. -/
def addClient (time : Int) (watched : Bool) (s : Server) : Server :=
  let c := s.next
  let s := { s with
    objects := Function.update s.objects c (some (Client.new time))
    next := c + 1
    localConnections := s.localConnections ++ [c] }
  if watched then s else deleteClient c s

/-! ## The main loop -/

/-- The answers of the operating system in a turn of the accept loop. -/
structure Accepted where
  nfd : Int
  named : Bool
  watched : Bool
deriving DecidableEq

/-- A turn of the loop of `ListenSocket::HandleEvent`. -/
def acceptTurn (l : Limits) (time : Int) (a : Accepted) (s : Server) : Server :=
  if s.localConnections.length + 1 > l.softLimit ∨ s.localConnections.length + 1 ≥ l.maxClients then
    { s with pc := .idle }
  -- as an `unsigned int`, which is how a failed `accept` ends here too
  else if (l.maxDescriptors : Int) ≤ a.nfd % 2 ^ 32 then { s with pc := .idle }
  else
    let s := if -1 < a.nfd ∧ a.named then addClient time a.watched s else s
    if l.canMultiaccept ∧ 0 ≤ a.nfd then s else { s with pc := .idle }

/-- The check of one connection for a time-out. -/
def timeOut (l : Limits) (time : Int) (s : Server) (c : Nat) : Server :=
  match s.objects c with
  | none => s
  | some o =>
      if o.age + l.timeoutTotalLifetime ≤ time then deleteClient c s
      else if o.lastSocketEvent + l.timeoutIdleLifetime ≤ time then deleteClient c s
      else s

/-- The end of the body of the loop of `Apply`: the connection leaves
`local_connections` and the cull list, and is destroyed. -/
def destroyFirst (c : Nat) (s : Server) : Server :=
  { s with
    localConnections := s.localConnections.erase c
    objects := Function.update s.objects c none
    cullList := s.cullList.tail
    destroyed := s.destroyed ++ [c] }

/-- The next step of `Apply`; `none` outside it. -/
def applyNext (l : Limits) (s : Server) : Option Server :=
  match s.pc with
  | .idle | .accepting => none
  | .culling =>
      match s.cullList with
      | [] => some { s with pc := .idle }
      | c :: _ => some { s with pc := .handlers c 0 }
  | .handlers c m =>
      if m < l.modules then some { s with pc := .inHandler c m, calls := s.calls ++ [(m, c)] }
      else some { destroyFirst c s with pc := .culling }
  | .inHandler c m => some { s with pc := .handlers c (m + 1) }

/-- What happens next. -/
inductive Happening where
  /-- A listener is readable. -/
  | readable
  | accept (time : Int) (answer : Accepted)
  /-- `Run` times out old connections. -/
  | timeOuts (time : Int)
  /-- A connection's `HandleEvent` is called. -/
  | socketEvent (time : Int) (c : Nat)
  /-- Code of the core or of a module calls `Delete`. -/
  | delete (c : Nat)
  /-- `Run` calls `Apply`. -/
  | apply
  | applyNext
deriving DecidableEq

/-- Whether code that may call `Delete` runs here. -/
def Pc.mayDelete : Pc → Bool
  | .idle | .accepting | .inHandler _ _ => true
  | .culling | .handlers _ _ => false

/-- `none` is what cannot happen here; nobody holds the address of a destroyed
connection. -/
def Server.step (l : Limits) (s : Server) : Happening → Option Server
  | .readable => if s.pc = .idle then some { s with pc := .accepting } else none
  | .accept time a => if s.pc = .accepting then some (acceptTurn l time a s) else none
  | .timeOuts time =>
      if s.pc = .idle then some (s.localConnections.foldl (timeOut l time) s) else none
  | .socketEvent time c =>
      if s.pc = .idle ∧ (s.objects c).isSome then
        some (s.modify c fun o => { o with lastSocketEvent := time })
      else none
  | .delete c =>
      if s.pc.mayDelete ∧ (s.objects c).isSome then some (deleteClient c s) else none
  | .apply => if s.pc = .idle then some { s with pc := .culling } else none
  | .applyNext => applyNext l s

/-- The state behind these happenings. -/
def Server.run (l : Limits) (hs : List Happening) (s : Server) : Option Server :=
  Runs.run (Server.step l) s hs

end Hottpd
