import Mathlib.Algebra.Group.Int.Defs
import Mathlib.Data.Int.Order.Basic
import Mathlib.Logic.Function.Basic
import Hottpd.Lib.Runs
import Hottpd.Core.Connection

/-!
# Socket engines

An engine keeps a table `ref` of the handlers by descriptor and counts them. The
epoll engine leaves the list of descriptors to the kernel. The select engine has
one of its own, `fds`, and a flag for each descriptor that waits to be writeable.

The tables are indexed by any `int`; where the arrays end is left out. The loop
at the end of `DispatchEvents` calls the handlers one by one, and a handler may
use the engine in turn, so a dispatch is a poll and then one step for each call.
-/

namespace Hottpd

/-- The `EventType` a handler is called with. -/
inductive EventType where
  | read
  | write
  | error
deriving DecidableEq

/-- An `EventHandler`: the object, its descriptor, and what `Readable` says. -/
structure Handler where
  id : Nat
  fd : Int
  readable : Bool
deriving DecidableEq

/-- The test on a descriptor that `AddFd` and `DelFd` of every engine begin with. -/
def inRange (maxDescriptors : Nat) (fd : Int) : Bool := ¬(fd < 0 ∨ maxDescriptors < fd)

/-! ## `SelectEngine` -/

structure SelectEngine where
  ref : Int → Option Handler
  currentSetSize : Int
  fds : SortedMap (id : Int → Int) Int
  writeable : Int → Bool

def SelectEngine.new : SelectEngine where
  ref _ := none
  currentSetSize := 0
  fds := SortedMap.empty
  writeable _ := false

section Select

variable (maxDescriptors : Nat) (fdSetsize : Int)

def SelectEngine.getRemainingFds (e : SelectEngine) : Int := fdSetsize - e.currentSetSize

def SelectEngine.addFd (eh : Handler) (e : SelectEngine) : Bool × SelectEngine :=
  if inRange maxDescriptors eh.fd = false then (false, e)
  else if e.getRemainingFds fdSetsize ≤ 1 then (false, e)
  else if (e.ref eh.fd).isSome then (false, e)
  else
    (true, { e with
      fds := e.fds.insert eh.fd eh.fd
      ref := Function.update e.ref eh.fd (some eh)
      currentSetSize := e.currentSetSize + 1 })

def SelectEngine.wantWrite (eh : Handler) (e : SelectEngine) : SelectEngine :=
  { e with writeable := Function.update e.writeable eh.fd true }

/-- `SelectEngine::DelFd`; `force` is not looked at. -/
def SelectEngine.delFd (eh : Handler) (_force : Bool) (e : SelectEngine) : Bool × SelectEngine :=
  if inRange maxDescriptors eh.fd = false then (false, e)
  else
    (true, { e with
      -- the assignment puts back the entry the line before it erased
      fds := (e.fds.erase eh.fd).insert eh.fd 0
      currentSetSize := e.currentSetSize - 1
      ref := Function.update e.ref eh.fd none })

end Select

/-! ## `EPollEngine` -/

structure EPollEngine where
  ref : Int → Option Handler
  currentSetSize : Int
  /-- The kernel's list: the descriptors registered and what each is watched for. -/
  kernel : Int → Option EpollMask

def EPollEngine.new : EPollEngine where
  ref _ := none
  currentSetSize := 0
  kernel _ := none

/-- The events a handler is registered for. -/
def Handler.mask (eh : Handler) : EpollMask := ⟨eh.readable, !eh.readable⟩

section EPoll

variable (maxDescriptors : Nat)

def EPollEngine.getRemainingFds (e : EPollEngine) : Int := maxDescriptors - e.currentSetSize

def EPollEngine.addFd (eh : Handler) (e : EPollEngine) : Bool × EPollEngine :=
  if inRange maxDescriptors eh.fd = false then (false, e)
  else if e.getRemainingFds maxDescriptors ≤ 1 then (false, e)
  else if (e.ref eh.fd).isSome then (false, e)
  -- `EPOLL_CTL_ADD` fails with `EEXIST`
  else if (e.kernel eh.fd).isSome then (false, e)
  else
    (true, {
      kernel := Function.update e.kernel eh.fd (some eh.mask)
      ref := Function.update e.ref eh.fd (some eh)
      currentSetSize := e.currentSetSize + 1 })

def EPollEngine.delFd (eh : Handler) (force : Bool) (e : EPollEngine) : Bool × EPollEngine :=
  if inRange maxDescriptors eh.fd = false then (false, e)
  -- `EPOLL_CTL_DEL` fails with `ENOENT`
  else if e.kernel eh.fd = none ∧ force = false then (false, e)
  else
    (true, {
      kernel := Function.update e.kernel eh.fd none
      ref := Function.update e.ref eh.fd none
      currentSetSize := e.currentSetSize - 1 })

end EPoll

/-! ## Dispatching with `select` -/

/-- The answer of `select`: of the descriptors asked about, those that are ready. -/
structure Ready where
  rfdset : Int → Bool
  wfdset : Int → Bool
  errfdset : Int → Bool

/-- A call of a handler. `stale` says that a write event comes from the flag a previous
owner of the descriptor asked for. -/
structure Delivery where
  handler : Handler
  event : EventType
  stale : Bool
deriving DecidableEq

/-- The select engine at work. `ev` is what is left of the array of `DispatchEvents`. The
last four are ours: the handlers `DelFd` took off a descriptor, the handler a flag is
for, the calls made, and whether one went through a NULL handler. -/
structure Dispatcher where
  engine : SelectEngine
  ev : List (Option Handler)
  errfdset : Int → Bool
  former : List (Int × Handler)
  asker : Int → Option Handler
  delivered : List Delivery
  crashed : Bool

def Dispatcher.new : Dispatcher where
  engine := SelectEngine.new
  ev := []
  errfdset _ := false
  former := []
  asker _ := none
  delivered := []
  crashed := false

/-- What happens to the engine. -/
inductive EngineEvent where
  | addFd (eh : Handler)
  | delFd (eh : Handler) (force : Bool)
  | wantWrite (eh : Handler)
  /-- `DispatchEvents` up to the loop that calls the handlers. -/
  | poll (ready : Ready)
  /-- A turn of that loop. -/
  | call

section Dispatch

variable (maxDescriptors : Nat) (fdSetsize : Int)

def Dispatcher.addFd (eh : Handler) (d : Dispatcher) : Dispatcher :=
  { d with engine := (d.engine.addFd maxDescriptors fdSetsize eh).2 }

def Dispatcher.delFd (eh : Handler) (force : Bool) (d : Dispatcher) : Dispatcher :=
  { d with
    engine := (d.engine.delFd maxDescriptors eh force).2
    former :=
      if inRange maxDescriptors eh.fd then
        d.former ++ (d.engine.ref eh.fd).toList.map fun owner => (eh.fd, owner)
      else d.former }

def Dispatcher.wantWrite (eh : Handler) (d : Dispatcher) : Dispatcher :=
  { d with
    engine := d.engine.wantWrite eh
    asker := Function.update d.asker eh.fd (some eh) }

/-- Whether the descriptor `fd`, whose handler is `eh`, is in one of the sets when `select`
has returned. -/
def SelectEngine.isReady (e : SelectEngine) (ready : Ready) (fd : Int) (eh : Handler) : Bool :=
  (eh.readable && ready.rfdset fd)
    || ((!eh.readable || e.writeable fd) && ready.wfdset fd)
    || ready.errfdset fd

/-- The loop that fills the sets asks each handler whether it is readable. -/
def Dispatcher.poll (ready : Ready) (d : Dispatcher) : Dispatcher :=
  if d.engine.fds.entries.any fun a => (d.engine.ref a.2).isNone then { d with crashed := true }
  else
    { d with
      ev := (d.engine.fds.entries.filter fun a =>
        (d.engine.ref a.2).any (d.engine.isReady ready a.2)).map fun a => d.engine.ref a.2
      errfdset := fun fd =>
        d.engine.fds.entries.any (fun a => a.2 = fd) && ready.errfdset fd }

def Dispatcher.isStale (eh : Handler) (d : Dispatcher) : Bool :=
  (d.asker eh.fd).any fun owner => owner ≠ eh ∧ (eh.fd, owner) ∈ d.former

/-- A turn of the loop for this handler. -/
def Dispatcher.deliver (eh : Handler) (d : Dispatcher) : Dispatcher :=
  if d.errfdset eh.fd then { d with delivered := d.delivered ++ [⟨eh, .error, false⟩] }
  else if d.engine.writeable eh.fd then
    { d with
      engine := { d.engine with writeable := Function.update d.engine.writeable eh.fd false }
      asker := Function.update d.asker eh.fd none
      delivered := d.delivered ++ [⟨eh, .write, d.isStale eh⟩] }
  else
    { d with
      delivered := d.delivered ++ [⟨eh, if eh.readable then .read else .write, false⟩] }

/-- One event; `none` where it cannot come: nothing follows a call through NULL, a dispatch
is not begun inside another, and there is no turn when the array has been gone through. -/
def Dispatcher.step (d : Dispatcher) (e : EngineEvent) : Option Dispatcher :=
  if d.crashed then none
  else
    match e with
    | .addFd eh => some (d.addFd maxDescriptors fdSetsize eh)
    | .delFd eh force => some (d.delFd maxDescriptors eh force)
    | .wantWrite eh => some (d.wantWrite eh)
    | .poll ready => if d.ev = [] then some (d.poll ready) else none
    | .call =>
        match d.ev with
        | [] => none
        | none :: rest => some { d with ev := rest }
        | some eh :: rest => some ({ d with ev := rest }.deliver eh)

end Dispatch

/-! ## The two engines side by side -/

/-- The two engines under the same calls, with all they have returned. -/
structure Engines where
  select : SelectEngine
  epoll : EPollEngine
  selectResults : List Bool
  epollResults : List Bool

def Engines.new : Engines := ⟨SelectEngine.new, EPollEngine.new, [], []⟩

/-- A call of either engine; a handler is not removed by force. -/
inductive EngineCall where
  | addFd (eh : Handler)
  | delFd (eh : Handler)
deriving DecidableEq

def Engines.record (select : Bool × SelectEngine) (epoll : Bool × EPollEngine) (s : Engines) :
    Engines :=
  ⟨select.2, epoll.2, s.selectResults ++ [select.1], s.epollResults ++ [epoll.1]⟩

/-- The two engines have the same limit, `MAX_DESCRIPTORS`. -/
def Engines.step (maxDescriptors : Nat) (s : Engines) (call : EngineCall) : Option Engines :=
  match call with
  | .addFd eh =>
      some (s.record (s.select.addFd maxDescriptors maxDescriptors eh)
        (s.epoll.addFd maxDescriptors eh))
  | .delFd eh =>
      some (s.record (s.select.delFd maxDescriptors eh false)
        (s.epoll.delFd maxDescriptors eh false))

/-- The number of entries of the table that are not NULL. -/
def refCount (maxDescriptors : Nat) (ref : Int → Option Handler) : Nat :=
  (List.range (maxDescriptors + 1)).countP fun fd : Nat => (ref fd).isSome

end Hottpd
