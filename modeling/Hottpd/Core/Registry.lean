import Hottpd.Lib.Simulation
import Hottpd.Core.KernelQueues

/-!
# What an engine is for

A registry has at most one handler for a descriptor, and one place less than there are
descriptors. It does not say how the descriptors are watched. An engine is judged by it,
with what it answers and what it has in its table.
-/

namespace Hottpd

open Simulation

/-- Each handler is registered under its own descriptor. -/
structure Registry (maxDescriptors : Nat) where
  table : Int → Option Handler
  own : ∀ fd eh, table fd = some eh → eh.fd = fd ∧ inRange maxDescriptors fd = true

namespace Registry

variable {maxDescriptors : Nat}

def empty : Registry maxDescriptors := ⟨fun _ => none, fun _ _ h => by cases h⟩

def count (r : Registry maxDescriptors) : Nat := refCount maxDescriptors r.table

/-- There is a place for the handler. -/
def Free (r : Registry maxDescriptors) (eh : Handler) : Prop :=
  inRange maxDescriptors eh.fd = true ∧ r.count + 1 < maxDescriptors ∧ r.table eh.fd = none

/-- Some handler is registered under the descriptor. -/
def Taken (r : Registry maxDescriptors) (fd : Int) : Prop := (r.table fd).isSome = true

instance (r : Registry maxDescriptors) (eh : Handler) : Decidable (r.Free eh) :=
  inferInstanceAs (Decidable (_ ∧ _ ∧ _))

instance (r : Registry maxDescriptors) (fd : Int) : Decidable (r.Taken fd) :=
  inferInstanceAs (Decidable (_ = _))

def register (eh : Handler) (r : Registry maxDescriptors) : Bool × Registry maxDescriptors :=
  if h : r.Free eh then
    (true, ⟨Function.update r.table eh.fd (some eh), fun fd eh' heh => by
      by_cases hfd : fd = eh.fd
      · subst hfd
        rw [Function.update_self, Option.some.injEq] at heh
        exact ⟨by rw [heh], h.1⟩
      · rw [Function.update_of_ne hfd] at heh
        exact r.own fd eh' heh⟩)
  else (false, r)

def remove (eh : Handler) (r : Registry maxDescriptors) : Bool × Registry maxDescriptors :=
  if r.Taken eh.fd then
    (true, ⟨Function.update r.table eh.fd none, fun fd eh' heh => by
      by_cases hfd : fd = eh.fd
      · subst hfd
        rw [Function.update_self] at heh
        cases heh
      · rw [Function.update_of_ne hfd] at heh
        exact r.own fd eh' heh⟩)
  else (false, r)

end Registry

/-! ## The engines as machines -/

def EngineCall.handler : EngineCall → Handler
  | .addFd eh | .delFd eh => eh

section Machines

variable (maxDescriptors : Nat)

def Registry.machine : Machine (Registry maxDescriptors) EngineCall Bool where
  start := Registry.empty
  step
    | .addFd eh, r => r.register eh
    | .delFd eh, r => r.remove eh

/-- With as many descriptors as the other engines have. -/
def SelectEngine.machine : Machine SelectEngine EngineCall Bool where
  start := SelectEngine.new
  step
    | .addFd eh, e => e.addFd maxDescriptors maxDescriptors eh
    | .delFd eh, e => e.delFd maxDescriptors eh false

def EPollEngine.machine : Machine EPollEngine EngineCall Bool where
  start := EPollEngine.new
  step
    | .addFd eh, e => e.addFd maxDescriptors eh
    | .delFd eh, e => e.delFd maxDescriptors eh false

def KQueueEngine.machine : Machine KQueueEngine EngineCall Bool where
  start := KQueueEngine.new
  step
    | .addFd eh, e => e.addFd maxDescriptors eh
    | .delFd eh, e => e.delFd maxDescriptors eh false

def PortsEngine.machine : Machine PortsEngine EngineCall Bool where
  start := PortsEngine.new
  step
    | .addFd eh, e => e.addFd maxDescriptors eh
    | .delFd eh, e => e.delFd maxDescriptors eh false

end Machines

end Hottpd
