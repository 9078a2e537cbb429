/-!
# Timers

`TimerManager` keeps its timers in a vector that every `AddTimer` sorts, so
the next one to tick is always at the front. A timer is an object that modules
derive their own from: what its `Tick` does is a parameter, as is the order in
which `std::sort` leaves timers with the same trigger.
-/

namespace Hottpd

structure Timer where
  /-- The object's address. -/
  id : Nat
  trigger : Int
  secs : Int
  repeats : Bool
deriving DecidableEq, Repr

/-- The constructor. -/
def Timer.new (id : Nat) (secsFromNow now : Int) (repeating : Bool) : Timer where
  id := id
  trigger := now + secsFromNow
  secs := secsFromNow
  repeats := repeating

/-- `std::sort` with a comparison of keys; nothing is said about equal keys. -/
structure StdSort (α : Type) (key : α → Int) where
  sort : List α → List α
  perm : ∀ l, (sort l).Perm l
  sorted : ∀ l, (sort l).Pairwise fun a b => key a ≤ key b

/-- `TimerManager::TimerComparison` compares the triggers. -/
abbrev TimerSort := StdSort Timer Timer.trigger

/-- What one call of `Tick` does: the timers it adds, whether it calls
`CancelRepeat`, and what it leaves of the rest of the process. -/
structure TickResult (σ : Type) where
  world : σ
  added : List Timer
  cancelRepeat : Bool

/-- A call of `Tick` that has been made. -/
structure TickCall where
  timer : Timer
  added : List Timer
  cancelRepeat : Bool
deriving DecidableEq, Repr

/-- The manager and the rest of the process; `calls` is ours. -/
structure TimerManager (σ : Type) where
  timers : List Timer
  world : σ
  calls : List TickCall

section Manager

variable {σ : Type} (std : TimerSort) (tick : σ → Timer → Int → TickResult σ)

def addTimer (timers : List Timer) (t : Timer) : List Timer := std.sort (timers ++ [t])

/-- One turn of the loop of `TickTimers`: `t` was the first timer. -/
def tickFirst (time : Int) (t : Timer) (rest : List Timer) (s : TimerManager σ) :
    TimerManager σ :=
  let re := tick s.world t time
  -- the timer is out of the vector while it ticks
  let timers := re.added.foldl (addTimer std) rest
  let repeats := if re.cancelRepeat then false else t.repeats
  { timers :=
      if repeats then addTimer std timers { t with trigger := time + t.secs, repeats := repeats }
      else timers
    world := re.world
    calls := s.calls ++ [⟨t, re.added, re.cancelRepeat⟩] }

/-- `TickTimers`; `none` if the fuel does not last for the loop. -/
def tickTimers (time : Int) : Nat → TimerManager σ → Option (TimerManager σ)
  | 0, _ => none
  | fuel + 1, s =>
      match s.timers with
      | [] => some s
      | t :: rest =>
          if t.trigger < time then tickTimers time fuel (tickFirst std tick time t rest s)
          else some s

end Manager

end Hottpd
