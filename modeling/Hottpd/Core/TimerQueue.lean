import Hottpd.Core.Timer
import Hottpd.Lib.Runs

/-!
# The life of a timer

A timer is an object that a module makes and gives to `AddTimer`. From then on
it is the manager's: `TickTimers` puts it back or deletes it behind each `Tick`,
and `DelTimer` deletes it. What modules do with their timers, in a `Tick` or
anywhere else, comes step by step here.

A timer is known by its address, which no later object gets again. While it
ticks it is out of the vector. `freed` and `ticks` are ours.
-/

namespace Hottpd

structure TimerQueue where
  /-- `Timers`. -/
  timers : List Timer
  /-- The `TIME` that `TickTimers` runs with, if it does. -/
  loop : Option Int
  /-- The timer whose `Tick` runs. -/
  ticking : Option Timer
  /-- The timers deleted, in the order of the deletes. -/
  freed : List Nat
  /-- The calls of `Tick` that have been made, with their `TIME`. -/
  ticks : List (Timer × Int)
deriving DecidableEq

def TimerQueue.new : TimerQueue where
  timers := []
  loop := none
  ticking := none
  freed := []
  ticks := []

/-- The timers that have not been deleted, by their places. -/
def TimerQueue.held (q : TimerQueue) : List Timer := q.timers ++ q.ticking.toList

/-- Whether code that is not the manager's runs. -/
def TimerQueue.outside (q : TimerQueue) : Bool := q.loop.isNone || q.ticking.isSome

/-- `AddTimer`. An object that is held already is as it is. -/
def TimerQueue.add (std : TimerSort) (t : Timer) (q : TimerQueue) : TimerQueue :=
  { q with timers := addTimer std q.timers ((q.held.find? fun u => u.id = t.id).getD t) }

/-- `DelTimer`: only what is in the vector is found. -/
def TimerQueue.del (id : Nat) (q : TimerQueue) : TimerQueue :=
  if id ∈ q.timers.map Timer.id then
    { q with timers := q.timers.eraseP fun t => t.id = id, freed := q.freed ++ [id] }
  else q

/-- `Timer::CancelRepeat`. -/
def Timer.cancelRepeat (t : Timer) : Timer := { t with repeats := false }

def TimerQueue.cancelRepeat (id : Nat) (q : TimerQueue) : TimerQueue :=
  { q with
    timers := q.timers.map fun t => if t.id = id then t.cancelRepeat else t
    ticking := q.ticking.map fun t => if t.id = id then t.cancelRepeat else t }

/-- The condition of the loop of `TickTimers` and its body up to the call of `Tick`. -/
def TimerQueue.turn (time : Int) (q : TimerQueue) : TimerQueue :=
  match q.timers with
  | [] => { q with loop := none }
  | t :: rest =>
      if t.trigger < time then
        { q with timers := rest, ticking := some t, ticks := q.ticks ++ [(t, time)] }
      else { q with loop := none }

/-- The body of the loop behind the call of `Tick`. -/
def TimerQueue.ticked (std : TimerSort) (time : Int) (t : Timer) (q : TimerQueue) : TimerQueue :=
  if t.repeats then
    { q with timers := addTimer std q.timers { t with trigger := time + t.secs }, ticking := none }
  else { q with ticking := none, freed := q.freed ++ [t.id] }

/-- What happens to the timers. -/
inductive TimerEvent where
  | add (t : Timer)
  | del (id : Nat)
  | cancelRepeat (id : Nat)
  /-- `TickTimers` is called. -/
  | tickTimers (time : Int)
  /-- `TickTimers` goes on, up to a call of `Tick` or from there. -/
  | next
deriving DecidableEq

/-- `none` is what cannot happen here. -/
def TimerQueue.step (std : TimerSort) (q : TimerQueue) : TimerEvent → Option TimerQueue
  | .add t => if q.outside then some (q.add std t) else none
  | .del id => if q.outside then some (q.del id) else none
  | .cancelRepeat id => if q.outside then some (q.cancelRepeat id) else none
  | .tickTimers time => if q.loop.isNone then some { q with loop := some time } else none
  | .next =>
      match q.loop, q.ticking with
      | none, _ => none
      | some time, none => some (q.turn time)
      | some time, some t => some (q.ticked std time t)

/-- The queue behind these events. -/
def TimerQueue.run (std : TimerSort) (es : List TimerEvent) : Option TimerQueue :=
  Runs.run (TimerQueue.step std) TimerQueue.new es

end Hottpd
