import Hottpd.Core.TimerQueue
import Hottpd.Proofs.Timers
import Mathlib.Data.List.Nodup

/-!
# No timer is lost, none is deleted twice

The timers in the vector, the one that ticks and those deleted are kept as a
ledger: every step leaves it as it was, but for `AddTimer`, which enters a
timer. So a timer is in it as often as modules have given it to `AddTimer`, and
what modules do in a `Tick` (delete other timers, delete the timer that ticks,
cancel, add) cannot make the manager use a timer it has deleted, as long as no
timer is given to it twice.

A repeating timer is set to one interval from its `Tick`, and is due one second
after that: its calls are more than an interval apart.
-/

namespace Hottpd

open Runs

variable {std : TimerSort} {q q' : TimerQueue}

/-! ## Steps -/

/-- What a step does. -/
inductive QueueStep (std : TimerSort) (q : TimerQueue) : TimerEvent → TimerQueue → Prop
  | add {t : Timer} (hout : q.outside = true) : QueueStep std q (.add t) (q.add std t)
  | del {id : Nat} (hout : q.outside = true) : QueueStep std q (.del id) (q.del id)
  | cancelRepeat {id : Nat} (hout : q.outside = true) :
      QueueStep std q (.cancelRepeat id) (q.cancelRepeat id)
  | tickTimers {time : Int} (hloop : q.loop = none) :
      QueueStep std q (.tickTimers time) { q with loop := some time }
  /-- No timer is due, and `TickTimers` returns. -/
  | returns {time : Int} (hloop : q.loop = some time) (hticking : q.ticking = none)
      (hnone : ∀ t ∈ q.timers.head?, time ≤ t.trigger) :
      QueueStep std q .next { q with loop := none }
  | tick {time : Int} {t : Timer} {rest : List Timer} (hloop : q.loop = some time)
      (hticking : q.ticking = none) (htimers : q.timers = t :: rest) (hdue : t.trigger < time) :
      QueueStep std q .next
        { q with timers := rest, ticking := some t, ticks := q.ticks ++ [(t, time)] }
  | repeats {time : Int} {t : Timer} (hloop : q.loop = some time) (hticking : q.ticking = some t)
      (hrep : t.repeats = true) :
      QueueStep std q .next
        { q with
          timers := addTimer std q.timers { t with trigger := time + t.secs }
          ticking := none }
  | frees {time : Int} {t : Timer} (hloop : q.loop = some time) (hticking : q.ticking = some t)
      (hrep : t.repeats = false) :
      QueueStep std q .next { q with ticking := none, freed := q.freed ++ [t.id] }

theorem turn_tick {time : Int} {t : Timer} {rest : List Timer} (htimers : q.timers = t :: rest)
    (hdue : t.trigger < time) :
    q.turn time = { q with
      timers := rest, ticking := some t, ticks := q.ticks ++ [(t, time)] } := by
  rw [TimerQueue.turn, htimers]
  dsimp only
  rw [if_pos hdue]

theorem turn_returns {time : Int} (hnone : ∀ t ∈ q.timers.head?, time ≤ t.trigger) :
    q.turn time = { q with loop := none } := by
  rw [TimerQueue.turn]
  split
  · rfl
  · next t rest htimers =>
      have hlate : time ≤ t.trigger := hnone t (by rw [htimers]; rfl)
      rw [if_neg (by omega)]

theorem step_turn {time : Int} (hloop : q.loop = some time) (hticking : q.ticking = none) :
    q.step std .next = some (q.turn time) := by
  rw [TimerQueue.step, hloop, hticking]

theorem step_ticked {time : Int} {t : Timer} (hloop : q.loop = some time)
    (hticking : q.ticking = some t) : q.step std .next = some (q.ticked std time t) := by
  rw [TimerQueue.step, hloop, hticking]

theorem outside_ticking (h : q.ticking.isSome) : q.outside = true := by
  rw [TimerQueue.outside, h, Bool.or_true]

theorem queue_cases {e : TimerEvent} (h : q.step std e = some q') : QueueStep std q e q' := by
  cases e with
  | add t =>
      obtain ⟨hout, h⟩ := Option.ite_none_right_eq_some.1 h
      cases h
      exact .add hout
  | del id =>
      obtain ⟨hout, h⟩ := Option.ite_none_right_eq_some.1 h
      cases h
      exact .del hout
  | cancelRepeat id =>
      obtain ⟨hout, h⟩ := Option.ite_none_right_eq_some.1 h
      cases h
      exact .cancelRepeat hout
  | tickTimers time =>
      obtain ⟨hloop, h⟩ := Option.ite_none_right_eq_some.1 h
      cases h
      exact .tickTimers (Option.isNone_iff_eq_none.1 hloop)
  | next =>
      rw [TimerQueue.step] at h
      cases hloop : q.loop with
      | none =>
          rw [hloop] at h
          cases h
      | some time =>
          rw [hloop] at h
          cases hticking : q.ticking with
          | none =>
              rw [hticking] at h
              cases h
              by_cases hdue : ∃ t rest, q.timers = t :: rest ∧ t.trigger < time
              · obtain ⟨t, rest, htimers, hlt⟩ := hdue
                rw [turn_tick htimers hlt]
                exact .tick hloop hticking htimers hlt
              · have hnone : ∀ t ∈ q.timers.head?, time ≤ t.trigger := by
                  intro t ht
                  by_contra hlt
                  obtain ⟨rest, htimers⟩ := List.head?_eq_some_iff.1 ht
                  exact hdue ⟨t, rest, htimers, by omega⟩
                rw [turn_returns hnone]
                exact .returns hloop hticking hnone
          | some t =>
              rw [hticking] at h
              cases h
              by_cases hrep : t.repeats = true
              · rw [TimerQueue.ticked, if_pos hrep]
                exact .repeats hloop hticking hrep
              · rw [TimerQueue.ticked, if_neg hrep]
                exact .frees hloop hticking (Bool.eq_false_iff.2 hrep)

/-! ## The ledger -/

/-- The timers the manager has been given: those it holds and those it has deleted. -/
def TimerQueue.known (q : TimerQueue) : List Nat := q.held.map Timer.id ++ q.freed

/-- What an event gives to the manager. -/
def TimerEvent.given : TimerEvent → List Nat
  | .add t => [t.id]
  | .del _ | .cancelRepeat _ | .tickTimers _ | .next => []

/-- The object that `AddTimer` is called with. -/
theorem added_id (q : TimerQueue) (t : Timer) :
    ((q.held.find? fun u => u.id = t.id).getD t).id = t.id := by
  cases h : q.held.find? fun u => u.id = t.id with
  | none => rfl
  | some u =>
      have hid := List.find?_some h
      exact of_decide_eq_true hid

/-- `CancelRepeat` leaves an object's address. -/
theorem ids_cancelRepeat (id : Nat) (ts : List Timer) :
    (ts.map fun t => if t.id = id then t.cancelRepeat else t).map Timer.id = ts.map Timer.id := by
  rw [List.map_map]
  refine List.map_congr_left fun t _ => ?_
  rw [Function.comp_apply]
  split <;> rfl

theorem eraseP_ids {id : Nat} {ts : List Timer} (h : id ∈ ts.map Timer.id) :
    (ts.map Timer.id).Perm (id :: (ts.eraseP fun t => t.id = id).map Timer.id) := by
  induction ts with
  | nil => cases h
  | cons t ts ih =>
      by_cases ht : t.id = id
      · rw [List.eraseP_cons_of_pos (by simpa using ht), List.map_cons, ht]
      · rw [List.eraseP_cons_of_neg (by simpa using ht), List.map_cons, List.map_cons]
        have htail : id ∈ ts.map Timer.id := by
          rw [List.map_cons, List.mem_cons] at h
          exact h.resolve_left (Ne.symm ht)
        exact ((ih htail).cons t.id).trans (.swap _ _ _)

theorem known_add (std : TimerSort) (q : TimerQueue) (t : Timer) :
    (q.add std t).known.Perm (q.known ++ [t.id]) := by
  unfold TimerQueue.known TimerQueue.held TimerQueue.add
  dsimp only
  have hadd := (addTimer_perm std q.timers ((q.held.find? fun u => u.id = t.id).getD t)).map
    Timer.id
  rw [List.map_append, List.map_singleton, added_id] at hadd
  rw [List.map_append, List.map_append, List.append_assoc, List.append_assoc, List.append_assoc]
  refine (hadd.append_right _).trans ?_
  rw [List.append_assoc]
  refine List.Perm.append_left _ ?_
  refine List.perm_append_comm.trans ?_
  rw [List.append_assoc]

theorem known_del (id : Nat) (q : TimerQueue) : (q.del id).known.Perm q.known := by
  rw [TimerQueue.del]
  split
  · next hmem =>
      unfold TimerQueue.known TimerQueue.held
      dsimp only
      rw [List.map_append, List.map_append, List.append_assoc, List.append_assoc]
      refine .trans ?_ ((eraseP_ids hmem).symm.append_right _)
      rw [← List.append_assoc, ← List.append_assoc, List.append_assoc _ _ q.freed]
      exact List.perm_append_comm
  · exact .refl _

theorem known_cancelRepeat (id : Nat) (q : TimerQueue) : (q.cancelRepeat id).known = q.known := by
  unfold TimerQueue.known TimerQueue.held TimerQueue.cancelRepeat
  dsimp only
  rw [List.map_append, List.map_append, ids_cancelRepeat]
  cases q.ticking with
  | none => rfl
  | some t =>
      rw [Option.map_some, Option.toList_some, Option.toList_some, List.map_singleton,
        List.map_singleton]
      split <;> rfl

/-- The ledger is what it was and what has been given. -/
theorem known_step {e : TimerEvent} (h : q.step std e = some q') :
    q'.known.Perm (q.known ++ e.given) := by
  cases queue_cases h with
  | add _ => exact known_add _ q _
  | del _ =>
      rw [TimerEvent.given, List.append_nil]
      exact known_del _ q
  | cancelRepeat _ =>
      rw [TimerEvent.given, List.append_nil, known_cancelRepeat]
  | tickTimers _ | returns _ _ _ =>
      rw [TimerEvent.given, List.append_nil]
      exact .refl _
  | @tick time t rest hloop hticking htimers hdue =>
      rw [TimerEvent.given, List.append_nil]
      unfold TimerQueue.known TimerQueue.held
      rw [hticking, htimers]
      refine List.Perm.append_right _ (List.Perm.map _ ?_)
      rw [Option.toList_none, List.append_nil]
      exact List.perm_append_comm
  | @repeats time t hloop hticking hrep =>
      rw [TimerEvent.given, List.append_nil]
      unfold TimerQueue.known TimerQueue.held
      rw [hticking, Option.toList_none, Option.toList_some, List.append_nil]
      refine List.Perm.append_right _ ?_
      have hadd := (addTimer_perm std q.timers { t with trigger := time + t.secs }).map Timer.id
      rw [List.map_append, List.map_singleton] at hadd
      rw [List.map_append, List.map_singleton]
      exact hadd
  | @frees time t hloop hticking hrep =>
      rw [TimerEvent.given, List.append_nil]
      unfold TimerQueue.known TimerQueue.held
      rw [hticking, Option.toList_none, Option.toList_some, List.append_nil, List.map_append,
        List.append_assoc]
      exact List.Perm.append_left _ List.perm_append_comm

theorem known_run {es : List TimerEvent} (h : Runs.run (TimerQueue.step std) q es = some q') :
    q'.known.Perm (q.known ++ es.flatMap TimerEvent.given) :=
  run_ledger h known_step

/-! ## What has been deleted is not used again -/

/-- No timer is given to `AddTimer` twice. -/
def GivenOnce (es : List TimerEvent) : Prop := (es.flatMap TimerEvent.given).Nodup

theorem GivenOnce.past {es es' : List TimerEvent} (h : GivenOnce (es ++ es')) : GivenOnce es := by
  unfold GivenOnce at h ⊢
  rw [List.flatMap_append] at h
  exact h.of_append_left

/-- How often `Tick` has been called for a timer. -/
def TimerQueue.tickCount (id : Nat) (q : TimerQueue) : Nat :=
  q.ticks.countP fun a => a.1.id = id

theorem freed_step {e : TimerEvent} (h : q.step std e = some q') : q.freed <+: q'.freed := by
  cases queue_cases h with
  | @del id _ =>
      rw [TimerQueue.del]
      split
      · exact List.prefix_append _ _
      · exact List.prefix_refl _
  | frees _ _ _ => exact List.prefix_append _ _
  | add _ | cancelRepeat _ | tickTimers _ | returns _ _ _ | tick _ _ _ _ | repeats _ _ _ =>
      exact List.prefix_refl _

theorem tickCount_step {e : TimerEvent} {id : Nat} (h : q.step std e = some q')
    (honce : q.known.Nodup) (hfreed : id ∈ q.freed) : q'.tickCount id = q.tickCount id := by
  cases queue_cases h with
  | @tick time t rest _ _ htimers _ =>
      have hne : t.id ≠ id := by
        rintro rfl
        have hheld : t.id ∈ q.held.map Timer.id :=
          List.mem_map_of_mem (List.mem_append_left _ (by rw [htimers]; exact List.mem_cons_self))
        exact (List.nodup_append.1 honce).2.2 _ hheld _ hfreed rfl
      show (q.ticks ++ [(t, time)]).countP _ = _
      rw [List.countP_append, List.countP_singleton, if_neg (by simpa using hne)]
      rfl
  | @del id' _ =>
      rw [TimerQueue.del]
      split <;> rfl
  | add _ | cancelRepeat _ | tickTimers _ | returns _ _ _ | repeats _ _ _ | frees _ _ _ => rfl

/-- From where a timer has been deleted. -/
theorem freed_run {es : List TimerEvent} {id : Nat}
    (h : Runs.run (TimerQueue.step std) q es = some q')
    (honce : (q.known ++ es.flatMap TimerEvent.given).Nodup) (hfreed : id ∈ q.freed) :
    id ∈ q'.freed ∧ q'.tickCount id = q.tickCount id := by
  have hkept : q'.known.Perm (q.known ++ es.flatMap TimerEvent.given) ∧ id ∈ q'.freed ∧
      ((q.known ++ es.flatMap TimerEvent.given).Nodup → q'.tickCount id = q.tickCount id) := by
    refine history_invariant (I := fun past s =>
      s.known.Perm (q.known ++ past.flatMap TimerEvent.given) ∧ id ∈ s.freed ∧
        ((q.known ++ past.flatMap TimerEvent.given).Nodup → s.tickCount id = q.tickCount id))
      h ⟨?_, hfreed, fun _ => rfl⟩ ?_
    · rw [List.flatMap_nil, List.append_nil]
    · intro past s e s' ⟨hknown, hid, hcount⟩ hstep
      rw [List.flatMap_append, List.flatMap_singleton, ← List.append_assoc]
      refine ⟨(known_step hstep).trans (hknown.append_right _), (freed_step hstep).subset hid, ?_⟩
      intro honce
      have hbefore := honce.of_append_left
      rw [tickCount_step hstep (hknown.nodup_iff.2 hbefore) hid]
      exact hcount hbefore
  exact ⟨hkept.2.1, hkept.2.2 honce⟩

/-- Whatever modules do, the timers in the vector, the one that ticks and those deleted are those
that modules have added, as often as they have added them. So where none is added twice, none is
in the vector twice, none is deleted twice, and one that has been deleted is not in the vector,
does not tick, and does not tick again. -/
theorem timers_conserved (std : TimerSort) (es later : List TimerEvent) (q q' : TimerQueue)
    (h : TimerQueue.run std es = some q)
    (h' : Runs.run (TimerQueue.step std) q later = some q') :
    (q.held.map Timer.id ++ q.freed).Perm (es.flatMap TimerEvent.given) ∧
      (GivenOnce (es ++ later) → (q.held.map Timer.id ++ q.freed).Nodup ∧
        ∀ id ∈ q.freed, q'.tickCount id = q.tickCount id ∧ id ∉ q'.held.map Timer.id) := by
  have hknown : q.known.Perm (es.flatMap TimerEvent.given) := known_run h
  refine ⟨hknown, fun honce => ⟨hknown.nodup_iff.2 honce.past, fun id hid => ?_⟩⟩
  have hall : (q.known ++ later.flatMap TimerEvent.given).Nodup := by
    rw [GivenOnce, List.flatMap_append] at honce
    exact (hknown.append_right _).nodup_iff.2 honce
  obtain ⟨hfreed, hcount⟩ := freed_run h' hall hid
  have hnodup : q'.known.Nodup := (known_run h').nodup_iff.2 hall
  exact ⟨hcount, fun hheld => (List.nodup_append.1 hnodup).2.2 _ hheld _ hfreed rfl⟩

/-- In its first tick timer 1 deletes itself, which does nothing, and timer 2; in its second it
cancels. -/
def selfDeleting : List TimerEvent :=
  [.add ⟨1, 10, 5, true⟩, .add ⟨2, 12, 5, true⟩, .tickTimers 11, .next, .del 1, .del 2, .next,
    .next]

def selfCancelling : List TimerEvent := [.tickTimers 17, .next, .cancelRepeat 1, .next, .next]

theorem timers_conserved_selfDeleting :
    ∃ q q', TimerQueue.run insertionStd selfDeleting = some q ∧
      Runs.run (TimerQueue.step insertionStd) q selfCancelling = some q' ∧
      q.timers = [⟨1, 16, 5, true⟩] ∧ q.freed = [2] ∧ q'.freed = [2, 1] ∧
      q'.tickCount 2 = q.tickCount 2 := by
  have hgiven : GivenOnce (selfDeleting ++ selfCancelling) := by
    rw [GivenOnce]
    decide
  have h := timers_conserved insertionStd selfDeleting selfCancelling _ _ rfl rfl
  exact ⟨_, _, rfl, rfl, rfl, rfl, rfl, ((h.2 hgiven).2 2 (by decide)).1⟩

/-! ## How far the ticks are apart -/

/-- Two calls of `Tick` for one timer are more than its interval apart. -/
abbrev TicksApart (ticks : List (Timer × Int)) : Prop :=
  ticks.Pairwise fun a b => a.1.id = b.1.id → a.2 + a.1.secs < b.2

structure Spaced (q : TimerQueue) : Prop where
  apart : TicksApart q.ticks
  early : ∀ a ∈ q.ticks, a.1.trigger < a.2
  ahead : ∀ a ∈ q.ticks, ∀ t ∈ q.timers, a.1.id = t.id → a.2 + a.1.secs ≤ t.trigger
  same : ∀ a ∈ q.ticks, ∀ t ∈ q.held, a.1.id = t.id → a.1.secs = t.secs
  known : ∀ a ∈ q.ticks, a.1.id ∈ q.known
  secs : ∀ t ∈ q.held, 0 ≤ t.secs
  /-- The timer that ticks is the one of the last call. -/
  last : ∀ t, q.ticking = some t → ∃ time before u, q.loop = some time ∧
    q.ticks = before ++ [(u, time)] ∧ u.id = t.id

theorem Spaced.new : Spaced TimerQueue.new := by
  constructor <;> simp [TimerQueue.new, TimerQueue.held]

/-- Behind a step that makes no call of `Tick`, and puts or leaves in the vector only what is far
enough from the calls made. -/
theorem Spaced.kept (h : Spaced q) (hticks : q'.ticks = q.ticks)
    (hahead : ∀ a ∈ q.ticks, ∀ t ∈ q'.timers, a.1.id = t.id → a.2 + a.1.secs ≤ t.trigger)
    (hheld : ∀ t ∈ q'.held, (∃ u ∈ q.held, u.id = t.id ∧ u.secs = t.secs) ∨
      (t.id ∉ q.known ∧ 0 ≤ t.secs))
    (hknown : ∀ id ∈ q.known, id ∈ q'.known)
    (hlast : ∀ t, q'.ticking = some t → ∃ time before u, q'.loop = some time ∧
      q.ticks = before ++ [(u, time)] ∧ u.id = t.id) : Spaced q' := by
  refine ⟨?_, ?_, ?_, ?_, ?_, ?_, ?_⟩
  · rw [hticks]
    exact h.apart
  · rw [hticks]
    exact h.early
  · rw [hticks]
    exact hahead
  · rw [hticks]
    intro a ha t ht hid
    rcases hheld t ht with ⟨u, hu, huid, husecs⟩ | ⟨hnew, -⟩
    · rw [← husecs]
      exact h.same a ha u hu (hid.trans huid.symm)
    · exact absurd (hid ▸ h.known a ha) hnew
  · rw [hticks]
    exact fun a ha => hknown _ (h.known a ha)
  · intro t ht
    rcases hheld t ht with ⟨u, hu, -, husecs⟩ | ⟨-, hsecs⟩
    · rw [← husecs]
      exact h.secs u hu
    · exact hsecs
  · rw [hticks]
    exact hlast

theorem Spaced.add (h : Spaced q) {t : Timer} (hnew : t.id ∉ q.known) (hsecs : 0 ≤ t.secs) :
    Spaced (q.add std t) := by
  have hobject : (q.held.find? fun u => u.id = t.id) = none := by
    rw [List.find?_eq_none]
    intro u hu hid
    refine hnew (List.mem_append_left _ ?_)
    rw [← of_decide_eq_true hid]
    exact List.mem_map_of_mem hu
  have hmem : ∀ u ∈ (q.add std t).timers, u ∈ q.timers ∨ u = t := by
    intro u hu
    rw [TimerQueue.add, hobject] at hu
    simpa using (addTimer_perm std q.timers t).mem_iff.1 hu
  refine h.kept rfl ?_ ?_ ?_ h.last
  · intro a ha u hu hid
    rcases hmem u hu with hu | rfl
    · exact h.ahead a ha u hu hid
    · exact absurd (hid ▸ h.known a ha) hnew
  · intro u hu
    rcases List.mem_append.1 hu with hu | hu
    · rcases hmem u hu with hu | rfl
      · exact Or.inl ⟨u, List.mem_append_left _ hu, rfl, rfl⟩
      · exact Or.inr ⟨hnew, hsecs⟩
    · exact Or.inl ⟨u, List.mem_append_right _ hu, rfl, rfl⟩
  · intro id hid
    exact (known_add _ q t).mem_iff.2 (List.mem_append_left _ hid)

theorem Spaced.del (h : Spaced q) (id : Nat) : Spaced (q.del id) := by
  have hmem : ∀ u ∈ (q.del id).timers, u ∈ q.timers := by
    intro u hu
    rw [TimerQueue.del] at hu
    split at hu
    · exact List.mem_of_mem_eraseP hu
    · exact hu
  have hsame : (q.del id).ticks = q.ticks ∧ (q.del id).ticking = q.ticking ∧
      (q.del id).loop = q.loop := by
    rw [TimerQueue.del]
    split <;> exact ⟨rfl, rfl, rfl⟩
  refine h.kept hsame.1 ?_ ?_ (fun i hi => (known_del id q).mem_iff.2 hi) ?_
  · exact fun a ha u hu => h.ahead a ha u (hmem u hu)
  · intro u hu
    rcases List.mem_append.1 hu with hu | hu
    · exact Or.inl ⟨u, List.mem_append_left _ (hmem u hu), rfl, rfl⟩
    · rw [hsame.2.1] at hu
      exact Or.inl ⟨u, List.mem_append_right _ hu, rfl, rfl⟩
  · rw [hsame.2.1, hsame.2.2]
    exact h.last

theorem cancelled_eq (id : Nat) (t : Timer) :
    (if t.id = id then t.cancelRepeat else t).id = t.id ∧
      (if t.id = id then t.cancelRepeat else t).secs = t.secs ∧
      (if t.id = id then t.cancelRepeat else t).trigger = t.trigger := by
  split <;> exact ⟨rfl, rfl, rfl⟩

theorem Spaced.cancelRepeat (h : Spaced q) (id : Nat) : Spaced (q.cancelRepeat id) := by
  refine h.kept rfl ?_ ?_ (fun i hi => by rwa [known_cancelRepeat]) ?_
  · intro a ha u hu hid
    obtain ⟨t, ht, rfl⟩ := List.mem_map.1 hu
    obtain ⟨hid', -, htrigger⟩ := cancelled_eq id t
    rw [htrigger]
    exact h.ahead a ha t ht (hid.trans hid')
  · intro u hu
    rcases List.mem_append.1 hu with hu | hu
    · obtain ⟨t, ht, rfl⟩ := List.mem_map.1 hu
      obtain ⟨hid', hsecs', -⟩ := cancelled_eq id t
      exact Or.inl ⟨t, List.mem_append_left _ ht, hid'.symm, hsecs'.symm⟩
    · obtain ⟨t, ht, rfl⟩ := Option.map_eq_some_iff.1 (Option.mem_toList.1 hu)
      obtain ⟨hid', hsecs', -⟩ := cancelled_eq id t
      exact Or.inl ⟨t, List.mem_append_right _ (by rw [ht]; simp), hid'.symm, hsecs'.symm⟩
  · intro u hu
    obtain ⟨t, ht, rfl⟩ := Option.map_eq_some_iff.1 hu
    rw [(cancelled_eq id t).1]
    exact h.last t ht

/-- The timer taken out has waited for its trigger, which is one interval from its last call. -/
theorem Spaced.tick (h : Spaced q) {time : Int} {t : Timer} {rest : List Timer}
    (honce : q.known.Nodup) (hloop : q.loop = some time) (hticking : q.ticking = none)
    (htimers : q.timers = t :: rest) (hdue : t.trigger < time) :
    Spaced { q with timers := rest, ticking := some t, ticks := q.ticks ++ [(t, time)] } := by
  have ht : t ∈ q.timers := by
    rw [htimers]
    exact List.mem_cons_self
  have hsub : ∀ u ∈ rest, u ∈ q.timers := by
    rw [htimers]
    exact fun u hu => List.mem_cons_of_mem t hu
  have hheld : ∀ u ∈ rest ++ [t], u ∈ q.held := by
    intro u hu
    rcases List.mem_append.1 hu with hu | hu
    · exact List.mem_append_left _ (hsub u hu)
    · rw [List.mem_singleton.1 hu]
      exact List.mem_append_left _ ht
  -- the objects in the vector are different ones
  have hother : ∀ u ∈ rest, t.id ≠ u.id := by
    intro u hu heq
    unfold TimerQueue.known TimerQueue.held at honce
    rw [htimers, List.cons_append, List.map_cons, List.cons_append, List.nodup_cons] at honce
    refine honce.1 (List.mem_append_left _ ?_)
    rw [heq]
    exact List.mem_map_of_mem (List.mem_append_left _ hu)
  refine ⟨?_, ?_, ?_, ?_, ?_, ?_, ?_⟩
  · refine List.pairwise_append.2 ⟨h.apart, List.pairwise_singleton _ _, ?_⟩
    intro a ha b hb hid
    rw [List.mem_singleton.1 hb] at hid ⊢
    have hahead := h.ahead a ha t ht hid
    show a.2 + a.1.secs < time
    omega
  · intro a ha
    rcases List.mem_append.1 ha with ha | ha
    · exact h.early a ha
    · rw [List.mem_singleton.1 ha]
      exact hdue
  · intro a ha u hu hid
    rcases List.mem_append.1 ha with ha | ha
    · exact h.ahead a ha u (hsub u hu) hid
    · rw [List.mem_singleton.1 ha] at hid
      exact absurd hid (hother u hu)
  · intro a ha u hu hid
    rcases List.mem_append.1 ha with ha | ha
    · exact h.same a ha u (hheld u hu) hid
    · rw [List.mem_singleton.1 ha] at hid ⊢
      rcases List.mem_append.1 hu with hu | hu
      · exact absurd hid (hother u hu)
      · rw [List.mem_singleton.1 hu]
  · have hperm : ({ q with
        timers := rest
        ticking := some t
        ticks := q.ticks ++ [(t, time)] } : TimerQueue).known.Perm q.known := by
      unfold TimerQueue.known TimerQueue.held
      rw [hticking, htimers]
      refine List.Perm.append_right _ (List.Perm.map _ ?_)
      rw [Option.toList_none, List.append_nil]
      exact List.perm_append_comm
    intro a ha
    refine hperm.mem_iff.2 ?_
    rcases List.mem_append.1 ha with ha | ha
    · exact h.known a ha
    · rw [List.mem_singleton.1 ha]
      exact List.mem_append_left _ (List.mem_map_of_mem (List.mem_append_left _ ht))
  · exact fun u hu => h.secs u (hheld u hu)
  · intro u hu
    cases hu
    exact ⟨time, q.ticks, t, hloop, rfl, rfl⟩

theorem Spaced.step (h : Spaced q) {e : TimerEvent} (hstep : q.step std e = some q')
    (honce : q'.known.Nodup) (hsecs : ∀ t, e = .add t → 0 ≤ t.secs) : Spaced q' := by
  have hbefore : (q.known ++ e.given).Nodup := (known_step hstep).nodup_iff.1 honce
  have hknown : ∀ id ∈ q.known, id ∈ q'.known := fun id hid =>
    (known_step hstep).mem_iff.2 (List.mem_append_left _ hid)
  cases queue_cases hstep with
  | @add t _ =>
      refine h.add ?_ (hsecs t rfl)
      exact fun hid => (List.nodup_append.1 hbefore).2.2 _ hid _ (List.mem_singleton_self _) rfl
  | del _ => exact h.del _
  | cancelRepeat _ => exact h.cancelRepeat _
  | tickTimers hloop =>
      refine h.kept rfl h.ahead (fun t ht => Or.inl ⟨t, ht, rfl, rfl⟩) hknown fun t ht => ?_
      obtain ⟨time, -, -, htime, -⟩ := h.last t ht
      rw [hloop] at htime
      cases htime
  | returns _ hticking _ =>
      refine h.kept rfl h.ahead (fun t ht => Or.inl ⟨t, ht, rfl, rfl⟩) hknown fun t ht => ?_
      rw [hticking] at ht
      cases ht
  | tick hloop hticking htimers hdue =>
      exact h.tick hbefore.of_append_left hloop hticking htimers hdue
  | @repeats time t hloop hticking hrep =>
      have ht : t ∈ q.held := List.mem_append_right _ (by rw [hticking]; simp)
      have hmem : ∀ u ∈ addTimer std q.timers { t with trigger := time + t.secs },
          u ∈ q.timers ∨ u = { t with trigger := time + t.secs } := fun u hu => by
        simpa using (addTimer_perm std _ _).mem_iff.1 hu
      obtain ⟨time', before, u, hloop', hticks, hu⟩ := h.last t hticking
      rw [hloop, Option.some.injEq] at hloop'
      subst hloop'
      refine h.kept rfl ?_ ?_ hknown (fun t ht => by cases ht)
      · intro a ha v hv hid
        rcases hmem v hv with hv | rfl
        · exact h.ahead a ha v hv hid
        · have hsame := h.same a ha t ht hid
          have hpos := h.secs t ht
          show a.2 + a.1.secs ≤ time + t.secs
          rw [hticks] at ha
          rcases List.mem_append.1 ha with ha | ha
          · -- an earlier call, which is an interval from the last one
            have hapart := h.apart
            rw [hticks] at hapart
            have hlt := (List.pairwise_append.1 hapart).2.2 a ha (u, time)
              (List.mem_singleton_self _) (hid.trans hu.symm)
            have hlt' : a.2 + a.1.secs < time := hlt
            omega
          · rw [List.mem_singleton.1 ha] at hsame ⊢
            show time + u.secs ≤ time + t.secs
            rw [hsame]
      · intro v hv
        rw [TimerQueue.held, Option.toList_none, List.append_nil] at hv
        rcases hmem v hv with hv | rfl
        · exact Or.inl ⟨v, List.mem_append_left _ hv, rfl, rfl⟩
        · exact Or.inl ⟨t, ht, rfl, rfl⟩
  | frees hloop hticking hrep =>
      refine h.kept rfl h.ahead (fun v hv => ?_) hknown (fun t ht => by cases ht)
      rw [TimerQueue.held, Option.toList_none, List.append_nil] at hv
      exact Or.inl ⟨v, List.mem_append_left _ hv, rfl, rfl⟩

theorem spaced_run {es : List TimerEvent} (h : TimerQueue.run std es = some q)
    (honce : GivenOnce es) (hsecs : ∀ t, .add t ∈ es → 0 ≤ t.secs) : Spaced q := by
  refine (history_invariant (I := fun past s => s.known.Perm (past.flatMap TimerEvent.given) ∧
    (GivenOnce past → (∀ t, .add t ∈ past → 0 ≤ t.secs) → Spaced s)) h ⟨.refl _, fun _ _ => .new⟩
    ?_).2 honce hsecs
  intro past s e s' ⟨hknown, hspaced⟩ hstep
  have hknown' : s'.known.Perm ((past ++ [e]).flatMap TimerEvent.given) := by
    rw [List.flatMap_append, List.flatMap_singleton]
    exact (known_step hstep).trans (hknown.append_right _)
  refine ⟨hknown', fun honce hsecs => ?_⟩
  have hbefore := hspaced honce.past fun t ht => hsecs t (List.mem_append_left _ ht)
  refine hbefore.step hstep (hknown'.nodup_iff.2 honce) fun t ht => hsecs t ?_
  rw [ht]
  exact List.mem_append_right _ (List.mem_singleton_self _)

/-! ## The loop over ticks that are functions -/

section Loop

variable {σ : Type} {tick : σ → Timer → Int → TickResult σ} {time : Int}

theorem add_new {t : Timer} (hnew : t.id ∉ q.known) :
    q.add std t = { q with timers := addTimer std q.timers t } := by
  have hobject : (q.held.find? fun u => u.id = t.id) = none := by
    rw [List.find?_eq_none]
    intro u hu hid
    refine hnew (List.mem_append_left _ ?_)
    rw [← of_decide_eq_true hid]
    exact List.mem_map_of_mem hu
  rw [TimerQueue.add, hobject]
  rfl

theorem adds_run (std : TimerSort) (added : List Timer) : ∀ {q : TimerQueue}, q.ticking.isSome →
    (q.known ++ added.map Timer.id).Nodup →
    Runs.run (TimerQueue.step std) q (added.map .add)
      = some { q with timers := added.foldl (addTimer std) q.timers } := by
  induction added with
  | nil => exact fun _ _ => rfl
  | cons t added ih =>
      intro q hticking hnodup
      have hnew : t.id ∉ q.known := fun hid =>
        (List.nodup_append.1 hnodup).2.2 _ hid _ List.mem_cons_self rfl
      have hstep : q.step std (.add t) = some { q with timers := addTimer std q.timers t } := by
        rw [TimerQueue.step, if_pos (outside_ticking hticking), add_new hnew]
      rw [List.map_cons, Runs.run, List.foldlM_cons, hstep]
      refine ih (q := { q with timers := addTimer std q.timers t }) hticking ?_
      have hperm := known_add std q t
      rw [add_new hnew] at hperm
      refine (hperm.append_right _).nodup_iff.2 ?_
      rw [List.append_assoc]
      exact hnodup

/-- What a call of `Tick` is step by step. -/
def TickCall.events (c : TickCall) : List TimerEvent :=
  .next :: (c.added.map .add ++ if c.cancelRepeat then [.cancelRepeat c.timer.id] else [])
    ++ [.next]

theorem cancelRepeat_other {id : Nat} {ts : List Timer} (h : id ∉ ts.map Timer.id) :
    (ts.map fun t => if t.id = id then t.cancelRepeat else t) = ts := by
  refine (List.map_congr_left fun t ht => ?_).trans (List.map_id' ts)
  have hne : t.id ≠ id := by
    rintro rfl
    exact h (List.mem_map_of_mem ht)
  rw [if_neg hne]

theorem given_adds (added : List Timer) :
    (added.map TimerEvent.add).flatMap TimerEvent.given = added.map Timer.id := by
  induction added with
  | nil => rfl
  | cons t added ih => rw [List.map_cons, List.flatMap_cons, ih, List.map_cons]; rfl

theorem tickFirst_run (std : TimerSort) {t : Timer} {rest : List Timer} {s : TimerManager σ}
    (hloop : q.loop = some time) (hticking : q.ticking = none) (htimers : q.timers = t :: rest)
    (hdue : t.trigger < time)
    (hnew : (q.known ++ (tickCall tick time t s.world).added.map Timer.id).Nodup) :
    ∃ q', Runs.run (TimerQueue.step std) q (tickCall tick time t s.world).events = some q' ∧
      q'.timers = (tickFirst std tick time t rest s).timers ∧ q'.loop = some time ∧
      q'.ticking = none ∧ q'.ticks = q.ticks ++ [(t, time)] ∧
      q'.known.Perm (q.known ++ (tickCall tick time t s.world).added.map Timer.id) := by
  generalize hcall : tickCall tick time t s.world = c at hnew ⊢
  have hadded : (tick s.world t time).added = c.added := by rw [← hcall]; rfl
  have hcancel : (tick s.world t time).cancelRepeat = c.cancelRepeat := by rw [← hcall]; rfl
  have htimer : c.timer = t := by rw [← hcall]; rfl
  let taken : TimerQueue :=
    { q with timers := rest, ticking := some t, ticks := q.ticks ++ [(t, time)] }
  have hstep : q.step std .next = some taken := by
    rw [step_turn hloop hticking, turn_tick htimers hdue]
  have htaken : taken.known.Perm q.known := by
    have hknown := known_step hstep
    rwa [TimerEvent.given, List.append_nil] at hknown
  have hnodup := (htaken.append_right (c.added.map Timer.id)).nodup_iff.2 hnew
  have hadds := adds_run std c.added (q := taken) rfl hnodup
  -- behind the adds, where only the timer itself has its address
  let timers := c.added.foldl (addTimer std) rest
  have hknown : ({ taken with timers := timers } : TimerQueue).known.Perm
      (q.known ++ c.added.map Timer.id) := by
    have hrun := known_run hadds
    rw [given_adds] at hrun
    exact hrun.trans (htaken.append_right _)
  have hself : t.id ∉ timers.map Timer.id := by
    have hall := hknown.nodup_iff.2 hnew
    unfold TimerQueue.known TimerQueue.held at hall
    rw [Option.toList_some, List.map_append] at hall
    exact fun hid => (List.nodup_append.1 hall.of_append_left).2.2 _ hid t.id (by simp) rfl
  have hrun : Runs.run (TimerQueue.step std) q
      (.next :: (c.added.map .add ++ if c.cancelRepeat then [.cancelRepeat c.timer.id] else []))
      = some { taken with
          timers := timers
          ticking := some (if c.cancelRepeat then t.cancelRepeat else t) } := by
    rw [Runs.run, List.foldlM_cons, hstep, Option.bind_eq_bind, Option.bind_some]
    refine run_append.trans ?_
    rw [hadds, Option.bind_some, htimer]
    cases c.cancelRepeat with
    | false => rfl
    | true =>
        rw [if_pos rfl, if_pos rfl, run_singleton, TimerQueue.step, if_pos (outside_ticking rfl),
          TimerQueue.cancelRepeat]
        dsimp only
        rw [cancelRepeat_other hself]
        show some _ = some _
        rw [Option.map_some, if_pos rfl]
  generalize hu : (if c.cancelRepeat then t.cancelRepeat else t) = u at hrun
  have hlast : TimerQueue.step std { taken with timers := timers, ticking := some u } .next
      = some (({ taken with
          timers := timers
          ticking := some u } : TimerQueue).ticked std time u) :=
    step_ticked hloop rfl
  have hwhole : Runs.run (TimerQueue.step std) q c.events
      = some (({ taken with timers := timers, ticking := some u } : TimerQueue).ticked std time u)
      := by
    rw [TickCall.events, run_concat, hrun, Option.bind_some, hlast]
  have hgiven : c.events.flatMap TimerEvent.given = c.added.map Timer.id := by
    rw [TickCall.events, List.flatMap_append, List.flatMap_cons, List.flatMap_append, given_adds]
    cases c.cancelRepeat <;> simp [TimerEvent.given]
  have hend := known_run hwhole
  rw [hgiven] at hend
  have hfirst : (tickFirst std tick time t rest s).timers
      = if (if c.cancelRepeat then false else t.repeats) = true
        then addTimer std timers { t with
          trigger := time + t.secs
          repeats := if c.cancelRepeat then false else t.repeats }
        else timers := by
    rw [tickFirst, hadded, hcancel]
  refine ⟨_, hwhole, ?_, ?_, ?_, ?_, hend⟩
  · rw [hfirst, ← hu]
    cases c.cancelRepeat with
    | true => rfl
    | false =>
        show (TimerQueue.ticked std time t _).timers = if t.repeats = true then _ else _
        rw [TimerQueue.ticked]
        split <;> rfl
  all_goals
    rw [TimerQueue.ticked]
    split
    · first | exact hloop | rfl
    · first | exact hloop | rfl

theorem tickTimers_calls (fuel : Nat) : ∀ {s s' : TimerManager σ},
    tickTimers std tick time fuel s = some s' → s.calls <+: s'.calls := by
  induction fuel with
  | zero => intro s s' h; cases h
  | succ fuel ih =>
      intro s s' h
      rw [tickTimers] at h
      split at h
      · cases h
        exact List.prefix_refl _
      · split at h
        · exact (List.prefix_append _ _).trans (ih h)
        · cases h
          exact List.prefix_refl _

/-- `TickTimers` over ticks that are functions is a run of the steps, unless a tick adds a timer
that has been added before. -/
theorem tickTimers_run (fuel : Nat) : ∀ {q : TimerQueue} {s s' : TimerManager σ}
    {calls : List TickCall}, q.loop = some time → q.ticking = none → q.timers = s.timers →
    tickTimers std tick time fuel s = some s' → s'.calls = s.calls ++ calls →
    (q.known ++ calls.flatMap fun c => c.added.map Timer.id).Nodup →
    ∃ q', Runs.run (TimerQueue.step std) q (calls.flatMap TickCall.events ++ [TimerEvent.next])
        = some q' ∧
      q'.timers = s'.timers ∧ q'.loop = none ∧ q'.ticking = none ∧
      q'.ticks = q.ticks ++ calls.map fun c => (c.timer, time) := by
  induction fuel with
  | zero => intro q s s' calls _ _ _ h; cases h
  | succ fuel ih =>
      intro q s s' calls hloop hticking htimers h hcalls hnodup
      by_cases hdue : ∃ t rest, s.timers = t :: rest ∧ t.trigger < time
      · obtain ⟨t, rest, hs, hlt⟩ := hdue
        rw [tickTimers, hs] at h
        dsimp only at h
        rw [if_pos hlt] at h
        -- the call that this turn makes is the first of them
        obtain ⟨calls', hcalls'⟩ := tickTimers_calls fuel h
        rw [tickFirst_calls, hcalls, List.append_assoc] at hcalls'
        obtain rfl : [tickCall tick time t s.world] ++ calls' = calls :=
          List.append_cancel_left hcalls'
        rw [List.flatMap_append, List.flatMap_singleton, ← List.append_assoc] at hnodup
        obtain ⟨q₁, hrun₁, htimers₁, hloop₁, hticking₁, hticks₁, hknown₁⟩ :=
          tickFirst_run std (s := s) hloop hticking (htimers.trans hs) hlt
            hnodup.of_append_left
        obtain ⟨q', hrun', htimers', hloop', hticking', hticks'⟩ :=
          ih hloop₁ hticking₁ htimers₁ h (by rw [hcalls, tickFirst_calls, List.append_assoc])
            ((hknown₁.append_right _).nodup_iff.2 hnodup)
        refine ⟨q', ?_, htimers', hloop', hticking', ?_⟩
        · rw [List.flatMap_append, List.flatMap_singleton, List.append_assoc, run_append, hrun₁,
            Option.bind_some, hrun']
        · rw [hticks', hticks₁, List.append_assoc, List.map_append]
          rfl
      · have hnone : ∀ t ∈ s.timers.head?, time ≤ t.trigger := by
          intro t ht
          by_contra hlt
          obtain ⟨rest, hs⟩ := List.head?_eq_some_iff.1 ht
          exact hdue ⟨t, rest, hs, by omega⟩
        have hsame : s' = s := by
          rw [tickTimers] at h
          split at h
          · cases h
            rfl
          · next t rest hs =>
              have hlate : time ≤ t.trigger := hnone t (by rw [hs]; rfl)
              rw [if_neg (by omega)] at h
              cases h
              rfl
        subst hsame
        obtain rfl : calls = [] := List.self_eq_append_right.1 hcalls
        refine ⟨{ q with loop := none }, ?_, htimers, rfl, hticking, (List.append_nil _).symm⟩
        rw [← htimers] at hnone
        rw [List.flatMap_nil, List.nil_append, run_singleton, step_turn hloop hticking,
          turn_returns hnone]

end Loop

end Hottpd
