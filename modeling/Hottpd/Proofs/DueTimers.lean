import Hottpd.Proofs.Signals

/-!
# No timer is due when the loop waits

`Run` calls `TickTimers` only in a turn that comes in another second than the
last. It misses nothing by that: in the same second the timers in the vector are
those that were not due then, those put back, and those added since, whose
trigger is not before `TIME`. The front of the vector speaks for all of it,
since every `AddTimer` sorts.

The timers take only steps of their own here, so what holds of every run of the
queue holds of them.
-/

namespace Hottpd

open Runs

variable {cfg : RunConfig} {std : TimerSort} {p p' : Process} {q q' : TimerQueue}

/-! ## The queue keeps its order -/

theorem queued_step {e : TimerEvent} (h : Queued q.timers) (hstep : q.step std e = some q') :
    Queued q'.timers := by
  cases queue_cases hstep with
  | add _ | repeats _ _ _ => exact addTimer_queued _ _
  | del _ =>
      rw [TimerQueue.del]
      split
      · exact h.sublist (List.eraseP_sublist)
      · exact h
  | @cancelRepeat id _ =>
      refine List.pairwise_map.2 (h.imp fun {a b} hab => ?_)
      rw [(cancelled_eq id a).2.2, (cancelled_eq id b).2.2]
      exact hab
  | tickTimers _ | returns _ _ _ | frees _ _ _ => exact h
  | tick _ _ htimers _ =>
      rw [htimers] at h
      exact (List.pairwise_cons.1 h).2

/-- If the first timer is not due, none is. -/
theorem Queued.late {timers : List Timer} {time : Int} (h : Queued timers)
    (hfirst : ∀ t ∈ timers.head?, time ≤ t.trigger) : ∀ t ∈ timers, time ≤ t.trigger := by
  cases timers with
  | nil =>
      intro t ht
      cases ht
  | cons t rest =>
      have hle : time ≤ t.trigger := hfirst t rfl
      intro u hu
      rcases List.mem_cons.1 hu with rfl | hu
      · exact hle
      · exact hle.trans ((List.pairwise_cons.1 h).1 u hu)

/-! ## The queue in the loop -/

/-- A module adds a timer that has an interval and is not behind the clock. -/
def Process.AddsInTime (p : Process) : LoopEvent → Prop
  | .timer (.add t) => 0 ≤ t.secs ∧ p.time ≤ t.trigger
  | .timer (.del _) | .timer (.cancelRepeat _) | .timer (.tickTimers _) | .timer .next
  | .clock _ | .next | .signal _ | .readable _ | .accept _ _ | .socketEvent _ | .delete _ => True

instance (p : Process) : (e : LoopEvent) → Decidable (p.AddsInTime e)
  | .timer (.add t) => inferInstanceAs (Decidable (0 ≤ t.secs ∧ p.time ≤ t.trigger))
  | .timer (.del _) | .timer (.cancelRepeat _) | .timer (.tickTimers _) | .timer .next
  | .clock _ | .next | .signal _ | .readable _ | .accept _ _ | .socketEvent _ | .delete _ =>
      inferInstanceAs (Decidable True)

/-- Where a new second may have come that `TickTimers` has not seen. -/
def Place.unticked : Place → Bool
  | .collecting | .exited _ | .crashed => true
  | .starting | .top | .ticking | .background | .dispatching | .culling | .signals | .handled =>
      false

theorem Place.unticked_of_ended {place : Place} (h : place.ended = true) :
    place.unticked = true := by
  cases place with
  | exited _ | crashed => rfl
  | starting | top | collecting | ticking | background | dispatching | culling | signals
  | handled => cases h

structure Ticked (p : Process) : Prop where
  queued : Queued p.timers.timers
  loop : ∀ time, p.timers.loop = some time → p.place = .ticking ∧ time = p.time
  ticking : p.timers.ticking.isSome → p.timers.loop.isSome
  secs : ∀ t ∈ p.timers.held, 0 ≤ t.secs
  late : p.timers.loop = none → p.place.unticked = false →
    ∀ t ∈ p.timers.timers, p.time ≤ t.trigger

theorem Ticked.start (time : Int) (listening : Listening) :
    Ticked (Process.start time listening) := by
  constructor <;> simp [Process.start, TimerQueue.new, TimerQueue.held]

/-- A step that has nothing to do with the timers. -/
theorem Ticked.kept (h : Ticked p) (htimers : p'.timers = p.timers) (htime : p'.time = p.time)
    (hplace : p.place = .ticking → p.timers.loop.isSome → p'.place = .ticking)
    (hseen : p'.place.unticked = false → p.place.unticked = false) : Ticked p' := by
  refine ⟨?_, ?_, ?_, ?_, ?_⟩
  · rw [htimers]
    exact h.queued
  · rw [htimers, htime]
    intro time hloop
    obtain ⟨hticking, hsame⟩ := h.loop time hloop
    exact ⟨hplace hticking (by rw [hloop]; rfl), hsame⟩
  · rw [htimers]
    exact h.ticking
  · rw [htimers]
    exact h.secs
  · rw [htimers, htime]
    exact fun hloop hticked => h.late hloop (hseen hticked)

/-- Outside `TickTimers` no timer ticks. -/
theorem Ticked.outside (h : Ticked p) (hplace : p.place ≠ .ticking) : p.timers.loop = none := by
  cases hloop : p.timers.loop with
  | none => rfl
  | some time => exact absurd (h.loop time hloop).1 hplace

theorem mem_add {t u : Timer} (hu : u ∈ (q.add std t).timers) :
    u ∈ q.timers ∨ u ∈ q.held ∨ u = t := by
  rw [TimerQueue.add] at hu
  rcases List.mem_append.1 ((addTimer_perm std _ _).mem_iff.1 hu) with hu | hu
  · exact Or.inl hu
  · rw [List.mem_singleton.1 hu]
    cases hfind : q.held.find? fun u => u.id = t.id with
    | none => exact Or.inr (Or.inr rfl)
    | some v => exact Or.inr (Or.inl (List.mem_of_find?_eq_some hfind))

theorem mem_del {id : Nat} {u : Timer} (hu : u ∈ (q.del id).timers) : u ∈ q.timers := by
  rw [TimerQueue.del] at hu
  split at hu
  · exact List.mem_of_mem_eraseP hu
  · exact hu

/-- What modules do with their timers. -/
theorem Ticked.byModule (h : Ticked p) {e : TimerEvent} {timers : TimerQueue}
    (hmodule : e.byModule = true) (hadds : p.AddsInTime (.timer e))
    (hstep : p.timers.step std e = some timers) : Ticked { p with timers := timers } := by
  have hqueued := queued_step h.queued hstep
  cases queue_cases hstep with
  | tickTimers _ | returns _ _ _ | tick _ _ _ _ | repeats _ _ _ | frees _ _ _ => cases hmodule
  | @add t _ =>
      obtain ⟨hsecs, hlate⟩ : 0 ≤ t.secs ∧ p.time ≤ t.trigger := hadds
      refine ⟨hqueued, h.loop, h.ticking, fun u hu => ?_, fun hloop hticked u hu => ?_⟩
      · rcases List.mem_append.1 hu with hu | hu
        · rcases mem_add hu with hu | hu | rfl
          · exact h.secs u (List.mem_append_left _ hu)
          · exact h.secs u hu
          · exact hsecs
        · exact h.secs u (List.mem_append_right _ hu)
      · have hnone : p.timers.ticking = none := by
          rw [← Option.not_isSome_iff_eq_none]
          intro hsome
          have hloop' := h.ticking hsome
          rw [show p.timers.loop = none from hloop] at hloop'
          cases hloop'
        rcases mem_add hu with hu | hu | rfl
        · exact h.late hloop hticked u hu
        · rw [TimerQueue.held, hnone, Option.toList_none, List.append_nil] at hu
          exact h.late hloop hticked u hu
        · exact hlate
  | @del id _ =>
      have hsame : (p.timers.del id).loop = p.timers.loop ∧
          (p.timers.del id).ticking = p.timers.ticking := by
        rw [TimerQueue.del]
        split <;> exact ⟨rfl, rfl⟩
      refine ⟨hqueued, ?_, ?_, fun u hu => ?_, ?_⟩
      · dsimp only
        rw [hsame.1]
        exact h.loop
      · dsimp only
        rw [hsame.1, hsame.2]
        exact h.ticking
      · rcases List.mem_append.1 hu with hu | hu
        · exact h.secs u (List.mem_append_left _ (mem_del hu))
        · rw [hsame.2] at hu
          exact h.secs u (List.mem_append_right _ hu)
      · dsimp only
        rw [hsame.1]
        exact fun hloop hticked u hu => h.late hloop hticked u (mem_del hu)
  | @cancelRepeat id _ =>
      refine ⟨hqueued, h.loop, fun hsome => h.ticking ?_, fun u hu => ?_,
        fun hloop hticked u hu => ?_⟩
      · rwa [TimerQueue.cancelRepeat, Option.isSome_map] at hsome
      · rcases List.mem_append.1 hu with hu | hu
        · obtain ⟨t, ht, rfl⟩ := List.mem_map.1 hu
          rw [(cancelled_eq id t).2.1]
          exact h.secs t (List.mem_append_left _ ht)
        · obtain ⟨t, ht, rfl⟩ := Option.map_eq_some_iff.1 (Option.mem_toList.1 hu)
          rw [(cancelled_eq id t).2.1]
          exact h.secs t (List.mem_append_right _ (Option.mem_toList.2 ht))
      · obtain ⟨t, ht, rfl⟩ := List.mem_map.1 hu
        rw [(cancelled_eq id t).2.2]
        exact h.late hloop hticked t ht

/-- `TickTimers` goes on. -/
theorem Ticked.goesOn (h : Ticked p) {timers : TimerQueue}
    (hstep : p.timers.step std .next = some timers) : Ticked { p with timers := timers } := by
  have hqueued := queued_step h.queued hstep
  have hheld : ∀ u, u ∈ p.timers.timers → 0 ≤ u.secs := fun u hu =>
    h.secs u (List.mem_append_left _ hu)
  cases queue_cases hstep with
  | @returns time hloop hticking hnone =>
      have htime : time = p.time := (h.loop time hloop).2
      rw [htime] at hnone
      refine ⟨hqueued, fun time htime => (by cases htime), fun hsome => ?_, h.secs,
        fun _ _ => h.queued.late hnone⟩
      dsimp only at hsome
      rw [hticking] at hsome
      cases hsome
  | @tick time t rest hloop hticking htimers hdue =>
      refine ⟨hqueued, h.loop, fun _ => ?_, fun u hu => hheld u ?_, fun hnone => ?_⟩
      · dsimp only
        rw [hloop]
        rfl
      · rw [htimers, List.mem_cons]
        rcases List.mem_append.1 hu with hu | hu
        · exact Or.inr hu
        · rw [Option.toList_some, List.mem_singleton] at hu
          exact Or.inl hu
      · dsimp only at hnone
        rw [hloop] at hnone
        cases hnone
  | @repeats time t hloop hticking hrep =>
      have ht : 0 ≤ t.secs := h.secs t (List.mem_append_right _ (by rw [hticking]; simp))
      refine ⟨hqueued, h.loop, fun hsome => (by cases hsome), fun u hu => ?_, fun hnone => ?_⟩
      · rw [TimerQueue.held, Option.toList_none, List.append_nil] at hu
        rcases List.mem_append.1 ((addTimer_perm std _ _).mem_iff.1 hu) with hu | hu
        · exact hheld u hu
        · rw [List.mem_singleton.1 hu]
          exact ht
      · dsimp only at hnone
        rw [hloop] at hnone
        cases hnone
  | frees hloop hticking _ =>
      refine ⟨hqueued, h.loop, fun hsome => (by cases hsome), fun u hu => ?_, fun hnone => ?_⟩
      · rw [TimerQueue.held, Option.toList_none, List.append_nil] at hu
        exact hheld u hu
      · dsimp only at hnone
        rw [hloop] at hnone
        cases hnone

/-- `TickTimers` is called. -/
theorem tickTimers_step {time : Int} {timers : TimerQueue}
    (hstep : q.step std (.tickTimers time) = some timers) :
    q.loop = none ∧ timers = { q with loop := some time } := by
  obtain ⟨hloop, hstep⟩ := Option.ite_none_right_eq_some.1 hstep
  cases hstep
  exact ⟨Option.isNone_iff_eq_none.1 hloop, rfl⟩

theorem Ticked.calls (h : Ticked p) {timers : TimerQueue} (htimers : p'.timers = timers)
    (hplace : p'.place = .ticking) (hstep : p.timers.step std (.tickTimers p'.time) = some timers) :
    Ticked p' := by
  obtain ⟨hloop, rfl⟩ := tickTimers_step hstep
  refine ⟨?_, fun time htime => ⟨hplace, ?_⟩, fun _ => ?_, ?_, fun hnone => ?_⟩
  · rw [htimers]
    exact h.queued
  · rw [htimers, Option.some.injEq] at htime
    exact htime.symm
  · rw [htimers]
    rfl
  · rw [htimers]
    exact h.secs
  · rw [htimers] at hnone
    cases hnone

/-- A turn that does not look at the timers, or not yet. -/
theorem Ticked.leaves (h : Ticked p) (hplace : p.place ≠ .ticking)
    (htimers : p'.timers = p.timers) (hunticked : p'.place.unticked = true) : Ticked p' := by
  have hloop := h.outside hplace
  refine ⟨?_, ?_, ?_, ?_, fun _ hticked => absurd (hunticked.symm.trans hticked) (by decide)⟩
  · rw [htimers]
    exact h.queued
  · rw [htimers, hloop]
    exact fun _ hsome => by cases hsome
  · rw [htimers]
    exact h.ticking
  · rw [htimers]
    exact h.secs

theorem Ticked.step (h : Ticked p) {e : LoopEvent} (hadds : p.AddsInTime e)
    (hstep : p.step cfg std e = some p') : Ticked p' := by
  have htimers : ∀ now, (p.timeOuts cfg now).timers = p.timers := fun now => by rw [timeOuts_eq]
  have htime : ∀ now, (p.timeOuts cfg now).time = now := fun now => by rw [timeOuts_eq]
  cases loop_cases hstep with
  | @sameSecond now hplace hnow =>
      refine h.kept (htimers now) ((htime now).trans hnow) (fun ht => ?_) fun _ => ?_
      · rw [hplace] at ht
        cases ht
      · rw [hplace]
        rfl
  | @drained now hplace _ _ _ =>
      exact h.leaves (by simp [hplace]) (htimers now) (Place.unticked_of_ended (exit_ended 0 _))
  | @collects now hplace _ _ => exact h.leaves (by simp [hplace]) (htimers now) rfl
  | @looks now timers hplace _ _ hlook =>
      have hcall : p.timers.step std (.tickTimers (p.timeOuts cfg now).time) = some timers := by
        rw [htime]
        exact hlook
      exact h.calls rfl rfl hcall
  | collected _ hcall => exact h.calls rfl rfl hcall
  | ticks _ _ hnext => exact h.goesOn hnext
  | ticked hplace hloop hnext =>
      refine h.kept rfl rfl (fun _ hsome => ?_) fun _ => by rw [hplace]; rfl
      rw [hloop] at hsome
      cases hsome
  | started hplace | background hplace | applies hplace _ | culled hplace _ | quiet hplace _
  | resets hplace =>
      refine h.kept rfl rfl (fun ht => ?_) fun _ => by rw [hplace]; rfl
      rw [hplace] at ht
      cases ht
  | culls _ _ _ | signal _ _ _ | readable _ _ _ | accept _ _ | socketEvent _ _ | delete _ _ =>
      exact h.kept rfl rfl (fun ht _ => ht) id
  | handles hplace _ =>
      have hlate : p.place.unticked = false := by rw [hplace]; rfl
      have hnot : p.place = .ticking → False := by simp [hplace]
      obtain ⟨listening, place, heq, -⟩ := signalHandler_eq p.sSignal p
      rw [heq]
      exact h.kept rfl rfl (fun ht => (hnot ht).elim) fun _ => hlate
  | timer _ hmodule hevent => exact h.byModule hmodule hadds hevent

/-! ## The queue takes its own steps -/

/-- What an event of the loop gives to the timer manager. -/
def LoopEvent.given : LoopEvent → List Nat
  | .timer e => e.given
  | .clock _ | .next | .signal _ | .readable _ | .accept _ _ | .socketEvent _ | .delete _ => []

/-- A step of the loop is a step of the queue, or leaves it. -/
theorem queue_step {e : LoopEvent} (hstep : p.step cfg std e = some p') :
    p'.timers = p.timers ∧ e.given = [] ∨
      ∃ e', p.timers.step std e' = some p'.timers ∧ e'.given = e.given ∧
        ∀ t, e' = .add t → e = .timer (.add t) := by
  have htimers : ∀ now, (p.timeOuts cfg now).timers = p.timers := fun now => by rw [timeOuts_eq]
  cases loop_cases hstep with
  | @sameSecond now _ _ | @drained now _ _ _ _ | @collects now _ _ _ =>
      exact Or.inl ⟨htimers now, rfl⟩
  | looks _ _ _ hlook => exact Or.inr ⟨_, hlook, rfl, fun t ht => by cases ht⟩
  | collected _ hcall => exact Or.inr ⟨_, hcall, rfl, fun t ht => by cases ht⟩
  | ticks _ _ hnext => exact Or.inr ⟨_, hnext, rfl, fun t ht => by cases ht⟩
  | timer _ _ hevent => exact Or.inr ⟨_, hevent, rfl, fun t ht => by rw [ht]⟩
  | started _ | ticked _ _ _ | background _ | applies _ _ | culled _ _ | quiet _ _ | resets _
  | culls _ _ _ | signal _ _ _ | readable _ _ _ | accept _ _ | socketEvent _ _ | delete _ _ =>
      exact Or.inl ⟨rfl, rfl⟩
  | handles _ _ =>
      obtain ⟨listening, place, heq, -⟩ := signalHandler_eq p.sSignal p
      rw [heq]
      exact Or.inl ⟨rfl, rfl⟩

/-- The queue of a process is one behind a run of its own, in which modules add what they add. -/
theorem queue_run {time : Int} {listening : Listening} {es : List LoopEvent}
    (h : Process.run cfg std time listening es = some p) :
    ∃ es', TimerQueue.run std es' = some p.timers ∧
      es'.flatMap TimerEvent.given = es.flatMap LoopEvent.given ∧
      ∀ t, .add t ∈ es' → .timer (.add t) ∈ es := by
  refine history_invariant (I := fun past (s : Process) => ∃ es',
    TimerQueue.run std es' = some s.timers ∧
      es'.flatMap TimerEvent.given = past.flatMap LoopEvent.given ∧
      ∀ t, .add t ∈ es' → .timer (.add t) ∈ past) h ⟨[], rfl, rfl, fun t ht => by cases ht⟩ ?_
  rintro past s e s' ⟨es', hrun, hgiven, hadds⟩ hstep
  have hold : ∀ t, .add t ∈ es' → .timer (.add t) ∈ past ++ [e] := fun t ht =>
    List.mem_append_left _ (hadds t ht)
  rcases queue_step hstep with ⟨hsame, hnone⟩ | ⟨e', hone, hgiven', hadd⟩
  · refine ⟨es', hsame.symm ▸ hrun, ?_, hold⟩
    rw [List.flatMap_append, List.flatMap_singleton, hnone, List.append_nil, hgiven]
  · refine ⟨es' ++ [e'], ?_, ?_, fun t ht => ?_⟩
    · rw [TimerQueue.run, run_concat]
      rw [TimerQueue.run] at hrun
      rw [hrun]
      exact hone
    · rw [List.flatMap_append, List.flatMap_append, List.flatMap_singleton, List.flatMap_singleton,
        hgiven', hgiven]
    · rcases List.mem_append.1 ht with ht | ht
      · exact hold t ht
      · rw [← hadd t (List.mem_singleton.1 ht).symm]
        exact List.mem_append_right _ (List.mem_singleton_self _)

/-- In every run in which modules add timers that have an interval and are not behind the clock:
where the engine is called, and where connections are destroyed and signals acted on, no timer in
the vector is due, although `TickTimers` is not called in every turn. If none is added twice, each
timer that has been added is in one place, and its ticks are more than its interval apart. -/
theorem timers_on_time (cfg : RunConfig) (std : TimerSort) (time : Int) (listening : Listening)
    (es : List LoopEvent) (p : Process)
    (hadds : EachStep (Process.step cfg std) (Process.start time listening) es
      Process.AddsInTime)
    (h : Process.run cfg std time listening es = some p) :
    (p.place = .dispatching ∨ p.place = .culling ∨ p.place = .signals →
        p.timers.ticking = none ∧ ∀ t ∈ p.timers.timers, p.time ≤ t.trigger) ∧
      ((es.flatMap LoopEvent.given).Nodup →
        (p.timers.held.map Timer.id ++ p.timers.freed).Perm (es.flatMap LoopEvent.given) ∧
        p.timers.ticks.Pairwise fun a b => a.1.id = b.1.id → a.2 + a.1.secs < b.2) := by
  have hticked : Ticked p := hadds.invariant (I := Ticked) (.start time listening)
    (fun hs hadds hstep => hs.step hadds hstep) es p (List.prefix_refl _) h
  constructor
  · intro hplace
    have hloop : p.timers.loop = none :=
      hticked.outside (by rcases hplace with h | h | h <;> simp [h])
    refine ⟨?_, hticked.late hloop (by rcases hplace with h | h | h <;> rw [h] <;> rfl)⟩
    rw [← Option.not_isSome_iff_eq_none]
    intro hsome
    have hrunning := hticked.ticking hsome
    rw [hloop] at hrunning
    cases hrunning
  · intro honce
    obtain ⟨es', hrun, hgiven, hmade⟩ := queue_run h
    have hsecs : ∀ t, .add t ∈ es' → 0 ≤ t.secs := by
      intro t ht
      obtain ⟨s, hs⟩ := hadds.mem h (hmade t ht)
      exact hs.1
    rw [← hgiven] at honce ⊢
    exact ⟨known_run hrun, (spaced_run hrun honce hsecs).apart⟩

/-- A timer that a module has added when it was loaded; it ticks in the second turn. -/
def loadedTimer : List LoopEvent :=
  [.timer (.add ⟨1, 1005, 5, true⟩), .next, .clock 1000, .next, .next, .next, .next, .clock 1006,
    .next, .next, .next, .next]

theorem timers_on_time_loadedTimer :
    ∃ p, Process.run twoTurns insertionStd 1000 ⟨[⟨0, [], 80⟩], [], 1, false, false⟩ loadedTimer
        = some p ∧
      p.place = .dispatching ∧ p.timers.ticks = [(⟨1, 1005, 5, true⟩, 1006)] ∧
      ∀ t ∈ p.timers.timers, p.time ≤ t.trigger := by
  have hadds : EachStep (Process.step twoTurns insertionStd)
      (Process.start 1000 ⟨[⟨0, [], 80⟩], [], 1, false, false⟩) loadedTimer
      Process.AddsInTime := by
    decide
  have h := timers_on_time twoTurns insertionStd 1000 ⟨[⟨0, [], 80⟩], [], 1, false, false⟩
    loadedTimer _ hadds rfl
  exact ⟨_, rfl, rfl, rfl, (h.1 (Or.inl rfl)).2⟩

end Hottpd
