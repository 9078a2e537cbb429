import Hottpd.Core.Timer
import Mathlib.Data.List.Sort

/-!
# `TickTimers` ticks what is due

The loop takes the first timer out as long as it is due, and puts timers back
while it runs: those its `Tick` adds, and the timer itself if it repeats. None of
them is due, so the number of due timers goes down by one with each turn, and
what is in the queue at the end is what was not due and what was put back.
-/

namespace Hottpd

variable {σ : Type} {std : TimerSort} {tick : σ → Timer → Int → TickResult σ} {time : Int}

def Timer.due (time : Int) (t : Timer) : Bool := t.trigger < time

/-- What is in the queue on account of a call of `Tick`. -/
def TickCall.puts (time : Int) (c : TickCall) : List Timer :=
  c.added ++
    if c.timer.repeats && !c.cancelRepeat then
      [{ c.timer with trigger := time + c.timer.secs }]
    else []

/-- By the trigger, the next timer to tick first. -/
abbrev Queued (timers : List Timer) : Prop :=
  timers.Pairwise fun a b => a.trigger ≤ b.trigger

/-! ## `AddTimer` -/

theorem addTimer_perm (std : TimerSort) (timers : List Timer) (t : Timer) :
    (addTimer std timers t).Perm (timers ++ [t]) := std.perm _

theorem addTimer_queued (timers : List Timer) (t : Timer) : Queued (addTimer std timers t) :=
  std.sorted _

theorem addTimers_perm (std : TimerSort) (added : List Timer) : ∀ timers : List Timer,
    (added.foldl (addTimer std) timers).Perm (timers ++ added) := by
  induction added with
  | nil =>
      intro timers
      rw [List.append_nil]
      exact .refl _
  | cons t added ih =>
      intro timers
      have hone := (addTimer_perm std timers t).append_right added
      rw [List.append_assoc, List.singleton_append] at hone
      exact (ih _).trans hone

theorem addTimers_queued (added : List Timer) : ∀ {timers : List Timer}, Queued timers →
    Queued (added.foldl (addTimer std) timers) := by
  induction added with
  | nil => exact fun h => h
  | cons t added ih => exact fun _ => ih (addTimer_queued _ t)

/-! ## One turn -/

section Turn

variable {t : Timer} {rest : List Timer} {s : TimerManager σ}

/-- The call of `Tick` that the turn makes. -/
def tickCall (tick : σ → Timer → Int → TickResult σ) (time : Int) (t : Timer) (world : σ) :
    TickCall :=
  ⟨t, (tick world t time).added, (tick world t time).cancelRepeat⟩

theorem tickFirst_calls :
    (tickFirst std tick time t rest s).calls = s.calls ++ [tickCall tick time t s.world] := rfl

variable (std tick time t rest s) in
theorem tickFirst_perm :
    (tickFirst std tick time t rest s).timers.Perm
      (rest ++ (tickCall tick time t s.world).puts time) := by
  have hadded := addTimers_perm std (tick s.world t time).added rest
  unfold tickFirst TickCall.puts tickCall
  dsimp only
  cases hcancel : (tick s.world t time).cancelRepeat <;> cases hrep : t.repeats
  case false.true =>
      rw [← List.append_assoc]
      have ht : ({ t with trigger := time + t.secs, repeats := true } : Timer)
          = { t with trigger := time + t.secs } := by rw [← hrep]
      simp only [Bool.not_false, Bool.and_true, if_true, Bool.false_eq_true, if_false, ht]
      exact (addTimer_perm std _ _).trans (hadded.append_right _)
  all_goals
    simpa [hcancel, hrep] using hadded

theorem tickFirst_queued (h : Queued rest) : Queued (tickFirst std tick time t rest s).timers := by
  unfold tickFirst
  dsimp only
  generalize (if (tick s.world t time).cancelRepeat then false else t.repeats) = repeats
  cases repeats with
  | true => exact addTimer_queued _ _
  | false => exact addTimers_queued _ h

end Turn

/-! ## The loop -/

/-- How far the loop has come with the timers it was started on. -/
structure Ticking (time : Int) (started : List Timer) (s : TimerManager σ) : Prop where
  queued : Queued s.timers
  ordered : (s.calls.map TickCall.timer).Pairwise fun a b => a.trigger ≤ b.trigger
  early : ∀ c ∈ s.calls, c.timer.due time
  ahead : ∀ c ∈ s.calls, ∀ t ∈ s.timers, c.timer.trigger ≤ t.trigger
  ticked : (s.calls.map TickCall.timer ++ s.timers.filter (Timer.due time)).Perm
    (started.filter (Timer.due time))
  kept : (s.timers.filter fun t => !t.due time).Perm
    ((started.filter fun t => !t.due time) ++ s.calls.flatMap (TickCall.puts time))
  secs : ∀ t ∈ s.timers, t.due time → 0 ≤ t.secs

/-- Nothing that a turn puts back is due. -/
theorem puts_not_due {t : Timer} {world : σ} (hsecs : 0 ≤ t.secs)
    (hadd : ∀ world t, ∀ a ∈ (tick world t time).added, time ≤ a.trigger) :
    ∀ a ∈ (tickCall tick time t world).puts time, a.due time = false := by
  intro a ha
  have hlate : time ≤ a.trigger := by
    rcases List.mem_append.1 ha with ha | ha
    · exact hadd _ _ a ha
    · split at ha
      · rw [List.mem_singleton.1 ha]
        show time ≤ time + t.secs
        omega
      · cases ha
  unfold Timer.due
  rw [decide_eq_false_iff_not]
  omega

variable (std) in
theorem tickFirst_due {t : Timer} (rest : List Timer) (s : TimerManager σ) (hsecs : 0 ≤ t.secs)
    (hadd : ∀ world t, ∀ a ∈ (tick world t time).added, time ≤ a.trigger) :
    ((tickFirst std tick time t rest s).timers.filter (Timer.due time)).Perm
      (rest.filter (Timer.due time)) := by
  have hnone : ((tickCall tick time t s.world).puts time).filter (Timer.due time) = [] :=
    List.filter_eq_nil_iff.2 fun a ha => by
      rw [puts_not_due hsecs hadd a ha]
      decide
  have hfilter := (tickFirst_perm std tick time t rest s).filter (Timer.due time)
  rw [List.filter_append, hnone, List.append_nil] at hfilter
  exact hfilter

variable {started : List Timer} {s : TimerManager σ}

variable (std) in
theorem Ticking.turn (h : Ticking time started s)
    (hadd : ∀ world t, ∀ a ∈ (tick world t time).added, time ≤ a.trigger)
    {t : Timer} {rest : List Timer} (hs : s.timers = t :: rest) (hdue : t.trigger < time) :
    Ticking time started (tickFirst std tick time t rest s) := by
  obtain ⟨hqueued, hordered, hearly, hahead, hticked, hkept, hsecs⟩ := h
  rw [hs] at hqueued hahead hticked hkept hsecs
  have hperm := tickFirst_perm std tick time t rest s
  have htdue : t.due time = true := decide_eq_true hdue
  have hputs : ∀ a ∈ (tickCall tick time t s.world).puts time, a.due time = false :=
    puts_not_due (hsecs t List.mem_cons_self htdue) hadd
  have hfirst : ∀ a ∈ rest, t.trigger ≤ a.trigger := (List.pairwise_cons.1 hqueued).1
  have hmem : ∀ a ∈ (tickFirst std tick time t rest s).timers,
      a ∈ rest ∨ a ∈ (tickCall tick time t s.world).puts time := fun a ha =>
    List.mem_append.1 (hperm.mem_iff.1 ha)
  have hlast : ∀ c ∈ s.calls, c.timer.trigger ≤ t.trigger := fun c hc =>
    hahead c hc t List.mem_cons_self
  have hgone := tickFirst_due std rest s
    (hsecs t List.mem_cons_self htdue) hadd
  refine ⟨tickFirst_queued (List.pairwise_cons.1 hqueued).2, ?_, ?_, ?_, ?_, ?_, ?_⟩
  · rw [tickFirst_calls, List.map_append, List.pairwise_append]
    refine ⟨hordered, List.pairwise_singleton _ _, ?_⟩
    intro a ha b hb
    obtain ⟨c, hc, rfl⟩ := List.mem_map.1 ha
    rw [List.map_singleton, List.mem_singleton] at hb
    rw [hb]
    exact hlast c hc
  · rw [tickFirst_calls]
    intro c hc
    rcases List.mem_append.1 hc with hc | hc
    · exact hearly c hc
    · rw [List.mem_singleton.1 hc]
      exact htdue
  · rw [tickFirst_calls]
    intro c hc a ha
    have hct : c.timer.trigger ≤ t.trigger := by
      rcases List.mem_append.1 hc with hc | hc
      · exact hlast c hc
      · rw [List.mem_singleton.1 hc]
        exact Int.le_refl _
    rcases hmem a ha with ha | ha
    · exact hct.trans (hfirst a ha)
    · have hlate := hputs a ha
      unfold Timer.due at hlate
      rw [decide_eq_false_iff_not] at hlate
      omega
  · rw [tickFirst_calls, List.map_append, List.append_assoc]
    rw [List.filter_cons_of_pos htdue] at hticked
    refine .trans (.append_left _ ?_) hticked
    exact hgone.cons t
  · rw [tickFirst_calls, List.flatMap_append, ← List.append_assoc]
    rw [List.filter_cons_of_neg (by simp [htdue])] at hkept
    have hfilter := hperm.filter (fun a => !a.due time)
    rw [List.filter_append] at hfilter
    refine hfilter.trans (hkept.append ?_)
    rw [List.filter_eq_self.2 (fun a ha => by simp [hputs a ha]), List.flatMap_singleton]
  · intro a ha hdue
    rcases hmem a ha with ha | ha
    · exact hsecs a (List.mem_cons_of_mem t ha) hdue
    · rw [hputs a ha] at hdue
      cases hdue

variable (std) in
/-- With fuel for the due timers the loop ends, and has ticked them all. -/
theorem Ticking.loop (hadd : ∀ world t, ∀ a ∈ (tick world t time).added, time ≤ a.trigger)
    (n : Nat) : ∀ {s : TimerManager σ}, Ticking time started s →
    (s.timers.filter (Timer.due time)).length = n →
    ∃ s', (∀ fuel, n < fuel → tickTimers std tick time fuel s = some s') ∧
      Ticking time started s' ∧ ∀ t ∈ s'.timers, t.due time = false := by
  induction n with
  | zero =>
      intro s h hn
      have hnone : ∀ t ∈ s.timers, t.due time = false := by
        intro t ht
        have := List.filter_eq_nil_iff.1 (List.length_eq_zero_iff.1 hn) t ht
        simpa using this
      refine ⟨s, fun fuel hfuel => ?_, h, hnone⟩
      obtain ⟨fuel, rfl⟩ : ∃ k, fuel = k + 1 := ⟨fuel - 1, by omega⟩
      rw [tickTimers]
      split
      · rfl
      · next t rest hs =>
          have hlate := hnone t (by rw [hs]; exact List.mem_cons_self)
          rw [if_neg (of_decide_eq_false hlate)]
  | succ n ih =>
      intro s h hn
      -- some timer is due, so the first one is
      obtain ⟨t, rest, hs, hdue⟩ : ∃ t rest, s.timers = t :: rest ∧ t.due time = true := by
        have hpos : 0 < (s.timers.filter (Timer.due time)).length := by omega
        obtain ⟨d, hd⟩ := List.exists_mem_of_length_pos hpos
        obtain ⟨hmem, hdue⟩ := List.mem_filter.1 hd
        cases hs : s.timers with
        | nil =>
            rw [hs] at hmem
            cases hmem
        | cons t rest =>
            refine ⟨t, rest, rfl, ?_⟩
            have hqueued := h.queued
            rw [hs] at hqueued hmem
            have hle : t.trigger ≤ d.trigger := by
              rcases List.mem_cons.1 hmem with rfl | hmem
              · exact Int.le_refl _
              · exact (List.pairwise_cons.1 hqueued).1 d hmem
            unfold Timer.due at hdue ⊢
            rw [decide_eq_true_eq] at hdue ⊢
            omega
      have hlt : t.trigger < time := of_decide_eq_true hdue
      have hnext := h.turn std hadd hs hlt
      have hless : ((tickFirst std tick time t rest s).timers.filter (Timer.due time)).length
          = n := by
        have hsecs := h.secs t (by rw [hs]; exact List.mem_cons_self) hdue
        rw [hs, List.filter_cons_of_pos hdue, List.length_cons] at hn
        have hlen := (tickFirst_due std rest s hsecs hadd).length_eq
        omega
      obtain ⟨s', hrun, hdone, hnone⟩ := ih hnext hless
      refine ⟨s', fun fuel hfuel => ?_, hdone, hnone⟩
      obtain ⟨fuel, rfl⟩ : ∃ k, fuel = k + 1 := ⟨fuel - 1, by omega⟩
      rw [tickTimers, hs]
      dsimp only
      rw [if_pos hlt]
      exact hrun fuel (by omega)

theorem started_queued (ts : List Timer) : Queued (ts.foldl (addTimer std) []) :=
  addTimers_queued ts .nil

/-- Whatever timers have been added: the loop ends, ticks those that are due, each once and in
the order of their triggers, and leaves in the queue those that were not due, what the ticks
have added, and the repeating timers that have not cancelled, one interval from now. -/
theorem tickTimers_ticks_due (std : TimerSort) (tick : σ → Timer → Int → TickResult σ)
    (time : Int) (world : σ) (ts : List Timer) (hsecs : ∀ t ∈ ts, 0 ≤ t.secs)
    (hadd : ∀ world t, ∀ a ∈ (tick world t time).added, time ≤ a.trigger) :
    ∃ s', (∀ fuel, (ts.filter (Timer.due time)).length < fuel →
        tickTimers std tick time fuel ⟨ts.foldl (addTimer std) [], world, []⟩ = some s') ∧
      (s'.calls.map TickCall.timer).Perm (ts.filter (Timer.due time)) ∧
      (s'.calls.map TickCall.timer).Pairwise (fun a b => a.trigger ≤ b.trigger) ∧
      s'.timers.Perm
        ((ts.filter fun t => !t.due time) ++ s'.calls.flatMap (TickCall.puts time)) ∧
      Queued s'.timers ∧ ∀ t ∈ s'.timers, time ≤ t.trigger := by
  have hperm : (ts.foldl (addTimer std) []).Perm ts := addTimers_perm std ts []
  have hstart : Ticking time ts (⟨ts.foldl (addTimer std) [], world, []⟩ : TimerManager σ) := by
    refine ⟨started_queued ts, .nil, by simp, by simp, hperm.filter _, ?_, ?_⟩
    · rw [List.flatMap_nil, List.append_nil]
      exact hperm.filter _
    · exact fun t ht _ => hsecs t (hperm.mem_iff.1 ht)
  obtain ⟨s', hrun, hdone, hnone⟩ :=
    hstart.loop std hadd _ (hperm.filter (Timer.due time)).length_eq
  refine ⟨s', hrun, ?_, hdone.ordered, ?_, hdone.queued, fun t ht => ?_⟩
  · have hticked := hdone.ticked
    rw [List.filter_eq_nil_iff.2 (fun t ht => by rw [hnone t ht]; decide), List.append_nil] at hticked
    exact hticked
  · have hkept := hdone.kept
    rw [List.filter_eq_self.2 (fun t ht => by rw [hnone t ht]; rfl)] at hkept
    exact hkept
  · have hnot := hnone t ht
    unfold Timer.due at hnot
    rw [decide_eq_false_iff_not] at hnot
    omega

/-- Equal triggers in the order in which they were. -/
def insertionStd : TimerSort where
  sort := List.insertionSort fun a b => a.trigger ≤ b.trigger
  perm := List.perm_insertionSort _
  sorted l := @List.pairwise_insertionSort _ (fun a b : Timer => a.trigger ≤ b.trigger) _
    ⟨fun a b => Int.le_total a.trigger b.trigger⟩ ⟨fun _ _ _ => Int.le_trans⟩ l

/-- A timer that cancels itself after seven seconds; every tick adds a timer. -/
def addsOne (world : Nat) (t : Timer) (time : Int) : TickResult Nat :=
  ⟨world + 1, [Timer.new (100 + world) 5 time false], t.secs = 7⟩

def threeTimers : List Timer :=
  [⟨1, 90, 20, true⟩, ⟨2, 50, 7, true⟩, ⟨3, 200, 1, false⟩]

theorem tickTimers_ticks_due_threeTimers :
    ∃ s', tickTimers insertionStd addsOne 100 3
        ⟨threeTimers.foldl (addTimer insertionStd) [], 0, []⟩ = some s' ∧
      (s'.calls.map TickCall.timer).Perm [⟨1, 90, 20, true⟩, ⟨2, 50, 7, true⟩] := by
  obtain ⟨s', hrun, hticked, -⟩ := tickTimers_ticks_due insertionStd addsOne 100 0
    threeTimers (by decide) (by
      intro world t a ha
      rw [List.mem_singleton.1 ha]
      show (100 : Int) ≤ 100 + 5
      decide)
  exact ⟨s', hrun 3 (by decide), hticked⟩

end Hottpd
