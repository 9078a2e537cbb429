import Hottpd.Proofs.Endings

/-!
# Signals are lost in one slot

`SetSignal` writes the signal to `s_signal`, where `Run` finds it behind the
connections, and `Run` writes zero there behind `SignalHandler`. A signal that
is caught in between is written over one that has not been acted on, or is
zeroed unseen. So every signal is acted on if each finds the slot empty, and
only then.
-/

namespace Hottpd

open Runs

variable {cfg : RunConfig} {std : TimerSort} {p p' : Process}

/-- The signal that `Run` has yet to see. -/
def Process.pending (p : Process) : List Int :=
  if p.sSignal = 0 ∨ p.place = .handled then [] else [p.sSignal]

/-- While the process runs, the signals caught have been acted on, in their order, or are yet to
be seen. -/
def Process.ActsOnAll (p : Process) : Prop :=
  p.place.ended = false → p.caught = p.acted ++ p.pending

/-- Whether a signal can be caught. -/
def Process.catches (p : Process) (sig : Int) : Prop :=
  p.place ≠ .starting ∧ p.place.ended = false ∧ (sig = SIGHUP ∨ sig = SIGTERM)

/-- A signal that is caught finds the slot empty. -/
def Process.SlotFree (p : Process) : LoopEvent → Prop
  | .signal sig => p.catches sig → p.sSignal = 0
  | .clock _ | .next | .readable _ | .accept _ _ | .socketEvent _ | .delete _ | .timer _ => True

theorem signal_step {sig : Int} (h : p.catches sig) :
    p.step cfg std (.signal sig)
      = some { p with sSignal := sig, caught := p.caught ++ [sig] } := by
  obtain ⟨hstarting, hruns, hsig⟩ := h
  rw [Process.step]
  split
  · next hplace => exact absurd hplace hstarting
  · next status hplace =>
      rw [hplace] at hruns
      cases hruns
  · next hplace =>
      rw [hplace] at hruns
      cases hruns
  · rw [if_pos hsig]

/-- A step that has nothing to do with signals. -/
theorem Process.ActsOnAll.kept (h : p.ActsOnAll)
    (hruns : p.place.ended = false) (hsignal : p'.sSignal = p.sSignal)
    (hcaught : p'.caught = p.caught) (hacted : p'.acted = p.acted)
    (hplace : p'.place = .handled ↔ p.place = .handled) : p'.ActsOnAll := by
  intro _
  have hpending : p'.pending = p.pending := by
    rw [Process.pending, Process.pending, hsignal]
    simp only [hplace]
  rw [hcaught, hacted, hpending]
  exact h hruns

theorem Process.ActsOnAll.step (h : p.ActsOnAll) (hbusy : p.place = .handled → p.sSignal ≠ 0)
    {e : LoopEvent} (hfree : p.SlotFree e)
    (hstep : p.step cfg std e = some p') : p'.ActsOnAll := by
  have hruns : p.place.ended = false := ended_step hstep
  cases loop_cases hstep with
  | @sameSecond now hplace _ | @collects now hplace _ _ | @looks now _ hplace _ _ _ =>
      refine h.kept hruns ?_ ?_ ?_ (by simp [hplace])
      · show (p.timeOuts cfg now).sSignal = _
        rw [timeOuts_eq]
      · show (p.timeOuts cfg now).caught = _
        rw [timeOuts_eq]
      · show (p.timeOuts cfg now).acted = _
        rw [timeOuts_eq]
  | drained _ _ _ _ => exact fun hruns' => absurd ((exit_ended 0 _).symm.trans hruns') (by decide)
  | started hplace | collected hplace _ | background hplace | applies hplace _ | culled hplace _
  | quiet hplace _ => exact h.kept hruns rfl rfl rfl (by simp [hplace])
  | ticked hplace _ hnext =>
      refine h.kept hruns rfl rfl rfl ?_
      rcases hnext with rfl | rfl
      · simp [hplace]
      · simp [hplace]
  | ticks _ _ _ | culls _ _ _ | readable _ _ _ | accept _ _ | socketEvent _ _ | delete _ _
  | timer _ _ _ => exact h.kept hruns rfl rfl rfl Iff.rfl
  | handles hplace hsignal =>
      -- what was pending has been acted on
      have hcaught : p.caught = p.acted ++ [p.sSignal] := by
        rw [h hruns, Process.pending, if_neg (by simp [hplace, hsignal])]
      obtain ⟨listening, place, heq, hplace', -⟩ := signalHandler_eq p.sSignal p
      rw [heq]
      intro hruns'
      rcases hplace' with rfl | hended
      · show p.caught = p.acted ++ [p.sSignal] ++ Process.pending _
        rw [Process.pending, if_pos (Or.inr rfl), List.append_nil]
        exact hcaught
      · exact absurd (hended.symm.trans hruns') (by decide)
  | resets hplace =>
      intro _
      show p.caught = p.acted ++ Process.pending _
      rw [h hruns, Process.pending, Process.pending, if_pos (Or.inr hplace), if_pos (Or.inl rfl)]
  | @signal sig hplace hruns' hsig =>
      have hzero : p.sSignal = 0 := hfree ⟨hplace, hruns', hsig⟩
      intro _
      show p.caught ++ [sig] = p.acted ++ Process.pending _
      have hsig0 : sig ≠ 0 := by
        rcases hsig with rfl | rfl
        · decide
        · decide
      have hbefore : p.pending = [] := by rw [Process.pending, if_pos (Or.inl hzero)]
      rw [h hruns, hbefore, List.append_nil, Process.pending,
        if_neg (not_or.2 ⟨hsig0, fun hhandled => hbusy hhandled hzero⟩)]

/-- Behind `SignalHandler` the slot is not empty yet. -/
theorem busy_step (hbusy : p.place = .handled → p.sSignal ≠ 0) {e : LoopEvent}
    (hstep : p.step cfg std e = some p') : p'.place = .handled → p'.sSignal ≠ 0 := by
  cases loop_cases hstep with
  | @drained now _ _ _ _ =>
      intro hplace
      have hended := exit_ended 0 (p.timeOuts cfg now)
      rw [hplace] at hended
      cases hended
  | sameSecond _ _ | collects _ _ _ | looks _ _ _ _ | started _ | collected _ _ | background _
  | applies _ _ | culled _ _ | quiet _ _ | resets _ =>
      intro hplace
      cases hplace
  | ticked _ _ hnext =>
      rintro rfl
      rcases hnext with h | h
      · cases h
      · cases h
  | ticks _ _ _ | culls _ _ _ | readable _ _ _ | accept _ _ | socketEvent _ _ | delete _ _
  | timer _ _ _ => exact hbusy
  | handles _ hsignal =>
      obtain ⟨listening, place, heq, -⟩ := signalHandler_eq p.sSignal p
      rw [heq]
      exact fun _ => hsignal
  | @signal sig _ _ hsig =>
      intro _
      show sig ≠ 0
      rcases hsig with rfl | rfl
      · decide
      · decide

/-- One that is caught on the way is written over another, or is zeroed. -/
theorem Process.ActsOnAll.breaks (h : p.ActsOnAll) {e : LoopEvent} (hfree : ¬p.SlotFree e) :
    ∃ p', p.step cfg std e = some p' ∧ ¬p'.ActsOnAll := by
  cases e with
  | clock _ | next | readable _ | accept _ _ | socketEvent _ | delete _ | timer _ =>
      exact absurd trivial hfree
  | signal sig =>
      obtain ⟨hcatches, hbusy⟩ := Classical.not_imp.1 hfree
      refine ⟨_, signal_step hcatches, fun hacts => ?_⟩
      have hcaught : p.caught ++ [sig] = p.acted ++ Process.pending _ := hacts hcatches.2.1
      rw [h hcatches.2.1, List.append_assoc] at hcaught
      have hlen := congrArg List.length (List.append_cancel_left hcaught)
      rw [List.length_append] at hlen
      by_cases hplace : p.place = .handled
      · rw [Process.pending, Process.pending, if_pos (Or.inr hplace),
          if_pos (Or.inr hplace)] at hlen
        cases hlen
      · have hsig0 : sig ≠ 0 := by
          rcases hcatches.2.2 with rfl | rfl
          · decide
          · decide
        rw [Process.pending, Process.pending, if_neg (by simp [hbusy, hplace]),
          if_neg (by simp [hsig0, hplace])] at hlen
        cases hlen

/-- In every run: while the process runs all signals caught have been acted on, in the order in
which they were caught, or are in the slot, exactly if each is caught while the slot is empty. -/
theorem signals_acted_on (cfg : RunConfig) (std : TimerSort) (time : Int) (listening : Listening)
    (es : List LoopEvent) :
    Throughout (Process.step cfg std) (Process.start time listening) es Process.ActsOnAll ↔
      EachStep (Process.step cfg std) (Process.start time listening) es Process.SlotFree := by
  refine throughout_iff (I := fun p : Process => p.ActsOnAll ∧ (p.place = .handled → p.sSignal ≠ 0))
    ⟨fun _ => rfl, fun hplace => by cases hplace⟩ And.left ?_ ?_ es
  · rintro p e p' ⟨hacts, hbusy⟩ hfree hstep
    exact ⟨hacts.step hbusy hfree hstep, busy_step hbusy hstep⟩
  · rintro p e ⟨hacts, -⟩ hfree
    exact hacts.breaks hfree

end Hottpd
