import Hottpd.Proofs.Listeners
import Hottpd.Proofs.TimeOuts

/-!
# How the process ends

A SIGTERM, and the last connection behind a SIGHUP, end the process through
`Exit`, whose `Cleanup` deletes what is in `Config->ports`. `GracefulShutdown`
deletes the same listeners and leaves them there. So behind a SIGHUP that found
a listener the next signal, or the exit, deletes it a second time.

What has been acted on says what the listeners are, and where the process ends.
-/

namespace Hottpd

open Runs

variable {cfg : RunConfig} {std : TimerSort} {p p' : Process}

/-! ## Listeners that are deleted -/

/-- No signal has been acted on, and no listener is both there and destroyed. -/
structure Listening.Fresh (s : Listening) : Prop where
  up : s.shuttingDown = false
  booked : Booked s.ports s.destroyed s.next

theorem Listening.Fresh.new : Listening.new.Fresh :=
  ⟨rfl, List.nodup_nil, fun i hi => by cases hi⟩

/-- `BindPorts` leaves them so. -/
theorem Listening.Fresh.bindPorts {maxbuf fuel : Nat} {config : List BindSection}
    {bind : Bytes → Int → Bool} {s s' : Listening} (h : s.Fresh)
    (hs : s.signal maxbuf (.bindPorts fuel config bind) = some s') : s'.Fresh := by
  unfold Listening.signal at hs
  split at hs
  · cases hs
  · obtain ⟨b, hb, rfl⟩ := Option.map_eq_some_iff.1 hs
    exact ⟨h.up, h.booked.bindPorts hb⟩

section Deleting

variable {s : Listening} (place : Place)

theorem Listening.Fresh.reaches_deleteAll (h : s.Fresh) : s.deleteAll.reaches place = place :=
  if_pos (List.nodup_append_comm.1 h.booked.distinct)

/-- Behind a graceful shutdown that left entries one is deleted again. -/
theorem Listening.Fresh.reaches_again (h : s.Fresh) :
    s.gracefulShutdown.deleteAll.reaches place = if s.ports = [] then place else .crashed := by
  have hdestroyed : s.gracefulShutdown.deleteAll.destroyed
      = s.deleteAll.destroyed ++ s.ports.map ListenSocket.id := rfl
  rw [Listening.reaches, hdestroyed]
  by_cases hports : s.ports = []
  · rw [if_pos hports, hports, List.map_nil, List.append_nil]
    exact h.reaches_deleteAll place
  · rw [if_neg hports, if_neg]
    intro hnodup
    obtain ⟨l, hl⟩ := List.exists_mem_of_ne_nil s.ports hports
    have hid : l.id ∈ s.ports.map ListenSocket.id := List.mem_map_of_mem hl
    exact (List.nodup_append.1 hnodup).2.2 l.id (List.mem_append_right _ hid) l.id hid rfl

theorem Listening.gracefulShutdown_again (hports : s.ports = []) :
    s.gracefulShutdown.gracefulShutdown = s.gracefulShutdown := by
  rw [Listening.gracefulShutdown, Listening.gracefulShutdown, Listening.deleteAll,
    Listening.deleteAll, hports]
  simp

end Deleting

/-! ## What the signals leave -/

/-- While the process runs. -/
structure Process.Running (start : Listening) (p : Process) : Prop where
  slot : p.sSignal = 0 ∨ p.sSignal = SIGHUP ∨ p.sSignal = SIGTERM
  acted : ∀ sig ∈ p.acted, sig = SIGHUP
  listening : p.listening = if p.acted = [] then start else start.gracefulShutdown
  once : start.ports ≠ [] → p.acted.length ≤ 1

/-- At its end. -/
structure Process.Ended (start : Listening) (p : Process) : Prop where
  acted : p.acted ≠ []
  place : p.place = if SIGHUP ∈ p.acted ∧ start.ports ≠ [] then .crashed
    else .exited (if SIGTERM ∈ p.acted then SIGTERM else 0)
  drained : SIGTERM ∉ p.acted → start.ports = [] ∨ p.acted.length ≤ 1 →
    p.server.localConnections = []

structure Lives (start : Listening) (p : Process) : Prop where
  runs : p.place.ended = false → Process.Running start p
  ends : p.place.ended = true → Process.Ended start p
  down : p.listening.shuttingDown = true → SIGHUP ∈ p.acted

variable {start : Listening}

/-- Nothing happens behind the end. -/
theorem ended_step {e : LoopEvent} (hstep : p.step cfg std e = some p') :
    p.place.ended = false := by
  have hcode : p.runsCode = true → p.place.ended = false := by
    intro hcode
    rw [Process.runsCode] at hcode
    cases hplace : p.place with
    | exited _ | crashed =>
        rw [hplace] at hcode
        cases hcode
    | starting | top | collecting | ticking | background | dispatching | culling | signals
    | handled => rfl
  cases loop_cases hstep with
  | signal _ hruns _ => exact hruns
  | delete hcode' _ | timer hcode' _ _ => exact hcode hcode'
  | sameSecond h _ | drained h _ _ _ | collects h _ _ | looks h _ _ _ | started h
  | collected h _ | ticks h _ _ | ticked h _ _ | background h | applies h _ | culls h _ _
  | culled h _ | quiet h _ | handles h _ | resets h | readable h _ _ | accept h _
  | socketEvent h _ =>
      rw [h]
      rfl

theorem timeOuts_listening (now : Int) : (p.timeOuts cfg now).listening = p.listening := by
  rw [timeOuts_eq]

theorem Lives.running (h : Process.Running start p) (hdown : p.listening.shuttingDown = true →
    SIGHUP ∈ p.acted) (hruns : p.place.ended = false) : Lives start p :=
  ⟨fun _ => h, fun hended => absurd (hruns.symm.trans hended) (by decide), hdown⟩

theorem Lives.ended (h : Process.Ended start p) (hdown : p.listening.shuttingDown = true →
    SIGHUP ∈ p.acted) (hended : p.place.ended = true) : Lives start p :=
  ⟨fun hruns => absurd (hruns.symm.trans hended) (by decide), fun _ => h, hdown⟩

/-- A step that has nothing to do with signals or the listeners. -/
theorem Lives.kept (h : Lives start p) (hbefore : p.place.ended = false)
    (hsignal : p'.sSignal = p.sSignal) (hacted : p'.acted = p.acted)
    (hlistening : p'.listening = p.listening) (hruns : p'.place.ended = false) :
    Lives start p' := by
  obtain ⟨hslot, hacts, hlist, honce⟩ := h.runs hbefore
  refine .running ⟨?_, ?_, ?_, ?_⟩ ?_ hruns
  · rw [hsignal]
    exact hslot
  · rw [hacted]
    exact hacts
  · rw [hlistening, hacted]
    exact hlist
  · rw [hacted]
    exact honce
  · rw [hlistening, hacted]
    exact h.down

theorem Process.Running.hup_mem (h : Process.Running start p) (hacted : p.acted ≠ []) :
    SIGHUP ∈ p.acted := by
  obtain ⟨sig, hsig⟩ := List.exists_mem_of_ne_nil p.acted hacted
  rw [← h.acted sig hsig]
  exact hsig

theorem Process.Running.not_term (h : Process.Running start p) : SIGTERM ∉ p.acted :=
  fun hterm => absurd (h.acted SIGTERM hterm) (by decide)

/-- What deleting the listeners comes to. -/
theorem Process.Running.reaches (h : Process.Running start p) (hfresh : start.Fresh)
    (place : Place) :
    p.listening.deleteAll.reaches place
      = if p.acted ≠ [] ∧ start.ports ≠ [] then .crashed else place := by
  rw [h.listening]
  by_cases hacted : p.acted = []
  · rw [if_pos hacted, if_neg fun hboth => hboth.1 hacted]
    exact hfresh.reaches_deleteAll place
  · rw [if_neg hacted, hfresh.reaches_again]
    by_cases hports : start.ports = []
    · rw [if_pos hports, if_neg fun hboth => hboth.2 hports]
    · rw [if_neg hports, if_pos ⟨hacted, hports⟩]

/-- A SIGHUP is acted on. -/
theorem Process.Running.sighup (h : Process.Running start p) (hfresh : start.Fresh) :
    Lives start { p with
      acted := p.acted ++ [SIGHUP]
      listening := p.listening.gracefulShutdown
      place := p.listening.gracefulShutdown.reaches .handled } := by
  have hmem : SIGHUP ∈ p.acted ++ [SIGHUP] := List.mem_append_right _ (List.mem_singleton_self _)
  have hplace : p.listening.gracefulShutdown.reaches .handled
      = if p.acted ≠ [] ∧ start.ports ≠ [] then .crashed else .handled :=
    h.reaches hfresh .handled
  have hlist := h.listening
  by_cases hagain : p.acted ≠ [] ∧ start.ports ≠ []
  · -- a second one, and the first has left a listener
    rw [if_pos hagain] at hplace
    refine .ended ⟨by simp, ?_, ?_⟩ (fun _ => hmem) (by rw [hplace]; rfl)
    · show p.listening.gracefulShutdown.reaches .handled = _
      rw [hplace, if_pos ⟨hmem, hagain.2⟩]
    · rintro - (hports | hlen)
      · exact absurd hports hagain.2
      · have hpos := List.length_pos_iff.2 hagain.1
        rw [List.length_append, List.length_singleton] at hlen
        omega
  · rw [if_neg hagain] at hplace
    refine .running ⟨h.slot, ?_, ?_, ?_⟩ (fun _ => hmem) (by rw [hplace]; rfl)
    · intro sig hsig
      rcases List.mem_append.1 hsig with hsig | hsig
      · exact h.acted sig hsig
      · exact List.mem_singleton.1 hsig
    · show p.listening.gracefulShutdown = _
      rw [if_neg (by simp)]
      by_cases hacted : p.acted = []
      · rw [hlist, if_pos hacted]
      · rw [hlist, if_neg hacted]
        exact Listening.gracefulShutdown_again (not_not.1 fun hports => hagain ⟨hacted, hports⟩)
    · intro hports
      have hacted : p.acted = [] := not_not.1 fun hacted => hagain ⟨hacted, hports⟩
      show (p.acted ++ [SIGHUP]).length ≤ 1
      rw [hacted]
      exact Nat.le_refl 1

/-- `Exit` is called, with the signal it is for, or behind the last connection. -/
theorem Process.Running.exit (h : Process.Running start p) (hfresh : start.Fresh)
    (hdown : p.listening.shuttingDown = true → SIGHUP ∈ p.acted) (term : List Int)
    (hterm : term = [] ∧ p.acted ≠ [] ∧ p.server.localConnections = [] ∨ term = [SIGTERM]) :
    Lives start { p with
      acted := p.acted ++ term
      listening := p.listening.exit
      place := p.listening.exit.reaches (.exited (if term = [] then 0 else SIGTERM)) } := by
  have hplace := h.reaches hfresh (.exited (if term = [] then 0 else SIGTERM))
  have hhup : SIGHUP ∈ p.acted ++ term ↔ p.acted ≠ [] := by
    constructor
    · intro hmem hacted
      rw [hacted, List.nil_append] at hmem
      rcases hterm with ⟨rfl, -⟩ | rfl
      · cases hmem
      · exact absurd hmem (by decide)
    · exact fun hacted => List.mem_append_left _ (h.hup_mem hacted)
  have hsigterm : SIGTERM ∈ p.acted ++ term ↔ term ≠ [] := by
    rcases hterm with ⟨rfl, -⟩ | rfl
    · simp [h.not_term]
    · simp
  refine .ended ⟨?_, ?_, ?_⟩ (fun hd => List.mem_append_left _ (hdown hd)) (exit_ended _ p)
  · rcases hterm with ⟨rfl, hacted, -⟩ | rfl
    · simpa using hacted
    · simp
  · show p.listening.deleteAll.reaches _ = _
    rw [hplace]
    simp only [hhup, hsigterm, ne_eq]
    split
    · rfl
    · split
      · rfl
      · rfl
  · intro hnot _
    rcases hterm with ⟨-, -, hnone⟩ | rfl
    · exact hnone
    · exact absurd (List.mem_append_right _ (List.mem_singleton_self _)) hnot

theorem Lives.step (h : Lives start p) (hfresh : start.Fresh) {e : LoopEvent}
    (hstep : p.step cfg std e = some p') : Lives start p' := by
  have hbefore : p.place.ended = false := ended_step hstep
  have hruns := h.runs hbefore
  have hhead : ∀ now, (p.timeOuts cfg now).sSignal = p.sSignal ∧
      (p.timeOuts cfg now).acted = p.acted := fun now => by
    rw [timeOuts_eq]
    exact ⟨rfl, rfl⟩
  cases loop_cases hstep with
  | sameSecond _ _ | collects _ _ _ | looks _ _ _ _ =>
      exact h.kept hbefore (hhead _).1 (hhead _).2 (timeOuts_listening _) rfl
  | @drained now _ _ hdown hnone =>
      have hacted : p.acted ≠ [] := List.ne_nil_of_mem (h.down hdown)
      have hhead' : Process.Running start (p.timeOuts cfg now) := by
        rw [timeOuts_eq]
        exact ⟨hruns.slot, hruns.acted, hruns.listening, hruns.once⟩
      have hend := hhead'.exit hfresh
        (by rw [timeOuts_listening, (hhead now).2]; exact h.down) []
        (Or.inl ⟨rfl, (hhead now).2.symm ▸ hacted, hnone⟩)
      rw [List.append_nil] at hend
      exact hend
  | started _ | collected _ _ | background _ | applies _ _ | culled _ _ | quiet _ _ =>
      exact h.kept hbefore rfl rfl rfl rfl
  | ticked _ _ hnext =>
      refine h.kept hbefore rfl rfl rfl ?_
      rcases hnext with rfl | rfl
      · rfl
      · rfl
  | ticks _ _ _ | culls _ _ _ | readable _ _ _ | accept _ _ | socketEvent _ _ | delete _ _
  | timer _ _ _ => exact h.kept hbefore rfl rfl rfl hbefore
  | handles _ hsignal =>
      obtain ⟨listening, place, heq, -, ⟨hsig, rfl, rfl⟩ | ⟨hsig, rfl, rfl⟩ | ⟨hhup, hterm, -⟩⟩ :=
        signalHandler_eq p.sSignal p
      · rw [heq]
        have hacts := hruns.sighup hfresh
        rw [← hsig] at hacts
        exact hacts
      · rw [heq]
        have hexits := hruns.exit hfresh h.down [SIGTERM] (Or.inr rfl)
        rw [if_neg (List.cons_ne_nil _ _), ← hsig] at hexits
        exact hexits
      · rcases hruns.slot with h | h | h
        · exact absurd h hsignal
        · exact absurd h hhup
        · exact absurd h hterm
  | resets _ => exact .running ⟨Or.inl rfl, hruns.acted, hruns.listening, hruns.once⟩ h.down rfl
  | signal _ _ hsig =>
      exact .running ⟨Or.inr hsig, hruns.acted, hruns.listening, hruns.once⟩ h.down hbefore

theorem lives_run {time : Int} {es : List LoopEvent} (hfresh : start.Fresh)
    (h : Process.run cfg std time start es = some p) : Lives start p := by
  refine history_invariant (I := fun _ p => Lives start p) h ?_
    fun hp hstep => hp.step hfresh hstep
  have hnone : ∀ sig ∈ (Process.start time start).acted, sig = SIGHUP := fun sig hsig => by
    cases hsig
  refine .running ⟨Or.inl rfl, hnone, rfl, fun _ => Nat.zero_le 1⟩ (fun hdown => ?_) rfl
  rw [Process.start, hfresh.up] at hdown
  cases hdown

/-! ## The end -/

/-- A connection is accepted and a SIGHUP is caught in the same turn. -/
def acceptThenHup : List LoopEvent :=
  [.next, .clock 1000, .readable 0, .accept 1000 ⟨5, true, true⟩, .accept 1000 ⟨-1, true, true⟩,
    .signal SIGHUP] ++ List.replicate 5 .next

/-- Two turns thirty seconds later, and one in the second behind. -/
def thirtySeconds : List LoopEvent :=
  .clock 1030 :: List.replicate 11 .next ++ .clock 1030 :: List.replicate 4 .next ++ [.clock 1031]

/-- One listener, on port 80. -/
def port80 : Listening := ⟨[⟨0, [], 80⟩], [], 1, false, false⟩

theorem port80_fresh : port80.Fresh := ⟨rfl, by decide, by decide⟩

end Hottpd
