import Hottpd.Proofs.Endings

/-!
# A graceful shutdown ends

Behind a SIGHUP no listener is watched, so no connection is accepted, and those
there are keep their age: a round of turns behind the time the youngest of them
has left, none is there at the top of the loop. In the next turn that comes in a
new second `Run` sees that and exits, or dies of a listener it deletes again.

The process may end before, by another signal.
-/

namespace Hottpd

open Runs

variable {cfg : RunConfig} {std : TimerSort} {p p' : Process}

/-! ## What is closed stays closed -/

/-- If it is shut down, the listeners are destroyed, and none is being read. -/
structure Closed (p : Process) : Prop where
  listeners : p.listening.shuttingDown = true →
    ∀ id ∈ p.listening.ports.map ListenSocket.id, id ∈ p.listening.destroyed
  accepting : p.listening.shuttingDown = true → p.server.pc ≠ .accepting

theorem Closed.unwatched (h : Closed p) (hdown : p.listening.shuttingDown = true) (id : Nat) :
    p.listening.watches id = false := by
  rw [Listening.watches, Bool.and_eq_false_iff, decide_eq_false_iff_not, decide_eq_false_iff_not,
    not_not]
  by_cases hid : id ∈ p.listening.ports.map ListenSocket.id
  · exact Or.inr (h.listeners hdown id hid)
  · exact Or.inl hid

theorem Closed.kept (h : Closed p) (hlistening : p'.listening = p.listening)
    (hpc : p'.server.pc = .accepting → p.server.pc = .accepting) : Closed p' := by
  refine ⟨?_, ?_⟩
  · rw [hlistening]
    exact h.listeners
  · rw [hlistening]
    exact fun hdown hacc => h.accepting hdown (hpc hacc)

/-- Where no listener is being read. -/
theorem Closed.quiet (hlisteners : p'.listening.shuttingDown = true →
      ∀ id ∈ p'.listening.ports.map ListenSocket.id, id ∈ p'.listening.destroyed)
    (hpc : p'.server.pc = .idle) : Closed p' :=
  ⟨hlisteners, fun _ hacc => by rw [hpc] at hacc; cases hacc⟩

theorem Closed.step (h : Closed p) (hloop : Looping cfg p) {e : LoopEvent}
    (hstep : p.step cfg std e = some p') : Closed p' := by
  have hfits := hloop.fits
  cases loop_cases hstep with
  | @sameSecond now hplace _ | @collects now hplace _ _ | @looks now _ hplace _ _ _ =>
      refine Closed.quiet ?_ (hloop.timeOuts hplace now).2.1
      show (p.timeOuts cfg now).listening.shuttingDown = true → _
      rw [timeOuts_listening]
      exact h.listeners
  | @drained now hplace _ _ _ =>
      refine Closed.quiet (fun _ id hid => ?_) (hloop.timeOuts hplace now).2.1
      cases hid
  | started _ | collected _ _ | ticks _ _ _ | ticked _ _ _ | background _ | culled _ _ | quiet _ _
  | resets _ | signal _ _ _ | timer _ _ _ => exact h.kept rfl id
  | applies _ hserver =>
      obtain ⟨-, hserver⟩ := Option.ite_none_right_eq_some.1 hserver
      cases hserver
      exact h.kept rfl fun hacc => by cases hacc
  | culls _ _ hserver =>
      refine h.kept rfl fun hacc => ?_
      cases applyNext_cases hserver with
      | returns _ _ | first _ _ | calls _ _ | destroys _ _ | called _ => cases hacc
  | handles hplace _ =>
      rw [hplace] at hfits
      obtain ⟨listening, place, heq, -, ⟨-, rfl, -⟩ | ⟨-, rfl, -⟩ | ⟨-, -, rfl, -⟩⟩ :=
        signalHandler_eq p.sSignal p
      · rw [heq]
        exact Closed.quiet (fun _ id hid => List.mem_append_right _ hid) hfits
      · rw [heq]
        exact Closed.quiet (fun _ id hid => by cases hid) hfits
      · rw [heq]
        exact h.kept rfl id
  | @readable id server _ hwatched _ =>
      refine ⟨h.listeners, fun hdown => ?_⟩
      rw [h.unwatched hdown id] at hwatched
      cases hwatched
  | accept _ hserver =>
      obtain ⟨hpc, -⟩ := Option.ite_none_right_eq_some.1 hserver
      exact ⟨h.listeners, fun hdown => absurd hpc (h.accepting hdown)⟩
  | socketEvent _ hserver =>
      obtain ⟨-, hserver⟩ := Option.ite_none_right_eq_some.1 hserver
      cases hserver
      exact h.kept rfl id
  | @delete c server _ hserver => exact h.kept rfl fun hacc => (delete_pc hserver).symm.trans hacc

/-- There is no way back. -/
theorem shuttingDown_step (hdown : p.listening.shuttingDown = true) {e : LoopEvent}
    (hstep : p.step cfg std e = some p') : p'.listening.shuttingDown = true := by
  cases loop_cases hstep with
  | @sameSecond now _ _ | @collects now _ _ _ | @looks now _ _ _ _ _ | @drained now _ _ _ _ =>
      show (p.timeOuts cfg now).listening.shuttingDown = true
      rw [timeOuts_listening]
      exact hdown
  | handles _ _ =>
      obtain ⟨listening, place, heq, -, ⟨-, rfl, -⟩ | ⟨-, rfl, -⟩ | ⟨-, -, rfl, -⟩⟩ :=
        signalHandler_eq p.sSignal p
      · rw [heq]
        rfl
      · rw [heq]
        exact hdown
      · rw [heq]
        exact hdown
  | started _ | collected _ _ | ticks _ _ _ | ticked _ _ _ | background _ | applies _ _
  | culls _ _ _ | culled _ _ | quiet _ _ | resets _ | signal _ _ _ | readable _ _ _ | accept _ _
  | socketEvent _ _ | delete _ _ | timer _ _ _ => exact hdown

/-! ## The connections there are at the shutdown -/

/-- Each connection is one of those, and as old. -/
def Remain (s s' : Server) : Prop :=
  ∀ c o', s'.objects c = some o' → ∃ o, s.objects c = some o ∧ o'.age = o.age

theorem Remain.refl (s : Server) : Remain s s := fun _ o h => ⟨o, h, rfl⟩

theorem Remain.trans {s s' s'' : Server} (h : Remain s s') (h' : Remain s' s'') :
    Remain s s'' := by
  intro c o'' ho''
  obtain ⟨o', ho', hage'⟩ := h' c o'' ho''
  obtain ⟨o, ho, hage⟩ := h c o' ho'
  exact ⟨o, ho, hage'.trans hage⟩

theorem Thins.remain {s s' : Server} (h : Thins s s') : Remain s s' := by
  intro c o' ho'
  obtain ⟨o, ho, hage, -⟩ := h c o' ho'
  exact ⟨o, ho, hage⟩

theorem thins_head (now : Int) : Thins p.server (p.timeOuts cfg now).server := by
  rw [timeOuts_eq]
  dsimp only
  split
  · exact thins_timeOuts now _ _
  · exact .refl _

theorem remain_step (h : Closed p) (hdown : p.listening.shuttingDown = true) {e : LoopEvent}
    (hstep : p.step cfg std e = some p') : Remain p.server p'.server := by
  cases loop_cases hstep with
  | @sameSecond now _ _ | @collects now _ _ _ | @looks now _ _ _ _ _ | @drained now _ _ _ _ =>
      exact (thins_head now).remain
  | started _ | collected _ _ | ticks _ _ _ | ticked _ _ _ | background _ | culled _ _ | quiet _ _
  | resets _ | signal _ _ _ | timer _ _ _ => exact .refl _
  | handles _ _ =>
      obtain ⟨listening, place, heq, -⟩ := signalHandler_eq p.sSignal p
      rw [heq]
      exact .refl _
  | applies _ hserver | readable _ _ hserver =>
      obtain ⟨-, hserver⟩ := Option.ite_none_right_eq_some.1 hserver
      cases hserver
      exact .refl _
  | culls _ _ hserver => exact (thins_applies (applyNext_cases hserver)).remain
  | accept _ hserver =>
      obtain ⟨hpc, -⟩ := Option.ite_none_right_eq_some.1 hserver
      exact absurd hpc (h.accepting hdown)
  | @socketEvent c _ _ hserver =>
      obtain ⟨-, hserver⟩ := Option.ite_none_right_eq_some.1 hserver
      cases hserver
      intro d o' ho'
      by_cases hd : d = c
      · subst hd
        simp only [Server.modify, Function.update_self] at ho'
        obtain ⟨o, ho, rfl⟩ := Option.map_eq_some_iff.1 ho'
        exact ⟨o, ho, rfl⟩
      · simp only [Server.modify, Function.update_of_ne hd] at ho'
        exact ⟨o', ho', rfl⟩
  | delete _ hserver =>
      obtain ⟨hlive, -, rfl⟩ := delete_step hserver
      exact (thins_delete hlive).remain

/-! ## The end -/

/-- The turns behind a shutdown, the last first: a round of them from the deadline on, and one
more in another second. -/
def Elapsed (cfg : RunConfig) (deadline : Int) (turns : List Int) : Prop :=
  ∃ later now past earlier, turns = later ++ now :: past ++ earlier ∧
    past.length = (max cfg.timeoutCullFrequency 1).toNat ∧ (∀ t ∈ past, deadline ≤ t) ∧
    past.head? ≠ some now

/-- A step outside the head of a turn leaves the clock. -/
theorem clock_step {e : LoopEvent} (hstep : p.step cfg std e = some p') :
    (∃ now, e = .clock now ∧ p.place = .top ∧ p'.clock = now :: p.clock) ∨
      p'.clock = p.clock := by
  cases loop_cases hstep with
  | @sameSecond now hplace _ | @collects now hplace _ _ | @looks now _ hplace _ _ _
  | @drained now hplace _ _ _ =>
      refine Or.inl ⟨now, rfl, hplace, ?_⟩
      show (p.timeOuts cfg now).clock = _
      rw [timeOuts_eq]
  | handles _ _ =>
      obtain ⟨listening, place, heq, -⟩ := signalHandler_eq p.sSignal p
      rw [heq]
      exact Or.inr rfl
  | started _ | collected _ _ | ticks _ _ _ | ticked _ _ _ | background _ | applies _ _
  | culls _ _ _ | culled _ _ | quiet _ _ | resets _ | signal _ _ _ | readable _ _ _ | accept _ _
  | socketEvent _ _ | delete _ _ | timer _ _ _ => exact Or.inr rfl

/-- If no connection is left, `Run` calls `Exit` in the first turn of a new second. -/
theorem drained_step {now : Int} (hnone : ∀ c, p.server.objects c = none)
    (hloop : Looping cfg p) (hdown : p.listening.shuttingDown = true) (hnow : now ≠ p.time)
    (hstep : p.step cfg std (.clock now) = some p') : p'.place.ended = true := by
  have hempty : p.place = .top → (p.timeOuts cfg now).server.localConnections = [] := by
    intro hplace
    refine List.eq_nil_iff_forall_not_mem.2 fun c hc => ?_
    have hlive := ((hloop.timeOuts hplace now).1.sound.locals c).1 hc
    obtain ⟨o', ho'⟩ := Option.isSome_iff_exists.1 hlive
    obtain ⟨o, ho, -⟩ := thins_head now c o' ho'
    rw [hnone c] at ho
    cases ho
  cases loop_cases hstep with
  | sameSecond _ hsame => exact absurd hsame hnow
  | drained _ _ _ _ => exact exit_ended 0 _
  | collects hplace _ hstays | looks hplace _ hstays _ =>
      exact absurd (hempty hplace) (hstays hdown)

/-- At the top of the loop behind a round of turns from the deadline on. -/
theorem AllYoung.none_left (h : AllYoung cfg p) (hloop : Looping cfg p) (hplace : p.place = .top)
    {deadline : Int} {past behind : List Int} (hclock : p.clock = past ++ behind)
    (hround : past.length = (max cfg.timeoutCullFrequency 1).toNat)
    (hlate : ∀ t ∈ past, deadline ≤ t)
    (hdeadline : ∀ c o, p.server.objects c = some o →
      o.age + cfg.limits.timeoutTotalLifetime ≤ deadline) (c : Nat) :
    p.server.objects c = none := by
  cases hc : p.server.objects c with
  | none => rfl
  | some o =>
      obtain ⟨t, ht, hlt⟩ := (h c o hc (Or.inr (by rw [hplace]; rfl))).age
      have hbound := hloop.bound
      have hmem : t ∈ past := by
        rw [Process.recent, hclock] at ht
        rw [List.take_append_of_le_length (by omega)] at ht
        exact List.mem_of_mem_take ht
      have hle := hlate t hmem
      have hage := hdeadline c o hc
      omega

/-- What holds of every state behind a shutdown at `p`. -/
structure Drains (cfg : RunConfig) (start : Listening) (deadline : Int) (p p' : Process) :
    Prop where
  lives : Lives start p'
  down : p'.listening.shuttingDown = true
  looping : Looping cfg p'
  closed : Closed p'
  young : AllYoung cfg p'
  remain : Remain p.server p'.server
  ends : ∃ turns, p'.clock = turns ++ p.clock ∧
    (Elapsed cfg deadline turns → p'.place.ended = true)

variable {start : Listening}

theorem Drains.step {deadline : Int} {q : Process} (h : Drains cfg start deadline p q)
    (hfresh : start.Fresh)
    (htotal : 0 < cfg.limits.timeoutTotalLifetime) (hidle : 0 < cfg.limits.timeoutIdleLifetime)
    (hdeadline : ∀ c o, p.server.objects c = some o →
      o.age + cfg.limits.timeoutTotalLifetime ≤ deadline)
    {e : LoopEvent} (hstep : q.step cfg std e = some p') :
    Drains cfg start deadline p p' := by
  obtain ⟨hlives, hdown, hloop, hclosed, hyoung, hremain, turns, hclock, hends⟩ := h
  have hmono : q.Monotone e := by
    cases e with
    | accept now a =>
        cases loop_cases hstep with
        | accept _ hserver =>
            obtain ⟨hpc, -⟩ := Option.ite_none_right_eq_some.1 hserver
            exact absurd hpc (hclosed.accepting hdown)
    | clock _ | next | signal _ | readable _ | socketEvent _ | delete _ | timer _ => trivial
  refine ⟨hlives.step hfresh hstep, shuttingDown_step hdown hstep, hloop.step hstep,
    hclosed.step hloop hstep, hyoung.step hloop htotal hidle hmono hstep,
    hremain.trans (remain_step hclosed hdown hstep), ?_⟩
  have hrunning : ¬Elapsed cfg deadline turns := fun helapsed =>
    absurd ((hends helapsed).symm.trans (ended_step hstep)) (by decide)
  rcases clock_step hstep with ⟨now, rfl, hplace, hnew⟩ | hsame
  · refine ⟨now :: turns, by rw [hnew, hclock, List.cons_append], ?_⟩
    rintro ⟨later, now', past, earlier, hturns, hround, hlate, hother⟩
    cases later with
    | cons t later =>
        rw [List.cons_append, List.cons_append, List.cons.injEq] at hturns
        exact absurd ⟨later, now', past, earlier, hturns.2, hround, hlate, hother⟩ hrunning
    | nil =>
        rw [List.nil_append, List.cons_append, List.cons.injEq] at hturns
        obtain ⟨rfl, hturns⟩ := hturns
        rw [hturns, List.append_assoc] at hclock
        have hnone := hyoung.none_left hloop hplace hclock hround hlate fun c o ho => by
          obtain ⟨o₀, ho₀, hage⟩ := hremain c o ho
          rw [hage]
          exact hdeadline c o₀ ho₀
        -- the second is another one than that of the turn before
        have hnow : now ≠ q.time := by
          rintro rfl
          refine hother ?_
          rcases hloop.now with hhead | ⟨hempty, -⟩
          · have hpos : 0 < past.length := by omega
            rw [← hhead, hclock, List.head?_append_of_ne_nil _ (List.ne_nil_of_length_pos hpos)]
          · rw [hempty] at hclock
            have hnil := congrArg List.length hclock
            rw [List.length_append, List.length_nil] at hnil
            omega
        exact drained_step hnone hloop hdown hnow hstep
  · exact ⟨turns, hsame.trans hclock, fun helapsed => absurd helapsed hrunning⟩

theorem closed_run {time : Int} {es : List LoopEvent} (hup : start.shuttingDown = false)
    (h : Process.run cfg std time start es = some p) : Closed p := by
  have hstart : Closed (Process.start time start) := by
    constructor
    · intro hdown
      rw [Process.start, hup] at hdown
      cases hdown
    · intro hdown
      rw [Process.start, hup] at hdown
      cases hdown
  exact (history_invariant (I := fun _ p => Looping cfg p ∧ Closed p) h
    ⟨.start time start, hstart⟩
    fun hkept hstep => ⟨hkept.1.step hstep, hkept.2.step hkept.1 hstep⟩).2

/-- Behind a graceful shutdown no connection is accepted, and the process ends: at the latest
with the turn behind a round of turns in which the connections there were at the shutdown have
reached their lifetime, if it comes in another second. If there was a listener, it dies of
deleting it again; otherwise it exits. -/
theorem shutdown_drains (cfg : RunConfig) (std : TimerSort) (time : Int) (listening : Listening)
    (es later : List LoopEvent) (p p' : Process) (deadline : Int) (hfresh : listening.Fresh)
    (htotal : 0 < cfg.limits.timeoutTotalLifetime) (hidle : 0 < cfg.limits.timeoutIdleLifetime)
    (hmono : EachStep (Process.step cfg std) (Process.start time listening) es Process.Monotone)
    (h : Process.run cfg std time listening es = some p) (hdown : p.listening.shuttingDown = true)
    (hdeadline : ∀ c o, p.server.objects c = some o →
      o.age + cfg.limits.timeoutTotalLifetime ≤ deadline)
    (h' : Runs.run (Process.step cfg std) p later = some p') :
    (∀ c, (p'.server.objects c).isSome → (p.server.objects c).isSome) ∧
      ∃ turns, p'.clock = turns ++ p.clock ∧
        (Elapsed cfg deadline turns → p'.place = if listening.ports = []
          then .exited (if SIGTERM ∈ p'.acted then SIGTERM else 0) else .crashed) := by
  obtain ⟨hloop, hyoung⟩ := allYoung_run htotal hidle hmono h
  have hstart : Drains cfg listening deadline p p := by
    refine ⟨lives_run hfresh h, hdown, hloop, closed_run hfresh.up h, hyoung, .refl _, [], rfl, ?_⟩
    rintro ⟨later, now, past, earlier, hturns, -⟩
    simp at hturns
  have hdrains : Drains cfg listening deadline p p' :=
    history_invariant (I := fun _ q => Drains cfg listening deadline p q) h' hstart
      fun hq hstep => hq.step hfresh htotal hidle hdeadline hstep
  obtain ⟨turns, hturns, hends⟩ := hdrains.ends
  refine ⟨fun c hc => ?_, turns, hturns, fun helapsed => ?_⟩
  · obtain ⟨o', ho'⟩ := Option.isSome_iff_exists.1 hc
    obtain ⟨o, ho, -⟩ := hdrains.remain c o' ho'
    rw [ho]
    rfl
  · rw [(hdrains.lives.ends (hends helapsed)).place]
    simp only [hdrains.lives.down hdrains.down, true_and, ne_eq, ite_not]

theorem shutdown_drains_thirtySeconds :
    ∃ p p', Process.run twoTurns insertionStd 1000 port80 acceptThenHup = some p ∧
      Runs.run (Process.step twoTurns insertionStd) p thirtySeconds = some p' ∧
      p.server.localConnections = [0] ∧ p'.server.destroyed = [0] ∧ p'.place = .crashed := by
  have hmono : EachStep (Process.step twoTurns insertionStd) (Process.start 1000 port80)
      acceptThenHup Process.Monotone := by
    decide
  obtain ⟨p, hrun, hlocal, hage, hdown⟩ : ∃ p, Process.run twoTurns insertionStd 1000
      port80 acceptThenHup = some p ∧
      p.server.localConnections = [0] ∧ (p.server.objects 0).map Client.age = some 1000 ∧
      p.listening.shuttingDown = true := ⟨_, rfl, rfl, rfl, rfl⟩
  have hdeadline : ∀ c o, p.server.objects c = some o → o.age + 30 ≤ 1030 := by
    intro c o ho
    have hmem := ((looping_run hrun).server.sound.locals c).2 (by rw [ho]; rfl)
    rw [hlocal, List.mem_singleton] at hmem
    rw [hmem] at ho
    rw [ho, Option.map_some, Option.some.injEq] at hage
    omega
  obtain ⟨p', hrun', hgone, hclock⟩ : ∃ p', Runs.run (Process.step twoTurns insertionStd) p
      thirtySeconds = some p' ∧ p'.server.destroyed = [0] ∧
      p'.clock = [1031, 1030, 1030] ++ p.clock := by
    cases hrun
    exact ⟨_, rfl, rfl, rfl⟩
  obtain ⟨-, turns, hturns, hends⟩ := shutdown_drains twoTurns insertionStd 1000 port80
    acceptThenHup thirtySeconds p p' 1030 port80_fresh (by decide) (by decide) hmono hrun hdown
    hdeadline hrun'
  obtain rfl : turns = [1031, 1030, 1030] := List.append_cancel_right (hturns.symm.trans hclock)
  exact ⟨p, p', hrun, hrun', hlocal, hgone,
    hends ⟨[], 1031, [1030, 1030], [], rfl, rfl, by decide, by decide⟩⟩

end Hottpd
