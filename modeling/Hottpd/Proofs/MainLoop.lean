import Hottpd.Core.MainLoop
import Hottpd.Proofs.Culls
import Hottpd.Proofs.TimerQueue

/-!
# The steps of the main loop

One inversion says what a step of the loop does, to the connections, the timers,
the listeners and the signal; everything about runs of the loop is derived from
it. The connections and the timers only take steps of their own here, so what
those keep the loop keeps.
-/

namespace Hottpd

open Runs

variable {cfg : RunConfig} {std : TimerSort} {p p' : Process}

/-! ## Steps -/

/-- What a step does. -/
inductive Loops (cfg : RunConfig) (std : TimerSort) (p : Process) : LoopEvent → Process → Prop
  | sameSecond {now : Int} (hplace : p.place = .top) (hnow : now = p.time) :
      Loops cfg std p (.clock now) { p.timeOuts cfg now with place := .dispatching }
  | drained {now : Int} (hplace : p.place = .top) (hnow : now ≠ p.time)
      (hdown : p.listening.shuttingDown = true)
      (hnone : (p.timeOuts cfg now).server.localConnections = []) :
      Loops cfg std p (.clock now) ((p.timeOuts cfg now).exit 0)
  | collects {now : Int} (hplace : p.place = .top) (hnow : now ≠ p.time)
      (hstays : p.listening.shuttingDown = true →
        (p.timeOuts cfg now).server.localConnections ≠ []) :
      Loops cfg std p (.clock now) { p.timeOuts cfg now with place := .collecting }
  | looks {now : Int} {timers : TimerQueue} (hplace : p.place = .top) (hnow : now ≠ p.time)
      (hstays : p.listening.shuttingDown = true →
        (p.timeOuts cfg now).server.localConnections ≠ [])
      (htimers : p.timers.step std (.tickTimers now) = some timers) :
      Loops cfg std p (.clock now)
        { p.timeOuts cfg now with timers := timers, place := .ticking }
  | started (hplace : p.place = .starting) : Loops cfg std p .next { p with place := .top }
  | collected {timers : TimerQueue} (hplace : p.place = .collecting)
      (htimers : p.timers.step std (.tickTimers p.time) = some timers) :
      Loops cfg std p .next { p with timers := timers, place := .ticking }
  | ticks {timers : TimerQueue} (hplace : p.place = .ticking) (hloop : p.timers.loop.isSome)
      (htimers : p.timers.step std .next = some timers) :
      Loops cfg std p .next { p with timers := timers }
  | ticked {place : Place} (hplace : p.place = .ticking) (hloop : p.timers.loop = none)
      (hnext : place = .background ∨ place = .dispatching) :
      Loops cfg std p .next { p with place := place }
  | background (hplace : p.place = .background) :
      Loops cfg std p .next { p with place := .dispatching }
  | applies {server : Server} (hplace : p.place = .dispatching)
      (hserver : p.server.step cfg.limits .apply = some server) :
      Loops cfg std p .next { p with server := server, place := .culling }
  | culls {server : Server} (hplace : p.place = .culling) (hpc : p.server.pc ≠ .idle)
      (hserver : p.server.step cfg.limits .applyNext = some server) :
      Loops cfg std p .next { p with server := server }
  | culled (hplace : p.place = .culling) (hpc : p.server.pc = .idle) :
      Loops cfg std p .next { p with place := .signals }
  | quiet (hplace : p.place = .signals) (hsignal : p.sSignal = 0) :
      Loops cfg std p .next { p with place := .top }
  | handles (hplace : p.place = .signals) (hsignal : p.sSignal ≠ 0) :
      Loops cfg std p .next (p.signalHandler p.sSignal)
  | resets (hplace : p.place = .handled) :
      Loops cfg std p .next { p with sSignal := 0, place := .top }
  | signal {sig : Int} (hplace : p.place ≠ .starting) (hruns : p.place.ended = false)
      (hsig : sig = SIGHUP ∨ sig = SIGTERM) :
      Loops cfg std p (.signal sig) { p with sSignal := sig, caught := p.caught ++ [sig] }
  | readable {id : Nat} {server : Server} (hplace : p.place = .dispatching)
      (hwatched : p.listening.watches id = true)
      (hserver : p.server.step cfg.limits .readable = some server) :
      Loops cfg std p (.readable id) { p with server := server }
  | accept {now : Int} {a : Accepted} {server : Server} (hplace : p.place = .dispatching)
      (hserver : p.server.step cfg.limits (.accept p.time a) = some server) :
      Loops cfg std p (.accept now a)
        { p with server := server.modify p.server.next fun o => { o with age := now } }
  | socketEvent {c : Nat} {server : Server} (hplace : p.place = .dispatching)
      (hserver : p.server.step cfg.limits (.socketEvent p.time c) = some server) :
      Loops cfg std p (.socketEvent c) { p with server := server }
  | delete {c : Nat} {server : Server} (hcode : p.runsCode = true)
      (hserver : p.server.step cfg.limits (.delete c) = some server) :
      Loops cfg std p (.delete c) { p with server := server }
  | timer {e : TimerEvent} {timers : TimerQueue} (hcode : p.runsCode = true)
      (hmodule : e.byModule = true) (htimers : p.timers.step std e = some timers) :
      Loops cfg std p (.timer e) { p with timers := timers }

/-- Up to the test for a new second only these are written. -/
theorem timeOuts_eq (cfg : RunConfig) (now : Int) (p : Process) :
    p.timeOuts cfg now = { p with
      time := now
      clock := now :: p.clock
      times := if cfg.timeoutCullFrequency < p.times + 1 then 1 else p.times + 1
      server := if cfg.timeoutCullFrequency < p.times + 1
        then p.server.localConnections.foldl (timeOut cfg.limits now) p.server else p.server } := by
  unfold Process.timeOuts
  dsimp only
  split <;> rfl

theorem turn_cases {now : Int} (hplace : p.place = .top) (h : p.turn cfg std now = some p') :
    Loops cfg std p (.clock now) p' := by
  have hdown : (p.timeOuts cfg now).listening = p.listening := by rw [timeOuts_eq]
  have htimers : (p.timeOuts cfg now).timers = p.timers := by rw [timeOuts_eq]
  have htime : (p.timeOuts cfg now).time = now := by rw [timeOuts_eq]
  rw [Process.turn] at h
  by_cases hnow : now = p.time
  · rw [if_pos hnow] at h
    cases h
    exact .sameSecond hplace hnow
  rw [if_neg hnow] at h
  by_cases hend : (p.timeOuts cfg now).listening.shuttingDown = true ∧
      (p.timeOuts cfg now).server.localConnections.length = 0
  · rw [if_pos hend] at h
    cases h
    exact .drained hplace hnow (hdown ▸ hend.1) (List.length_eq_zero_iff.1 hend.2)
  rw [if_neg hend] at h
  have hstays : p.listening.shuttingDown = true →
      (p.timeOuts cfg now).server.localConnections ≠ [] := fun hd hnone =>
    hend ⟨hdown.symm ▸ hd, List.length_eq_zero_iff.2 hnone⟩
  by_cases hhour : now % 3600 = 0
  · rw [if_pos hhour] at h
    cases h
    exact .collects hplace hnow hstays
  · rw [if_neg hhour, Process.tickTimers] at h
    obtain ⟨timers, hstep, rfl⟩ := Option.map_eq_some_iff.1 h
    rw [htimers, htime] at hstep
    exact .looks hplace hnow hstays hstep

theorem next_cases (h : p.next cfg std = some p') : Loops cfg std p .next p' := by
  rw [Process.next] at h
  cases hplace : p.place with
  | top | exited _ | crashed =>
      rw [hplace] at h
      cases h
  | starting =>
      rw [hplace] at h
      cases h
      exact .started hplace
  | collecting =>
      rw [hplace] at h
      obtain ⟨timers, hstep, rfl⟩ := Option.map_eq_some_iff.1 h
      exact .collected hplace hstep
  | ticking =>
      rw [hplace] at h
      dsimp only at h
      by_cases hloop : p.timers.loop.isSome
      · rw [if_pos hloop] at h
        obtain ⟨timers, hstep, rfl⟩ := Option.map_eq_some_iff.1 h
        rw [← hplace]
        exact .ticks hplace hloop hstep
      · rw [if_neg hloop] at h
        have hnone : p.timers.loop = none := Option.not_isSome_iff_eq_none.1 hloop
        split at h
        · cases h
          exact .ticked hplace hnone (Or.inl rfl)
        · cases h
          exact .ticked hplace hnone (Or.inr rfl)
  | background =>
      rw [hplace] at h
      cases h
      exact .background hplace
  | dispatching =>
      rw [hplace] at h
      obtain ⟨server, hstep, rfl⟩ := Option.map_eq_some_iff.1 h
      exact .applies hplace hstep
  | culling =>
      rw [hplace] at h
      dsimp only at h
      by_cases hpc : p.server.pc = .idle
      · rw [if_pos hpc] at h
        cases h
        exact .culled hplace hpc
      · rw [if_neg hpc] at h
        obtain ⟨server, hstep, rfl⟩ := Option.map_eq_some_iff.1 h
        rw [← hplace]
        exact .culls hplace hpc hstep
  | signals =>
      rw [hplace] at h
      dsimp only at h
      by_cases hsignal : p.sSignal = 0
      · rw [if_pos hsignal] at h
        cases h
        exact .quiet hplace hsignal
      · rw [if_neg hsignal] at h
        cases h
        exact .handles hplace hsignal
  | handled =>
      rw [hplace] at h
      cases h
      exact .resets hplace

/-- Deleting listeners `Run` comes where it was to go, or dies. -/
theorem Listening.reaches_cases (place : Place) (s : Listening) :
    s.reaches place = place ∨ s.reaches place = .crashed := by
  unfold Listening.reaches
  split
  · exact Or.inl rfl
  · exact Or.inr rfl

theorem exit_ended (status : Int) (p : Process) : (p.exit status).place.ended = true := by
  show (p.listening.exit.reaches (.exited status)).ended = true
  rcases p.listening.exit.reaches_cases (.exited status) with h | h
  · rw [h]
    rfl
  · rw [h]
    rfl

/-- `SignalHandler` writes these only, and comes to the modules or to the end. -/
theorem signalHandler_eq (sig : Int) (p : Process) :
    ∃ listening place, p.signalHandler sig =
        { p with acted := p.acted ++ [sig], listening := listening, place := place } ∧
      (place = .handled ∨ place.ended = true) ∧
      (sig = SIGHUP ∧ listening = p.listening.gracefulShutdown ∧
          place = listening.reaches .handled ∨
        sig = SIGTERM ∧ listening = p.listening.exit ∧ place = listening.reaches (.exited sig) ∨
        sig ≠ SIGHUP ∧ sig ≠ SIGTERM ∧ listening = p.listening ∧ place = .handled) := by
  unfold Process.signalHandler
  dsimp only
  split
  · next hhup =>
      refine ⟨_, _, rfl, ?_, Or.inl ⟨hhup, rfl, rfl⟩⟩
      rcases p.listening.gracefulShutdown.reaches_cases .handled with h | h
      · exact Or.inl h
      · exact Or.inr (by rw [h]; rfl)
  split
  · next hterm =>
      exact ⟨_, _, rfl, Or.inr (exit_ended sig p), Or.inr (Or.inl ⟨hterm, rfl, rfl⟩)⟩
  · next hhup hterm => exact ⟨_, _, rfl, Or.inl rfl, Or.inr (Or.inr ⟨hhup, hterm, rfl, rfl⟩)⟩

theorem loop_cases {e : LoopEvent} (h : p.step cfg std e = some p') : Loops cfg std p e p' := by
  cases e with
  | clock now =>
      obtain ⟨hplace, h⟩ := Option.ite_none_right_eq_some.1 h
      exact turn_cases hplace h
  | next => exact next_cases h
  | signal sig =>
      rw [Process.step] at h
      split at h
      · cases h
      · cases h
      · cases h
      · next hstarting hexited hcrashed =>
          obtain ⟨hsig, h⟩ := Option.ite_none_right_eq_some.1 h
          cases h
          refine .signal hstarting ?_ hsig
          cases hplace : p.place with
          | exited status => exact absurd hplace (hexited status)
          | crashed => exact absurd hplace hcrashed
          | starting | top | collecting | ticking | background | dispatching | culling | signals
          | handled => rfl
  | readable id =>
      obtain ⟨⟨hplace, hwatched⟩, h⟩ := Option.ite_none_right_eq_some.1 h
      obtain ⟨server, hstep, rfl⟩ := Option.map_eq_some_iff.1 h
      exact .readable hplace hwatched hstep
  | accept now a =>
      obtain ⟨hplace, h⟩ := Option.ite_none_right_eq_some.1 h
      obtain ⟨server, hstep, rfl⟩ := Option.map_eq_some_iff.1 h
      exact .accept hplace hstep
  | socketEvent c =>
      obtain ⟨hplace, h⟩ := Option.ite_none_right_eq_some.1 h
      obtain ⟨server, hstep, rfl⟩ := Option.map_eq_some_iff.1 h
      exact .socketEvent hplace hstep
  | delete c =>
      obtain ⟨hcode, h⟩ := Option.ite_none_right_eq_some.1 h
      obtain ⟨server, hstep, rfl⟩ := Option.map_eq_some_iff.1 h
      exact .delete hcode hstep
  | timer e =>
      obtain ⟨⟨hcode, hmodule⟩, h⟩ := Option.ite_none_right_eq_some.1 h
      obtain ⟨timers, hstep, rfl⟩ := Option.map_eq_some_iff.1 h
      exact .timer hcode hmodule hstep

/-! ## What a step of the connections leaves of the place -/

section Connections

variable {l : Limits} {s s' : Server}

theorem accept_pc {time : Int} {a : Accepted} (h : s.step l (.accept time a) = some s') :
    s'.pc = .idle ∨ s'.pc = .accepting := by
  obtain ⟨hpc, h⟩ := Option.ite_none_right_eq_some.1 h
  cases h
  have hadd : (addClient time a.watched s).pc = s.pc := by
    rw [addClient]
    split
    · rfl
    · exact (still_delete (by simp)).pc
  rw [acceptTurn]
  split
  · exact Or.inl rfl
  split
  · exact Or.inl rfl
  · dsimp only
    split
    · split
      · exact Or.inr (hadd.trans hpc)
      · exact Or.inr hpc
    · exact Or.inl rfl

theorem delete_step {c : Nat} (h : s.step l (.delete c) = some s') :
    (s.objects c).isSome ∧ s.pc.mayDelete = true ∧ s' = deleteClient c s := by
  obtain ⟨⟨hmay, hlive⟩, h⟩ := Option.ite_none_right_eq_some.1 h
  cases h
  exact ⟨hlive, hmay, rfl⟩

theorem delete_pc {c : Nat} (h : s.step l (.delete c) = some s') : s'.pc = s.pc := by
  obtain ⟨hlive, -, rfl⟩ := delete_step h
  exact (still_delete hlive).pc

/-- Setting the `age` of a connection is nothing to the containers. -/
theorem Invariant.age (h : Invariant l s) (c : Nat) (now : Int) :
    Invariant l (s.modify c fun o => { o with age := now }) := by
  cases hc : s.objects c with
  | none =>
      have hsame : (s.modify c fun o => { o with age := now }) = s := by
        rw [Server.modify, hc, Option.map_none, Function.update_eq_self_iff.2 hc.symm]
      rw [hsame]
      exact h
  | some o =>
      have hlive : (s.objects c).isSome := by rw [hc]; rfl
      exact h.still ⟨h.sound.modify (fun _ => rfl) hlive, rfl, rfl, rfl, List.prefix_refl _⟩

end Connections

/-! ## The place of the loop and that of the connections -/

def Place.Fits (s : Server) : Place → Prop
  | .dispatching => s.pc = .idle ∨ s.pc = .accepting
  | .culling => s.pc ≠ .accepting ∧ (s.pc = .idle → s.cullList = [])
  | .starting | .top | .collecting | .ticking | .background | .signals | .handled | .exited _
  | .crashed => s.pc = .idle

/-- Behind `SignalHandler` and at the end nothing happens to the connections. -/
theorem Place.Fits.idle {s : Server} {place : Place} (h : s.pc = .idle)
    (hplace : place = .handled ∨ place.ended = true) : place.Fits s := by
  cases place with
  | handled | exited _ | crashed => exact h
  | starting | top | collecting | ticking | background | dispatching | culling | signals =>
      rcases hplace with hplace | hplace
      · cases hplace
      · cases hplace

/-- Whether `Run` has begun a turn. -/
def Place.inTurn : Place → Bool
  | .starting | .top => false
  | .collecting | .ticking | .background | .dispatching | .culling | .signals | .handled
  | .exited _ | .crashed => true

/-- Where `Run` is it is with the connections; `times` counts the turns since the time-outs. -/
structure Looping (cfg : RunConfig) (p : Process) : Prop where
  server : Invariant cfg.limits p.server
  fits : p.place.Fits p.server
  now : p.clock.head? = some p.time ∨ p.clock = [] ∧ p.place.inTurn = false
  pos : 1 ≤ p.times
  bound : p.times ≤ max cfg.timeoutCullFrequency 1

theorem Looping.start (time : Int) (listening : Listening) :
    Looping cfg (Process.start time listening) where
  server := .new
  fits := rfl
  now := Or.inr ⟨rfl, rfl⟩
  pos := Int.le_refl 1
  bound := Int.le_max_right _ _

/-- A step that leaves the clock. -/
theorem Looping.kept (h : Looping cfg p) (hclock : p'.clock = p.clock) (htime : p'.time = p.time)
    (htimes : p'.times = p.times) (hserver : Invariant cfg.limits p'.server)
    (hfits : p'.place.Fits p'.server) (hturn : p.place.inTurn = false → p'.place.inTurn = false) :
    Looping cfg p' := by
  refine ⟨hserver, hfits, ?_, ?_, ?_⟩
  · rw [hclock, htime]
    exact h.now.imp id fun hnone => ⟨hnone.1, hturn hnone.2⟩
  · rw [htimes]
    exact h.pos
  · rw [htimes]
    exact h.bound

/-- The head of a turn. -/
theorem Looping.timeOuts (h : Looping cfg p) (hplace : p.place = .top) (now : Int) :
    Invariant cfg.limits (p.timeOuts cfg now).server ∧ (p.timeOuts cfg now).server.pc = .idle ∧
      (p.timeOuts cfg now).clock.head? = some (p.timeOuts cfg now).time ∧
      1 ≤ (p.timeOuts cfg now).times ∧
      (p.timeOuts cfg now).times ≤ max cfg.timeoutCullFrequency 1 := by
  have hidle : p.server.pc = .idle := by
    have hfits := h.fits
    rw [hplace] at hfits
    exact hfits
  have hsound := timeOuts_sound now p.server.localConnections h.server.sound
  have hpos := h.pos
  rw [timeOuts_eq]
  by_cases hpass : cfg.timeoutCullFrequency < p.times + 1
  · simp only [if_pos hpass]
    exact ⟨h.server.still hsound, hsound.2.pc.trans hidle, rfl, Int.le_refl 1,
      Int.le_max_right _ _⟩
  · simp only [if_neg hpass]
    refine ⟨h.server, hidle, rfl, by omega, ?_⟩
    have hle := Int.le_max_left cfg.timeoutCullFrequency 1
    omega

theorem Looping.step (h : Looping cfg p) {e : LoopEvent} (hstep : p.step cfg std e = some p') :
    Looping cfg p' := by
  have hfits := h.fits
  cases loop_cases hstep with
  | @sameSecond now hplace _ | @collects now hplace _ _ | @looks now _ hplace _ _ _ =>
      obtain ⟨hserver, hidle, hnow, hpos, hbound⟩ := h.timeOuts hplace now
      refine ⟨hserver, ?_, Or.inl hnow, hpos, hbound⟩
      first
        | exact hidle
        | exact Or.inl hidle
  | @drained now hplace _ _ =>
      obtain ⟨hserver, hidle, hnow, hpos, hbound⟩ := h.timeOuts hplace now
      exact ⟨hserver, .idle hidle (Or.inr (exit_ended 0 _)), Or.inl hnow, hpos, hbound⟩
  | started hplace | quiet hplace _ | resets hplace =>
      rw [hplace] at hfits
      exact h.kept rfl rfl rfl h.server hfits fun _ => rfl
  | collected hplace _ =>
      rw [hplace] at hfits
      exact h.kept rfl rfl rfl h.server hfits fun hout => by rw [hplace] at hout; cases hout
  | background hplace =>
      rw [hplace] at hfits
      refine h.kept rfl rfl rfl h.server (Or.inl hfits) fun hout => ?_
      rw [hplace] at hout
      cases hout
  | ticked hplace _ hnext =>
      rw [hplace] at hfits
      refine h.kept rfl rfl rfl h.server ?_ fun hout => by rw [hplace] at hout; cases hout
      rcases hnext with rfl | rfl
      · exact hfits
      · exact Or.inl hfits
  | ticks _ _ _ => exact h.kept rfl rfl rfl h.server hfits id
  | applies hplace hserver =>
      refine h.kept rfl rfl rfl (h.server.step hserver) ?_ fun hout => ?_
      · obtain ⟨-, hserver⟩ := Option.ite_none_right_eq_some.1 hserver
        cases hserver
        exact ⟨by simp, fun hpc => by cases hpc⟩
      · rw [hplace] at hout
        cases hout
  | culls hplace hpc hserver =>
      refine h.kept rfl rfl rfl (h.server.step hserver) ?_ id
      show p.place.Fits _
      rw [hplace]
      cases applyNext_cases hserver with
      | returns _ hlist => exact ⟨by simp, fun _ => hlist⟩
      | first _ _ | calls _ _ | destroys _ _ | called _ =>
          exact ⟨by simp, fun hpc => by cases hpc⟩
  | culled hplace hpc =>
      exact h.kept rfl rfl rfl h.server hpc fun hout => by rw [hplace] at hout; cases hout
  | handles hplace _ =>
      rw [hplace] at hfits
      obtain ⟨listening, place, heq, hplace', -⟩ := signalHandler_eq p.sSignal p
      rw [heq]
      exact h.kept rfl rfl rfl h.server (.idle hfits hplace') fun hout => by
        rw [hplace] at hout
        cases hout
  | signal _ _ _ => exact h.kept rfl rfl rfl h.server hfits id
  | readable hplace _ hserver =>
      refine h.kept rfl rfl rfl (h.server.step hserver) ?_ id
      show p.place.Fits _
      obtain ⟨-, hserver⟩ := Option.ite_none_right_eq_some.1 hserver
      cases hserver
      rw [hplace]
      exact Or.inr rfl
  | accept hplace hserver =>
      refine h.kept rfl rfl rfl ((h.server.step hserver).age _ _) ?_ id
      show p.place.Fits _
      rw [hplace]
      have hpc := accept_pc hserver
      exact hpc
  | socketEvent hplace hserver =>
      refine h.kept rfl rfl rfl (h.server.step hserver) ?_ id
      obtain ⟨-, hserver⟩ := Option.ite_none_right_eq_some.1 hserver
      cases hserver
      exact hfits
  | @delete c server hcode hserver =>
      refine h.kept rfl rfl rfl (h.server.step hserver) ?_ id
      show p.place.Fits server
      have hpc := delete_pc hserver
      cases hplace : p.place with
      | culling =>
          rw [Process.runsCode, hplace] at hcode
          rw [hplace] at hfits
          refine ⟨hpc ▸ hfits.1, fun hidle => ?_⟩
          rw [← hpc, hidle] at hcode
          cases hcode
      | starting | top | collecting | ticking | background | dispatching | signals | handled
      | exited _ | crashed =>
          rw [hplace] at hfits
          rw [Place.Fits, hpc]
          exact hfits
  | timer _ _ _ => exact h.kept rfl rfl rfl h.server hfits id

theorem looping_run {time : Int} {listening : Listening} {es : List LoopEvent}
    (h : Process.run cfg std time listening es = some p) : Looping cfg p :=
  history_invariant (I := fun _ p => Looping cfg p) h (.start time listening)
    fun hp hstep => hp.step hstep

end Hottpd
