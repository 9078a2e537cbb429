import Hottpd.Proofs.MainLoop

/-!
# No connection outlives its time by more than a round of turns

`Run` looks for old connections once in `TimeoutCullFrequency` turns, and the
`Apply` of the same turn destroys what it gives up. So at the top of the loop a
connection is one that was young enough in one of the last turns: in the turn of
the last time-outs, or in the turn it was accepted in. The same is true of the
last event of its socket.

The turns are counted by `times`, and the invariant speaks of as many entries of
`clock`.
-/

namespace Hottpd

open Runs

variable {cfg : RunConfig} {std : TimerSort} {p p' : Process}

/-! ## What becomes of connections and their times -/

section Connections

variable {l : Limits} {s s' s'' : Server}

/-- The connection was there, with the times it has in `o'`. -/
def Server.Had (s : Server) (c : Nat) (o' : Client) : Prop :=
  ∃ o, s.objects c = some o ∧ o'.age = o.age ∧ o'.lastSocketEvent = o.lastSocketEvent ∧
    (o'.quitting = false → o.quitting = false)

/-- Connections go, or quit, and keep their times. -/
def Thins (s s' : Server) : Prop := ∀ c o', s'.objects c = some o' → s.Had c o'

theorem Thins.refl (s : Server) : Thins s s := fun _ o h => ⟨o, h, rfl, rfl, id⟩

theorem Thins.of_objects (h : s'.objects = s.objects) : Thins s s' := by
  intro c o' ho'
  rw [h] at ho'
  exact ⟨o', ho', rfl, rfl, id⟩

theorem Thins.trans (h : Thins s s') (h' : Thins s' s'') : Thins s s'' := by
  intro c o'' ho''
  obtain ⟨o', ho', hage', hlast', hquit'⟩ := h' c o'' ho''
  obtain ⟨o, ho, hage, hlast, hquit⟩ := h c o' ho'
  exact ⟨o, ho, hage'.trans hage, hlast'.trans hlast, fun hq => hquit (hquit' hq)⟩

theorem thins_delete {c : Nat} (hlive : (s.objects c).isSome) : Thins s (deleteClient c s) := by
  obtain ⟨o, hc⟩ := Option.isSome_iff_exists.1 hlive
  rw [deleteClient_eq hc]
  intro d o' ho'
  by_cases hd : d = c
  · subst hd
    simp only [Function.update_self, Option.some.injEq] at ho'
    exact ⟨o, hc, by rw [← ho'], by rw [← ho'], fun hq => by rw [← ho'] at hq; cases hq⟩
  · simp only [Function.update_of_ne hd] at ho'
    exact ⟨o', ho', rfl, rfl, id⟩

theorem thins_timeOut (time : Int) (c : Nat) : Thins s (timeOut l time s c) := by
  cases hc : s.objects c with
  | none =>
      rw [timeOut, hc]
      exact .refl s
  | some o =>
      have hlive : (s.objects c).isSome := by rw [hc]; rfl
      rw [timeOut, hc]
      dsimp only
      split
      · exact thins_delete hlive
      split
      · exact thins_delete hlive
      · exact .refl s

theorem thins_timeOuts (time : Int) (cs : List Nat) : ∀ s : Server,
    Thins s (cs.foldl (timeOut l time) s) := by
  induction cs with
  | nil => exact Thins.refl
  | cons c cs ih => exact fun s => (thins_timeOut time c).trans (ih _)

/-- A connection that has been looked at and does not quit is not too old. -/
theorem timeOut_young {time : Int} {c : Nat} {o' : Client}
    (ho' : (timeOut l time s c).objects c = some o') (hquit : o'.quitting = false) :
    time < o'.age + l.timeoutTotalLifetime ∧ time < o'.lastSocketEvent + l.timeoutIdleLifetime := by
  rw [timeOut] at ho'
  cases hc : s.objects c with
  | none =>
      rw [hc] at ho'
      dsimp only at ho'
      rw [hc] at ho'
      cases ho'
  | some o =>
      have hdeleted : ∀ o', (deleteClient c s).objects c = some o' → o'.quitting = true := by
        intro o' ho'
        rw [deleteClient_eq hc] at ho'
        simp only [Function.update_self, Option.some.injEq] at ho'
        rw [← ho']
      rw [hc] at ho'
      dsimp only at ho'
      split at ho'
      · rw [hdeleted o' ho'] at hquit
        cases hquit
      split at ho'
      · rw [hdeleted o' ho'] at hquit
        cases hquit
      · next hage hidle =>
          rw [hc, Option.some.injEq] at ho'
          subst ho'
          omega

theorem timeOuts_young {time : Int} {c : Nat} {o' : Client} (cs : List Nat) : ∀ {s : Server},
    c ∈ cs → (cs.foldl (timeOut l time) s).objects c = some o' → o'.quitting = false →
    time < o'.age + l.timeoutTotalLifetime ∧
      time < o'.lastSocketEvent + l.timeoutIdleLifetime := by
  induction cs with
  | nil =>
      intro s hmem
      cases hmem
  | cons d cs ih =>
      intro s hmem ho' hquit
      by_cases hcs : c ∈ cs
      · exact ih hcs ho' hquit
      · obtain rfl : c = d := (List.mem_cons.1 hmem).resolve_right hcs
        -- what the rest of the pass does leaves its times
        obtain ⟨o, ho, hage, hlast, hstill⟩ := thins_timeOuts time cs (timeOut l time s c) c o' ho'
        rw [hage, hlast]
        exact timeOut_young ho (hstill hquit)

theorem thins_applies (h : Applies l s s') : Thins s s' := by
  cases h with
  | returns _ _ | first _ _ | calls _ _ | called _ => exact .of_objects rfl
  | @destroys c m _ _ =>
      intro d o' ho'
      by_cases hd : d = c
      · subst hd
        simp [destroyFirst] at ho'
      · simp only [destroyFirst, Function.update_of_ne hd] at ho'
        exact ⟨o', ho', rfl, rfl, id⟩

/-- Behind `Add` there is one connection more, with the times it is made at. -/
theorem addClient_objects {time : Int} {watched : Bool} {c : Nat} {o' : Client}
    (ho' : (addClient time watched s).objects c = some o') :
    (c = s.next ∧ o'.age = time ∧ o'.lastSocketEvent = time) ∨
      (c ≠ s.next ∧ s.Had c o') := by
  have hmade : ∀ o, Function.update s.objects s.next (some (Client.new time)) c = some o →
      (c = s.next ∧ o.age = time ∧ o.lastSocketEvent = time) ∨
        (c ≠ s.next ∧ s.objects c = some o) := by
    intro o ho
    by_cases hc : c = s.next
    · rw [hc, Function.update_self, Option.some.injEq] at ho
      rw [← ho]
      exact Or.inl ⟨hc, rfl, rfl⟩
    · rw [Function.update_of_ne hc] at ho
      exact Or.inr ⟨hc, ho⟩
  rw [addClient] at ho'
  split at ho'
  · rcases hmade o' ho' with hnew | ⟨hc, hold⟩
    · exact Or.inl hnew
    · exact Or.inr ⟨hc, o', hold, rfl, rfl, id⟩
  · obtain ⟨o, ho, hage, hlast, hquit⟩ := thins_delete (by simp) c o' ho'
    rcases hmade o ho with ⟨hc, hage', hlast'⟩ | ⟨hc, hold⟩
    · exact Or.inl ⟨hc, hage.trans hage', hlast.trans hlast'⟩
    · exact Or.inr ⟨hc, o, hold, hage, hlast, hquit⟩

theorem accept_objects {time : Int} {a : Accepted} {c : Nat} {o' : Client} (hsound : Sound l s)
    (h : s.step l (.accept time a) = some s') (ho' : s'.objects c = some o') :
    (c = s.next ∧ o'.age = time ∧ o'.lastSocketEvent = time) ∨
      (c ≠ s.next ∧ s.Had c o') := by
  obtain ⟨hpc, h⟩ := Option.ite_none_right_eq_some.1 h
  cases h
  have hold : ∀ {o}, s.objects c = some o → c ≠ s.next := by
    rintro o ho rfl
    rw [hsound.fresh] at ho
    cases ho
  have hsame : s.objects c = some o' → (c = s.next ∧ o'.age = time ∧ o'.lastSocketEvent = time) ∨
      (c ≠ s.next ∧ s.Had c o') :=
    fun ho => Or.inr ⟨hold ho, o', ho, rfl, rfl, id⟩
  rw [acceptTurn] at ho'
  split at ho'
  · exact hsame ho'
  split at ho'
  · exact hsame ho'
  · dsimp only at ho'
    have hboth : (if -1 < a.nfd ∧ a.named then addClient time a.watched s else s).objects c
        = some o' := by
      split at ho' <;> exact ho'
    split at hboth
    · exact addClient_objects hboth
    · exact hsame hboth

/-- With the `age` set. -/
theorem aged_objects {time now : Int} {a : Accepted} {c : Nat} {o' : Client} (hsound : Sound l s)
    (h : s.step l (.accept time a) = some s')
    (ho' : (s'.modify s.next fun o => { o with age := now }).objects c = some o') :
    (c = s.next ∧ o'.age = now ∧ o'.lastSocketEvent = time) ∨
      (c ≠ s.next ∧ s.Had c o') := by
  by_cases hc : c = s.next
  · rw [hc, Server.modify] at ho'
    simp only [Function.update_self] at ho'
    obtain ⟨o, ho, rfl⟩ := Option.map_eq_some_iff.1 ho'
    rcases accept_objects hsound h ho with ⟨-, -, hlast⟩ | ⟨hne, -⟩
    · exact Or.inl ⟨hc, rfl, hlast⟩
    · exact absurd rfl hne
  · rw [Server.modify] at ho'
    simp only [Function.update_of_ne hc] at ho'
    exact Or.inr ((accept_objects hsound h ho').resolve_left fun hnew => hc hnew.1)

end Connections

/-! ## The invariant -/

/-- The turns since the time-outs, that of the time-outs among them. -/
def Process.recent (p : Process) : List Int := p.clock.take p.times.toNat

/-- In some turn it was not too old, and in some turn it was not idle too long. -/
structure Young (l : Limits) (turns : List Int) (o : Client) : Prop where
  age : ∃ t ∈ turns, t < o.age + l.timeoutTotalLifetime
  event : ∃ t ∈ turns, t < o.lastSocketEvent + l.timeoutIdleLifetime

theorem Young.mono {l : Limits} {turns turns' : List Int} {o o' : Client} (h : Young l turns o)
    (hturns : ∀ t ∈ turns, t ∈ turns') (hage : o'.age = o.age)
    (hlast : o'.lastSocketEvent = o.lastSocketEvent) : Young l turns' o' := by
  obtain ⟨⟨t, ht, hlt⟩, ⟨u, hu, hlt'⟩⟩ := h
  exact ⟨⟨t, hturns t ht, by rw [hage]; exact hlt⟩, ⟨u, hturns u hu, by rw [hlast]; exact hlt'⟩⟩

/-- Where nothing waits for `Apply` but what has been given up behind the last one. -/
def Place.settled : Place → Bool
  | .starting | .top | .signals | .handled => true
  | .collecting | .ticking | .background | .dispatching | .culling | .exited _ | .crashed => false

theorem Place.settled_of_ended {place : Place} (h : place.ended = true) :
    place.settled = false := by
  cases place with
  | exited _ | crashed => rfl
  | starting | top | collecting | ticking | background | dispatching | culling | signals
  | handled => cases h

def AllYoung (cfg : RunConfig) (p : Process) : Prop :=
  ∀ c o, p.server.objects c = some o → (o.quitting = false ∨ p.place.settled = true) →
    Young cfg.limits p.recent o

/-- A step outside the head of a turn in which connections only go, or quit. -/
theorem AllYoung.thins (h : AllYoung cfg p) (hclock : p'.clock = p.clock)
    (htimes : p'.times = p.times) (hthins : Thins p.server p'.server)
    (hsettled : p'.place.settled = true → p.place.settled = true) : AllYoung cfg p' := by
  intro c o' ho' hcase
  obtain ⟨o, ho, hage, hlast, hquit⟩ := hthins c o' ho'
  have hrecent : p'.recent = p.recent := by rw [Process.recent, hclock, htimes, Process.recent]
  rw [hrecent]
  refine (h c o ho ?_).mono (fun _ ht => ht) hage hlast
  exact hcase.imp hquit hsettled

/-- The head of a turn: a connection that has not been given up is young enough now, if the
connections have been looked at, and otherwise it is what it was. -/
theorem AllYoung.timeOuts (h : AllYoung cfg p) (hloop : Looping cfg p)
    {now : Int} {c : Nat} {o : Client} (ho : (p.timeOuts cfg now).server.objects c = some o)
    (hquit : o.quitting = false) : Young cfg.limits (p.timeOuts cfg now).recent o := by
  rw [timeOuts_eq] at ho ⊢
  rw [Process.recent]
  dsimp only at ho ⊢
  by_cases hpass : cfg.timeoutCullFrequency < p.times + 1
  · rw [if_pos hpass] at ho ⊢
    have hlocal : c ∈ p.server.localConnections := by
      obtain ⟨o₀, ho₀, -⟩ := thins_timeOuts now p.server.localConnections p.server c o ho
      rw [hloop.server.sound.locals, ho₀]
      rfl
    obtain ⟨hage, hlast⟩ := timeOuts_young _ hlocal ho hquit
    exact ⟨⟨now, by simp, hage⟩, ⟨now, by simp, hlast⟩⟩
  · rw [if_neg hpass] at ho ⊢
    have hpos := hloop.pos
    have htake : (p.times + 1).toNat = p.times.toNat + 1 := by omega
    rw [htake, List.take_succ_cons]
    exact (h c o ho (Or.inl hquit)).mono (fun t ht => List.mem_cons_of_mem now ht) rfl rfl

/-- The turn that runs is one of the last. -/
theorem Looping.time_mem (h : Looping cfg p) (hturn : p.place.inTurn = true) :
    p.time ∈ p.recent := by
  have hnow : p.clock.head? = some p.time := h.now.resolve_right fun hnone => by
    rw [hturn] at hnone
    cases hnone.2
  obtain ⟨clock, hclock⟩ := List.head?_eq_some_iff.1 hnow
  have hpos := h.pos
  obtain ⟨n, hn⟩ : ∃ n, p.times.toNat = n + 1 := ⟨p.times.toNat - 1, by omega⟩
  rw [Process.recent, hclock, hn, List.take_succ_cons]
  exact List.mem_cons_self

/-- The clock is not behind the turn when a connection is accepted. -/
def Process.Monotone (p : Process) : LoopEvent → Prop
  | .accept now _ => p.time ≤ now
  | .clock _ | .next | .signal _ | .readable _ | .socketEvent _ | .delete _ | .timer _ => True

instance (p : Process) : (e : LoopEvent) → Decidable (p.Monotone e)
  | .accept now _ => inferInstanceAs (Decidable (p.time ≤ now))
  | .clock _ | .next | .signal _ | .readable _ | .socketEvent _ | .delete _ | .timer _ =>
      inferInstanceAs (Decidable True)

theorem AllYoung.step (h : AllYoung cfg p) (hloop : Looping cfg p)
    (htotal : 0 < cfg.limits.timeoutTotalLifetime) (hidle : 0 < cfg.limits.timeoutIdleLifetime)
    {e : LoopEvent} (hmono : p.Monotone e) (hstep : p.step cfg std e = some p') :
    AllYoung cfg p' := by
  cases loop_cases hstep with
  | sameSecond _ _ | collects _ _ _ | looks _ _ _ _ =>
      intro c o ho hcase
      refine h.timeOuts hloop ho (hcase.resolve_right fun hs => ?_)
      cases hs
  | drained _ _ _ _ =>
      intro c o ho hcase
      refine h.timeOuts hloop ho (hcase.resolve_right ?_)
      rw [Place.settled_of_ended (exit_ended 0 _)]
      exact Bool.false_ne_true
  | started hplace | quiet hplace _ | resets hplace =>
      exact h.thins rfl rfl (.refl _) fun _ => by rw [hplace]; rfl
  | collected _ _ | background _ =>
      exact h.thins rfl rfl (.refl _) fun hs => by cases hs
  | ticks _ _ _ | signal _ _ _ | timer _ _ _ => exact h.thins rfl rfl (.refl _) id
  | ticked _ _ hnext =>
      refine h.thins rfl rfl (.refl _) fun hs => ?_
      rcases hnext with rfl | rfl
      · cases hs
      · cases hs
  | applies _ hserver =>
      obtain ⟨-, hserver⟩ := Option.ite_none_right_eq_some.1 hserver
      cases hserver
      exact h.thins rfl rfl (.of_objects rfl) fun hs => by cases hs
  | culls hplace _ hserver =>
      refine h.thins rfl rfl (thins_applies (applyNext_cases hserver)) id
  | culled hplace hpc =>
      -- behind `Apply` none quits
      have hfits := hloop.fits
      rw [hplace] at hfits
      have hempty : p.server.cullList = [] := hfits.2 hpc
      intro c o ho _
      refine h c o ho (Or.inl ?_)
      by_contra hquit
      have hmem := (hloop.server.sound.cull c).2 ⟨o, ho, by simpa using hquit⟩
      rw [hempty] at hmem
      cases hmem
  | handles hplace _ =>
      obtain ⟨listening, place, heq, -⟩ := signalHandler_eq p.sSignal p
      rw [heq]
      exact h.thins rfl rfl (.refl _) fun _ => by rw [hplace]; rfl
  | readable _ _ hserver =>
      obtain ⟨-, hserver⟩ := Option.ite_none_right_eq_some.1 hserver
      cases hserver
      exact h.thins rfl rfl (.of_objects rfl) id
  | @accept now a server hplace hserver =>
      have hmem := hloop.time_mem (by rw [hplace]; rfl)
      intro c o' ho' hcase
      rcases aged_objects hloop.server.sound hserver ho' with ⟨-, hage, hlast⟩ | hold
      · have hle : p.time ≤ now := hmono
        exact ⟨⟨p.time, hmem, by omega⟩, ⟨p.time, hmem, by omega⟩⟩
      · obtain ⟨-, o, ho, hage, hlast, hquit⟩ := hold
        exact (h c o ho (hcase.imp hquit id)).mono (fun _ ht => ht) hage hlast
  | @socketEvent c server hplace hserver =>
      have hmem := hloop.time_mem (by rw [hplace]; rfl)
      obtain ⟨-, hserver⟩ := Option.ite_none_right_eq_some.1 hserver
      cases hserver
      intro d o' ho' hcase
      by_cases hd : d = c
      · subst hd
        simp only [Server.modify, Function.update_self] at ho'
        obtain ⟨o, ho, rfl⟩ := Option.map_eq_some_iff.1 ho'
        have hyoung := h d o ho hcase
        exact ⟨hyoung.age, ⟨p.time, hmem, by show p.time < p.time + _; omega⟩⟩
      · simp only [Server.modify, Function.update_of_ne hd] at ho'
        exact h d o' ho' hcase
  | delete _ hserver =>
      obtain ⟨hlive, -, rfl⟩ := delete_step hserver
      exact h.thins rfl rfl (thins_delete hlive) id

theorem allYoung_run {time : Int} {listening : Listening} {es : List LoopEvent}
    (htotal : 0 < cfg.limits.timeoutTotalLifetime) (hidle : 0 < cfg.limits.timeoutIdleLifetime)
    (hmono : EachStep (Process.step cfg std) (Process.start time listening) es Process.Monotone)
    (h : Process.run cfg std time listening es = some p) : Looping cfg p ∧ AllYoung cfg p := by
  have hstart : AllYoung cfg (Process.start time listening) := fun c o ho => by cases ho
  refine hmono.invariant (I := fun p => Looping cfg p ∧ AllYoung cfg p)
    ⟨.start time listening, hstart⟩ ?_ es p (List.prefix_refl _) h
  rintro s e s' ⟨hloop, hyoung⟩ hmono hstep
  exact ⟨hloop.step hstep, hyoung.step hloop htotal hidle hmono hstep⟩

/-- Whatever modules and clients do, if the lifetimes are positive and the clock is not behind the
turn when a connection is accepted: at the top of the loop a connection is one that in one of the
last `TimeoutCullFrequency` turns was within its lifetime, and in one of them had not been idle
too long. -/
theorem connections_timed_out (cfg : RunConfig) (std : TimerSort) (time : Int)
    (listening : Listening) (es : List LoopEvent) (p : Process)
    (htotal : 0 < cfg.limits.timeoutTotalLifetime) (hidle : 0 < cfg.limits.timeoutIdleLifetime)
    (hmono : EachStep (Process.step cfg std) (Process.start time listening) es Process.Monotone)
    (h : Process.run cfg std time listening es = some p) (hplace : p.place = .top) :
    ∀ c ∈ p.server.localConnections, ∃ o, p.server.objects c = some o ∧
      (∃ t ∈ p.clock.take (max cfg.timeoutCullFrequency 1).toNat,
        t < o.age + cfg.limits.timeoutTotalLifetime) ∧
      ∃ t ∈ p.clock.take (max cfg.timeoutCullFrequency 1).toNat,
        t < o.lastSocketEvent + cfg.limits.timeoutIdleLifetime := by
  obtain ⟨hloop, hyoung⟩ := allYoung_run htotal hidle hmono h
  intro c hc
  obtain ⟨o, ho⟩ := Option.isSome_iff_exists.1 ((hloop.server.sound.locals c).1 hc)
  have hyoung := hyoung c o ho (Or.inr (by rw [hplace]; rfl))
  have hbound := hloop.bound
  have hsub : ∀ t ∈ p.recent, t ∈ p.clock.take (max cfg.timeoutCullFrequency 1).toNat :=
    fun t ht => (List.take_subset_take_left p.clock (by omega)) ht
  obtain ⟨⟨t, ht, hlt⟩, ⟨u, hu, hlt'⟩⟩ := hyoung
  exact ⟨o, ho, ⟨t, hsub t ht, hlt⟩, ⟨u, hsub u hu, hlt'⟩⟩

/-- A look at the connections in every second turn. -/
def twoTurns : RunConfig := ⟨⟨10, 1024, 1024, true, 30, 5, 1⟩, 2⟩

/-- The first connection is idle for six seconds, the second is new in the turn of the look. -/
def idleAndNew : List LoopEvent :=
  [.next, .clock 1000, .readable 0, .accept 1000 ⟨5, true, true⟩, .accept 1000 ⟨-1, true, true⟩,
    .next, .next, .next, .next, .clock 1006, .next, .next, .readable 0,
    .accept 1006 ⟨6, true, true⟩, .accept 1006 ⟨-1, true, true⟩] ++ List.replicate 8 .next

theorem connections_timed_out_idleAndNew :
    ∃ p, Process.run twoTurns insertionStd 1000 ⟨[⟨0, [], 80⟩], [], 1, false, false⟩ idleAndNew
        = some p ∧
      p.server.localConnections = [1] ∧ p.server.destroyed = [0] ∧
      ∃ o, p.server.objects 1 = some o ∧ ∃ t ∈ p.clock.take 2, t < o.age + 30 := by
  have hmono : EachStep (Process.step twoTurns insertionStd)
      (Process.start 1000 ⟨[⟨0, [], 80⟩], [], 1, false, false⟩) idleAndNew Process.Monotone := by
    decide
  obtain ⟨o, ho, hage, -⟩ := connections_timed_out twoTurns insertionStd 1000
    ⟨[⟨0, [], 80⟩], [], 1, false, false⟩ idleAndNew _ (by decide) (by decide) hmono rfl rfl 1
    (List.mem_singleton_self 1)
  exact ⟨_, rfl, rfl, rfl, o, ho, hage⟩

end Hottpd
