import Hottpd.Core.Descriptors
import Hottpd.Proofs.Culls
import Hottpd.Proofs.FourEngines

/-!
# No descriptor is closed twice, and no event goes astray

A connection has its descriptor to itself from `accept` to `Apply`. What the engine has in its
table is a listener or a connection that exists, so a descriptor that the kernel hands out is
not in the table, and what has been reported stays true until it is worked off: nothing is
taken out of the table before `Apply`, and `Apply` waits.
-/

namespace Hottpd

open Runs

variable {l : Limits} {f : Fleet} {s s' : Server}

/-! ## What is promised -/

structure Fleet.Orderly (f : Fleet) : Prop where
  /-- A handler is called only for what was reported for it, and while it exists. -/
  directed : f.misdirected = false
  /-- Only what is open is closed. -/
  closes : f.badClose = false
  opened : ∀ c, (f.server.objects c).isSome = true → f.isOpen (f.fdOf c) = true
  distinct : ∀ c c', (f.server.objects c).isSome = true → (f.server.objects c').isSome = true →
    f.fdOf c = f.fdOf c' → c = c'
  apart : ∀ c, (f.server.objects c).isSome = true → ∀ eh ∈ f.listening, f.fdOf c ≠ eh.fd
  registered : ∀ fd eh, f.engine.ref fd = some eh →
    eh ∈ f.listening ∨ ((f.server.objects eh.id).isSome = true ∧ eh = f.handlerOf eh.id)
  watched : ∀ fd, (f.engine.kernel fd).isSome = (f.engine.ref fd).isSome

structure Fleet.Inv (l : Limits) (f : Fleet) : Prop extends Fleet.Orderly f where
  sound : Invariant l f.server
  keeps : ∃ r : Registry l.maxDescriptors, f.engine.Keeps r
  listeners : ∀ eh ∈ f.listening, f.isOpen eh.fd = true
  reported : ∀ r ∈ f.events, f.engine.ref r.fd = r.owner ∧ r.owner.isSome = true
  waiting : f.events ≠ [] → f.server.pc.inApply = false

/-- What is in the table is open. -/
theorem Fleet.Inv.ref_open (h : f.Inv l) {fd : Int} {eh : Handler}
    (hfd : f.engine.ref fd = some eh) : eh.fd = fd ∧ f.isOpen fd = true := by
  obtain ⟨r, ⟨htable, -⟩, -⟩ := h.keeps
  have hown : eh.fd = fd := (r.own fd eh (htable ▸ hfd)).1
  refine ⟨hown, ?_⟩
  rcases h.registered fd eh hfd with hlistening | ⟨hlive, heh⟩
  · rw [← hown]
    exact h.listeners eh hlistening
  · have hopen := h.opened eh.id hlive
    rw [heh] at hown
    rwa [show f.fdOf eh.id = fd from hown] at hopen

theorem Fleet.Inv.ref_closed (h : f.Inv l) {fd : Int} (hclosed : f.isOpen fd = false) :
    f.engine.ref fd = none := by
  cases hfd : f.engine.ref fd with
  | none => rfl
  | some eh =>
      rw [(h.ref_open hfd).2] at hclosed
      cases hclosed

/-! ## Steps of the server -/

/-- A step that leaves the descriptors alone, and no connection comes or goes. -/
theorem Fleet.Inv.server (h : f.Inv l) (hs : Invariant l s)
    (hlive : ∀ c, (s.objects c).isSome = (f.server.objects c).isSome)
    (hpc : f.events ≠ [] → s.pc.inApply = false) : Fleet.Inv l { f with server := s } where
  directed := h.directed
  closes := h.closes
  opened c hc := h.opened c (hlive c ▸ hc)
  distinct c c' hc hc' := h.distinct c c' (hlive c ▸ hc) (hlive c' ▸ hc')
  apart c hc := h.apart c (hlive c ▸ hc)
  registered fd eh hfd := (h.registered fd eh hfd).imp_right fun hconn =>
    ⟨(hlive eh.id).trans hconn.1, hconn.2⟩
  watched := h.watched
  sound := hs
  keeps := h.keeps
  listeners := h.listeners
  reported := h.reported
  waiting := hpc

theorem live_delete {c : Nat} (hc : (s.objects c).isSome = true) (d : Nat) :
    ((deleteClient c s).objects d).isSome = (s.objects d).isSome := by
  obtain ⟨o, ho⟩ := Option.isSome_iff_exists.1 hc
  rw [deleteClient_eq ho]
  exact isSome_update hc d

theorem live_timeOuts (time : Int) (cs : List Nat) : ∀ (s : Server) (d : Nat),
    ((cs.foldl (timeOut l time) s).objects d).isSome = (s.objects d).isSome := by
  induction cs with
  | nil => exact fun _ _ => rfl
  | cons c cs ih =>
      intro s d
      rw [List.foldl_cons, ih]
      cases hc : s.objects c with
      | none => rw [timeOut, hc]
      | some o =>
          have hlive : (s.objects c).isSome = true := by rw [hc]; rfl
          rw [timeOut, hc]
          dsimp only
          split
          · exact live_delete hlive d
          · split
            · exact live_delete hlive d
            · rfl

theorem live_modify {c : Nat} {g : Client → Client} (d : Nat) :
    ((s.modify c g).objects d).isSome = (s.objects d).isSome := by
  unfold Server.modify
  by_cases hd : d = c
  · subst hd
    simp
  · simp [Function.update_of_ne hd]

/-- The steps of the server that neither accept nor destroy. -/
theorem live_step {e : Happening} (hstep : s.step l e = some s')
    (haccept : ∀ time a, e ≠ .accept time a)
    (hdestroy : e = .applyNext → ∀ c m, s.pc = .handlers c m → m < l.modules) (d : Nat) :
    (s'.objects d).isSome = (s.objects d).isSome := by
  cases e with
  | readable =>
      obtain ⟨-, hstep⟩ := Option.ite_none_right_eq_some.1 hstep
      cases hstep
      rfl
  | accept time a => exact absurd rfl (haccept time a)
  | timeOuts time =>
      obtain ⟨-, hstep⟩ := Option.ite_none_right_eq_some.1 hstep
      cases hstep
      exact live_timeOuts time _ s d
  | socketEvent time c =>
      obtain ⟨-, hstep⟩ := Option.ite_none_right_eq_some.1 hstep
      cases hstep
      exact live_modify d
  | delete c =>
      obtain ⟨⟨-, hlive⟩, hstep⟩ := Option.ite_none_right_eq_some.1 hstep
      cases hstep
      exact live_delete hlive d
  | apply =>
      obtain ⟨-, hstep⟩ := Option.ite_none_right_eq_some.1 hstep
      cases hstep
      rfl
  | applyNext =>
      cases applyNext_cases hstep with
      | returns _ _ => rfl
      | first _ _ => rfl
      | calls _ _ => rfl
      | destroys hpc hm => exact absurd (hdestroy rfl _ _ hpc) (Nat.not_lt.2 hm)
      | called _ => rfl

/-- What the kernel has handed out and gets back at once leaves no trace. -/
theorem Fleet.Inv.close_open (h : f.Inv l) {nfd : Int} (hclosed : f.isOpen nfd = false)
    (s : Server) :
    Fleet.close nfd { f with server := s, isOpen := Function.update f.isOpen nfd true } =
      { f with server := s } := by
  have hkernel : f.engine.kernel nfd = none := by
    rw [← Option.not_isSome_iff_eq_none, h.watched, h.ref_closed hclosed]
    exact Bool.false_ne_true
  have hopen : Function.update (Function.update f.isOpen nfd true) nfd false = f.isOpen := by
    rw [Function.update_idem, ← hclosed, Function.update_eq_self]
  have hengine : Function.update f.engine.kernel nfd none = f.engine.kernel := by
    rw [← hkernel, Function.update_eq_self]
  simp [Fleet.close, hopen, hengine]

/-! ## Accepting -/

theorem live_add (time : Int) (watched : Bool) (s : Server) (d : Nat) :
    ((addClient time watched s).objects d).isSome = true ↔
      d = s.next ∨ (s.objects d).isSome = true := by
  have hadded : (Function.update s.objects s.next (some (Client.new time)) d).isSome = true ↔
      d = s.next ∨ (s.objects d).isSome = true := by
    by_cases hd : d = s.next
    · rw [hd, Function.update_self]
      exact iff_of_true rfl (Or.inl rfl)
    · rw [Function.update_of_ne hd]
      exact (or_iff_right hd).symm
  rw [← hadded, addClient]
  split
  · rfl
  · rw [live_delete]
    show (Function.update s.objects s.next _ s.next).isSome = true
    rw [Function.update_self]
    rfl

/-- A turn of the accept loop that gets as far as `accept`. -/
theorem acceptTurn_cases (h : Invariant l s) (hpc : s.pc = .accepting) (hroom : ¬s.full l)
    (time : Int) (a : Accepted) :
    (acceptTurn l time a s).pc.inApply = false ∧ (acceptTurn l time a s).objects =
      if a.nfd % 2 ^ 32 < l.maxDescriptors ∧ -1 < a.nfd ∧ a.named = true then
        (addClient time a.watched s).objects
      else s.objects := by
  have hadded : (addClient time a.watched s).pc = s.pc := by
    refine (addClient_sound h.sound time a.watched ?_).2.pc
    rw [Server.full, not_or] at hroom
    omega
  rw [acceptTurn, if_neg (show ¬(_ ∨ _) from hroom)]
  by_cases hrange : (l.maxDescriptors : Int) ≤ a.nfd % 2 ^ 32
  · rw [if_pos hrange, if_neg fun h => Int.not_lt.2 hrange h.1]
    exact ⟨rfl, rfl⟩
  · rw [if_neg hrange]
    by_cases hnamed : -1 < a.nfd ∧ a.named = true
    · simp only [if_pos hnamed, if_pos (⟨Int.not_le.1 hrange, hnamed⟩ : _ ∧ _)]
      split
      · rw [hadded, hpc]
        exact ⟨rfl, rfl⟩
      · exact ⟨rfl, rfl⟩
    · simp only [if_neg hnamed, if_neg fun h : _ ∧ _ => hnamed h.2]
      split
      · rw [hpc]
        exact ⟨rfl, rfl⟩
      · exact ⟨rfl, rfl⟩

/-- A handler of the table afterwards is the new one, or was there. -/
theorem Registry.register_table {maxDescriptors : Nat} (r : Registry maxDescriptors)
    (eh : Handler) {fd : Int} {x : Handler} (hx : (r.register eh).2.table fd = some x) :
    (fd = eh.fd ∧ x = eh) ∨ r.table fd = some x := by
  by_cases hfree : r.Free eh
  · rw [(register_of_free hfree).2] at hx
    by_cases hfd : fd = eh.fd
    · rw [hfd, Function.update_self] at hx
      exact Or.inl ⟨hfd, (Option.some.inj hx).symm⟩
    · rw [Function.update_of_ne hfd] at hx
      exact Or.inr hx
  · rw [register_of_not_free hfree] at hx
    exact Or.inr hx

theorem Registry.register_table_of_ne {maxDescriptors : Nat} (r : Registry maxDescriptors)
    {eh : Handler} {fd : Int} (hfd : fd ≠ eh.fd) : (r.register eh).2.table fd = r.table fd := by
  by_cases hfree : r.Free eh
  · rw [(register_of_free hfree).2, Function.update_of_ne hfd]
  · rw [register_of_not_free hfree]

/-- A new connection gets the descriptor that the kernel hands out. -/
theorem Fleet.Inv.connect (h : f.Inv l) {nfd : Int} (hclosed : f.isOpen nfd = false)
    (hs : Invariant l s) (hpc : s.pc.inApply = false)
    (hlive : ∀ d, (s.objects d).isSome = true ↔
      d = f.server.next ∨ (f.server.objects d).isSome = true) :
    Fleet.Inv l { f with
      server := s
      isOpen := Function.update f.isOpen nfd true
      engine := (f.engine.addFd l.maxDescriptors ⟨f.server.next, nfd, true⟩).2
      fdOf := Function.update f.fdOf f.server.next nfd } := by
  obtain ⟨r, hkeeps⟩ := h.keeps
  have hadded := (hkeeps.addFd ⟨f.server.next, nfd, true⟩).2
  generalize (f.engine.addFd l.maxDescriptors ⟨f.server.next, nfd, true⟩).2 = engine at hadded
  have hnone : (f.server.objects f.server.next).isSome = false := by
    rw [h.sound.sound.fresh]
    rfl
  -- a connection that was there is not the new one, and its descriptor is not the new one
  have hold : ∀ c, (f.server.objects c).isSome = true →
      Function.update f.fdOf f.server.next nfd c = f.fdOf c ∧ f.fdOf c ≠ nfd := by
    intro c hc
    refine ⟨Function.update_of_ne ?_ _ _, ?_⟩
    · rintro rfl
      rw [hnone] at hc
      cases hc
    · intro hfd
      rw [← hfd, h.opened c hc] at hclosed
      cases hclosed
  have hopen : ∀ fd, f.isOpen fd = true → Function.update f.isOpen nfd true fd = true := by
    intro fd hfd
    by_cases heq : fd = nfd
    · rw [heq, Function.update_self]
    · rwa [Function.update_of_ne heq]
  exact {
    directed := h.directed
    closes := h.closes
    sound := hs
    keeps := ⟨_, hadded⟩
    watched := hadded.2
    waiting := fun _ => hpc
    listeners := fun eh heh => hopen eh.fd (h.listeners eh heh)
    opened := fun c hc => by
      show Function.update f.isOpen nfd true (Function.update f.fdOf f.server.next nfd c) = true
      rcases (hlive c).1 hc with rfl | hc
      · rw [Function.update_self, Function.update_self]
      · rw [(hold c hc).1]
        exact hopen _ (h.opened c hc)
    distinct := fun c c' hc hc' hfd => by
      have hfd : Function.update f.fdOf f.server.next nfd c =
        Function.update f.fdOf f.server.next nfd c' := hfd
      rcases (hlive c).1 hc with rfl | hc
      · rcases (hlive c').1 hc' with rfl | hc'
        · rfl
        · rw [Function.update_self, (hold c' hc').1] at hfd
          exact absurd hfd.symm (hold c' hc').2
      · rcases (hlive c').1 hc' with rfl | hc'
        · rw [Function.update_self, (hold c hc).1] at hfd
          exact absurd hfd (hold c hc).2
        · rw [(hold c hc).1, (hold c' hc').1] at hfd
          exact h.distinct c c' hc hc' hfd
    apart := fun c hc eh heh => by
      show Function.update f.fdOf f.server.next nfd c ≠ eh.fd
      rcases (hlive c).1 hc with rfl | hc
      · rw [Function.update_self]
        rintro rfl
        rw [h.listeners eh heh] at hclosed
        cases hclosed
      · rw [(hold c hc).1]
        exact h.apart c hc eh heh
    registered := fun fd eh hfd => by
      rw [hadded.1.1] at hfd
      rcases r.register_table _ hfd with ⟨-, rfl⟩ | hfd
      · refine Or.inr ⟨(hlive _).2 (Or.inl rfl), ?_⟩
        exact congrArg (Handler.mk f.server.next · true)
          (Function.update_self f.server.next nfd f.fdOf).symm
      · refine (h.registered fd eh (hkeeps.1.1 ▸ hfd)).imp_right fun hconn => ?_
        refine ⟨(hlive _).2 (Or.inr hconn.1), hconn.2.trans ?_⟩
        exact congrArg (Handler.mk eh.id · true) (hold eh.id hconn.1).1.symm
    reported := fun e he => by
      obtain ⟨howner, hsome⟩ := h.reported e he
      obtain ⟨eh, heh⟩ := Option.isSome_iff_exists.1 hsome
      refine ⟨?_, hsome⟩
      -- what has been reported is open, so it is not the new descriptor
      have hne : e.fd ≠ nfd := by
        rintro hfd
        rw [← hfd, (h.ref_open (howner.trans heh)).2] at hclosed
        cases hclosed
      show engine.ref e.fd = e.owner
      rw [hadded.1.1, r.register_table_of_ne hne, ← hkeeps.1.1]
      exact howner }

/-- What the accept loop does with a descriptor that was not open. -/
theorem Fleet.Inv.accepted (h : f.Inv l) (hpc : f.server.pc = .accepting)
    (hroom : ¬f.server.full l) {nfd : Int} (hclosed : 0 ≤ nfd → f.isOpen nfd = false)
    (time : Int) (named : Bool) : Fleet.Inv l (f.accepted l time nfd named) := by
  rw [Fleet.accepted]
  dsimp only
  generalize hwatched : (f.engine.addFd l.maxDescriptors ⟨f.server.next, nfd, true⟩).1 = watched
  have hs := h.sound.acceptTurn hpc time ⟨nfd, named, watched⟩
  obtain ⟨hout, hobjects⟩ := acceptTurn_cases h.sound hpc hroom time ⟨nfd, named, watched⟩
  generalize Hottpd.acceptTurn l time ⟨nfd, named, watched⟩ f.server = s at hs hout hobjects
  -- the descriptor is closed again, or there was none
  have hback : s.objects = f.server.objects → Fleet.Inv l
      (if 0 ≤ nfd then Fleet.close nfd { f with
          server := s
          isOpen := if 0 ≤ nfd then Function.update f.isOpen nfd true else f.isOpen }
        else { f with
          server := s
          isOpen := if 0 ≤ nfd then Function.update f.isOpen nfd true else f.isOpen }) := by
    intro hsame
    have hinv : Fleet.Inv l { f with server := s } :=
      h.server hs (fun c => by rw [hsame]) fun _ => hout
    by_cases hnfd : 0 ≤ nfd
    · rw [if_pos hnfd, if_pos hnfd, h.close_open (hclosed hnfd)]
      exact hinv
    · rw [if_neg hnfd, if_neg hnfd]
      exact hinv
  by_cases hrange : (l.maxDescriptors : Int) ≤ nfd % 2 ^ 32
  · rw [if_neg fun hin => Int.not_lt.2 hrange hin.1] at hobjects
    rw [if_pos hrange]
    exact hback hobjects
  rw [if_neg hrange]
  by_cases hnamed : -1 < nfd ∧ named = true
  · rw [if_pos (⟨Int.not_le.1 hrange, hnamed⟩ : _ ∧ _)] at hobjects
    have hnfd : 0 ≤ nfd := by omega
    rw [if_pos hnamed, if_pos hnfd]
    refine h.connect (hclosed hnfd) hs hout fun d => ?_
    rw [hobjects]
    exact live_add time watched f.server d
  · rw [if_neg fun hin => hnamed hin.2] at hobjects
    rw [if_neg hnamed]
    exact hback hobjects

/-! ## `Apply` -/

theorem Registry.remove_table {maxDescriptors : Nat} (r : Registry maxDescriptors)
    (eh : Handler) (fd : Int) :
    (r.remove eh).2.table fd = if fd = eh.fd then none else r.table fd := by
  by_cases htaken : r.Taken eh.fd
  · rw [(remove_of_taken htaken).2, Function.update_apply]
  · rw [remove_of_not_taken htaken]
    split
    · next hfd => rw [hfd, Option.not_isSome_iff_eq_none.1 htaken]
    · rfl

/-- The connection at the front of the cull list is destroyed and its descriptor closed. -/
theorem Fleet.Inv.destroy (h : f.Inv l) {c : Nat} (hc : (f.server.objects c).isSome = true)
    (hs : Invariant l s) (hevents : f.events = [])
    (hobjects : s.objects = Function.update f.server.objects c none) :
    Fleet.Inv l (f.destroy l c s) := by
  obtain ⟨r, hkeeps⟩ := h.keeps
  have hremoved := (hkeeps.delFd (f.handlerOf c)).2
  have hdestroy : f.destroy l c s = { f with
      server := s
      engine := (f.engine.delFd l.maxDescriptors (f.handlerOf c) false).2
      isOpen := Function.update f.isOpen (f.fdOf c) false } := by
    -- what is closed is open, and has gone from the kernel's list before
    have hopen := h.opened c hc
    generalize hengine : (f.engine.delFd l.maxDescriptors (f.handlerOf c) false).2 = engine
      at hremoved
    have hkernel : engine.kernel (f.fdOf c) = none := by
      rw [← Option.not_isSome_iff_eq_none, hremoved.2, hremoved.1.1, Registry.remove_table,
        if_pos (show f.fdOf c = (f.handlerOf c).fd from rfl)]
      exact Bool.false_ne_true
    have hsame : Function.update engine.kernel (f.fdOf c) none = engine.kernel := by
      rw [← hkernel, Function.update_eq_self]
    simp [Fleet.destroy, Fleet.close, hengine, hsame, hopen]
  rw [hdestroy]
  generalize (f.engine.delFd l.maxDescriptors (f.handlerOf c) false).2 = engine at hremoved
  have hlive : ∀ d, (s.objects d).isSome = true → d ≠ c ∧ (f.server.objects d).isSome = true := by
    intro d hd
    rw [hobjects] at hd
    by_cases heq : d = c
    · rw [heq, Function.update_self] at hd
      cases hd
    · rw [Function.update_of_ne heq] at hd
      exact ⟨heq, hd⟩
  have hopen : ∀ fd, fd ≠ f.fdOf c → f.isOpen fd = true →
      Function.update f.isOpen (f.fdOf c) false fd = true := by
    intro fd hne hfd
    rwa [Function.update_of_ne hne]
  exact {
    directed := h.directed
    closes := h.closes
    sound := hs
    keeps := ⟨_, hremoved⟩
    watched := hremoved.2
    waiting := fun hne => absurd hevents hne
    listeners := fun eh heh => hopen eh.fd (h.apart c hc eh heh).symm (h.listeners eh heh)
    opened := fun d hd => by
      obtain ⟨hne, hd⟩ := hlive d hd
      exact hopen _ (fun hfd => hne (h.distinct d c hd hc hfd)) (h.opened d hd)
    distinct := fun d d' hd hd' => h.distinct d d' (hlive d hd).2 (hlive d' hd').2
    apart := fun d hd => h.apart d (hlive d hd).2
    registered := fun fd eh hfd => by
      rw [hremoved.1.1, Registry.remove_table, ← hkeeps.1.1] at hfd
      obtain ⟨hne, htable⟩ := Option.ite_none_left_eq_some.1 hfd
      refine (h.registered fd eh htable).imp_right fun ⟨hconn, heh⟩ => ⟨?_, heh⟩
      have hother : eh.id ≠ c := by
        rintro rfl
        rw [← (h.ref_open htable).1, heh] at hne
        exact hne rfl
      show (s.objects eh.id).isSome = true
      rw [hobjects, Function.update_of_ne hother]
      exact hconn
    reported := fun e he => by
      rw [show f.events = [] from hevents] at he
      cases he }

/-! ## Events -/

/-- Some reports have been worked off. -/
theorem Fleet.Inv.rest (h : f.Inv l) {r : Reported} {rest : List Reported}
    (hevents : f.events = r :: rest) : Fleet.Inv l { f with events := rest } where
  directed := h.directed
  closes := h.closes
  opened := h.opened
  distinct := h.distinct
  apart := h.apart
  registered := h.registered
  watched := h.watched
  sound := h.sound
  keeps := h.keeps
  listeners := h.listeners
  reported e he := h.reported e (hevents ▸ List.mem_cons_of_mem r he)
  waiting _ := h.waiting (by rw [hevents]; exact List.cons_ne_nil r rest)

/-- The handler in the table for a descriptor exists, and takes the event. -/
theorem Fleet.Inv.handleEvent (h : f.Inv l) {fd : Int} {eh : Handler}
    (heh : f.engine.ref fd = some eh) (hpc : f.server.pc = .idle) {time : Int} {f' : Fleet}
    (hcall : f.handleEvent l time eh = some f') : f'.Inv l := by
  rw [Fleet.handleEvent] at hcall
  split at hcall
  · obtain ⟨s, hstep, rfl⟩ := Option.map_eq_some_iff.1 hcall
    refine h.server (h.sound.step hstep) ?_ fun _ => ?_
    · exact live_step hstep (fun _ _ h => Happening.noConfusion h)
        fun h => Happening.noConfusion h
    · rw [Server.step, if_pos hpc] at hstep
      cases hstep
      rfl
  · next hlistening =>
      obtain ⟨hlive, -⟩ := (h.registered fd eh heh).resolve_left hlistening
      have hstep : f.server.step l (.socketEvent time eh.id) =
          some (f.server.modify eh.id fun o => { o with lastSocketEvent := time }) :=
        if_pos ⟨hpc, hlive⟩
      rw [hstep] at hcall
      cases hcall
      exact h.server (h.sound.step hstep) live_modify fun _ => congrArg Pc.inApply hpc

/-- What is called for a report is what it was for. -/
theorem Fleet.Inv.turn (h : f.Inv l) {r : Reported}
    (hr : f.engine.ref r.fd = r.owner) (hpc : f.server.pc = .idle) {time : Int} {f' : Fleet}
    (hturn : f.turn l time r = some f') : f'.Inv l := by
  rw [Fleet.turn] at hturn
  cases heh : f.engine.ref r.fd with
  | none =>
      rw [heh] at hturn
      cases hturn
      exact h
  | some eh =>
      rw [heh] at hturn
      have hdirected : (f.misdirected || !decide (r.owner = some eh)) = f.misdirected := by
        simp [← hr, heh]
      dsimp only at hturn
      rw [hdirected] at hturn
      exact h.handleEvent heh hpc hturn

/-- A step of the server while the descriptors stay as they are. -/
theorem Fleet.Inv.happens (h : f.Inv l) {e : Happening} {f' : Fleet}
    (hstep : (f.server.step l e).map (fun server => { f with server := server }) = some f')
    (haccept : ∀ time a, e ≠ .accept time a)
    (hdestroy : e = .applyNext → ∀ c m, f.server.pc = .handlers c m → m < l.modules)
    (hpc : f.events ≠ [] → ∀ s, f.server.step l e = some s → s.pc.inApply = false) :
    f'.Inv l := by
  obtain ⟨s, hs, rfl⟩ := Option.map_eq_some_iff.1 hstep
  exact h.server (h.sound.step hs) (live_step hs haccept hdestroy) fun hevents => hpc hevents s hs

theorem Fleet.Inv.step (h : f.Inv l) {e : FleetEvent} {f' : Fleet}
    (hstep : f.step l e = some f') : f'.Inv l := by
  cases e with
  | poll fds =>
      obtain ⟨⟨hpc, -, hready⟩, hstep⟩ := Option.ite_none_right_eq_some.1 hstep
      cases hstep
      exact { h with
        reported := fun r hr => by
          obtain ⟨fd, hfd, rfl⟩ := List.mem_map.1 hr
          exact ⟨rfl, h.watched fd ▸ hready fd hfd⟩
        waiting := fun _ => congrArg Pc.inApply hpc }
  | turn time =>
      rw [Fleet.step] at hstep
      cases hevents : f.events with
      | nil =>
          rw [hevents] at hstep
          cases hstep
      | cons r rest =>
          rw [hevents] at hstep
          obtain ⟨hpc, hturn⟩ := Option.ite_none_right_eq_some.1 hstep
          exact (h.rest hevents).turn (h.reported r (hevents ▸ List.mem_cons_self)).1 hpc hturn
  | accept time nfd named =>
      obtain ⟨hpc, hstep⟩ := Option.ite_none_left_eq_some.1 hstep
      have hpc : f.server.pc = .accepting := Classical.not_not.1 hpc
      split at hstep
      · next hfull =>
          obtain ⟨s, hs, rfl⟩ := Option.map_eq_some_iff.1 hstep
          have hinv := h.sound.step hs
          rw [Server.step, if_pos hpc, Hottpd.acceptTurn,
            if_pos (show _ ∨ _ from hfull)] at hs
          cases hs
          exact h.server hinv (fun _ => rfl) fun _ => rfl
      · next hroom =>
          obtain ⟨hclosed, hstep⟩ := Option.ite_none_left_eq_some.1 hstep
          cases hstep
          refine h.accepted hpc hroom (fun hnfd => ?_) time named
          exact Bool.eq_false_iff.2 fun hopen => hclosed ⟨hnfd, hopen⟩
  | timeOuts time =>
      obtain ⟨hevents, hstep⟩ := Option.ite_none_right_eq_some.1 hstep
      exact h.happens hstep (fun _ _ h => Happening.noConfusion h)
        (fun h => Happening.noConfusion h) fun hne => absurd hevents hne
  | delete c =>
      refine h.happens hstep (fun _ _ h => Happening.noConfusion h)
        (fun h => Happening.noConfusion h) fun hne s hs => ?_
      obtain ⟨⟨-, hlive⟩, hs⟩ := Option.ite_none_right_eq_some.1 hs
      cases hs
      rw [(still_delete hlive).pc]
      exact h.waiting hne
  | apply =>
      obtain ⟨hevents, hstep⟩ := Option.ite_none_right_eq_some.1 hstep
      exact h.happens hstep (fun _ _ h => Happening.noConfusion h)
        (fun h => Happening.noConfusion h) fun hne => absurd hevents hne
  | applyNext =>
      -- `Apply` waits for the reports
      have hnow : f.events ≠ [] → ∀ s, f.server.step l .applyNext = some s →
          s.pc.inApply = false := by
        intro hne s hs
        have hpc := h.waiting hne
        rw [Server.step, applyNext] at hs
        cases hat : f.server.pc with
        | idle | accepting =>
            rw [hat] at hs
            cases hs
        | culling | handlers _ _ | inHandler _ _ =>
            rw [hat] at hpc
            cases hpc
      rw [Fleet.step] at hstep
      split at hstep
      · next c m hpc =>
          split at hstep
          · next hm =>
              refine h.happens hstep (fun _ _ h => Happening.noConfusion h) (fun _ c' m' h' => ?_)
                hnow
              rw [hpc] at h'
              cases h'
              exact hm
          · next hm =>
              obtain ⟨s, hs, rfl⟩ := Option.map_eq_some_iff.1 hstep
              have hinv := h.sound.step hs
              have hfits := h.sound.calling.fits
              rw [hpc] at hfits
              obtain ⟨o, ho, -⟩ := (h.sound.sound.cull c).1 (List.mem_of_head? hfits.1)
              rw [Server.step, applyNext, hpc] at hs
              cases (if_neg hm).symm.trans hs
              refine h.destroy (Option.isSome_iff_exists.2 ⟨o, ho⟩) hinv ?_ rfl
              by_contra hne
              have hout := h.waiting hne
              rw [hpc] at hout
              cases hout
      · next hpc =>
          refine h.happens hstep (fun _ _ h => Happening.noConfusion h) (fun _ c m h' => ?_) hnow
          exact absurd h' (hpc c m)

/-! ## Runs -/

/-- The listeners are registered as far as there is room. -/
theorem EPollEngine.Keeps.addFds {maxDescriptors : Nat} (ehs : List Handler) :
    ∀ {e : EPollEngine} {r : Registry maxDescriptors}, e.Keeps r →
      ∃ r' : Registry maxDescriptors,
        (ehs.foldl (fun e eh => (e.addFd maxDescriptors eh).2) e).Keeps r' ∧
        ∀ fd eh, r'.table fd = some eh → eh ∈ ehs ∨ r.table fd = some eh := by
  induction ehs with
  | nil => exact fun {e r} h => ⟨r, h, fun _ _ => Or.inr⟩
  | cons eh ehs ih =>
      intro e r h
      obtain ⟨r', hkeeps, htable⟩ := ih (h.addFd eh).2
      refine ⟨r', hkeeps, fun fd x hx => ?_⟩
      rcases htable fd x hx with hmem | hx
      · exact Or.inl (List.mem_cons_of_mem eh hmem)
      · rcases r.register_table eh hx with ⟨-, rfl⟩ | hx
        · exact Or.inl List.mem_cons_self
        · exact Or.inr hx

theorem Fleet.Inv.start (l : Limits) (listening : List Handler) :
    (Fleet.start l listening).Inv l := by
  have hempty : EPollEngine.new.Keeps (Registry.empty : Registry l.maxDescriptors) :=
    ⟨Registry.shows_empty, fun _ => rfl⟩
  obtain ⟨r, hkeeps, htable⟩ := hempty.addFds listening
  exact {
    directed := rfl
    closes := rfl
    sound := Invariant.new
    keeps := ⟨r, hkeeps⟩
    watched := hkeeps.2
    waiting := fun hne => absurd rfl hne
    listeners := fun eh heh => decide_eq_true (List.mem_map_of_mem heh)
    opened := fun c hc => by cases hc
    distinct := fun c c' hc => by cases hc
    apart := fun c hc => by cases hc
    registered := fun fd eh hfd => by
      rcases htable fd eh (hkeeps.1.1 ▸ hfd) with hmem | hnone
      · exact Or.inl hmem
      · cases hnone
    reported := fun r hr => by cases hr }

/-- Whatever the listeners are and whatever the kernel answers, in every run each handler is
called only for what was reported for it, and while it exists; each connection has a descriptor
of its own, open until `Apply` closes it; and nothing is closed that is not open. -/
theorem descriptors_orderly (l : Limits) (listening : List Handler) (es : List FleetEvent) :
    Throughout (Fleet.step l) (Fleet.start l listening) es Fleet.Orderly := by
  intro past f _ hrun
  exact (history_invariant (I := fun _ f => Fleet.Inv l f) hrun (.start l listening)
    fun h hstep => h.step hstep).toOrderly

/-- The kernel hands out a descriptor again when `Apply` has closed it, and not before. -/
example :
    let l : Limits := ⟨8, 8, 8, true, 60, 60, 0⟩
    let accepted : List FleetEvent := [.poll [3], .turn 0, .accept 0 4 true, .accept 0 (-1) true]
    let applied : List FleetEvent := [.apply, .applyNext, .applyNext, .applyNext]
    (Runs.run (Fleet.step l) (Fleet.start l [⟨9, 3, true⟩])
        (accepted ++ [.delete 0] ++ accepted)).isSome = false ∧
      (Runs.run (Fleet.step l) (Fleet.start l [⟨9, 3, true⟩])
        (accepted ++ [.delete 0] ++ applied ++ accepted)).isSome = true := by
  decide

end Hottpd
