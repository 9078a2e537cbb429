import Hottpd.Proofs.CgiRuns

/-!
# What is not done is not destroyed

A process that hangs up with nothing read lets the connection take up the next
request while its own is still there, done and closed. Those that are left so do
no harm: they are older than the request that is not done, the engine watches none
of them, and they are all that a flush can take away. So it is enough that the
client's side keeps still while a process runs.
-/

namespace Hottpd

open Bytes HTTPHeaders

variable {env : Env} {cfg : CgiConfig} {os : CgiOs} {base : List CGIRequest} {cr : CGIRequest}
  {s s' : St CgiVars} {v v' : CgiVars}

/-! ## Between events -/

/-- All requests are done, or all but the last, which is stored. -/
inductive Guarded (s : St CgiVars) : Prop where
  | quiet (hspent : Spent s.mods.made s.mods.live) (h : Vacant s.mods.live s.mods.made s)
  | running {base : List CGIRequest} {cr : CGIRequest} (hspent : Spent cr.id base)
      (h : Running base cr s) (hid : cr.id < s.mods.made)

/-- What an event that does not intrude leaves: neither what its handler does to its own request
nor what it calls destroys one that is not done. -/
structure Guards (env : Env) (os : CgiOs) (ev : Event) (s s' : St CgiVars) : Prop where
  guarded : Guarded s'
  own : Survives s.mods (heard os s.mods ev)
  called : Survives (heard os s.mods ev) s'.mods
  still : overtakes env os ev s = false → Survives s.mods s'.mods

theorem survives_of_eq (hlive : v'.live = v.live) (hmade : v'.made = v.made) : Survives v v' :=
  ⟨fun c hc _ => ⟨c, hlive ▸ hc, rfl⟩, fun id hle hlt => absurd hlt (by omega)⟩

/-- Where all are done, only those that are made can be lost. -/
theorem Settles.survives {n : Nat} (h : Settles base cfg os n s') (hspent : Spent n v.live)
    (hmade : v.made = n) : Survives v s'.mods := by
  refine ⟨fun c hc hdone => ?_, fun id hle => h.made id (hmade ▸ hle)⟩
  rw [(hspent c hc).1] at hdone
  cases hdone

theorem Settles.guarded {n : Nat} (h : Settles base cfg os n s) (hspent : Spent n base) :
    Guarded s := by
  rcases h with hvacant | ⟨⟨cr, hrun, hid, -⟩, hmade, -⟩
  · refine .quiet (fun c hc => ?_) ⟨⟨List.Sublist.refl _, hvacant.idle.stored, rfl⟩,
      hvacant.backend, hvacant.gone⟩
    rw [hvacant.idle.made]
    exact hspent c (hvacant.idle.live.subset hc)
  · exact .running (hid ▸ hspent) hrun (by omega)

/-! ## While no process runs -/

theorem Vacant.guards (h : Vacant s.mods.live s.mods.made s)
    (hspent : Spent s.mods.made s.mods.live) (ev : Event) :
    Guards env os ev s (cgiEvent env cfg os ev s) := by
  have hclosed : ∀ c ∈ s.mods.live, c.isOpen = false := fun c hc => (hspent c hc).2.1
  have hsettles : Settles s.mods.live cfg os s.mods.made (cgiEvent env cfg os ev s) :=
    cgiEvent_vacant hclosed ev h
  have hheard : (heard os s.mods ev).live = s.mods.live ∧
      (heard os s.mods ev).made = s.mods.made := by
    unfold heard
    split
    · rw [onEvent_unheard hclosed]
      exact ⟨rfl, rfl⟩
    · exact ⟨rfl, rfl⟩
  exact {
    guarded := hsettles.guarded hspent
    own := survives_of_eq hheard.1 hheard.2
    called := hsettles.survives (hheard.1 ▸ hspent) hheard.2
    still := fun _ => hsettles.survives hspent rfl }

/-! ## While a process runs -/

/-- The event leaves the module alone. -/
theorem Stays.guards {ev : Event} (hs : Stays base cr s s') (hspent : Spent cr.id base)
    (hid : cr.id < s.mods.made) (hheard : heard os s.mods ev = s.mods) :
    Guards env os ev s s' := by
  have hsame : Survives s.mods s'.mods := survives_of_eq (by rw [hs.mods]) (by rw [hs.mods])
  exact {
    guarded := .running hspent hs.running (by rw [hs.mods]; exact hid)
    own := hheard.symm ▸ survives_of_eq rfl rfl
    called := hheard.symm ▸ hsame
    still := fun _ => hsame }

/-- Those that are left and the one that is running, or has just been. -/
theorem survives_replaced {l : List CGIRequest} {cr' : CGIRequest} (hspent : Spent cr.id l)
    (hlive : v.live = l ++ [cr]) (hlive' : v'.live = l ++ [cr']) (hid : cr'.id = cr.id)
    (hmade : v'.made = v.made) : Survives v v' := by
  refine ⟨fun c hc hdone => ?_, fun id hle hlt => absurd hlt (by omega)⟩
  rw [hlive, List.mem_append, List.mem_singleton] at hc
  rcases hc with hc | rfl
  · rw [(hspent c hc).1] at hdone
    cases hdone
  · exact ⟨cr', by rw [hlive']; simp, hid⟩

/-- Behind the calls of a request that is closed the connection has come to rest, in the state the
third of them sets. -/
theorem responded_settles {n : Nat} (h : s.mods.Idle base n) :
    Settles base cfg os n (modCalls env (onlyCgi env cfg os) (recheck env (onlyCgi env cfg os))
      (responseCalls cr) s) := by
  have hsent : Settles base cfg os n (sendHeaders env (recheck env (onlyCgi env cfg os))
      cr.rbuf.length 200 (str "OK") clear s) := sendHeaders_settles recheck_settles _ _ _ h
  rw [responseCalls_eq]
  rcases hsent with hvacant | ⟨⟨cr', hrun, hnew⟩, hmade, hroom⟩
  · exact Or.inl (vacant_of_state hvacant.idle (by simp) (by simp))
  · exact Or.inr ⟨⟨cr', ⟨hrun.live, hrun.stored, hrun.undone, by simp, hrun.backend,
      fun hf => (by cases hf)⟩, hnew⟩, hmade, hroom⟩

theorem Running.module_guards (h : Running base cr s) (hspent : Spent cr.id base)
    (hid : cr.id < s.mods.made) (k : Nat) :
    Guards env os (.module k) s (cgiEvent env cfg os (.module k) s) := by
  cases k with
  | succ k => exact h.stays.guards hspent hid rfl
  | zero =>
      obtain ⟨l, hl, hlive⟩ := h.live
      have hleft : Spent cr.id l := fun c hc => hspent c (hl.subset hc)
      rw [cgiEvent_module]
      obtain ⟨v, calls, heq, hstored, hmade,
          ⟨rfl, rbuf, hlive'⟩ | ⟨-, rfl, hlive', hsilent⟩⟩ :=
        @onEvent_one os cr s.mods l hleft hlive
      · have hheard : heard os s.mods (.module 0) = v := congrArg Prod.fst heq
        have hown : Survives s.mods v := survives_replaced hleft hlive hlive' rfl hmade
        have h' : Running base { cr with rbuf := rbuf } { s with mods := v } :=
          ⟨⟨l, hl, hlive'⟩, hstored.trans h.stored, h.undone, h.state, h.backend, h.gone⟩
        have hid' : cr.id < v.made := hmade.symm ▸ hid
        rw [heq]
        exact {
          guarded := @Guarded.running _ base { cr with rbuf := rbuf } hspent h' hid'
          own := hheard.symm ▸ hown
          called := hheard.symm ▸ survives_of_eq rfl rfl
          still := fun _ => hown }
      · -- it is done now, and the next request may be taken up
        have hheard : heard os s.mods (.module 0) = v := congrArg Prod.fst heq
        have hown : Survives s.mods v := survives_replaced hleft hlive hlive' rfl hmade
        have hspent' : Spent s.mods.made v.live := by
          intro c hc
          rw [hlive', List.mem_append, List.mem_singleton] at hc
          rcases hc with hc | rfl
          · exact ⟨(hleft c hc).1, (hleft c hc).2.1, (hleft c hc).2.2.trans hid⟩
          · exact ⟨rfl, rfl, hid⟩
        have hidle : v.Idle v.live s.mods.made := by
          refine ⟨List.Sublist.refl _, fun id hsome => ?_, hmade⟩
          rw [hstored, h.stored, Option.some.injEq] at hsome
          exact ⟨{ cr with isOpen := false, done := true }, by rw [hlive']; simp, hsome⟩
        have hsettles := @responded_settles env cfg os v.live cr { s with mods := v } _ hidle
        rw [heq]
        refine {
          guarded := hsettles.guarded hspent'
          own := hheard.symm ▸ hown
          called := hheard.symm ▸ hsettles.survives hspent' hmade
          still := fun ho => ?_ }
        have hquiet : cr.rbuf.length = 0 → s.keepalive = true →
            findRequestEnd s.requestbuf 0 = none := by
          intro hlen hk
          by_contra hsome
          rw [overtakes, Bool.or_eq_false_iff, endsSilently, decide_eq_false_iff_not] at ho
          exact ho.2 ⟨hsilent (List.length_eq_zero_iff.1 hlen), hk,
            Option.isSome_iff_ne_none.2 hsome⟩
        obtain ⟨t, hsent, -, hmods, -⟩ :=
          @sendHeaders_incomplete env cfg os cr.rbuf.length { s with mods := v } hquiet
        rw [responseCalls_eq, hsent]
        show Survives s.mods t.mods
        rw [hmods]
        exact hown

theorem Running.guards (h : Running base cr s) (hspent : Spent cr.id base)
    (hid : cr.id < s.mods.made) {ev : Event} (hi : intrudes env ev s = false) :
    Guards env os ev s (cgiEvent env cfg os ev s) := by
  rw [intrudes, Bool.or_eq_false_iff] at hi
  cases ev with
  | read res => exact (h.read res hi.1).guards hspent hid rfl
  | write => exact (h.write hi.2).guards hspent hid rfl
  | error | timeout => exact h.stays.delete.guards hspent hid rfl
  | module k => exact h.module_guards hspent hid k

theorem Guarded.guards (h : Guarded s) {ev : Event} (hi : intrudes env ev s = false) :
    Guards env os ev s (cgiEvent env cfg os ev s) := by
  cases h with
  | quiet hspent h => exact h.guards hspent ev
  | running hspent h hid => exact h.guards hspent hid hi

/-! ## Every run -/

section Server

variable {env : Nat → Env} {f f' : CgiServer}

end Server

end Hottpd
