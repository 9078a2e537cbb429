import Hottpd.Proofs.Circle

/-!
# What the modules keep

The variables of the modules change in their hooks and nowhere else. So what every
hook keeps, every event on the connection keeps, however often it comes back to
`CheckRequest`. One walk through the circle, for any such property.
-/

namespace Hottpd

open Bytes HTTPHeaders

variable {σ : Type} {env : Env} {mods : List (Module σ)} {check : St σ → St σ} {I : σ → Prop}

/-- The hooks of a module keep the property. -/
structure HooksKeep (I : σ → Prop) (m : Module σ) : Prop where
  onPreRequest : ∀ v c method vhost dir file, I v →
    I (m.onPreRequest v c method vhost dir file).1
  onBufferFlushed : ∀ v c, I v → I (m.onBufferFlushed v c)

/-- A function on connections keeps the property. -/
abbrev Keeps (I : σ → Prop) (g : St σ → St σ) : Prop := ∀ s, I s.mods → I (g s).mods

/-! ## Around the circle -/

theorem delete_mods (s : St σ) : (delete s).mods = s.mods := by
  rw [delete_eq]

theorem endStep_mods (s : St σ) : (endStep s).mods = s.mods := by
  cases hk : s.keepalive with
  | false => rw [endStep_of_close hk]
  | true => rw [endStep_of_keepalive hk]

theorem endRequest_keeps (hc : Keeps I check) : Keeps I (endRequest check) := by
  intro s h
  have hend : I (endStep s).mods := (endStep_mods s).symm ▸ h
  rw [endRequest_if]
  split
  · exact hc _ hend
  · exact hend

theorem sendStaticData_keeps (hc : Keeps I check) : Keeps I (sendStaticData env check) := by
  intro s h
  rcases sendStaticData_cases env s with ⟨calls, -, heq⟩ | ⟨sends, calls, heq⟩ |
    ⟨path, k, sends, calls, -, -, -, -, heq⟩ | ⟨path, k, sends, calls, -, -, -, -, heq⟩
  · rw [heq, delete_mods]
    show I (delete s).mods
    rw [delete_mods]
    exact h
  · rw [heq, delete_mods]
    exact h
  · rw [heq]
    exact h
  · rw [heq]
    exact endRequest_keeps hc _ h

theorem onBufferFlushed_keeps (hm : ∀ m ∈ mods, HooksKeep I m) :
    Keeps I (onBufferFlushed mods) := by
  intro s h
  show I (mods.foldl (fun m h => h.onBufferFlushed m s.toConnection) s.mods)
  have hfold : ∀ (ms : List (Module σ)) (v : σ), (∀ m ∈ ms, HooksKeep I m) → I v →
      I (ms.foldl (fun v h => h.onBufferFlushed v s.toConnection) v) := by
    intro ms
    induction ms with
    | nil => exact fun v _ hv => hv
    | cons m ms ih =>
        intro v hms hv
        exact ih _ (fun m' hm' => hms m' (List.mem_cons_of_mem m hm'))
          ((hms m List.mem_cons_self).onBufferFlushed v s.toConnection hv)
  exact hfold mods s.mods hm h

theorem flushWriteBuf_keeps (hm : ∀ m ∈ mods, HooksKeep I m) (hc : Keeps I check) :
    Keeps I (flushWriteBuf env mods check) := by
  intro s h
  unfold flushWriteBuf
  rcases flushSend_cases env s with ⟨k, hk, heq⟩ | heq | ⟨sends, heq⟩
  · simp only [heq, if_neg (advanced_sendq_ne hk), Bool.true_eq_false, if_false]
    exact h
  · simp only [heq, if_true]
    rw [delete_mods]
    exact h
  · have hq : (drained s.mask sends s.mods s).sendq = [] := rfl
    have hflushed : I (onBufferFlushed mods (drained s.mask sends s.mods s)).mods :=
      onBufferFlushed_keeps hm _ h
    simp only [heq, hq, if_true, Bool.true_eq_false, if_false]
    split
    · exact endRequest_keeps hc _ hflushed
    · split
      · exact sendStaticData_keeps hc _ hflushed
      · exact hflushed

theorem sendError_keeps (hm : ∀ m ∈ mods, HooksKeep I m) (hc : Keeps I check) (code : Nat)
    (text : Bytes) (fatal : Bool) : Keeps I (sendError env mods check code text fatal) := by
  intro s h
  have hflush : I (flushWriteBuf env mods check (queueError env code text fatal s)).mods := by
    refine flushWriteBuf_keeps hm hc _ ?_
    rw [queueError_mods]
    exact h
  rw [sendError_eq]
  split
  · exact hflush
  · exact hflush

theorem sendHeaders_keeps (hc : Keeps I check) (size code : Nat) (text : Bytes) :
    Keeps I (sendHeaders env check size code text clear) := by
  intro s h
  have hw : I (writeHeaders env size code text clear s).mods := by
    rw [writeHeaders_eq _ _ _ _ core_no_connection.1]
    exact h
  unfold sendHeaders
  dsimp only
  split
  · exact endRequest_keeps hc _ hw
  · exact hw

theorem serveData_keeps (hm : ∀ m ∈ mods, HooksKeep I m) (hc : Keeps I check) :
    Keeps I (serveData env mods check) := by
  intro s h
  unfold serveData
  split
  · next code text s' hres =>
      obtain ⟨upath, filefd, calls, -, rfl⟩ := resolveFile_error hres
      exact sendError_keeps hm hc code text false _ h
  · next size s' hres =>
      obtain ⟨path, fst, calls, k, -, -, rfl⟩ := resolveFile_ok hres
      exact sendHeaders_keeps hc size 200 (str "OK") _ h

theorem modCalls_keeps (hm : ∀ m ∈ mods, HooksKeep I m) (hc : Keeps I check) :
    ∀ calls : List ModCall, Keeps I (modCalls env mods check calls)
  | [], _, h => h
  | call :: calls, s, h => by
      refine modCalls_keeps hm hc calls (modCall env mods check call s) ?_
      cases call with
      | sendError code text fatal => exact sendError_keeps hm hc code text fatal s h
      | sendHeaders size code text => exact sendHeaders_keeps hc size code text s h
      | write data =>
          rw [modCall, write_eq]
          exact h
      | sendData | bufferDone => exact h

theorem foreachResult_keeps (hm : ∀ m ∈ mods, HooksKeep I m) (hc : Keeps I check)
    (method vhost dir file : Bytes) : ∀ (ms : List (Module σ)) (k : Nat) (s : St σ),
    (∀ m ∈ ms, HooksKeep I m) → I s.mods →
    I (foreachResult env mods check method vhost dir file k ms s).2.mods
  | [], _, _, _, h => h
  | m :: ms, k, s, hms, h => by
      have hhook := (hms m List.mem_cons_self).onPreRequest s.mods s.toConnection method vhost
        dir file h
      have hrest : ∀ t : St σ, I t.mods →
          I (foreachResult env mods check method vhost dir file (k + 1) ms t).2.mods :=
        fun t => foreachResult_keeps hm hc method vhost dir file ms (k + 1) t
          fun m' hm' => hms m' (List.mem_cons_of_mem m hm')
      rw [foreachResult]
      dsimp only
      have hcalls := fun calls t (ht : I t.mods) =>
        @modCalls_keeps σ env mods check I hm hc calls t ht
      split
      · exact hrest _ (hcalls _ _ hhook)
      · split
        · exact hcalls _ _ hhook
        · exact hrest _ (hcalls _ _ hhook)

theorem dispatchRequest_keeps (hm : ∀ m ∈ mods, HooksKeep I m) (hc : Keeps I check) :
    Keeps I (dispatchRequest env mods check) := by
  intro s h
  unfold dispatchRequest
  dsimp only
  have hround := @foreachResult_keeps σ env mods check I hm hc
  split
  · exact hround _ _ _ _ mods 0 _ hm h
  · split
    · exact sendError_keeps hm hc 501 _ true _ (hround _ _ _ _ mods 0 _ hm h)
    · exact serveData_keeps hm hc _ (hround _ _ _ _ mods 0 _ hm h)

/-! ## Closing the circle -/

theorem checkOnce_keeps (hm : ∀ m ∈ mods, HooksKeep I m) (hc : Keeps I check) (newpos : Nat) :
    Keeps I (checkOnce env mods check newpos) := by
  intro s h
  unfold checkOnce
  split
  · exact h
  · next reqend _ =>
      have htaken : I (takenRequest env reqend s).mods := h
      cases hv : (takeRequest env.cfg reqend s.toConnection).2 with
      | reject code text fatal =>
          rw [actOnRequest_reject hv]
          exact sendError_keeps hm hc code text fatal _ htaken
      | body =>
          rw [actOnRequest_body hv]
          exact htaken
      | dispatch =>
          rw [actOnRequest_dispatch hv]
          exact dispatchRequest_keeps hm hc _ htaken

theorem checkFuel_keeps (hm : ∀ m ∈ mods, HooksKeep I m) :
    ∀ (fuel newpos : Nat), Keeps I (checkFuel env mods fuel newpos)
  | 0, _, _, h => h
  | fuel + 1, newpos, s, h => checkOnce_keeps hm (checkFuel_keeps hm fuel 0) newpos s h

theorem recheck_keeps (hm : ∀ m ∈ mods, HooksKeep I m) : Keeps I (recheck env mods) :=
  fun s h => checkFuel_keeps hm _ 0 s h

theorem addBuffer_keeps (hm : ∀ m ∈ mods, HooksKeep I m) (a : Bytes) {s : St σ} (h : I s.mods) :
    I (addBuffer env mods a s).2.mods := by
  unfold addBuffer
  split
  · exact h
  · split
    · obtain ⟨body, buf, heq⟩ := takeBody_eq a s
      dsimp only
      rw [heq]
      split
      · exact serveData_keeps hm (recheck_keeps hm) _ h
      · exact h
    · dsimp only
      split
      · exact checkFuel_keeps hm _ _ _ h
      · exact h

/-- An event that is not one of a module changes what the modules have through their hooks alone. -/
theorem handleEvent_keeps (hm : ∀ m ∈ mods, HooksKeep I m) (ev : Event)
    (hev : ∀ k, ev ≠ .module k) : Keeps I (handleEvent env mods ev) := by
  intro s h
  cases ev with
  | read res =>
      rw [handleEvent]
      split
      · exact h
      · cases res with
        | data bytes =>
            have hadd := @addBuffer_keeps σ env mods I hm (cstr bytes) s h
            simp only [readData]
            split
            · exact hadd
            · rw [delete_mods]
              exact hadd
        | again => exact h
        | eof | fail =>
            show I (delete s).mods
            rw [delete_mods]
            exact h
  | write =>
      rw [handleEvent, handleWrite]
      split
      · exact sendStaticData_keeps (recheck_keeps hm) _ h
      · exact flushWriteBuf_keeps hm (recheck_keeps hm) _ h
  | error | timeout =>
      show I (delete s).mods
      rw [delete_mods]
      exact h
  | module k => exact absurd rfl (hev k)

end Hottpd
