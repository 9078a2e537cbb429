import Hottpd.Proofs.Refine

/-!
# Which fields go with which state

The one state variable drives two ways of sending, the queue and the open
file, and the code relies on the other fields agreeing with it. `Coherent`
says how, for a server without modules: a module may set the state and the
flags as it likes.
-/

namespace Hottpd

open Bytes HTTPHeaders

variable {σ : Type} {env : Env} {mods : List (Module σ)}

def Coherent (s : St σ) : Prop :=
  match s.state with
  | .waitRequest | .recvReqbody =>
      s.quitting = false ∧ s.responseBackend = none ∧ s.responseBufferDone = false ∧
        s.filefd = none ∧ s.rfilesize = 0 ∧ s.rfilesent = 0
  | .sendHeaders =>
      s.quitting = false ∧ s.responseBackend ≠ none ∧ s.responseBufferDone = false ∧
        s.filefd ≠ none ∧ s.rfilesize ≠ 0 ∧ s.rfilesent = 0
  | .sendData =>
      s.quitting = false ∧
        ((s.responseBackend = none ∧ s.responseBufferDone = true ∧
            s.rfilesize = 0 ∧ s.rfilesent = 0) ∨
          (s.responseBackend ≠ none ∧ s.responseBufferDone = false ∧ s.filefd ≠ none ∧
            s.rfilesent < s.rfilesize ∧ s.sendq = []))
  | .finished => s.quitting = true ∧ s.rfilesent ≤ s.rfilesize

theorem Coherent.rfilesent_le {s : St σ} (h : Coherent s) : s.rfilesent ≤ s.rfilesize := by
  unfold Coherent at h
  split at h <;> omega

theorem coherent_delete {s : St σ} (h : s.rfilesent ≤ s.rfilesize) : Coherent (delete s) := by
  rw [delete_eq]
  exact ⟨rfl, h⟩

variable (env) in
theorem coherent_queueError (code : Nat) (text : Bytes) (fatal : Bool) {s : St σ}
    (hq : s.quitting = false) (hsize : s.rfilesize = 0) (hsent : s.rfilesent = 0) :
    Coherent (queueError env code text fatal s) := by
  rw [queueError_eq]
  exact ⟨hq, Or.inl ⟨rfl, rfl, hsize, hsent⟩⟩

theorem coherent_endStep {s : St σ} (hq : s.quitting = false)
    (hsent : s.rfilesent ≤ s.rfilesize) : Coherent (endStep s) := by
  cases hk : s.keepalive with
  | false => rw [endStep_of_close hk]; exact ⟨rfl, hsent⟩
  | true => rw [endStep_of_keepalive hk]; exact ⟨hq, rfl, rfl, rfl, rfl, rfl⟩

theorem coherent_dropKeepalive {s : St σ} (h : Coherent s) : Coherent (dropKeepalive s) := h

theorem coherent_advanced {n : Nat} {s : St σ} (h : Coherent s) (hn : n < s.sendq.length) :
    Coherent (advanced n s) := by
  -- a file is only sent behind an empty queue
  have hne : s.sendq ≠ [] := List.ne_nil_of_length_pos (Nat.zero_lt_of_lt hn)
  simp only [Coherent, advanced, wantWrite] at h ⊢
  split at h <;> simp_all

theorem Page.coherent {s s' : St σ} {code : Nat} {text : Bytes} {fatal : Bool}
    (h : Page env code text fatal s s') (hq : s.quitting = false) (hsize : s.rfilesize = 0)
    (hsent : s.rfilesent = 0) : Coherent s' := by
  have hpage := coherent_queueError env code text fatal hq hsize hsent
  cases h with
  | queued => exact hpage
  | held _ hn => exact coherent_dropKeepalive (coherent_advanced hpage hn)
  | failed => exact coherent_dropKeepalive (coherent_delete hpage.rfilesent_le)
  | sent =>
      refine coherent_endStep ?_ hpage.rfilesent_le
      simpa [drained, queueError_eq] using hq

theorem Serve.coherent {s s' : St σ} (h : Serve env s s') (hq : s.quitting = false)
    (hdone : s.responseBufferDone = false) (hsize : s.rfilesize = 0)
    (hsent : s.rfilesent = 0) : Coherent s' := by
  cases h with
  | page hres hpage =>
      obtain ⟨upath, filefd, calls, -, rfl⟩ := resolveFile_error hres
      exact hpage.coherent hq hsize hsent
  | file hres hne =>
      obtain ⟨path, fst, calls, n, -, -, rfl⟩ := resolveFile_ok hres
      rw [writeHeaders_eq _ _ _ _ core_no_connection.1]
      exact ⟨hq, by simp [openedFile], hdone, by simp [openedFile], hne, rfl⟩
  | empty hres =>
      obtain ⟨path, fst, calls, n, -, -, rfl⟩ := resolveFile_ok hres
      rw [writeHeaders_eq _ _ _ _ core_no_connection.1]
      exact coherent_endStep hq (Nat.le_refl _)

theorem FileOut.coherent {s s' : St σ} (h : FileOut env s s') (hs : s.state = .sendData)
    (hq : s.quitting = false) (hback : s.responseBackend ≠ none)
    (hdone : s.responseBufferDone = false) (hsent : s.rfilesent < s.rfilesize)
    (hsendq : s.sendq = []) : Coherent s' := by
  cases h with
  | lost => exact coherent_delete (by simp only [delete_eq]; omega)
  | failed => exact coherent_delete (Nat.le_of_lt hsent)
  | piece hfd _ hn hmore =>
      simp only [Coherent, wantWrite, filePiece, hs]
      refine ⟨hq, Or.inr ⟨hback, hdone, by simp [hfd], ?_, hsendq⟩⟩
      omega
  | done hfd _ hn hall => exact coherent_endStep hq (Nat.le_of_eq hall)

theorem Move.coherent {s s' : St σ} (h : Move env [] true s s') (hc : Coherent s) :
    Coherent s' := by
  have hle := hc.rfilesent_le
  cases h with
  | receive | dropKeepalive => exact hc
  | @receiveBody a =>
      obtain ⟨body, buf, heq⟩ := takeBody_eq a s
      rw [heq]
      exact hc
  | refuse hs _ _ hpage =>
      simp only [Coherent, hs] at hc
      obtain ⟨_, _, _, _, _, _, -, heq⟩ := takenRequest_eq env _ s
      rw [heq] at hpage
      exact hpage.coherent hc.1 hc.2.2.2.2.1 hc.2.2.2.2.2
  | accept hs =>
      simp only [Coherent, hs] at hc
      obtain ⟨_, _, _, _, _, _, -, heq⟩ := takenRequest_eq env _ s
      rw [heq]
      exact hc
  | claim _ _ _ hrun => exact absurd hrun.nil_inv.2 (by decide)
  | notImplemented hs _ _ _ _ hs₁ _ hpage =>
      simp only [Coherent, hs] at hc
      obtain ⟨_, _, _, _, _, _, _, _, -, -, heq⟩ := hooked_eq env _ _ _ s
      rw [hs₁, heq] at hpage
      exact hpage.coherent hc.1 hc.2.2.2.2.1 hc.2.2.2.2.2
  | serve hs _ _ _ _ hs₁ _ hserve =>
      simp only [Coherent, hs] at hc
      obtain ⟨_, _, _, _, _, _, _, _, -, -, heq⟩ := hooked_eq env _ _ _ s
      rw [hs₁, heq] at hserve
      exact hserve.coherent hc.1 hc.2.2.1 hc.2.2.2.2.1 hc.2.2.2.2.2
  | serveBody hs _ hserve =>
      simp only [Coherent, hs] at hc
      exact hserve.coherent hc.1 hc.2.2.1 hc.2.2.2.2.1 hc.2.2.2.2.2
  | advance hn => exact coherent_advanced hc hn
  | sendFailed | drop => exact coherent_delete hle
  | flushed _ hnofile hpage hfile =>
      simp only [Coherent, drained] at hc ⊢
      split at hc <;> simp_all
  | pageDone _ hs =>
      simp only [Coherent, hs] at hc
      exact coherent_endStep hc.1 hle
  | fileStart _ hs hback hfile =>
      simp only [Coherent, hs] at hc
      have hsent : s.rfilesent < s.rfilesize := by omega
      exact hfile.coherent rfl hc.1 hback hc.2.2.1 hsent rfl
  | filePart _ hs hback hfile =>
      simp only [Coherent, hs, hback, false_and, false_or] at hc
      exact hfile.coherent hs hc.1 hback hc.2.2.1 hc.2.2.2.2.1 hc.2.2.2.2.2
  | modError hm | modHeaders hm | modEmpty hm | modSendData hm | modWrite hm
    | modBufferDone hm | modState hm => exact absurd rfl hm

theorem coherent_init (m : σ) : Coherent (St.init m) := ⟨rfl, rfl, rfl, rfl, rfl, rfl⟩

theorem run_coherent (m : σ) (evs : List Event) : Coherent (run env [] m evs) :=
  run_invariant m evs (coherent_init m) Move.coherent

end Hottpd
