import Hottpd.Proofs.Coherent

/-!
# What the engine is told to watch for

A descriptor is watched for input or for output, never for both, and each
dispatched `EPOLLOUT` turns the watch back to input before the handler runs.
So whatever leaves output behind has to ask for `EPOLLOUT` again, and the
claim here is that everything does: output queued by `Write`, a queue the
socket took in part, and a file that goes on.
-/

namespace Hottpd

open Bytes HTTPHeaders

variable {σ : Type} {env : Env}

/-- There is something to send, now or as soon as the queue is empty. -/
def Pending (s : St σ) : Prop :=
  s.sendq ≠ [] ∨ s.state = .sendHeaders ∨ s.state = .sendData

structure Armed (s : St σ) : Prop where
  one : s.mask.epollin ≠ s.mask.epollout
  out : s.quitting = false → Pending s → s.mask = ⟨false, true⟩

theorem armed_wantWrite {s : St σ} (h : s.mask = ⟨false, true⟩) : Armed s :=
  ⟨by simp [h], fun _ _ => h⟩

theorem Armed.one_of_unarmed {s : St σ} {mask : EpollMask} (h : Armed s)
    (hmask : Unarmed mask s) : mask.epollin ≠ mask.epollout := by
  rcases hmask with rfl | rfl
  · exact h.one
  · decide

theorem armed_delete {s : St σ} (h : s.mask.epollin ≠ s.mask.epollout) :
    Armed (delete s) := by
  rw [delete_eq]
  exact ⟨h, fun hq => by cases hq⟩

variable (env) in
theorem armed_queueError (code : Nat) (text : Bytes) (fatal : Bool) (s : St σ) :
    Armed (queueError env code text fatal s) :=
  armed_wantWrite (by rw [queueError_eq])

/-- The end of a request leaves a watch that fits an empty queue, or the one
for output. -/
theorem armed_endStep {s : St σ} (h : s.mask.epollin ≠ s.mask.epollout)
    (hq : s.sendq ≠ [] → s.mask = ⟨false, true⟩) : Armed (endStep s) := by
  cases hk : s.keepalive with
  | false =>
      rw [endStep_of_close hk]
      exact ⟨h, fun hq => by cases hq⟩
  | true =>
      rw [endStep_of_keepalive hk]
      refine ⟨h, fun _ hp => ?_⟩
      rcases hp with hp | hp | hp
      · exact hq hp
      · cases hp
      · cases hp

theorem Page.armed {s s' : St σ} {code : Nat} {text : Bytes} {fatal : Bool}
    (h : Page env code text fatal s s') : Armed s' := by
  cases h with
  | queued => exact armed_queueError env _ _ _ _
  | held => exact armed_wantWrite rfl
  | failed =>
      have h := armed_delete (s := { queueError env code text true s with sends := _ })
        (armed_queueError env code text true s).one
      exact ⟨h.one, h.out⟩
  | sent => exact armed_endStep (by simp [drained]) fun hne => absurd rfl hne

theorem Serve.armed {s s' : St σ} (h : Serve env s s') : Armed s' := by
  cases h with
  | page _ hpage => exact hpage.armed
  | file => exact armed_wantWrite (by rw [writeHeaders_eq _ _ _ _ core_no_connection.1])
  | empty =>
      rw [writeHeaders_eq _ _ _ _ core_no_connection.1]
      exact armed_endStep (by simp) fun _ => rfl

theorem FileOut.armed {s s' : St σ} (h : FileOut env s s')
    (hmask : s.mask.epollin ≠ s.mask.epollout) (hsendq : s.sendq = []) : Armed s' := by
  cases h with
  | lost => exact armed_delete (by simpa [delete_eq] using hmask)
  | failed => exact armed_delete hmask
  | piece => exact armed_wantWrite rfl
  | done => exact armed_endStep hmask fun hne => absurd hsendq hne

theorem Move.armed {s s' : St σ} (h : Move env [] true s s') (hc : Coherent s) (ha : Armed s) :
    Armed s' := by
  cases h with
  | receive | dropKeepalive => exact ⟨ha.one, ha.out⟩
  | @receiveBody a =>
      obtain ⟨body, buf, heq⟩ := takeBody_eq a s
      rw [heq]
      exact ⟨ha.one, ha.out⟩
  | refuse _ _ _ hpage => exact hpage.armed
  | notImplemented _ _ _ _ _ _ _ hpage => exact hpage.armed
  | accept hs =>
      obtain ⟨_, _, _, _, _, _, -, heq⟩ := takenRequest_eq env _ s
      rw [heq]
      refine ⟨ha.one, fun hq hp => ha.out hq ?_⟩
      simpa [Pending, St.setState, St.log, hs] using hp
  | claim _ _ _ hrun => exact absurd hrun.nil_inv.2 (by decide)
  | serve _ _ _ _ _ _ _ hserve => exact hserve.armed
  | serveBody _ _ hserve => exact hserve.armed
  | advance => exact armed_wantWrite rfl
  | sendFailed hmask => exact armed_delete (ha.one_of_unarmed hmask)
  | flushed hmask hnofile hpage hfile =>
      refine ⟨ha.one_of_unarmed hmask, fun hq hp => ?_⟩
      -- in a sending state the flush would have gone on
      simp only [Pending, drained, ne_eq, not_true_eq_false, false_or] at hp
      simp only [Coherent] at hc
      rcases hp with hs | hs
      · simp only [hs] at hc hfile
        exact absurd ⟨trivial, hc.2.1⟩ hfile
      · simp only [hs] at hc hnofile hpage
        rcases hc.2 with ⟨-, hdone, -⟩ | ⟨hback, -⟩
        · exact absurd ⟨trivial, hdone⟩ hpage
        · exact absurd ⟨trivial, hback⟩ hnofile
  | pageDone hmask => exact armed_endStep (ha.one_of_unarmed hmask) fun hne => absurd rfl hne
  | fileStart hmask _ _ hfile => exact hfile.armed (ha.one_of_unarmed hmask) rfl
  | filePart hmask hs hback hfile =>
      simp only [Coherent, hs, hback, false_and, false_or] at hc
      exact hfile.armed (ha.one_of_unarmed hmask) hc.2.2.2.2.2
  | drop => exact armed_delete ha.one
  | modError hm | modHeaders hm | modEmpty hm | modSendData hm | modWrite hm
    | modBufferDone hm | modState hm => exact absurd rfl hm

theorem armed_init (m : σ) : Armed (St.init m) := by
  refine ⟨by simp [St.init], fun _ hp => ?_⟩
  simp [Pending, St.init, Connection.new] at hp

variable (env) in
theorem run_armed (m : σ) (evs : List Event) : Armed (run env [] m evs) :=
  (run_invariant (I := fun s => Coherent s ∧ Armed s) m evs
    ⟨coherent_init m, armed_init m⟩
    fun h hI => ⟨h.coherent hI.1, h.armed hI.1 hI.2⟩).2

/-- With nothing to send the watch stays where the engine has put it. -/
theorem handleWrite_idle {mods : List (Module σ)} {s : St σ} (h : ¬ Pending s) :
    (handleEvent env mods .write s).mask = ⟨true, false⟩ := by
  simp only [Pending, ne_eq, not_or, not_not] at h
  obtain ⟨hsendq, hheaders, hdata⟩ := h
  simp [handleEvent, handleWrite, flushWriteBuf, flushSend, onBufferFlushed, hsendq, hheaders,
    hdata]

/-- At the end of every event the watch is for output if the connection has
any to send, it is for one direction, and an `EPOLLOUT` that finds nothing
to send leaves it for input. -/
theorem watch_matches_output (m : σ) (evs : List Event) :
    let s := run env [] m evs
    (s.quitting = false → Pending s → s.mask.epollout = true) ∧
      s.mask.epollin ≠ s.mask.epollout ∧
      (¬ Pending s → (handleEvent env [] .write s).mask = ⟨true, false⟩) := by
  have h := run_armed env m evs
  exact ⟨fun hq hp => by rw [h.out hq hp], h.one, handleWrite_idle⟩

end Hottpd
