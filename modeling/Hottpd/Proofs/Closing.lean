import Hottpd.Proofs.Coherent
import Hottpd.Core.World

/-!
# What is sent when a connection closes

`EndRequest` runs behind a drained queue and a file sent to its end, with
one exception: a response without a body ends inside `SendHeaders`, while
its header block is still in the queue. On a connection that stays the next
flush sends it; on one that closes nothing will. Only an empty file has such
a response, so the connections closed early are those that opened one.
-/

namespace Hottpd

open Bytes HTTPHeaders

variable {σ : Type} {env : Env}

/-- A response that ends with the connection was accepted whole. -/
def Ev.isComplete : Ev → Bool
  | .ended keepalive sendq rfilesent rfilesize =>
      keepalive = false → sendq = [] ∧ rfilesent = rfilesize
  | _ => true

/-- An empty file is opened for the last request of a connection. -/
def Ev.opensEmpty : Ev → Bool
  | .opened _ size keepalive => size = 0 ∧ keepalive = false
  | _ => false

/-- All responses are complete, or an empty file was opened. -/
def Accounted (trace : List Ev) : Prop :=
  trace.all Ev.isComplete = !trace.any Ev.opensEmpty

theorem Accounted.append {l evs : List Ev} (h : Accounted l) (hevs : Accounted evs) :
    Accounted (l ++ evs) := by
  unfold Accounted at h hevs ⊢
  rw [List.all_append, List.any_append, h, hevs, Bool.not_or]

/-- Events that are of neither kind. -/
theorem accounted_of_forall {evs : List Ev}
    (h : ∀ e ∈ evs, e.isComplete = true ∧ e.opensEmpty = false) : Accounted evs := by
  have hall : evs.all Ev.isComplete = true := List.all_eq_true.2 fun e he => (h e he).1
  have hany : evs.any Ev.opensEmpty = false := List.any_eq_false.2 fun e he => by
    simp [(h e he).2]
  simp [Accounted, hall, hany]

/-! ## The events of the moves -/

theorem accounted_headEvents (size code : Nat) (text : Bytes) (h : HTTPHeaders) (s : St σ) :
    Accounted (headEvents env size code text h s) := rfl

theorem accounted_delete {s : St σ} (h : Accounted s.trace) : Accounted (delete s).trace := by
  rw [delete_eq]
  exact h.append rfl

theorem accounted_queueError {code : Nat} {text : Bytes} {fatal : Bool} {s : St σ}
    (h : Accounted s.trace) : Accounted (queueError env code text fatal s).trace := by
  rw [queueError_eq]
  refine h.append ?_
  cases fatal <;> exact rfl

theorem accounted_endStep {s : St σ} (h : Accounted s.trace) (hq : s.sendq = [])
    (hsent : s.rfilesent = s.rfilesize) : Accounted (endStep s).trace := by
  rw [endStep_trace_eq]
  refine h.append (accounted_of_forall ?_)
  cases hk : s.keepalive <;>
    simp [endEvents, hk, Ev.isComplete, Ev.opensEmpty, hq, hsent]

theorem accounted_flushEvents (s : St σ) : Accounted (flushEvents s) := by
  unfold flushEvents
  split <;> exact rfl

theorem headBlock_ne_nil (status : Bytes) (h : HTTPHeaders) : headBlock status h ≠ [] := by
  simp [headBlock, crlf]

/-- The exception: a header block queued and its request ended. -/
theorem accounted_empty {s : St σ} (h : Accounted s.trace) (path : Bytes) (calls : Nat) :
    Accounted (endStep (writeHeaders env 0 200 (str "OK") clear
      (openedFile path 0 calls s))).trace := by
  rw [writeHeaders_eq _ _ _ _ core_no_connection.1, endStep_trace_eq]
  simp only [trace_openedFile, List.append_assoc]
  refine h.append ?_
  cases hk : s.keepalive <;>
    simp [Accounted, endEvents, headEvents, openedFile, hk, Ev.isComplete, Ev.opensEmpty,
      headBlock_ne_nil]

theorem Page.accounted {s s' : St σ} {code : Nat} {text : Bytes} {fatal : Bool}
    (h : Page env code text fatal s s') (ha : Accounted s.trace)
    (hsent : s.rfilesent = s.rfilesize) : Accounted s'.trace := by
  have hpage : Accounted (queueError env code text fatal s).trace := accounted_queueError ha
  cases h with
  | queued => exact hpage
  | held => exact Accounted.append (hpage.append rfl) rfl
  | failed => exact (accounted_delete hpage).append rfl
  | sent =>
      refine accounted_endStep (hpage.append (accounted_flushEvents _)) rfl ?_
      simpa [drained, queueError_eq] using hsent

theorem Serve.accounted {s s' : St σ} (h : Serve env s s') (ha : Accounted s.trace)
    (hsent : s.rfilesent = s.rfilesize) : Accounted s'.trace := by
  cases h with
  | page hres hpage =>
      obtain ⟨upath, filefd, calls, -, rfl⟩ := resolveFile_error hres
      exact hpage.accounted (ha.append rfl) hsent
  | file hres hsize =>
      obtain ⟨path, fst, calls, n, -, -, rfl⟩ := resolveFile_ok hres
      rw [writeHeaders_eq _ _ _ _ core_no_connection.1]
      refine (ha.append (accounted_of_forall ?_)).append (accounted_headEvents ..)
      simp [Ev.isComplete, Ev.opensEmpty, hsize]
  | empty hres =>
      obtain ⟨path, fst, calls, n, -, -, rfl⟩ := resolveFile_ok hres
      exact accounted_empty ha path calls

theorem FileOut.accounted {s s' : St σ} (h : FileOut env s s') (ha : Accounted s.trace)
    (hq : s.sendq = []) : Accounted s'.trace := by
  cases h with
  | lost => exact accounted_delete (accounted_delete ha)
  | failed => exact accounted_delete ha
  | piece => exact ha
  | done _ _ _ hall => exact accounted_endStep ha hq hall

theorem Move.accounted {s s' : St σ} (h : Move env [] true s s') (hc : Coherent s)
    (ha : Accounted s.trace) : Accounted s'.trace := by
  cases h with
  | receive => exact ha
  | dropKeepalive | advance => exact ha.append rfl
  | flushed => exact ha.append (accounted_flushEvents s)
  | @receiveBody a =>
      obtain ⟨body, buf, heq⟩ := takeBody_eq a s
      rw [heq]
      exact ha
  | refuse hs _ _ hpage =>
      simp only [Coherent, hs] at hc
      obtain ⟨_, _, _, _, _, _, -, heq⟩ := takenRequest_eq env _ s
      rw [heq] at hpage
      exact hpage.accounted (ha.append rfl) (hc.2.2.2.2.2.trans hc.2.2.2.2.1.symm)
  | accept =>
      obtain ⟨_, _, _, _, _, _, -, heq⟩ := takenRequest_eq env _ s
      rw [heq]
      exact Accounted.append (ha.append rfl) rfl
  | claim _ _ _ hrun => exact absurd hrun.nil_inv.2 (by decide)
  | notImplemented hs _ _ hrun _ hs₁ _ hpage =>
      simp only [Coherent, hs] at hc
      obtain ⟨_, _, _, _, _, _, _, _, -, -, heq⟩ := hooked_eq env _ _ _ s
      rw [hs₁, heq, hrun.nil_inv.1] at hpage
      exact hpage.accounted (ha.append rfl) (hc.2.2.2.2.2.trans hc.2.2.2.2.1.symm)
  | serve hs _ _ hrun _ hs₁ _ hserve =>
      simp only [Coherent, hs] at hc
      obtain ⟨_, _, _, _, _, _, _, _, -, -, heq⟩ := hooked_eq env _ _ _ s
      rw [hs₁, heq, hrun.nil_inv.1] at hserve
      exact hserve.accounted (ha.append rfl) (hc.2.2.2.2.2.trans hc.2.2.2.2.1.symm)
  | serveBody hs _ hserve =>
      simp only [Coherent, hs] at hc
      exact hserve.accounted ha (hc.2.2.2.2.2.trans hc.2.2.2.2.1.symm)
  | sendFailed | drop => exact accounted_delete ha
  | pageDone _ hs hdone =>
      have hsent : s.rfilesent = s.rfilesize := by
        simp only [Coherent, hs, hdone] at hc
        rcases hc.2 with ⟨-, -, h, h'⟩ | ⟨-, h, -⟩
        · rw [h, h']
        · cases h
      exact accounted_endStep (ha.append (accounted_flushEvents s)) rfl hsent
  | fileStart _ _ _ hfile =>
      exact hfile.accounted (Accounted.append (ha.append (accounted_flushEvents s)) rfl) rfl
  | filePart _ hs hback hfile =>
      simp only [Coherent, hs, hback, false_and, false_or] at hc
      exact hfile.accounted ha hc.2.2.2.2.2
  | modError hm | modHeaders hm | modEmpty hm | modSendData hm | modWrite hm
    | modBufferDone hm | modState hm => exact absurd rfl hm

/-- A connection that closes has sent every response whole, exactly when it
has opened no empty file for its last request. -/
theorem closes_complete_iff (m : σ) (evs : List Event) :
    (∀ e ∈ (run env [] m evs).trace, e.isComplete) ↔
      ∀ e ∈ (run env [] m evs).trace, ¬ e.opensEmpty := by
  have h : Accounted (run env [] m evs).trace :=
    (run_invariant (I := fun s => Coherent s ∧ Accounted s.trace) m evs
      ⟨coherent_init m, rfl⟩
      fun h hI => ⟨h.coherent hI.1, h.accounted hI.1 hI.2⟩).2
  rw [← List.all_eq_true, h]
  simp

/-- The header block of an empty file goes down with the connection. -/
theorem empty_file_lost : ∃ e ∈ (plainRun (smallWorld [] [] eager)
    ["GET /empty HTTP/1.1\r\nConnection: close\r\n\r\n"]).trace, ¬ e.isComplete := by
  decide +kernel

end Hottpd
