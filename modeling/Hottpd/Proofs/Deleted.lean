import Hottpd.Proofs.Refine

/-!
# A deleted connection stays deleted

`Delete` only marks the connection, and the calls that led to it go on. In
the trace everything behind a deletion is another deletion, what is left of
the queue going out, or the tail of a `SendError`: no header block is taken,
no file opened, nothing queued, and the state is not moved away from
`HTTP_FINISHED`. This rests on where the moves start: those that do any
of these begin in a state other than `HTTP_FINISHED`.
-/

namespace Hottpd

open Bytes HTTPHeaders

variable {σ : Type} {env : Env}

/-- Nothing that revives a connection. -/
def Ev.isQuiet : Ev → Prop
  | .deleted | .state .finished | .flush .. | .dropped .. => True
  | _ => False

/-- `b` may come after `a`. -/
def AfterDelete (a b : Ev) : Prop := a = .deleted → b.isQuiet

def Live (s : St σ) : Prop := .deleted ∉ s.trace

structure Final (s : St σ) : Prop where
  finished : .deleted ∈ s.trace → s.state = .finished
  quiet : s.trace.Pairwise AfterDelete

theorem Live.final {s : St σ} (h : Live s) : Final s where
  finished hd := absurd hd h
  quiet := List.pairwise_of_forall_mem_list fun _ ha _ _ hdel => absurd (hdel ▸ ha) h

theorem Live.append {s s' : St σ} {l : List Ev} (h : Live s)
    (htrace : s'.trace = s.trace ++ l) (hl : .deleted ∉ l) : Live s' := by
  unfold Live at h ⊢
  rw [htrace, List.mem_append, not_or]
  exact ⟨h, hl⟩

theorem Live.setState {s : St σ} {x : HttpState} (h : Live s) : Live (s.setState x) :=
  h.append rfl (by simp)

theorem Final.append {s s' : St σ} {evs : List Ev} (h : Final s)
    (hs : s'.state = .finished) (htrace : s'.trace = s.trace ++ evs)
    (hevs : evs.Pairwise AfterDelete)
    (hquiet : .deleted ∈ s.trace → ∀ e ∈ evs, e.isQuiet) : Final s' where
  finished _ := hs
  quiet := by
    rw [htrace, List.pairwise_append]
    exact ⟨h.quiet, hevs, fun a ha b hb hdel => hquiet (hdel ▸ ha) b hb⟩

theorem final_delete {s : St σ} (h : Final s) : Final (delete s) := by
  rw [delete_eq]
  refine h.append rfl rfl ?_ fun _ => ?_ <;> simp [AfterDelete, Ev.isQuiet]

/-! ## Moves of a live connection -/

theorem headEvents_live (size code : Nat) (text : Bytes) (h : HTTPHeaders) (s : St σ) :
    .deleted ∉ headEvents env size code text h s := by
  simp [headEvents]

theorem live_queueError {code : Nat} {text : Bytes} {fatal : Bool} {s : St σ}
    (h : Live s) : Live (queueError env code text fatal s) := by
  rw [queueError_eq]
  refine h.append rfl ?_
  cases fatal <;> simp [errorEvents, headEvents_live]

theorem live_writeHeaders {size code : Nat} {text : Bytes} {s : St σ} (h : Live s) :
    Live (writeHeaders env size code text clear s) := by
  rw [writeHeaders_eq _ _ _ _ core_no_connection.1]
  exact h.append rfl (headEvents_live _ _ _ _ _)

theorem Live.endStep {s : St σ} (h : Live s) : Final (endStep s) := by
  cases hk : s.keepalive with
  | false =>
      rw [endStep_of_close hk]
      refine h.final.append rfl rfl ?_ fun hd => absurd hd h
      simp [AfterDelete, Ev.isQuiet]
  | true =>
      rw [endStep_of_keepalive hk]
      exact (h.append rfl (by simp)).final

theorem final_dropKeepalive {s : St σ} (h : Final s) : Final (dropKeepalive s) where
  finished hd := h.finished (by simpa using hd)
  quiet := by
    rw [trace_dropKeepalive, List.pairwise_append]
    exact ⟨h.quiet, by simp, fun _ _ b hb _ => by simp_all [Ev.isQuiet]⟩

theorem final_flush {s s' : St σ} {evs : List Ev} (h : Final s) (hs : s'.state = s.state)
    (htrace : s'.trace = s.trace ++ evs) (hevs : ∀ e ∈ evs, ∃ n len, e = .flush n len) :
    Final s' where
  finished hd := by
    rw [htrace, List.mem_append] at hd
    rcases hd with hd | hd
    · rw [hs]; exact h.finished hd
    · obtain ⟨n, len, he⟩ := hevs _ hd
      cases he
  quiet := by
    have hquiet : ∀ e ∈ evs, e.isQuiet := fun e he => by
      obtain ⟨n, len, rfl⟩ := hevs e he
      exact trivial
    rw [htrace, List.pairwise_append]
    refine ⟨h.quiet, ?_, fun _ _ b hb _ => hquiet b hb⟩
    exact List.pairwise_of_forall_mem_list fun _ _ b hb _ => hquiet b hb

theorem flushEvents_flush (s : St σ) : ∀ e ∈ flushEvents s, ∃ n len, e = .flush n len := by
  unfold flushEvents
  split <;> simp

theorem flushEvents_live (s : St σ) : .deleted ∉ flushEvents s := fun hd => by
  obtain ⟨n, len, he⟩ := flushEvents_flush s _ hd
  cases he

theorem Live.drained {mask : EpollMask} {sends : Nat} {m : σ} {s : St σ} (h : Live s) :
    Live (drained mask sends m s) :=
  h.append rfl (flushEvents_live s)

theorem Page.final {s s' : St σ} {code : Nat} {text : Bytes} {fatal : Bool}
    (h : Page env code text fatal s s') (hl : Live s) : Final s' := by
  have hpage : Live (queueError env code text fatal s) := live_queueError hl
  cases h with
  | queued => exact hpage.final
  | held => exact final_dropKeepalive (hpage.append rfl (by simp)).final
  | failed => exact final_dropKeepalive (final_delete ⟨hpage.final.finished, hpage.final.quiet⟩)
  | sent => exact hpage.drained.endStep

theorem Serve.final {s s' : St σ} (h : Serve env s s') (hl : Live s) : Final s' := by
  cases h with
  | page hres hpage =>
      obtain ⟨upath, filefd, calls, -, rfl⟩ := resolveFile_error hres
      exact hpage.final (hl.append rfl (by simp))
  | file hres =>
      obtain ⟨path, fst, calls, n, -, -, rfl⟩ := resolveFile_ok hres
      exact (live_writeHeaders (hl.append rfl (by simp))).final
  | empty hres =>
      obtain ⟨path, fst, calls, n, -, -, rfl⟩ := resolveFile_ok hres
      exact (live_writeHeaders (hl.append rfl (by simp))).endStep

theorem FileOut.final {s s' : St σ} (h : FileOut env s s') (hl : Live s) : Final s' := by
  cases h with
  | lost =>
      exact final_delete ⟨(final_delete hl.final).finished, (final_delete hl.final).quiet⟩
  | failed => exact final_delete ⟨hl.final.finished, hl.final.quiet⟩
  | piece => exact (Live.append (s := s) hl (l := []) (by simp [wantWrite, filePiece])
      (by simp)).final
  | done => exact (Live.append (s := s) hl (l := []) (by simp [filePiece])
      (by simp)).endStep

/-! ## All moves -/

theorem Move.final {s s' : St σ} (h : Move env [] true s s') (hf : Final s) : Final s' := by
  have hlive : s.state ≠ .finished → Live s := fun hs hd => hs (hf.finished hd)
  cases h with
  | receive => exact ⟨hf.finished, hf.quiet⟩
  | dropKeepalive => exact final_dropKeepalive hf
  | advance => exact final_flush hf rfl rfl (by simp)
  | flushed => exact final_flush hf rfl rfl (flushEvents_flush s)
  | @receiveBody a =>
      obtain ⟨body, buf, heq⟩ := takeBody_eq a s
      rw [heq]
      exact ⟨hf.finished, hf.quiet⟩
  | refuse hs _ _ hpage =>
      obtain ⟨_, _, _, _, _, _, -, heq⟩ := takenRequest_eq env _ s
      rw [heq] at hpage
      exact hpage.final ((hlive (by simp [hs])).append rfl (by simp))
  | accept hs =>
      obtain ⟨_, _, _, _, _, _, -, heq⟩ := takenRequest_eq env _ s
      rw [heq]
      exact ((hlive (by simp [hs])).append rfl (by simp)).setState.final
  | claim _ _ _ hrun => exact absurd hrun.nil_inv.2 (by decide)
  | notImplemented hs _ _ hrun _ hs₁ _ hpage =>
      obtain ⟨_, _, _, _, _, _, _, _, -, -, heq⟩ := hooked_eq env _ _ _ s
      rw [hs₁, heq, hrun.nil_inv.1] at hpage
      exact hpage.final ((hlive (by simp [hs])).append rfl (by simp))
  | serve hs _ _ hrun _ hs₁ _ hserve =>
      obtain ⟨_, _, _, _, _, _, _, _, -, -, heq⟩ := hooked_eq env _ _ _ s
      rw [hs₁, heq, hrun.nil_inv.1] at hserve
      exact hserve.final ((hlive (by simp [hs])).append rfl (by simp))
  | serveBody hs _ hserve => exact hserve.final (hlive (by simp [hs]))
  | sendFailed => exact final_delete ⟨hf.finished, hf.quiet⟩
  | pageDone _ hs => exact (hlive (by simp [hs])).drained.endStep
  | fileStart _ hs _ hfile =>
      exact hfile.final ((hlive (by simp [hs])).drained.setState)
  | filePart _ hs _ hfile => exact hfile.final (hlive (by simp [hs]))
  | drop => exact final_delete hf
  | modError hm | modHeaders hm | modEmpty hm | modSendData hm | modWrite hm
    | modBufferDone hm | modState hm => exact absurd rfl hm

/-- Behind a deletion the trace holds nothing but deletions, and the
connection they leave is finished. -/
theorem deleted_is_final (m : σ) (evs : List Event) :
    let s := run env [] m evs
    s.trace.Pairwise AfterDelete ∧ (.deleted ∈ s.trace → s.state = .finished) := by
  have h : Final (run env [] m evs) :=
    run_invariant m evs (Live.final (by simp [Live, St.init])) Move.final
  exact ⟨h.quiet, h.finished⟩

end Hottpd
