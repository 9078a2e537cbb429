import Hottpd.Proofs.Refine
import Hottpd.Core.World
import Hottpd.Lib.Trace

/-!
# What a fatal error page leads to

A fatal `SendError` is meant to end the connection: whatever the client has
sent or will send behind the rejected header block is not to be read as a
request. The page is flushed before `keepalive` is turned off, though. If
`keepalive` was on and the socket takes the whole queue in that flush, the
request ends as on a connection that stays. In every other case the
connection is sealed: without `keepalive`, and not waiting for a request.
-/

namespace Hottpd

open Bytes HTTPHeaders Trace

variable {σ : Type} {env : Env} {mods : List (Module σ)}

def Ev.isFatal : Ev → Bool
  | .fatal _ => true
  | _ => false

/-- A header block is taken, or the connection waits for one. -/
def Ev.reopens : Ev → Bool
  | .parsed .. | .state .waitRequest => true
  | _ => false

/-- Behind a fatal error page the connection does not come back. -/
def NoReturn (past : List Ev) (e : Ev) : Prop := past.any Ev.isFatal → ¬ e.reopens

/-- A fatal error page was begun with `keepalive` on and is not flushed yet. -/
def underFatalStep (under : Bool) : Ev → Bool
  | .fatal keepalive => keepalive
  | .flush .. | .deleted => false
  | _ => under

def underFatal (trace : List Ev) : Bool := trace.foldl underFatalStep false

/-- The flush of such a page does not take the whole queue. -/
def HeldUp (past : List Ev) : Ev → Prop
  | .flush accepted offered => underFatal past → accepted < offered
  | _ => True

instance (past : List Ev) (e : Ev) : Decidable (NoReturn past e) :=
  inferInstanceAs (Decidable (_ → _))

instance (past : List Ev) : (e : Ev) → Decidable (HeldUp past e)
  | .flush .. => inferInstanceAs (Decidable (_ → _))
  | .parsed .. | .cleaned | .hook .. | .served .. | .opened .. | .head .. | .page ..
  | .fatal .. | .dropped .. | .ended .. | .append .. | .state .. | .deleted => isTrue trivial

/-- A connection that parses nothing any more. -/
def Sealed (s : St σ) : Prop := s.keepalive = false ∧ s.state ≠ .waitRequest

structure Rejecting (s : St σ) : Prop where
  heldUp : AtEach HeldUp s.trace
  noReturn : AtEach NoReturn s.trace
  settled : underFatal s.trace = false
  isSealed : s.trace.any Ev.isFatal → Sealed s

structure Escaped (s : St σ) : Prop where
  heldUp : ¬ AtEach HeldUp s.trace
  noReturn : ¬ AtEach NoReturn s.trace

theorem Escaped.of_prefix {s s' : St σ} (h : Escaped s) (hpre : s.trace <+: s'.trace) :
    Escaped s' := by
  obtain ⟨evs, heq⟩ := hpre
  exact ⟨fun h' => h.heldUp (heq ▸ h').of_append, fun h' => h.noReturn (heq ▸ h').of_append⟩

/-! ## Steps without a fatal page -/

theorem underFatal_append (l evs : List Ev) :
    underFatal (l ++ evs) = evs.foldl underFatalStep (underFatal l) := List.foldl_append

theorem foldl_underFatalStep_false {evs : List Ev} (h : ∀ e ∈ evs, e.isFatal = false) :
    evs.foldl underFatalStep false = false := by
  refine foldl_quiet fun e he => ?_
  have hnot := h e he
  cases e <;> first | rfl | cases hnot

theorem heldUp_of_settled {past evs : List Ev} (hpast : underFatal past = false)
    (h : ∀ e ∈ evs, e.isFatal = false) : AtEachFrom HeldUp past evs := by
  induction evs generalizing past with
  | nil => trivial
  | cons e evs ih =>
      have he := h e List.mem_cons_self
      have hstep : underFatal (past ++ [e]) = false := by
        rw [underFatal_append, hpast]
        exact foldl_underFatalStep_false (by simpa using he)
      refine ⟨?_, ih hstep fun e' he' => h e' (List.mem_cons_of_mem e he')⟩
      cases e <;> simp [HeldUp, hpast]

/-- Before any fatal page there is nothing to keep to. -/
theorem noReturn_of_clear {past evs : List Ev} (hpast : past.any Ev.isFatal = false)
    (h : ∀ e ∈ evs, e.isFatal = false) : AtEachFrom NoReturn past evs := by
  induction evs generalizing past with
  | nil => trivial
  | cons e evs ih =>
      have he := h e List.mem_cons_self
      refine ⟨by simp [NoReturn, hpast], ih ?_ fun e' he' => h e' (List.mem_cons_of_mem e he')⟩
      simp [hpast, he]

theorem noReturn_of_closed {past evs : List Ev} (h : ∀ e ∈ evs, e.reopens = false) :
    AtEachFrom NoReturn past evs :=
  atEachFrom_of_forall fun e he _ _ => by simp [h e he]

/-- A step that begins no fatal page, and on a sealed connection reopens
nothing. -/
theorem Rejecting.step {s s' : St σ} {l : List Ev} (h : Rejecting s)
    (htrace : s'.trace = s.trace ++ l) (hl : ∀ e ∈ l, e.isFatal = false)
    (hclosed : Sealed s → (∀ e ∈ l, e.reopens = false) ∧ Sealed s') : Rejecting s' := by
  have hany : s'.trace.any Ev.isFatal = s.trace.any Ev.isFatal := by
    have : l.any Ev.isFatal = false := List.any_eq_false.2 fun e he => by simp [hl e he]
    rw [htrace, List.any_append, this, Bool.or_false]
  constructor
  · rw [htrace]
    exact h.heldUp.append (heldUp_of_settled h.settled hl)
  · rw [htrace]
    refine h.noReturn.append ?_
    cases hf : s.trace.any Ev.isFatal with
    | false => exact noReturn_of_clear hf hl
    | true => exact noReturn_of_closed (hclosed (h.isSealed hf)).1
  · rw [htrace, underFatal_append, h.settled]
    exact foldl_underFatalStep_false hl
  · intro hf
    rw [hany] at hf
    exact (hclosed (h.isSealed hf)).2

theorem rejecting_delete {s : St σ} (h : Rejecting s) : Rejecting (delete s) := by
  rw [delete_eq]
  refine h.step rfl (by simp [Ev.isFatal]) fun hs => ⟨by simp [Ev.reopens], hs.1, by simp⟩

theorem rejecting_writeHeaders {size code : Nat} {text : Bytes} {rheaders : HTTPHeaders}
    {s : St σ} (hconn : getHeader rheaders (str "Connection") = []) (h : Rejecting s) :
    Rejecting (writeHeaders env size code text rheaders s) := by
  rw [writeHeaders_eq _ _ _ _ hconn]
  refine h.step rfl (by simp [headEvents, Ev.isFatal]) fun hs => ?_
  exact ⟨by simp [headEvents, Ev.reopens], hs.1, by simp⟩

theorem rejecting_endStep {s : St σ} (h : Rejecting s) : Rejecting (endStep s) := by
  refine h.step (endStep_trace_eq s) ?_ fun hs => ?_
  · cases hk : s.keepalive <;> simp [endEvents, hk, Ev.isFatal]
  · rw [endStep_of_close hs.1]
    simp [endEvents, hs.1, Ev.reopens, Sealed]

theorem Rejecting.flushed {mask : EpollMask} {sends : Nat} {m : σ} {s : St σ}
    (h : Rejecting s) : Rejecting (drained mask sends m s) := by
  have hevs : ∀ e ∈ flushEvents s, e.isFatal = false ∧ e.reopens = false := by
    unfold flushEvents
    split <;> simp [Ev.isFatal, Ev.reopens]
  exact h.step rfl (fun e he => (hevs e he).1) fun hs => ⟨fun e he => (hevs e he).2, hs⟩

theorem Rejecting.setState {s : St σ} {x : HttpState} (hx : x ≠ .waitRequest)
    (h : Rejecting s) : Rejecting (s.setState x) :=
  h.step rfl (by simp [Ev.isFatal]) fun hs =>
    ⟨by cases x <;> simp [Ev.reopens] at hx ⊢, hs.1, hx⟩

theorem rejecting_dropKeepalive {s : St σ} (h : Rejecting s) :
    Rejecting (dropKeepalive s) :=
  h.step rfl (by simp [Ev.isFatal]) fun hs => ⟨by simp [Ev.reopens], rfl, hs.2⟩

/-! ## Error pages -/

variable (env) in
/-- The events of a page before its flush. -/
theorem errorEvents_quiet (code : Nat) (text : Bytes) (fatal : Bool) (s : St σ) :
    ∃ evs, errorEvents env code text fatal s
        = (if fatal then [.fatal s.keepalive] else []) ++ evs ∧
      ∀ e ∈ evs, e.isFatal = false ∧ e.reopens = false ∧
        (∀ under, underFatalStep under e = under) ∧ ∀ past, HeldUp past e := by
  refine ⟨_, List.append_assoc _ _ _, ?_⟩
  simp [headEvents, Ev.isFatal, Ev.reopens, underFatalStep, HeldUp]

theorem rejecting_queueError {code : Nat} {text : Bytes} {s : St σ} (h : Rejecting s) :
    Rejecting (queueError env code text false s) := by
  obtain ⟨evs, heq, hevs⟩ := errorEvents_quiet env code text false s
  rw [queueError_eq, heq]
  exact h.step rfl (fun e he => (hevs e he).1) fun hs =>
    ⟨fun e he => (hevs e he).2.1, hs.1, by simp⟩

variable (env) in
/-- A fatal page is queued: all is well, and a flush is due. -/
theorem queued_fatal (code : Nat) (text : Bytes) {s : St σ} (h : Rejecting s) :
    AtEach HeldUp (queueError env code text true s).trace ∧
      AtEach NoReturn (queueError env code text true s).trace ∧
      underFatal (queueError env code text true s).trace = s.keepalive ∧
      (queueError env code text true s).trace.any Ev.isFatal := by
  obtain ⟨evs, heq, hevs⟩ := errorEvents_quiet env code text true s
  rw [queueError_eq, heq]
  refine ⟨h.heldUp.append ⟨trivial, ?_⟩, h.noReturn.append ⟨?_, ?_⟩, ?_, ?_⟩
  · exact atEachFrom_of_forall fun e he past => (hevs e he).2.2.2 past
  · simp [NoReturn, Ev.reopens]
  · exact noReturn_of_closed fun e he => (hevs e he).2.1
  · simp only [underFatal_append, if_true, List.singleton_append, List.foldl_cons]
    exact foldl_quiet fun e he => (hevs e he).2.2.1 _
  · simp [Ev.isFatal]

/-- The flush that takes everything lets the connection escape. -/
theorem escaped_sent {code : Nat} {text : Bytes} {mask : EpollMask} {sends : Nat} {m : σ}
    {s : St σ} (h : Rejecting s) (hk : s.keepalive = true) :
    Escaped (endStep (drained mask sends m (queueError env code text true s))) := by
  obtain ⟨-, -, hunder, hany⟩ := queued_fatal env code text h
  have hsendq : (queueError env code text true s).sendq ≠ [] := by
    simp [queueError_eq, errorPage, str]
  have hk' : (queueError env code text true s).keepalive = true := by
    simpa [queueError_eq] using hk
  generalize queueError env code text true s = q at *
  have htrace : (endStep (drained mask sends m q)).trace
      = q.trace ++ ([.flush q.sendq.length q.sendq.length]
        ++ endEvents (drained mask sends m q)) := by
    rw [endStep_trace_eq, trace_drained, flushEvents, if_neg hsendq, List.append_assoc]
  constructor
  · intro hheld
    rw [htrace] at hheld
    have := hheld.append_right.1 (hunder.trans hk)
    omega
  · intro hno
    rw [htrace, show endEvents (drained mask sends m q) = [.ended true [] q.rfilesent q.rfilesize,
      .state .waitRequest] by simp [endEvents, drained, hk']] at hno
    have hwait := hno.append_right.2.2.1
    simp [NoReturn, Ev.reopens, hany] at hwait

theorem Page.rejecting {s s' : St σ} {code : Nat} {text : Bytes} {fatal : Bool}
    (h : Page env code text fatal s s') (hr : Rejecting s) : Rejecting s' ∨ Escaped s' := by
  cases fatal with
  | false =>
      left
      cases h
      exact rejecting_queueError hr
  | true =>
      obtain ⟨hheld, hno, hunder, hany⟩ :=
        queued_fatal env code text hr
      cases h with
      | queued hk =>
          refine Or.inl ⟨hheld, hno, hunder.trans (hk rfl), fun _ => ?_⟩
          rw [queueError_eq]
          exact ⟨hk rfl, by simp⟩
      | held _ hn =>
          refine Or.inl ⟨?_, ?_, ?_, fun _ => ⟨rfl, ?_⟩⟩
          · simp only [trace_dropKeepalive, trace_advanced, List.append_assoc]
            exact hheld.append (by simp [HeldUp, hn])
          · simp only [trace_dropKeepalive, trace_advanced, List.append_assoc]
            exact hno.append (noReturn_of_closed (by simp [Ev.reopens]))
          · simp [underFatal_append, underFatalStep]
          · simp [advanced, wantWrite, queueError_eq, dropKeepalive, St.log]
      | failed =>
          refine Or.inl ⟨?_, ?_, ?_, fun _ => ⟨rfl, ?_⟩⟩
          · simp only [trace_dropKeepalive, delete_eq, List.append_assoc]
            exact hheld.append (by simp [HeldUp])
          · simp only [trace_dropKeepalive, delete_eq, List.append_assoc]
            exact hno.append (noReturn_of_closed (by simp [Ev.reopens]))
          · simp [delete_eq, underFatal_append, underFatalStep]
          · simp [delete_eq, dropKeepalive, St.log]
      | sent hk => exact Or.inr (escaped_sent hr hk)

/-! ## All moves -/

theorem Serve.rejecting {s s' : St σ} (h : Serve env s s') (hr : Rejecting s) :
    Rejecting s' := by
  cases h with
  | page hres hpage =>
      obtain ⟨upath, filefd, calls, -, rfl⟩ := resolveFile_error hres
      cases hpage
      exact rejecting_queueError (hr.step rfl (by simp [Ev.isFatal])
        fun hs => ⟨by simp [Ev.reopens], hs⟩)
  | file hres =>
      obtain ⟨path, fst, calls, n, -, -, rfl⟩ := resolveFile_ok hres
      exact rejecting_writeHeaders core_no_connection.1 (hr.step rfl (by simp [Ev.isFatal])
        fun hs => ⟨by simp [Ev.reopens], hs⟩)
  | empty hres =>
      obtain ⟨path, fst, calls, n, -, -, rfl⟩ := resolveFile_ok hres
      exact rejecting_endStep (rejecting_writeHeaders core_no_connection.1
        (hr.step rfl (by simp [Ev.isFatal]) fun hs => ⟨by simp [Ev.reopens], hs⟩))

theorem FileOut.rejecting {s s' : St σ} (h : FileOut env s s') (hr : Rejecting s) :
    Rejecting s' := by
  cases h with
  | lost =>
      have hd := rejecting_delete hr
      exact rejecting_delete ⟨hd.heldUp, hd.noReturn, hd.settled, hd.isSealed⟩
  | failed => exact rejecting_delete ⟨hr.heldUp, hr.noReturn, hr.settled, hr.isSealed⟩
  | piece => exact ⟨hr.heldUp, hr.noReturn, hr.settled, hr.isSealed⟩
  | done => exact rejecting_endStep ⟨hr.heldUp, hr.noReturn, hr.settled, hr.isSealed⟩

/-- A connection that takes a header block is not sealed, so nothing fatal
has happened to it. -/
theorem rejecting_taken {s : St σ} (reqend : Nat) (hs : s.state = .waitRequest)
    (h : Rejecting s) : Rejecting (takenRequest env reqend s) :=
  h.step (l := [.parsed _ _ _ _]) rfl (by simp [Ev.isFatal]) fun hseal => absurd hs hseal.2

theorem rejecting_hooked {s : St σ} {file : Bytes} {m : σ} {evs : List Ev} {res : Int} (reqend : Nat)
    (hs : s.state = .waitRequest) (hrun : HookRun file 0 mods evs res) (h : Rejecting s) :
    Rejecting (hooked m evs (cleaned (takenRequest env reqend s))) := by
  obtain ⟨_, _, _, _, _, _, _, _, -, -, heq⟩ := hooked_eq env m evs reqend s
  rw [heq]
  refine h.step rfl ?_ fun hseal => absurd hs hseal.2
  simp only [List.forall_mem_cons]
  refine ⟨rfl, rfl, fun e he => ?_⟩
  obtain ⟨k, r, rfl⟩ := hrun.mem_hook e he
  rfl

theorem Move.rejecting {input : Bool} {s s' : St σ} (h : Move env mods input s s') (hr : Rejecting s) :
    Rejecting s' ∨ Escaped s' := by
  cases h with
  | receive | modBufferDone | modState =>
      exact Or.inl ⟨hr.heldUp, hr.noReturn, hr.settled, hr.isSealed⟩
  | receiveBody =>
      unfold takeBody
      dsimp only
      split <;> exact Or.inl ⟨hr.heldUp, hr.noReturn, hr.settled, hr.isSealed⟩
  | refuse hs _ _ hpage => exact hpage.rejecting (rejecting_taken _ hs hr)
  | accept hs => exact Or.inl ((rejecting_taken _ hs hr).setState (by decide))
  | claim hs _ _ hrun => exact Or.inl (rejecting_hooked _ hs hrun hr)
  | notImplemented hs _ _ hrun _ hs₁ _ hpage =>
      exact hpage.rejecting (hs₁ ▸ rejecting_hooked _ hs hrun hr)
  | serve hs _ _ hrun _ hs₁ _ hserve =>
      exact Or.inl (hserve.rejecting (hs₁ ▸ rejecting_hooked _ hs hrun hr))
  | serveBody _ _ hserve => exact Or.inl (hserve.rejecting hr)
  | advance =>
      exact Or.inl (hr.step (trace_advanced _ s) (by simp [Ev.isFatal])
        fun hs => ⟨by simp [Ev.reopens], hs⟩)
  | flushed => exact Or.inl hr.flushed
  | sendFailed =>
      exact Or.inl (rejecting_delete ⟨hr.heldUp, hr.noReturn, hr.settled, hr.isSealed⟩)
  | pageDone => exact Or.inl (rejecting_endStep hr.flushed)
  | fileStart _ _ _ hfile =>
      exact Or.inl (hfile.rejecting (hr.flushed.setState (by decide)))
  | filePart _ _ _ hfile =>
      exact Or.inl (hfile.rejecting ⟨hr.heldUp, hr.noReturn, hr.settled, hr.isSealed⟩)
  | dropKeepalive => exact Or.inl (rejecting_dropKeepalive hr)
  | drop => exact Or.inl (rejecting_delete hr)
  | modError _ hpage => exact hpage.rejecting hr
  | modHeaders => exact Or.inl (rejecting_writeHeaders core_no_connection.1 hr)
  | modEmpty =>
      exact Or.inl (rejecting_endStep (rejecting_writeHeaders core_no_connection.1 hr))
  | modSendData => exact Or.inl (hr.setState (by decide))
  | modWrite =>
      rw [write_eq]
      exact Or.inl (hr.step rfl (by simp [Ev.isFatal]) fun hs => ⟨by simp [Ev.reopens], hs⟩)

theorem rejecting_init (m : σ) : Rejecting (St.init m) where
  heldUp := atEach_nil
  noReturn := atEach_nil
  settled := rfl
  isSealed h := by simp [St.init] at h

/-- No connection comes back from a fatal error page, in exactly those runs in
which the socket holds up each page that was begun with `keepalive` on. -/
theorem rejection_final_iff (m : σ) (evs : List Event) :
    AtEach NoReturn (run env mods m evs).trace ↔ AtEach HeldUp (run env mods m evs).trace := by
  have h : Rejecting (run env mods m evs) ∨ Escaped (run env mods m evs) :=
    run_invariant (I := fun s => Rejecting s ∨ Escaped s) m evs (Or.inl (rejecting_init m))
      fun hm hI => hI.elim hm.rejecting fun he => Or.inr (he.of_prefix hm.trace)
  rcases h with h | h
  · exact iff_of_true h.noReturn h.heldUp
  · exact iff_of_false h.noReturn h.heldUp

set_option maxRecDepth 4000 in
/-- The request behind a rejected one is read and answered. -/
theorem rejection_not_final :
    ¬ AtEach NoReturn (plainRun (smallWorld [] (str "x") eager)
      ["PUT / HTTP/1.1\r\n\r\nGET / HTTP/1.1\r\n\r\n"]).trace := by
  decide +kernel

end Hottpd
