import Hottpd.Proofs.Circle

/-!
# No header block is left lying

A connection that waits for a request has no complete header block in
`requestbuf`: `CheckRequest` is called whenever one may have come in, finds it
with a search that starts over only three bytes back, and calls itself through
`EndRequest` until there is none. One that waits for a body does not have all
of it. `checkFuel_idle` is also what makes the fuel of `checkFuel` harmless,
since it says that the recursion never ends for want of it.
-/

namespace Hottpd

open Bytes HTTPHeaders

variable {σ : Type} {env : Env} {check : St σ → St σ} {n : Nat}

structure Settled (s : St σ) : Prop where
  request : s.state = .waitRequest →
    s.requestBody = [] ∧ find terminator s.requestbuf = none
  body : s.state = .recvReqbody → s.requestBody.length ≠ s.requestBodyLength

/-! ## The incremental search -/

theorem findRequestEnd_zero (requestbuf : Bytes) :
    findRequestEnd requestbuf 0 = find terminator requestbuf := by
  rw [findRequestEnd, if_neg (by omega), findFrom_zero]

/-- Starting over three bytes back is enough. -/
theorem findRequestEnd_append {old : Bytes} (a : Bytes)
    (h : find terminator old = none) :
    findRequestEnd (old ++ a) old.length = findRequestEnd (old ++ a) 0 := by
  have hlen : terminator.length = 4 := rfl
  rw [findRequestEnd_zero, findRequestEnd]
  by_cases hback : 3 ≤ old.length
  · rw [if_pos hback, findFrom_append (by decide) a h (by omega)]
  · rw [if_neg hback, findFrom_zero]

/-- A header block that is found makes the buffer shorter, wherever the search
for it began. -/
theorem findRequestEnd_drop {requestbuf : Bytes} {newpos reqend : Nat}
    (h : findRequestEnd requestbuf newpos = some reqend) :
    (requestbuf.drop (reqend + 4)).length < requestbuf.length := by
  have hlen : terminator.length = 4 := rfl
  have hfits := findFrom_length h
  rw [List.length_drop]
  omega

/-! ## Around the circle -/

/-- Settled, with less than `n` bytes left to look at. -/
structure Idle (n : Nat) (s : St σ) : Prop where
  settled : Settled s
  short : s.requestbuf.length < n

/-- What a settled connection is settled by stays the same. -/
theorem Idle.of_eq {s s' : St σ} (h : Idle n s) (hstate : s'.state = s.state)
    (hbuf : s'.requestbuf = s.requestbuf) (hbody : s'.requestBody = s.requestBody)
    (hlen : s'.requestBodyLength = s.requestBodyLength) : Idle n s' where
  settled := by
    constructor
    · rw [hstate, hbuf, hbody]
      exact h.settled.request
    · rw [hstate, hbody, hlen]
      exact h.settled.body
  short := by
    rw [hbuf]
    exact h.short

theorem idle_of_state {s : St σ} (hwait : s.state ≠ .waitRequest)
    (hrecv : s.state ≠ .recvReqbody) (hn : s.requestbuf.length < n) : Idle n s :=
  ⟨⟨fun h => absurd h hwait, fun h => absurd h hrecv⟩, hn⟩

theorem idle_delete {s : St σ} (hn : s.requestbuf.length < n) : Idle n (delete s) := by
  rw [delete_eq]
  exact idle_of_state (by simp) (by simp) hn

theorem endRequest_idle
    (hc : ∀ s, s.state = .waitRequest → s.requestBody = [] → s.requestbuf.length < n →
      Idle n (check s))
    {s : St σ} (hn : s.requestbuf.length < n) : Idle n (endRequest check s) := by
  rw [endRequest_if]
  cases hk : s.keepalive with
  | false =>
      rw [if_neg (by simp), endStep_of_close hk]
      exact idle_of_state (by simp) (by simp) hn
  | true =>
      by_cases hbuf : s.requestbuf = []
      · rw [if_neg (by simp [hbuf]), endStep_of_keepalive hk]
        refine ⟨⟨fun _ => ⟨rfl, ?_⟩, fun h => by cases h⟩, hn⟩
        show find terminator s.requestbuf = none
        rw [hbuf]
        rfl
      · rw [if_pos ⟨rfl, hbuf⟩, endStep_of_keepalive hk]
        exact hc _ rfl rfl hn

theorem sendStaticData_idle
    (hc : ∀ s, s.state = .waitRequest → s.requestBody = [] → s.requestbuf.length < n →
      Idle n (check s))
    {s : St σ} (h : Idle n s) : Idle n (sendStaticData env check s) := by
  rcases sendStaticData_cases env s with ⟨calls, -, heq⟩ | ⟨sends, calls, heq⟩ |
    ⟨path, k, sends, calls, -, -, -, -, heq⟩ | ⟨path, k, sends, calls, -, -, -, -, heq⟩
  · rw [heq]
    exact idle_delete (idle_delete h.short).short
  · rw [heq]
    exact idle_delete h.short
  · rw [heq]
    exact h.of_eq rfl rfl rfl rfl
  · rw [heq]
    exact endRequest_idle hc h.short

theorem flushWriteBuf_idle
    (hc : ∀ s, s.state = .waitRequest → s.requestBody = [] → s.requestbuf.length < n →
      Idle n (check s))
    {s : St σ} (h : Idle n s) : Idle n (flushWriteBuf env [] check s) := by
  unfold flushWriteBuf
  rcases flushSend_cases env s with ⟨k, hk, heq⟩ | heq | ⟨sends, heq⟩
  · simp only [heq, if_neg (advanced_sendq_ne hk), Bool.true_eq_false, if_false]
    exact h.of_eq rfl rfl rfl rfl
  · simp only [heq, if_true]
    exact idle_delete h.short
  · have hq : (drained s.mask sends s.mods s).sendq = [] := rfl
    simp only [heq, hq, if_true, Bool.true_eq_false, if_false]
    obtain ⟨m, hm⟩ : ∃ m, onBufferFlushed ([] : List (Module σ)) (drained s.mask sends s.mods s)
        = drained s.mask sends m s := ⟨_, rfl⟩
    rw [hm]
    have hd : Idle n (drained s.mask sends m s) := h.of_eq rfl rfl rfl rfl
    split
    · exact endRequest_idle hc hd.short
    · split
      · refine sendStaticData_idle hc (idle_of_state ?_ ?_ hd.short) <;>
          simp [St.setState, St.log]
      · exact hd

theorem sendError_idle
    (hc : ∀ s, s.state = .waitRequest → s.requestBody = [] → s.requestbuf.length < n →
      Idle n (check s))
    {s : St σ} (code : Nat) (text : Bytes) (fatal : Bool) (hn : s.requestbuf.length < n) :
    Idle n (sendError env [] check code text fatal s) := by
  have hq : Idle n (queueError env code text fatal s) := by
    rw [queueError_eq]
    exact idle_of_state (by simp) (by simp) hn
  have hflush : Idle n
      (flushWriteBuf env [] check (queueError env code text fatal s)) :=
    flushWriteBuf_idle hc hq
  rw [sendError_eq]
  split
  · exact hflush.of_eq rfl rfl rfl rfl
  · exact hflush

theorem sendHeaders_idle
    (hc : ∀ s, s.state = .waitRequest → s.requestBody = [] → s.requestbuf.length < n →
      Idle n (check s))
    {s : St σ} (size code : Nat) (text : Bytes) (hn : s.requestbuf.length < n) :
    Idle n (sendHeaders env check size code text clear s) := by
  have hw : Idle n (writeHeaders env size code text clear s) := by
    rw [writeHeaders_eq _ _ _ _ core_no_connection.1]
    exact idle_of_state (by simp) (by simp) hn
  unfold sendHeaders
  dsimp only
  split
  · exact endRequest_idle hc hw.short
  · exact hw

theorem serveData_idle
    (hc : ∀ s, s.state = .waitRequest → s.requestBody = [] → s.requestbuf.length < n →
      Idle n (check s))
    {s : St σ} (hn : s.requestbuf.length < n) : Idle n (serveData env [] check s) := by
  unfold serveData
  split
  · next code text s' hres =>
      obtain ⟨upath, filefd, calls, -, rfl⟩ := resolveFile_error hres
      exact sendError_idle hc code text false hn
  · next size s' hres =>
      obtain ⟨path, fst, calls, k, -, -, rfl⟩ := resolveFile_ok hres
      exact sendHeaders_idle hc size 200 (str "OK") hn

theorem dispatchRequest_idle
    (hc : ∀ s, s.state = .waitRequest → s.requestBody = [] → s.requestbuf.length < n →
      Idle n (check s))
    {s : St σ} (hn : s.requestbuf.length < n) :
    Idle n (dispatchRequest env [] check s) := by
  unfold dispatchRequest
  dsimp only [foreachResult]
  rw [if_neg (by decide)]
  split
  · exact sendError_idle hc 501 (str "Not Implemented") true hn
  · exact serveData_idle hc hn

/-! ## Closing the circle -/

/-- A body that is waited for has not come in yet. -/
theorem accept_idle {s : St σ} {reqend : Nat} (hbody : s.requestBody = [])
    (hv : (takeRequest env.cfg reqend s.toConnection).2 = .body)
    (hn : (takenRequest env reqend s).requestbuf.length < n) :
    Idle n ((takenRequest env reqend s).setState .recvReqbody) := by
  have hlen : 0 < (takenRequest env reqend s).requestBodyLength := takeRequest_body hv
  have hempty : (takenRequest env reqend s).requestBody = [] := by
    obtain ⟨_, _, _, _, _, _, -, heq⟩ := takenRequest_eq env reqend s
    rw [heq]
    exact hbody
  refine ⟨⟨fun h => (by cases h), fun _ => ?_⟩, hn⟩
  show (takenRequest env reqend s).requestBody.length
    ≠ (takenRequest env reqend s).requestBodyLength
  rw [hempty, List.length_nil]
  omega

theorem checkOnce_idle
    (hc : ∀ s, s.state = .waitRequest → s.requestBody = [] → s.requestbuf.length < n →
      Idle n (check s))
    {s : St σ} {newpos : Nat} (hs : s.state = .waitRequest) (hbody : s.requestBody = [])
    (hnew : findRequestEnd s.requestbuf newpos = findRequestEnd s.requestbuf 0)
    (hn : s.requestbuf.length < n + 1) :
    Idle (n + 1) (checkOnce env [] check newpos s) := by
  unfold checkOnce
  split
  · next hnone =>
      refine ⟨⟨fun _ => ⟨hbody, ?_⟩, fun h => ?_⟩, hn⟩
      · rw [← findRequestEnd_zero, ← hnew, hnone]
      · rw [hs] at h
        cases h
  · next reqend hend =>
      have hshort : (takenRequest env reqend s).requestbuf.length < n := by
        obtain ⟨_, _, _, _, _, _, -, heq⟩ := takenRequest_eq env reqend s
        have hdrop := findRequestEnd_drop hend
        rw [heq]
        show (s.requestbuf.drop (reqend + 4)).length < n
        omega
      have hact : Idle n (actOnRequest env [] check reqend s) := by
        cases hv : (takeRequest env.cfg reqend s.toConnection).2 with
        | reject code text fatal =>
            rw [actOnRequest_reject hv]
            exact sendError_idle hc code text fatal hshort
        | body =>
            rw [actOnRequest_body hv]
            exact accept_idle hbody hv hshort
        | dispatch =>
            rw [actOnRequest_dispatch hv]
            exact dispatchRequest_idle hc hshort
      exact ⟨hact.settled, Nat.lt_succ_of_lt hact.short⟩

theorem checkFuel_idle (fuel : Nat) : ∀ {newpos : Nat} {s : St σ},
    s.state = .waitRequest → s.requestBody = [] →
    findRequestEnd s.requestbuf newpos = findRequestEnd s.requestbuf 0 →
    s.requestbuf.length < fuel → Idle fuel (checkFuel env [] fuel newpos s) := by
  induction fuel with
  | zero =>
      intro newpos s _ _ _ hn
      exact absurd hn (Nat.not_lt_zero _)
  | succ fuel ih =>
      intro newpos s hs hbody hnew hn
      exact checkOnce_idle (fun s hs hbody hn => ih hs hbody rfl hn) hs hbody hnew hn

/-- What `CheckRequest` leaves when it is called from below a handler. -/
theorem recheck_idle (s : St σ) (hs : s.state = .waitRequest) (hbody : s.requestBody = [])
    (hn : s.requestbuf.length < n) : Idle n (recheck env [] s) := by
  have h : Idle (s.requestbuf.length + 1) (recheck env [] s) :=
    checkFuel_idle _ hs hbody rfl (Nat.lt_succ_self _)
  refine ⟨h.settled, ?_⟩
  have := h.short
  omega

/-! ## Events -/

variable (env) in
theorem addBuffer_settled (a : Bytes) {s : St σ} (h : Settled s) :
    Settled (addBuffer env [] a s).2 := by
  unfold addBuffer
  split
  · exact h
  · split
    · next hs =>
        have hrecv : (takeBody a s).state = .recvReqbody := by rw [takeBody_state, hs]
        dsimp only
        split
        · exact (serveData_idle recheck_idle (Nat.lt_succ_self _)).settled
        · next hmore =>
            refine ⟨fun hw => ?_, fun _ => hmore⟩
            exact absurd (hrecv.symm.trans hw) (by decide)
    · next hrecv =>
        dsimp only
        split
        · next hs =>
            obtain ⟨hbody, hnone⟩ := h.request hs
            refine Idle.settled (checkFuel_idle _ hs hbody ?_ (Nat.lt_succ_self _))
            exact findRequestEnd_append a hnone
        · next hs => exact ⟨fun hw => absurd hw hs, fun hr => absurd hr hrecv⟩

theorem settled_delete (s : St σ) : Settled (delete s) := by
  rw [delete_eq]
  exact ⟨fun h => (by cases h), fun h => (by cases h)⟩

theorem handleEvent_settled (ev : Event) {s : St σ} (h : Settled s) :
    Settled (handleEvent env [] ev s) := by
  cases ev with
  | read res =>
      rw [handleEvent]
      split
      · exact h
      · cases res with
        | data bytes =>
            have hadd := addBuffer_settled env (cstr bytes) h
            simp only [readData]
            split
            · exact hadd
            · exact settled_delete _
        | again => exact h
        | eof | fail => exact settled_delete _
  | write =>
      have hidle : Idle (s.requestbuf.length + 1) { s with mask := ⟨true, false⟩ } :=
        ⟨⟨h.request, h.body⟩, Nat.lt_succ_self _⟩
      rw [handleEvent, handleWrite]
      split
      · exact (sendStaticData_idle recheck_idle hidle).settled
      · exact (flushWriteBuf_idle recheck_idle hidle).settled
  | error | timeout => exact settled_delete _
  | module k => exact h

theorem settled_init (m : σ) : Settled (St.init m) :=
  ⟨fun _ => ⟨rfl, rfl⟩, fun h => (by cases h)⟩

/-- Between events no complete header block is left unread, and no body. -/
theorem run_settled (m : σ) (evs : List Event) : Settled (run env [] m evs) := by
  induction evs using List.reverseRecOn with
  | nil => exact settled_init m
  | append_singleton evs ev ih =>
      rw [run, List.foldl_append]
      exact handleEvent_settled ev ih

end Hottpd
