import Hottpd.Proofs.Settled

/-!
# The code makes no other moves

`handleEvent_moves`: whatever an event makes the code do, nested requests
included, is a sequence of moves. The walk follows the calls. Each lemma is
about one function of the circle under any `check` that itself only makes
moves, and the induction on the fuel closes the circle at the end.
-/

namespace Hottpd

open Bytes HTTPHeaders Relation

variable {σ : Type} {env : Env} {mods : List (Module σ)} {check : St σ → St σ}
  {input : Bool}

/-! ## The functions of the circle and their pieces -/

theorem sendStaticData_moves (hc : ∀ s, s.state = .waitRequest → Moves env mods input s (check s))
    {s₀ s : St σ} (hmove : ∀ {s'}, FileOut env s s' → Move env mods input s₀ s') :
    Moves env mods input s₀ (sendStaticData env check s) := by
  rcases sendStaticData_cases env s with ⟨calls, hfd, heq⟩ | ⟨sends, calls, heq⟩ |
    ⟨path, n, sends, calls, hp, hsize, hn, hmore, heq⟩ |
    ⟨path, n, sends, calls, hp, hsize, hn, hall, heq⟩
  · rw [heq]
    exact .single (hmove (.lost hfd))
  · rw [heq]
    exact .single (hmove .failed)
  · rw [heq]
    exact .single (hmove (.piece hp hsize hn hmore))
  · have hdone : Move env mods input s₀ (endStep (filePiece env path n sends calls s)) :=
      hmove (.done hp hsize hn hall)
    rw [heq]
    rcases endRequest_eq check (filePiece env path n sends calls s) with h | ⟨hk, h⟩
    · exact h ▸ .single hdone
    · exact h ▸ (ReflTransGen.single hdone).trans (hc _ (endStep_state_of_keepalive hk))

theorem flushWriteBuf_moves
    (hc : ∀ s, s.state = .waitRequest → Moves env mods input s (check s))
    (s : St σ) {mask : EpollMask} (hmask : Unarmed mask s)
    (hnofile : ¬ (s.state = .sendData ∧ s.responseBackend ≠ none)) :
    Moves env mods input s (flushWriteBuf env mods check { s with mask := mask }) := by
  unfold flushWriteBuf
  rcases flushSend_cases env { s with mask := mask } with
    ⟨n, hn, heq⟩ | heq | ⟨sends, heq⟩
  · have hne : (advanced n { s with mask := mask }).sendq ≠ [] := advanced_sendq_ne hn
    simp only [heq, if_neg hne, Bool.true_eq_false, if_false]
    exact .single (Move.advance hn)
  · simp only [heq, if_true]
    exact .single (.sendFailed hmask)
  · have hq : (drained mask sends s.mods { s with mask := mask }).sendq = [] := rfl
    simp only [heq, hq, if_true, Bool.true_eq_false, if_false]
    obtain ⟨m, hm⟩ : ∃ m, onBufferFlushed mods
        (drained mask sends s.mods { s with mask := mask }) = drained mask sends m s :=
      ⟨_, rfl⟩
    rw [hm]
    split
    · next hpage =>
        have hdone : Move env mods input s (endStep (drained mask sends m s)) :=
          .pageDone hmask hpage.1 hpage.2
        rcases endRequest_eq check (drained mask sends m s) with h | ⟨hk, h⟩
        · exact h ▸ .single hdone
        · exact h ▸ (ReflTransGen.single hdone).trans
            (hc _ (endStep_state_of_keepalive hk))
    · next hpage =>
        split
        · next hfile => exact sendStaticData_moves hc (Move.fileStart hmask hfile.1 hfile.2)
        · next hfile => exact .single (Move.flushed hmask hnofile hpage hfile)

/-! ## `SendError` and its tail -/

theorem fatal_mem_queueError (code : Nat) (text : Bytes) (s : St σ) :
    .fatal s.keepalive ∈ (queueError env code text true s).trace := by
  simp [queueError_eq, errorEvents]

/-- The flush of an error page just queued, in the terms of `Page`. -/
theorem sendError_moves
    (hc : ∀ s, s.state = .waitRequest → Moves env mods input s (check s))
    {s₀ s : St σ} {code : Nat} {text : Bytes} {fatal : Bool}
    (hmove : ∀ {s'}, Page env code text fatal s s' → Move env mods input s₀ s') :
    Moves env mods input s₀ (sendError env mods check code text fatal s) := by
  rw [sendError_eq]
  by_cases hk : fatal = true → s.keepalive = false
  · have hflush : Moves env mods input (queueError env code text fatal s)
        (flushWriteBuf env mods check (queueError env code text fatal s)) :=
      flushWriteBuf_moves hc _ (Or.inl rfl) (by simp [queueError_eq])
    have hpage : Moves env mods input s₀
        (flushWriteBuf env mods check (queueError env code text fatal s)) :=
      (ReflTransGen.single (hmove (.queued hk))).trans hflush
    cases fatal with
    | false => exact hpage
    | true =>
        exact hpage.tail (.dropKeepalive (hflush.trace.subset (fatal_mem_queueError ..)))
  · push Not at hk
    obtain ⟨rfl, hk⟩ := hk
    replace hk : s.keepalive = true := by simpa using hk
    simp only [if_true, flushWriteBuf]
    rcases flushSend_cases env (queueError env code text true s) with
      ⟨n, hn, heq⟩ | heq | ⟨sends, heq⟩
    · have hne : (advanced n (queueError env code text true s)).sendq ≠ [] :=
        advanced_sendq_ne hn
      simp only [heq, if_neg hne, Bool.true_eq_false, if_false]
      exact .single (hmove (.held hk hn))
    · simp only [heq, if_true]
      exact .single (hmove (.failed hk))
    · have hq : (drained ⟨false, true⟩ sends s.mods
          (queueError env code text true s)).sendq = [] := rfl
      have hend : ∀ m, (drained ⟨false, true⟩ sends m
          (queueError env code text true s)).state = .sendData ∧
          (drained ⟨false, true⟩ sends m
            (queueError env code text true s)).responseBufferDone = true :=
        fun m => by simp [drained, queueError_eq]
      obtain ⟨m, hm⟩ : ∃ m, onBufferFlushed mods (drained ⟨false, true⟩ sends s.mods
          (queueError env code text true s))
          = drained ⟨false, true⟩ sends m (queueError env code text true s) := ⟨_, rfl⟩
      simp only [heq, queueError_mask, queueError_mods, hq, hm, if_true, Bool.true_eq_false,
        if_false, if_pos (hend m)]
      have hsent : Move env mods input s₀ (endStep (drained ⟨false, true⟩ sends m
          (queueError env code text true s))) := hmove (.sent hk)
      have hfatal : .fatal s.keepalive ∈ (endStep (drained ⟨false, true⟩ sends m
          (queueError env code text true s))).trace := by
        rw [endStep_trace_eq]
        exact List.mem_append_left _ (List.mem_append_left _ (fatal_mem_queueError ..))
      rcases endRequest_eq check
        (drained ⟨false, true⟩ sends m (queueError env code text true s)) with h | ⟨hk', h⟩
      · exact h ▸ (ReflTransGen.single hsent).tail (.dropKeepalive hfatal)
      · have hnext := hc _ (endStep_state_of_keepalive hk')
        exact h ▸ ((ReflTransGen.single hsent).trans hnext).tail
          (.dropKeepalive (hnext.trace.subset hfatal))

/-! ## Answering a request -/

theorem sendHeaders_moves
    (hc : ∀ s, s.state = .waitRequest → Moves env mods input s (check s))
    {s₀ s : St σ} {size code : Nat} {text : Bytes} {h : HTTPHeaders}
    (hmove : size ≠ 0 → Move env mods input s₀ (writeHeaders env size code text h s))
    (hempty : size = 0 → Move env mods input s₀ (endStep (writeHeaders env size code text h s))) :
    Moves env mods input s₀ (sendHeaders env check size code text h s) := by
  unfold sendHeaders
  by_cases hsize : size = 0
  · simp only [if_pos hsize]
    rcases endRequest_eq check (writeHeaders env size code text h s)
      with heq | ⟨hk, heq⟩
    · exact heq ▸ .single (hempty hsize)
    · exact heq ▸ (ReflTransGen.single (hempty hsize)).trans
        (hc _ (endStep_state_of_keepalive hk))
  · simp only [if_neg hsize]
    exact .single (hmove hsize)

theorem serveData_moves
    (hc : ∀ s, s.state = .waitRequest → Moves env mods input s (check s))
    {s₀ s : St σ} (hmove : ∀ {s'}, Serve env s s' → Move env mods input s₀ s') :
    Moves env mods input s₀ (serveData env mods check s) := by
  unfold serveData
  split
  · next code text s' hres => exact sendError_moves hc fun hpage => hmove (.page hres hpage)
  · next size s' hres =>
      exact sendHeaders_moves hc (fun hsize => hmove (.file hres hsize))
        (fun hsize => by subst hsize; exact hmove (.empty hres))

theorem modCall_moves
    (hc : ∀ s, s.state = .waitRequest → Moves env mods input s (check s)) (hm : mods ≠ [])
    (call : ModCall) (s : St σ) : Moves env mods input s (modCall env mods check call s) := by
  cases call with
  | sendError code text fatal => exact sendError_moves hc (.modError hm)
  | sendHeaders size code text =>
      exact sendHeaders_moves hc (fun hsize => .modHeaders hm hsize)
        (fun hsize => by subst hsize; exact .modEmpty hm)
  | sendData => exact .single (.modSendData hm)
  | write data => exact .single (.modWrite hm)
  | bufferDone => exact .single (.modBufferDone hm)

theorem modCalls_moves
    (hc : ∀ s, s.state = .waitRequest → Moves env mods input s (check s)) (hm : mods ≠ [])
    (calls : List ModCall) (s : St σ) :
    Moves env mods input s (modCalls env mods check calls s) :=
  Transition.foldl_steps (fun s call => modCall_moves hc hm call s) calls s

theorem HookRun.ne_nil {file : Bytes} {k : Nat} {evs : List Ev}
    (h : HookRun file k mods evs 1) : mods ≠ [] := by
  rintro rfl
  cases h

theorem dispatchRequest_moves
    (hc : ∀ s, s.state = .waitRequest → Moves env mods input s (check s)) {s : St σ}
    {reqend : Nat} (hs : s.state = .waitRequest)
    (hend : EndsAt mods s.requestbuf reqend)
    (hv : (takeRequest env.cfg reqend s.toConnection).2 = .dispatch) :
    Moves env mods input s (dispatchRequest env mods check (takenRequest env reqend s)) := by
  obtain ⟨res, m, evs, calls, hhooks, hcalls, heq⟩ :=
    foreachResult_cases env mods check
      (cleaned (takenRequest env reqend s)).method
      (getHeader (cleaned (takenRequest env reqend s)).headers (str "Host"))
      (dirOf (cleaned (takenRequest env reqend s)).uri)
      (fileOf (cleaned (takenRequest env reqend s)).uri) mods 0
      (cleaned (takenRequest env reqend s))
  rw [dispatchRequest_round heq]
  by_cases hres : res = 1
  · rw [if_pos hres]
    subst hres
    exact (ReflTransGen.single (Move.claim hs hend hv hhooks)).trans
      (modCalls_moves hc hhooks.ne_nil _ _)
  · obtain rfl := hcalls hres
    rw [if_neg hres, modCalls, List.foldl_nil]
    by_cases hm : (hooked m evs (cleaned (takenRequest env reqend s))).method ≠ str "GET" ∧
        (hooked m evs (cleaned (takenRequest env reqend s))).method ≠ str "POST"
    · rw [if_pos hm]
      exact sendError_moves hc (.notImplemented hs hend hv hhooks hres rfl hm)
    · rw [if_neg hm]
      exact serveData_moves hc fun hserve => .serve hs hend hv hhooks hres rfl hm hserve

theorem checkOnce_moves
    (hc : ∀ s, s.state = .waitRequest → Moves env mods input s (check s)) {s : St σ}
    {newpos : Nat} (hs : s.state = .waitRequest)
    (hnew : mods = [] → findRequestEnd s.requestbuf newpos = findRequestEnd s.requestbuf 0) :
    Moves env mods input s (checkOnce env mods check newpos s) := by
  unfold checkOnce
  split
  · exact .refl
  · next reqend hfound =>
      have hend : EndsAt mods s.requestbuf reqend := by
        refine ⟨⟨newpos, hfound⟩, fun hm => ?_⟩
        rw [← findRequestEnd_zero, ← hnew hm, hfound]
      cases hv : (takeRequest env.cfg reqend s.toConnection).2 with
      | reject code text fatal =>
          rw [actOnRequest_reject hv]
          exact sendError_moves hc (.refuse hs hend hv)
      | body =>
          rw [actOnRequest_body hv]
          exact .single (.accept hs hend hv)
      | dispatch =>
          rw [actOnRequest_dispatch hv]
          exact dispatchRequest_moves hc hs hend hv

/-! ## Events -/

theorem checkFuel_moves (fuel : Nat) : ∀ {newpos : Nat} {s : St σ},
    s.state = .waitRequest →
    (mods = [] → findRequestEnd s.requestbuf newpos = findRequestEnd s.requestbuf 0) →
    Moves env mods input s (checkFuel env mods fuel newpos s) := by
  induction fuel with
  | zero => intro newpos s _ _; exact .refl
  | succ fuel ih =>
      intro newpos s hs hnew
      exact checkOnce_moves (fun s hs => ih hs fun _ => rfl) hs hnew

theorem recheck_moves {s : St σ} (hs : s.state = .waitRequest) :
    Moves env mods input s (recheck env mods s) := checkFuel_moves _ hs fun _ => rfl

/-- The bytes an event brings, put where `AddBuffer` puts them. -/
def arrive (ev : Event) (s : St σ) : St σ :=
  match ev with
  | .read (.data bytes) =>
      if s.quitting ∨ cstr bytes = [] then s
      else if s.state = .recvReqbody then takeBody (cstr bytes) s
      else { s with requestbuf := s.requestbuf ++ cstr bytes }
  | _ => s

theorem arrive_eq (ev : Event) (s : St σ) :
    ∃ body buf, arrive ev s = { s with requestBody := body, requestbuf := buf } := by
  unfold arrive
  split
  · split
    · exact ⟨s.requestBody, s.requestbuf, rfl⟩
    · split
      · exact takeBody_eq _ s
      · exact ⟨s.requestBody, _, rfl⟩
  · exact ⟨s.requestBody, s.requestbuf, rfl⟩

theorem arrive_moves (ev : Event) (s : St σ) : Moves env mods true s (arrive ev s) := by
  unfold arrive
  split
  · split
    · exact .refl
    · next hread =>
        rw [not_or] at hread
        split
        · next hs => exact .single (.receiveBody hs hread.2 rfl)
        · next hs => exact .single (.receive hs rfl)
  · exact .refl

/-- What `AddBuffer` does once it has the bytes. -/
theorem addBuffer_moves {a : Bytes} {s : St σ} (ha : a ≠ []) (hset : mods = [] → Settled s) :
    Moves env mods input
      (if s.state = .recvReqbody then takeBody a s
        else { s with requestbuf := s.requestbuf ++ a })
      (addBuffer env mods a s).2 := by
  unfold addBuffer
  rw [if_neg ha]
  split
  · next hs =>
      have hbody : (takeBody a s).state = .recvReqbody := by rw [takeBody_state, hs]
      dsimp only
      split
      · next hlen => exact serveData_moves (fun _ => recheck_moves) (.serveBody hbody hlen)
      · exact .refl
  · dsimp only
    split
    · next hs =>
        refine checkFuel_moves _ hs fun hm => ?_
        exact findRequestEnd_append a ((hset hm).request hs).2
    · exact .refl

theorem readData_moves (res : ReadRes) {s : St σ} (hq : ¬ s.quitting)
    (hset : mods = [] → Settled s) :
    Moves env mods input (arrive (.read res) s) (readData env mods res s) := by
  cases res with
  | data bytes =>
      rw [arrive, readData]
      by_cases hb : cstr bytes = []
      · rw [if_pos (Or.inr hb), hb]
        exact .refl
      · rw [if_neg (not_or.2 ⟨hq, hb⟩)]
        refine (addBuffer_moves hb hset).trans ?_
        dsimp only
        by_cases hok : (addBuffer env mods (cstr bytes) s).1 = true
        · rw [if_pos hok]
        · rw [if_neg hok]
          exact .single .drop
  | eof => exact .single .drop
  | again => exact .refl
  | fail => exact .single .drop

theorem handleWrite_moves (s : St σ) :
    Moves env mods input s (handleWrite env mods { s with mask := ⟨true, false⟩ }) := by
  unfold handleWrite
  split
  · next h => exact sendStaticData_moves (fun _ => recheck_moves) (.filePart (Or.inr rfl) h.1 h.2)
  · next h => exact flushWriteBuf_moves (fun _ => recheck_moves) s (Or.inr rfl) h

/-- Whatever an event makes the connection do, behind the bytes it brings, is
a sequence of moves. -/
theorem handleEvent_moves {s : St σ} (ev : Event) (hset : mods = [] → Settled s) :
    Moves env mods input (arrive ev s) (handleEvent env mods ev s) := by
  cases ev with
  | read res =>
      rw [handleEvent]
      split
      · next hq =>
          cases res with
          | data bytes =>
              rw [arrive, if_pos (Or.inl hq)]
          | eof | again | fail => exact .refl
      · next hq => exact readData_moves res hq hset
  | write => exact handleWrite_moves s
  | error | timeout => exact .single .drop
  | module k =>
      simp only [handleEvent]
      split
      · exact .refl
      · next m hm =>
          have hne : mods ≠ [] := by rintro rfl; simp at hm
          exact (ReflTransGen.single (.modState hne)).trans
            (modCalls_moves (fun _ => recheck_moves) hne _ _)

/-- Without modules every state a run goes through is settled. -/
theorem settled_of_run (m : σ) (evs : List Event) (hm : mods = []) :
    Settled (run env mods m evs) := by
  subst hm
  exact run_settled m evs

theorem run_moves (m : σ) (evs : List Event) :
    Moves env mods true (St.init m) (run env mods m evs) := by
  induction evs using List.reverseRecOn with
  | nil => exact .refl
  | append_singleton evs ev ih =>
      rw [run, List.foldl_append]
      exact (ih.trans (arrive_moves ev _)).trans
        (handleEvent_moves ev (settled_of_run m evs))

/-! ## Rules for runs -/

theorem run_invariant {I : St σ → Prop} (m : σ) (evs : List Event)
    (hinit : I (St.init m))
    (hstep : ∀ {s s'}, Move env mods true s s' → I s → I s') : I (run env mods m evs) :=
  Transition.invariant (R := Move env mods true) hstep (run_moves m evs) hinit

/-- The rule for an invariant that stands only while the trace keeps to `G`. -/
theorem run_guarded {G : List Ev → Prop} {I : St σ → Prop} {m : σ} {evs : List Event}
    (hback : ∀ {l l'}, G (l ++ l') → G l) (hG : G (run env mods m evs).trace)
    (hinit : I (St.init m))
    (hstep : ∀ {s s'}, Move env mods true s s' → G s'.trace → I s → I s') :
    I (run env mods m evs) :=
  Transition.guarded_invariant (R := Move env mods true) (G := fun s => G s.trace)
    (fun hm hG => by obtain ⟨l, hl⟩ := hm.trace; rw [← hl] at hG; exact hback hG)
    hstep (run_moves m evs) hG hinit

end Hottpd
