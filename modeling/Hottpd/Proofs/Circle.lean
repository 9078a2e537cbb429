import Hottpd.Proofs.Moves

/-!
# How the functions of the circle come out

Each function that calls others is split here at its calls: the pieces it can
leave behind, and where a nested `CheckRequest` follows. The walks through the
code case on these equations and unfold nothing.
-/

namespace Hottpd

open Bytes HTTPHeaders

variable {σ : Type} {env : Env} {mods : List (Module σ)} {check : St σ → St σ}

variable (check) in
theorem endRequest_if (s : St σ) :
    endRequest check s =
      if s.keepalive = true ∧ s.requestbuf ≠ [] then check (endStep s) else endStep s := by
  cases h : s.keepalive with
  | false => simp [endStep, endRequest, St.log, h]
  | true =>
      by_cases hb : s.requestbuf = []
      · simp [endStep, endRequest, St.log, clearRequest, St.setState, h, hb]
      · simp [endStep, endRequest, St.log, clearRequest, St.setState, h, hb]

variable (check) in
theorem endRequest_eq (s : St σ) :
    endRequest check s = endStep s ∨
      (s.keepalive = true ∧ endRequest check s = check (endStep s)) := by
  rw [endRequest_if]
  split
  · next h => exact Or.inr ⟨h.1, rfl⟩
  · exact Or.inl rfl

theorem endStep_state_of_keepalive {s : St σ} (h : s.keepalive = true) :
    (endStep s).state = .waitRequest := by
  rw [endStep_of_keepalive h]

theorem errorPage_length_ne (text : Bytes) : (errorPage text).length ≠ 0 := by
  have : 0 < (str "<html><head></head><body>").length := by decide
  simp only [errorPage, List.length_append]
  omega

theorem sendError_eq (code : Nat) (text : Bytes) (fatal : Bool) (s : St σ) :
    sendError env mods check code text fatal s =
      (if fatal then
        dropKeepalive (flushWriteBuf env mods check (queueError env code text fatal s))
      else flushWriteBuf env mods check (queueError env code text fatal s)) := by
  simp only [sendError, queueError, sendHeaders, errorPage_length_ne, if_false]

variable (env) in
/-- What `ServeFile` can leave: nothing sent, or a piece of the open file. -/
theorem serveFile_cases (s : St σ) :
    (∃ re sends calls, re < 0 ∧
      serveFile env s = (re, { s with sends := sends, calls := calls })) ∨
    (∃ re path n sends calls, ¬ re < 0 ∧ s.filefd = some path ∧ s.rfilesize ≠ 0 ∧
      n ≤ s.rfilesize - s.rfilesent ∧
      serveFile env s = (re, filePiece env path n sends calls s)) := by
  cases hfd : s.filefd with
  | none => exact Or.inl ⟨-1, s.sends, s.calls + 1, by decide, by simp [serveFile, hfd]⟩
  | some path =>
      by_cases hmap : s.rfilesize = 0 ∨ env.os.mmap s.calls = false
      · exact Or.inl ⟨-1, s.sends, s.calls + 1, by decide, by
          simp [serveFile, hfd, hmap]⟩
      · have hsize : s.rfilesize ≠ 0 := fun h => hmap (Or.inl h)
        cases hsend : env.os.send s.sends with
        | again =>
            refine Or.inr ⟨0, path, 0, s.sends + 1, s.calls + 1, by decide, rfl, hsize,
              Nat.zero_le _, ?_⟩
            simp [serveFile, hfd, hmap, hsend, filePiece]
            rw [← hfd]
        | fail =>
            refine Or.inl ⟨-1, s.sends + 1, s.calls + 1, by decide, ?_⟩
            simp [serveFile, hfd, hmap, hsend]
        | took n =>
            refine Or.inr ⟨(min n (s.rfilesize - s.rfilesent) : Nat), path,
              min n (s.rfilesize - s.rfilesent), s.sends + 1, s.calls + 1,
              Int.not_lt.2 (Int.natCast_nonneg _), rfl, hsize, Nat.min_le_right _ _, ?_⟩
            simp only [serveFile, hfd, hmap, if_false, hsend, filePiece]

variable (env) in
/-- What `SendStaticData` does, whatever is called behind the end of the request: it gives the
connection up without a file, or when nothing can be sent; a piece of the file goes out, and
either there is more of it or the request ends. -/
theorem sendStaticData_cases (s : St σ) :
    (∃ calls, s.filefd = none ∧
      ∀ check, sendStaticData env check s = delete { delete s with calls := calls }) ∨
    (∃ sends calls, ∀ check,
      sendStaticData env check s = delete { s with sends := sends, calls := calls }) ∨
    (∃ path n sends calls, s.filefd = some path ∧ s.rfilesize ≠ 0 ∧
      n ≤ s.rfilesize - s.rfilesent ∧ s.rfilesent + n ≠ s.rfilesize ∧
      ∀ check, sendStaticData env check s = wantWrite (filePiece env path n sends calls s)) ∨
    (∃ path n sends calls, s.filefd = some path ∧ s.rfilesize ≠ 0 ∧
      n ≤ s.rfilesize - s.rfilesent ∧ s.rfilesent + n = s.rfilesize ∧
      ∀ check, sendStaticData env check s
        = endRequest check (filePiece env path n sends calls s)) := by
  cases hfd : s.filefd with
  | none =>
      have hstill : (delete s).filefd = none := hfd
      exact Or.inl ⟨(delete s).calls + 1, rfl, fun _ => by
        simp [sendStaticData, serveFile, hfd, hstill]⟩
  | some path =>
      rcases serveFile_cases env s with
        ⟨re, sends, calls, hre, heq⟩ | ⟨re, path', n, sends, calls, hre, hp, hsize, hn, heq⟩
      · refine Or.inr (Or.inl ⟨sends, calls, fun _ => ?_⟩)
        simp [sendStaticData, hfd, heq, hre]
      · obtain rfl : path = path' := Option.some.inj (hfd.symm.trans hp)
        have hsent : (filePiece env path n sends calls s).rfilesent = s.rfilesent + n := rfl
        have hof : (filePiece env path n sends calls s).rfilesize = s.rfilesize := rfl
        by_cases hall : s.rfilesent + n = s.rfilesize
        · refine Or.inr (Or.inr (Or.inr ⟨path, n, sends, calls, rfl, hsize, hn, hall,
            fun _ => ?_⟩))
          simp [sendStaticData, hfd, heq, hre, hsent, hof, hall]
        · refine Or.inr (Or.inr (Or.inl ⟨path, n, sends, calls, rfl, hsize, hn, hall,
            fun _ => ?_⟩))
          simp [sendStaticData, hfd, heq, hre, hsent, hof, hall]

variable (env) in
/-- What the first half of `FlushWriteBuf` can leave. -/
theorem flushSend_cases (s : St σ) :
    (∃ n, n < s.sendq.length ∧ flushSend env s = (true, advanced n s)) ∨
    flushSend env s = (false, delete { s with sends := s.sends + 1 }) ∨
    (∃ sends, flushSend env s = (true, drained s.mask sends s.mods s)) := by
  by_cases hq : s.sendq = []
  · refine Or.inr (Or.inr ⟨s.sends, ?_⟩)
    obtain ⟨⟨⟩⟩ := s
    simp_all [flushSend, drained, flushEvents]
  · have hpos : 0 < s.sendq.length := List.length_pos_iff.2 hq
    cases hsend : env.os.send s.sends with
    | again =>
        refine Or.inl ⟨0, hpos, ?_⟩
        simp [flushSend, hq, hsend, advanced, St.log]
    | fail => exact Or.inr (Or.inl (by simp [flushSend, hq, hsend]))
    | took n =>
        by_cases hn : n < s.sendq.length
        · refine Or.inl ⟨n, hn, ?_⟩
          have hmin : min n s.sendq.length = n := by omega
          simp [flushSend, hq, hsend, hmin, Nat.ne_of_lt hn, advanced, St.log]
        · refine Or.inr (Or.inr ⟨s.sends + 1, ?_⟩)
          have hmin : min n s.sendq.length = s.sendq.length := by omega
          simp [flushSend, hq, hsend, hmin, drained, flushEvents, St.log]

theorem advanced_sendq_ne {n : Nat} {s : St σ} (hn : n < s.sendq.length) :
    (advanced n s).sendq ≠ [] := by
  intro h
  have := congrArg List.length h
  simp [advanced, wantWrite] at this
  omega

theorem queueError_mask {code : Nat} {text : Bytes} {fatal : Bool} {s : St σ} :
    (queueError env code text fatal s).mask = ⟨false, true⟩ := by
  rw [queueError_eq]

theorem queueError_mods {code : Nat} {text : Bytes} {fatal : Bool} {s : St σ} :
    (queueError env code text fatal s).mods = s.mods := by
  rw [queueError_eq]

variable (env mods check) in
/-- A round of `OnPreRequest`: the answers, and what the hook that took the
request then did with the connection. -/
theorem foreachResult_cases (method vhost dir file : Bytes) :
    ∀ (ms : List (Module σ)) (k : Nat) (s : St σ), ∃ res m evs calls,
      HookRun file k ms evs res ∧ (res ≠ 1 → calls = []) ∧
      foreachResult env mods check method vhost dir file k ms s
        = (res, modCalls env mods check calls (hooked m evs s)) := by
  intro ms
  induction ms with
  | nil =>
      intro k s
      exact ⟨0, s.mods, [], [], .none, fun _ => rfl, by
        simp [foreachResult, modCalls, hooked]⟩
  | cons m ms ih =>
      intro k s
      obtain ⟨⟨σ', answer⟩, hans⟩ :
        ∃ p, p = m.onPreRequest s.mods s.toConnection method vhost dir file := ⟨_, rfl⟩
      have hsays : m.Answers file answer.res := ⟨_, _, _, _, _, by rw [← hans]⟩
      simp only [foreachResult, ← hans]
      -- the round goes on exactly when the hook returned 0 or threw
      by_cases hpass : answer.res = none ∨ answer.res = some 0
      · obtain ⟨res, m', evs, calls, hrun, hcalls, heq⟩ :=
          ih (k + 1) (hooked σ' [.hook k answer.res] s)
        have hquiet : answer.calls = [] :=
          answer.quiet (by rcases hpass with h | h <;> simp [h])
        refine ⟨res, m', .hook k answer.res :: evs, calls, .pass hpass hsays hrun, hcalls, ?_⟩
        have hnext : hooked m' (.hook k answer.res :: evs) s
            = hooked m' evs (hooked σ' [.hook k answer.res] s) := by
          simp [hooked]
        rw [hnext, ← heq]
        rcases hpass with h | h <;> simp [h, hquiet, modCalls, hooked, St.log]
      · push Not at hpass
        obtain ⟨res, hres⟩ := Option.ne_none_iff_exists'.1 hpass.1
        have hne : res ≠ 0 := fun h => hpass.2 (by rw [hres, h])
        refine ⟨res, σ', [.hook k (some res)], answer.calls, .stop hne (hres ▸ hsays), fun h => ?_, ?_⟩
        · exact answer.quiet (by rw [hres]; simpa using h)
        · simp [hres, hne, hooked, St.log]

/-- A request that no hook has taken goes on to the core. -/
theorem dispatchRequest_round {s t : St σ} {res : Int}
    (h : foreachResult env mods check (cleaned s).method
      (getHeader (cleaned s).headers (str "Host")) (dirOf (cleaned s).uri)
      (fileOf (cleaned s).uri) 0 mods (cleaned s) = (res, t)) :
    dispatchRequest env mods check s =
      if res = 1 then t
      else if t.method ≠ str "GET" ∧ t.method ≠ str "POST" then
        sendError env mods check 501 (str "Not Implemented") true t
      else serveData env mods check t := by
  simp only [cleaned, St.log] at h
  simp only [dispatchRequest, St.log, h]

/-! ## What is done about a header block -/

section Verdict

variable {reqend code : Nat} {text : Bytes} {fatal : Bool} {s : St σ}

theorem actOnRequest_reject
    (hv : (takeRequest env.cfg reqend s.toConnection).2 = .reject code text fatal) :
    actOnRequest env mods check reqend s
      = sendError env mods check code text fatal (takenRequest env reqend s) := by
  simp only [actOnRequest, takenRequest, hv]

theorem actOnRequest_body (hv : (takeRequest env.cfg reqend s.toConnection).2 = .body) :
    actOnRequest env mods check reqend s
      = (takenRequest env reqend s).setState .recvReqbody := by
  simp only [actOnRequest, takenRequest, hv]

theorem actOnRequest_dispatch (hv : (takeRequest env.cfg reqend s.toConnection).2 = .dispatch) :
    actOnRequest env mods check reqend s
      = dispatchRequest env mods check (takenRequest env reqend s) := by
  simp only [actOnRequest, takenRequest, hv]

end Verdict

theorem takeBody_state (a : Bytes) (s : St σ) : (takeBody a s).state = s.state := by
  obtain ⟨body, buf, heq⟩ := takeBody_eq a s
  rw [heq]

end Hottpd
