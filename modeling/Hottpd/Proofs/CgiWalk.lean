import Hottpd.Modules.CgiServer
import Hottpd.Proofs.Refine

/-!
# At most one process

On a connection that no process is to answer the code comes to rest in one of two
ways: there is none still, or the last thing it did was to start one, and the
connection waits as if for a request. Nothing that is still to run when the process
has been started looks at the buffer or drains the queue, so the walk through the
circle carries no more than that. What it does carry along are requests that have
been answered and are still there.
-/

namespace Hottpd

open Bytes HTTPHeaders

variable {env : Env} {cfg : CgiConfig} {os : CgiOs} {check : St CgiVars → St CgiVars} {n : Nat}
  {base : List CGIRequest}

abbrev onlyCgi (env : Env) (cfg : CgiConfig) (os : CgiOs) : List (Module CgiVars) :=
  [cgi env cfg os (Slot.whole CgiVars)]

/-! ## The states -/

/-- There are no requests but those of `base` that are left; `n` is the number of the next. -/
structure CgiVars.Idle (base : List CGIRequest) (n : Nat) (v : CgiVars) : Prop where
  live : v.live.Sublist base
  stored : ∀ id, v.stored = some id → ∃ cr ∈ v.live, cr.id = id
  made : v.made = n

structure Vacant (base : List CGIRequest) (n : Nat) (s : St CgiVars) : Prop where
  idle : s.mods.Idle base n
  backend : s.state = .waitRequest → s.responseBackend = none
  gone : s.state = .finished → s.quitting = true

/-- The process of `cr` is running, behind what is left of `base`. -/
structure Running (base : List CGIRequest) (cr : CGIRequest) (s : St CgiVars) : Prop where
  live : ∃ l, l.Sublist base ∧ s.mods.live = l ++ [cr]
  stored : s.mods.stored = some cr.id
  undone : cr.done = false
  state : s.state ≠ .recvReqbody
  backend : s.responseBackend = none
  gone : s.state = .finished → s.quitting = true

/-- The response of `cr` is in the queue. -/
structure Answered (cr : CGIRequest) (s : St CgiVars) : Prop where
  live : s.mods.live = [cr]
  stored : s.mods.stored = some cr.id
  done : cr.done = true
  closed : cr.isOpen = false
  state : (s.state = .sendData ∧ s.responseBufferDone = true) ∨ s.state = .finished
  backend : s.responseBackend = none
  gone : s.state = .finished → s.quitting = true

/-- Process number `n` has just been started, and there was room for it. -/
structure Started (base : List CGIRequest) (cfg : CgiConfig) (os : CgiOs) (n : Nat)
    (s : St CgiVars) : Prop where
  running : ∃ cr, Running base cr s ∧ cr.id = n ∧ cr.rbuf = [] ∧ cr.isOpen = true
  made : s.mods.made = n + 1
  room : ∃ k, (os.others k : Int) + s.mods.live.length ≤ cfg.maximumDynamicProcesses

def Settles (base : List CGIRequest) (cfg : CgiConfig) (os : CgiOs) (n : Nat) (s : St CgiVars) :
    Prop :=
  Vacant base n s ∨ Started base cfg os n s

/-- Where nothing is left, there is nothing. -/
theorem CgiVars.Idle.none_left {v : CgiVars} (h : v.Idle [] n) : v.live = [] :=
  List.sublist_nil.1 h.live

theorem CgiVars.Idle.none_stored {v : CgiVars} (h : v.Idle [] n) : v.stored = none := by
  refine Option.eq_none_iff_forall_ne_some.2 fun id hid => ?_
  obtain ⟨cr, hcr, -⟩ := h.stored id hid
  rw [h.none_left] at hcr
  cases hcr

theorem Running.only {cr : CGIRequest} {s : St CgiVars} (h : Running [] cr s) :
    s.mods.live = [cr] := by
  obtain ⟨l, hl, heq⟩ := h.live
  rw [heq, List.sublist_nil.1 hl, List.nil_append]

theorem Running.mem {cr : CGIRequest} {s : St CgiVars} (h : Running base cr s) :
    cr ∈ s.mods.live := by
  obtain ⟨l, -, heq⟩ := h.live
  rw [heq]
  exact List.mem_append_right l (List.mem_singleton_self cr)

/-! ## Around the circle -/

theorem vacant_of_state {s : St CgiVars} (h : s.mods.Idle base n)
    (hwait : s.state ≠ .waitRequest) (hgone : s.state ≠ .finished) : Vacant base n s :=
  { idle := h, backend := fun hs => absurd hs hwait, gone := fun hs => absurd hs hgone }

theorem Vacant.of_eq {s s' : St CgiVars} (h : Vacant base n s) (hmods : s'.mods = s.mods)
    (hstate : s'.state = s.state) (hback : s'.responseBackend = s.responseBackend)
    (hquit : s'.quitting = s.quitting) : Vacant base n s' := by
  refine ⟨hmods ▸ h.idle, ?_, ?_⟩
  · rw [hstate, hback]
    exact h.backend
  · rw [hstate, hquit]
    exact h.gone

theorem vacant_delete {s : St CgiVars} (h : s.mods.Idle base n) : Vacant base n (delete s) := by
  rw [delete_eq]
  exact ⟨h, fun hs => (by cases hs), fun _ => rfl⟩

/-- `OnBufferFlushed` leaves no more of `base` than there was. -/
theorem CgiVars.Idle.flushed {v : CgiVars} (h : v.Idle base n) : (onFlushed v).Idle base n := by
  unfold onFlushed
  split
  · exact h
  · exact ⟨List.filter_sublist.trans h.live, fun _ hid => (by cases hid), h.made⟩

/-- What a nested `CheckRequest` does when it is called where it may be. -/
abbrev ChecksWell (base : List CGIRequest) (cfg : CgiConfig) (os : CgiOs) (n : Nat)
    (check : St CgiVars → St CgiVars) : Prop :=
  ∀ s, s.state = .waitRequest → s.responseBackend = none → s.mods.Idle base n →
    Settles base cfg os n (check s)

theorem endRequest_settles (hc : ChecksWell base cfg os n check) {s : St CgiVars}
    (h : s.mods.Idle base n) : Settles base cfg os n (endRequest check s) := by
  rw [endRequest_if]
  cases hk : s.keepalive with
  | false =>
      rw [if_neg (by simp), endStep_of_close hk]
      exact Or.inl ⟨h, fun hs => (by cases hs), fun _ => rfl⟩
  | true =>
      rw [endStep_of_keepalive hk]
      split
      · exact hc _ rfl rfl h
      · exact Or.inl ⟨h, fun _ => rfl, fun hs => by cases hs⟩

theorem sendStaticData_settles (hc : ChecksWell base cfg os n check) {s : St CgiVars} (h : Vacant base n s) :
    Settles base cfg os n (sendStaticData env check s) := by
  rcases sendStaticData_cases env s with ⟨calls, -, heq⟩ | ⟨sends, calls, heq⟩ |
    ⟨path, k, sends, calls, -, -, -, -, heq⟩ | ⟨path, k, sends, calls, -, -, -, -, heq⟩
  · rw [heq]
    have hd : Vacant base n (delete s) := vacant_delete h.idle
    exact Or.inl (vacant_delete hd.idle)
  · rw [heq]
    exact Or.inl (vacant_delete h.idle)
  · rw [heq]
    exact Or.inl (h.of_eq rfl rfl rfl rfl)
  · rw [heq]
    exact endRequest_settles hc h.idle

theorem flushWriteBuf_settles (hc : ChecksWell base cfg os n check) {s : St CgiVars} (h : Vacant base n s) :
    Settles base cfg os n (flushWriteBuf env (onlyCgi env cfg os) check s) := by
  unfold flushWriteBuf
  rcases flushSend_cases env s with ⟨k, hk, heq⟩ | heq | ⟨sends, heq⟩
  · simp only [heq, if_neg (advanced_sendq_ne hk), Bool.true_eq_false, if_false]
    exact Or.inl (h.of_eq rfl rfl rfl rfl)
  · simp only [heq, if_true]
    exact Or.inl (vacant_delete h.idle)
  · have hq : (drained s.mask sends s.mods s).sendq = [] := rfl
    simp only [heq, hq, if_true, Bool.true_eq_false, if_false]
    have hmods : onBufferFlushed (onlyCgi env cfg os) (drained s.mask sends s.mods s)
        = drained s.mask sends (onFlushed s.mods) s := rfl
    rw [hmods]
    have hd : Vacant base n (drained s.mask sends (onFlushed s.mods) s) :=
      ⟨h.idle.flushed, h.backend, h.gone⟩
    split
    · exact endRequest_settles hc hd.idle
    · split
      · refine sendStaticData_settles hc (vacant_of_state hd.idle ?_ ?_) <;>
          simp [St.setState, St.log]
      · exact Or.inl hd

theorem Settles.of_eq {s s' : St CgiVars} (h : Settles base cfg os n s) (hmods : s'.mods = s.mods)
    (hstate : s'.state = s.state) (hback : s'.responseBackend = s.responseBackend)
    (hquit : s'.quitting = s.quitting) : Settles base cfg os n s' := by
  rcases h with h | ⟨⟨cr, hrun, hnew⟩, hmade, hroom⟩
  · exact Or.inl (h.of_eq hmods hstate hback hquit)
  · refine Or.inr ⟨⟨cr, ⟨?_, ?_, hrun.undone, ?_, ?_, ?_⟩, hnew⟩, ?_, ?_⟩
    · rw [hmods]
      exact hrun.live
    · rw [hmods]
      exact hrun.stored
    · rw [hstate]
      exact hrun.state
    · rw [hback]
      exact hrun.backend
    · rw [hstate, hquit]
      exact hrun.gone
    · rw [hmods]
      exact hmade
    · rw [hmods]
      exact hroom

theorem sendError_settles (hc : ChecksWell base cfg os n check) {s : St CgiVars} (code : Nat)
    (text : Bytes) (fatal : Bool) (h : s.mods.Idle base n) :
    Settles base cfg os n (sendError env (onlyCgi env cfg os) check code text fatal s) := by
  have hq : Vacant base n (queueError env code text fatal s) := by
    rw [queueError_eq]
    exact vacant_of_state h (by simp) (by simp)
  have hflush : Settles base cfg os n
      (flushWriteBuf env (onlyCgi env cfg os) check (queueError env code text fatal s)) :=
    flushWriteBuf_settles hc hq
  rw [sendError_eq]
  split
  · exact hflush.of_eq rfl rfl rfl rfl
  · exact hflush

theorem sendHeaders_settles (hc : ChecksWell base cfg os n check) {s : St CgiVars} (size code : Nat)
    (text : Bytes) (h : s.mods.Idle base n) :
    Settles base cfg os n (sendHeaders env check size code text clear s) := by
  have hw : Vacant base n (writeHeaders env size code text clear s) := by
    rw [writeHeaders_eq _ _ _ _ core_no_connection.1]
    exact vacant_of_state h (by simp) (by simp)
  unfold sendHeaders
  dsimp only
  split
  · exact endRequest_settles hc hw.idle
  · exact Or.inl hw

theorem serveData_settles (hc : ChecksWell base cfg os n check) {s : St CgiVars}
    (h : s.mods.Idle base n) : Settles base cfg os n (serveData env (onlyCgi env cfg os) check s) := by
  unfold serveData
  split
  · next code text s' hres =>
      obtain ⟨upath, filefd, calls, -, rfl⟩ := resolveFile_error hres
      exact sendError_settles hc code text false h
  · next size s' hres =>
      obtain ⟨path, fst, calls, k, -, -, rfl⟩ := resolveFile_ok hres
      exact sendHeaders_settles hc size 200 (str "OK") h

/-! ## The hook -/

/-- What `OnPreRequest` can come to: it leaves the request, answers it with an error page, drops
it, or starts a process. -/
theorem onPreRequest_cases (env : Env) (cfg : CgiConfig) (os : CgiOs) (uri file : Bytes)
    (v : CgiVars) :
    onPreRequest env cfg os uri file v = (v, declined) ∨
    (∃ code text, onPreRequest env cfg os uri file v
      = ({ v with calls := v.calls + 1 }, handled [.sendError code text true])) ∨
    onPreRequest env cfg os uri file v = ({ v with calls := v.calls + 1 }, handled []) ∨
    (totalCgiProcesses os v + 1 ≤ cfg.maximumDynamicProcesses ∧
      ∃ command, onPreRequest env cfg os uri file v = ({ v with
        live := v.live ++ [⟨v.made, command, [], true, false⟩]
        stored := some v.made
        made := v.made + 1
        calls := v.calls + 1 }, handled [])) := by
  have hpage : ∀ code text, (∃ code' text',
      (({ v with calls := v.calls + 1 } : CgiVars), handled [.sendError code text true])
        = ({ v with calls := v.calls + 1 }, handled [.sendError code' text' true])) :=
    fun code text => ⟨code, text, rfl⟩
  unfold onPreRequest
  split
  · exact Or.inl rfl
  cases rfind dot file with
  | none => exact Or.inl rfl
  | some pos =>
      dsimp only
      split
      · exact Or.inl rfl
      cases cfg.types.lookup (file.drop (pos + 1)) with
      | none => exact Or.inl rfl
      | some exe =>
          right
          dsimp only [runScript]
          by_cases hfull : cfg.maximumDynamicProcesses < totalCgiProcesses os v + 1
          · rw [if_pos hfull]
            exact Or.inl (hpage _ _)
          rw [if_neg hfull]
          cases checkFilePath (os.stat v.calls env.cfg.followSymLinks) env.cfg.docRoot uri with
          | error e => exact Or.inl (hpage _ _)
          | ok found =>
              dsimp only
              split
              · exact Or.inl (hpage _ _)
              split
              · exact Or.inl (hpage _ _)
              split
              · exact Or.inl (hpage _ _)
              · right
                dsimp only [startProcess]
                split
                · exact Or.inl rfl
                · exact Or.inr ⟨Int.not_lt.1 hfull, _, rfl⟩

/-- `m_cgi` alone is asked, and takes the request. -/
theorem dispatchRequest_taken {s : St CgiVars} {v : CgiVars} {calls : List ModCall}
    (h : onPreRequest env cfg os (cleaned s).uri (fileOf (cleaned s).uri) s.mods
      = (v, handled calls)) :
    dispatchRequest env (onlyCgi env cfg os) check s =
      modCalls env (onlyCgi env cfg os) check calls (hooked v [.hook 0 (some 1)] (cleaned s)) := by
  have hcall : (cgi env cfg os (Slot.whole CgiVars)).onPreRequest (cleaned s).mods
      (cleaned s).toConnection (cleaned s).method (getHeader (cleaned s).headers (str "Host"))
      (dirOf (cleaned s).uri) (fileOf (cleaned s).uri) = (v, handled calls) := h
  have hround : foreachResult env (onlyCgi env cfg os) check (cleaned s).method
      (getHeader (cleaned s).headers (str "Host")) (dirOf (cleaned s).uri)
      (fileOf (cleaned s).uri) 0 (onlyCgi env cfg os) (cleaned s)
        = (1, modCalls env (onlyCgi env cfg os) check calls
          (hooked v [.hook 0 (some 1)] (cleaned s))) := by
    rw [foreachResult, hcall]
    rfl
  rw [dispatchRequest_round hround, if_pos rfl]

/-- `m_cgi` alone is asked, and leaves the request to the core. -/
theorem dispatchRequest_declined {s : St CgiVars}
    (h : onPreRequest env cfg os (cleaned s).uri (fileOf (cleaned s).uri) s.mods
      = (s.mods, declined)) :
    dispatchRequest env (onlyCgi env cfg os) check s =
      if s.method ≠ str "GET" ∧ s.method ≠ str "POST" then
        sendError env (onlyCgi env cfg os) check 501 (str "Not Implemented") true
          (hooked s.mods [.hook 0 (some 0)] (cleaned s))
      else serveData env (onlyCgi env cfg os) check
        (hooked s.mods [.hook 0 (some 0)] (cleaned s)) := by
  have hcall : (cgi env cfg os (Slot.whole CgiVars)).onPreRequest (cleaned s).mods
      (cleaned s).toConnection (cleaned s).method (getHeader (cleaned s).headers (str "Host"))
      (dirOf (cleaned s).uri) (fileOf (cleaned s).uri) = (s.mods, declined) := h
  have hround : foreachResult env (onlyCgi env cfg os) check (cleaned s).method
      (getHeader (cleaned s).headers (str "Host")) (dirOf (cleaned s).uri)
      (fileOf (cleaned s).uri) 0 (onlyCgi env cfg os) (cleaned s)
        = (0, hooked s.mods [.hook 0 (some 0)] (cleaned s)) := by
    rw [foreachResult, hcall]
    rfl
  have hnot : ¬(0 : Int) = 1 := by decide
  rw [dispatchRequest_round hround, if_neg hnot]
  rfl

theorem dispatchRequest_settles (hc : ChecksWell base cfg os n check) {s : St CgiVars}
    (hs : s.state = .waitRequest) (hback : s.responseBackend = none) (h : s.mods.Idle base n) :
    Settles base cfg os n (dispatchRequest env (onlyCgi env cfg os) check s) := by
  have hgone : s.state = .finished → s.quitting = true := fun hf => by
    rw [hs] at hf
    cases hf
  rcases onPreRequest_cases env cfg os (cleaned s).uri (fileOf (cleaned s).uri) s.mods with
    heq | ⟨code, text, heq⟩ | heq | ⟨hroom, command, heq⟩
  · rw [dispatchRequest_declined heq]
    split
    · exact sendError_settles hc 501 (str "Not Implemented") true h
    · exact serveData_settles hc h
  · rw [dispatchRequest_taken heq]
    exact sendError_settles hc code text true ⟨h.live, h.stored, h.made⟩
  · rw [dispatchRequest_taken heq]
    exact Or.inl ⟨⟨h.live, h.stored, h.made⟩, fun _ => hback, hgone⟩
  · rw [dispatchRequest_taken heq]
    refine Or.inr ⟨⟨⟨s.mods.made, command, [], true, false⟩, ⟨⟨s.mods.live, h.live, rfl⟩, rfl, rfl,
      ?_, hback, hgone⟩, h.made, rfl, rfl⟩, ?_, s.mods.calls, ?_⟩
    · show s.state ≠ .recvReqbody
      rw [hs]
      decide
    · show s.mods.made + 1 = _
      rw [h.made]
    · show (os.others s.mods.calls : Int) + (s.mods.live ++ [_]).length ≤ _
      rw [totalCgiProcesses] at hroom
      rw [List.length_append, List.length_singleton]
      omega

/-! ## Closing the circle -/

theorem checkOnce_settles (hc : ChecksWell base cfg os n check) {s : St CgiVars} (newpos : Nat)
    (hs : s.state = .waitRequest) (hback : s.responseBackend = none) (h : s.mods.Idle base n) :
    Settles base cfg os n (checkOnce env (onlyCgi env cfg os) check newpos s) := by
  unfold checkOnce
  split
  · refine Or.inl ⟨h, fun _ => hback, fun hf => ?_⟩
    rw [hs] at hf
    cases hf
  · next reqend _ =>
      obtain ⟨_, _, _, _, _, _, -, heq⟩ := takenRequest_eq env reqend s
      have htaken : (takenRequest env reqend s).state = .waitRequest ∧
          (takenRequest env reqend s).responseBackend = none ∧
          (takenRequest env reqend s).mods = s.mods := by
        rw [heq]
        exact ⟨hs, hback, rfl⟩
      have hidle : (takenRequest env reqend s).mods.Idle base n := htaken.2.2 ▸ h
      cases hv : (takeRequest env.cfg reqend s.toConnection).2 with
      | reject code text fatal =>
          rw [actOnRequest_reject hv]
          exact sendError_settles hc code text fatal hidle
      | body =>
          rw [actOnRequest_body hv]
          exact Or.inl (vacant_of_state hidle (by simp [St.setState, St.log])
            (by simp [St.setState, St.log]))
      | dispatch =>
          rw [actOnRequest_dispatch hv]
          exact dispatchRequest_settles hc htaken.1 htaken.2.1 hidle

theorem checkFuel_settles (fuel : Nat) : ∀ (newpos : Nat) {s : St CgiVars},
    s.state = .waitRequest → s.responseBackend = none → s.mods.Idle base n →
    Settles base cfg os n (checkFuel env (onlyCgi env cfg os) fuel newpos s) := by
  induction fuel with
  | zero =>
      intro newpos s hs hback h
      refine Or.inl ⟨h, fun _ => hback, fun hf => ?_⟩
      rw [checkFuel, hs] at hf
      cases hf
  | succ fuel ih =>
      intro newpos s hs hback h
      exact checkOnce_settles (fun s hs hback h => ih 0 hs hback h) newpos hs hback h

theorem recheck_settles : ChecksWell base cfg os n (recheck env (onlyCgi env cfg os)) :=
  fun _ hs hback h => checkFuel_settles _ 0 hs hback h

/-! ## Events while no process is to answer -/

theorem addBuffer_settles (a : Bytes) {s : St CgiVars} (h : Vacant base n s) :
    Settles base cfg os n (addBuffer env (onlyCgi env cfg os) a s).2 := by
  unfold addBuffer
  split
  · exact Or.inl h
  · split
    · next hs =>
        obtain ⟨body, buf, heq⟩ := takeBody_eq a s
        dsimp only
        rw [heq]
        split
        · exact serveData_settles recheck_settles h.idle
        · exact Or.inl (h.of_eq rfl rfl rfl rfl)
    · dsimp only
      split
      · next hs => exact checkFuel_settles _ _ hs (h.backend hs) h.idle
      · exact Or.inl (h.of_eq rfl rfl rfl rfl)

theorem Settles.delete {s : St CgiVars} (h : Settles base cfg os n s) :
    Settles base cfg os n (delete s) := by
  rcases h with h | ⟨⟨cr, hrun, hnew⟩, hmade, hroom⟩
  · exact Or.inl (vacant_delete h.idle)
  · rw [delete_eq]
    exact Or.inr ⟨⟨cr, ⟨hrun.live, hrun.stored, hrun.undone, by simp, hrun.backend, fun _ => rfl⟩,
      hnew⟩, hmade, hroom⟩

/-- An event of the module: what it calls is done to the connection. -/
theorem cgiEvent_module (s : St CgiVars) :
    cgiEvent env cfg os (.module 0) s =
      modCalls env (onlyCgi env cfg os) (recheck env (onlyCgi env cfg os))
        (onEvent os s.mods).2 { s with mods := (onEvent os s.mods).1 } := rfl

/-- The engine watches no pipe, and the event is lost. -/
theorem onEvent_unheard {v : CgiVars} (h : ∀ cr ∈ v.live, cr.isOpen = false) :
    onEvent os v = ({ v with calls := v.calls + 1 }, []) := by
  have hnone : v.live.find? (fun cr => cr.id = (os.event v.calls).1 ∧ cr.isOpen) = none := by
    refine List.find?_eq_none.2 fun cr hcr hfound => ?_
    have hopen := (of_decide_eq_true hfound).2
    rw [h cr hcr] at hopen
    cases hopen
  unfold onEvent
  dsimp only
  rw [hnone]
  split
  · rfl
  · rfl

theorem cgiEvent_unheard {s : St CgiVars} (h : ∀ cr ∈ s.mods.live, cr.isOpen = false) :
    cgiEvent env cfg os (.module 0) s
      = { s with mods := { s.mods with calls := s.mods.calls + 1 } } := by
  rw [cgiEvent_module, onEvent_unheard h]
  rfl

theorem cgiEvent_vacant (hclosed : ∀ cr ∈ base, cr.isOpen = false) (ev : Event) {s : St CgiVars}
    (h : Vacant base n s) :
    Settles base cfg os n (cgiEvent env cfg os ev s) := by
  cases ev with
  | read res =>
      rw [cgiEvent, handleEvent]
      split
      · exact Or.inl h
      · cases res with
        | data bytes =>
            have hadd : Settles base cfg os n (addBuffer env (onlyCgi env cfg os) (cstr bytes) s).2 :=
              addBuffer_settles (cstr bytes) h
            simp only [readData]
            split
            · exact hadd
            · exact hadd.delete
        | again => exact Or.inl h
        | eof | fail => exact Or.inl (vacant_delete h.idle)
  | write =>
      have hd : Vacant base n { s with mask := ⟨true, false⟩ } := h.of_eq rfl rfl rfl rfl
      rw [cgiEvent, handleEvent, handleWrite]
      split
      · exact sendStaticData_settles recheck_settles hd
      · exact flushWriteBuf_settles recheck_settles hd
  | error | timeout => exact Or.inl (vacant_delete h.idle)
  | module k =>
      cases k with
      | succ k => exact Or.inl h
      | zero =>
          rw [cgiEvent_unheard fun cr hcr => hclosed cr (h.idle.live.subset hcr)]
          exact Or.inl ⟨⟨h.idle.live, h.idle.stored, h.idle.made⟩, h.backend,
            h.gone⟩

end Hottpd
