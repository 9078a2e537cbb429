import Hottpd.Proofs.CgiWalk
import Hottpd.Proofs.Served
import Hottpd.Proofs.Turns

/-!
# One request after the other

While a process runs its connection is in the state of one that waits for a
request, and nothing in the code holds the next one back. If no event overtakes
the request all the same, its process is the only one of the connection until
its response has ended, and only the end of the response destroys it. A queue that
is emptied in the meantime destroys it earlier, but lets no second one in.
-/

namespace Hottpd

open Bytes HTTPHeaders Trace

variable {env : Env} {cfg : CgiConfig} {os : CgiOs} {s s' : St CgiVars} {cr : CGIRequest}
  {check : St CgiVars → St CgiVars} {base : List CGIRequest}

/-! ## What is kept -/

/-- A header block is taken off the buffer only behind the end of a request. -/
def ParsedLate (past : List Ev) : Ev → Prop
  | .parsed .. => ∃ e ∈ past, e.isEnded = true
  | _ => True

/-- The requests that are destroyed on the way had their response queued before, and those that
are made on the way are still there. -/
structure Survives (v v' : CgiVars) : Prop where
  undone : ∀ cr ∈ v.live, cr.done = false → ∃ cr' ∈ v'.live, cr'.id = cr.id
  made : ∀ id, v.made ≤ id → id < v'.made → ∃ cr' ∈ v'.live, cr'.id = id

/-- The places between events. -/
inductive Orderly (s : St CgiVars) : Prop where
  | vacant (h : Vacant [] s.mods.made s)
  | running {cr : CGIRequest} (h : Running [] cr s)
  | answered {cr : CGIRequest} (h : Answered cr s)

/-- While a request is stored no other is parsed before a response has ended, and it stays stored
until then or until the connection is given up. -/
structure InTime (s s' : St CgiVars) : Prop where
  late : s.mods.stored ≠ none → ∀ t, s'.trace = s.trace ++ t → AtEach ParsedLate t
  kept : s'.mods.stored ≠ s.mods.stored → s.mods.stored ≠ none →
    s'.quitting = true ∨ ∃ t, s'.trace = s.trace ++ t ∧ ∃ e ∈ t, e.isEnded = true

/-- What an event leaves that takes up no request while another is stored. -/
structure Tidy (cfg : CgiConfig) (os : CgiOs) (s s' : St CgiVars) : Prop where
  orderly : Orderly s'
  room : s'.mods.live.length ≤ s.mods.live.length ∨
    (s'.mods.live.length = 1 ∧ ∃ k, (os.others k : Int) + 1 ≤ cfg.maximumDynamicProcesses)

/-- What an event that overtakes nothing leaves. -/
structure Follows (cfg : CgiConfig) (os : CgiOs) (s s' : St CgiVars) : Prop
    extends Tidy cfg os s s' where
  survives : Survives s.mods s'.mods
  carried : ∀ cr' ∈ s'.mods.live, cr'.done = false →
    (∃ cr ∈ s.mods.live, cr.done = false ∧ cr.id = cr'.id) ∨
      (cr'.id = s.mods.made ∧ s'.mods.made = s.mods.made + 1 ∧ cr'.rbuf = [] ∧ cr'.isOpen = true)
  inTime : InTime s s'

theorem late_of_answers (h : Answers s.trace s') :
    ∀ t, s'.trace = s.trace ++ t → AtEach ParsedLate t := by
  intro t ht
  obtain ⟨evs, hevs, hout⟩ := h.trace
  rw [hevs, List.append_cancel_left_eq] at ht
  refine ht ▸ atEachFrom_of_forall fun e he past => ?_
  have houtput := hout e he
  cases e <;> trivial

/-- Behind an end anything may be parsed. -/
theorem late_behind {past : List Ev} (h : ∃ e ∈ past, e.isEnded = true) (l : List Ev) :
    AtEachFrom ParsedLate past l := by
  induction l generalizing past with
  | nil => trivial
  | cons e l ih =>
      obtain ⟨x, hx, hend⟩ := h
      refine ⟨?_, ih ⟨x, List.mem_append_left _ hx, hend⟩⟩
      cases e <;> first | trivial | exact ⟨x, hx, hend⟩

/-! ## While the process runs -/

theorem Running.of_eq (h : Running base cr s) (hmods : s'.mods = s.mods)
    (hstate : s'.state = s.state) (hback : s'.responseBackend = s.responseBackend)
    (hquit : s'.quitting = s.quitting) : Running base cr s' := by
  refine ⟨hmods ▸ h.live, hmods ▸ h.stored, h.undone, hstate ▸ h.state, hback ▸ h.backend, ?_⟩
  rw [hstate, hquit]
  exact h.gone

theorem Running.delete (h : Running base cr s) : Running base cr (delete s) := by
  rw [delete_eq]
  exact ⟨h.live, h.stored, h.undone, by simp, h.backend, fun _ => rfl⟩

theorem Running.waiting (h : Running base cr s) : s.mods.waiting = true :=
  List.any_eq_true.2 ⟨cr, h.mem, decide_eq_true h.undone⟩

/-- The process goes on running, and only output has been added to the trace. -/
theorem Running.follows {cr' : CGIRequest} (h : Running [] cr s) (h' : Running [] cr' s')
    (hid : cr'.id = cr.id) (hmade : s'.mods.made = s.mods.made) (ht : Answers s.trace s') :
    Follows cfg os s s' where
  orderly := .running h'
  survives := by
    refine ⟨fun c hc _ => ?_, fun id hle hlt => absurd hlt (by omega)⟩
    rw [h.only, List.mem_singleton] at hc
    rw [hc]
    exact ⟨cr', h'.mem, hid⟩
  carried := by
    intro c hc _
    rw [h'.only, List.mem_singleton] at hc
    rw [hc]
    exact Or.inl ⟨cr, h.mem, h.undone, hid.symm⟩
  inTime := by
    refine ⟨fun _ => late_of_answers ht, fun hne => absurd ?_ hne⟩
    rw [h.stored, h'.stored, hid]
  room := by
    rw [h.only, h'.only]
    exact Or.inl (Nat.le_refl _)

/-- The connection has not touched the process. -/
structure Stays (base : List CGIRequest) (cr : CGIRequest) (s s' : St CgiVars) : Prop where
  running : Running base cr s'
  mods : s'.mods = s.mods
  answers : Answers s.trace s'

theorem Running.stays (h : Running base cr s) : Stays base cr s s :=
  ⟨h, rfl, answers_self h.state⟩

theorem Stays.delete (h : Stays base cr s s') : Stays base cr s (Hottpd.delete s') := by
  refine ⟨h.running.delete, ?_, h.answers.trans (answers_delete rfl)⟩
  rw [delete_eq]
  exact h.mods

theorem Stays.follows (hs : Stays [] cr s s') (h : Running [] cr s) : Follows cfg os s s' :=
  h.follows hs.running rfl (by rw [hs.mods]) hs.answers

/-- Bytes that complete no header block are put with the others. -/
theorem addBuffer_incomplete {a : Bytes} (hs : s.state ≠ .recvReqbody)
    (hnone : s.state = .waitRequest →
      findRequestEnd (s.requestbuf ++ a) s.requestbuf.length = none) :
    ∃ ok buf, addBuffer env (onlyCgi env cfg os) a s = (ok, { s with requestbuf := buf }) := by
  unfold addBuffer
  split
  · exact ⟨true, s.requestbuf, rfl⟩
  · dsimp only
    split
    · next hwait =>
        have hcheck : checkRequest env (onlyCgi env cfg os) s.requestbuf.length
            { s with requestbuf := s.requestbuf ++ a }
            = { s with requestbuf := s.requestbuf ++ a } := by
          rw [checkRequest, checkFuel, checkOnce, hnone hwait]
        rw [hcheck]
        exact ⟨_, _, rfl⟩
    · exact ⟨_, _, rfl⟩

theorem Running.read (h : Running base cr s) (res : ReadRes)
    (hi : completes (.read res) s = false) :
    Stays base cr s (cgiEvent env cfg os (.read res) s) := by
  rw [cgiEvent, handleEvent]
  split
  · exact h.stays
  · next hquit =>
      cases res with
      | data bytes =>
          have hnone : s.state = .waitRequest →
              findRequestEnd (s.requestbuf ++ cstr bytes) s.requestbuf.length = none := by
            intro hwait
            by_contra hsome
            rw [completes, decide_eq_false_iff_not] at hi
            refine hi ⟨h.waiting, hwait, by simpa using hquit, ?_⟩
            exact Option.isSome_iff_ne_none.2 hsome
          obtain ⟨ok, buf, heq⟩ := @addBuffer_incomplete env cfg os s _ h.state hnone
          have h' : Running base cr { s with requestbuf := buf } := h.of_eq rfl rfl rfl rfl
          have hstays : Stays base cr s { s with requestbuf := buf } :=
            ⟨h', rfl, answers_self h'.state⟩
          simp only [readData, heq]
          split
          · exact hstays
          · exact hstays.delete
      | again => exact h.stays
      | eof | fail => exact h.stays.delete

/-- A flush that does not leave the queue empty. -/
theorem flushSend_undrained {σ : Type} {s : St σ} (h : drains env s = false) :
    (∃ n, n < s.sendq.length ∧ flushSend env s = (true, advanced n s)) ∨
      flushSend env s = (false, Hottpd.delete { s with sends := s.sends + 1 }) := by
  rcases flushSend_cases env s with hpart | hfail | ⟨sends, hall⟩
  · exact Or.inl hpart
  · exact Or.inr hfail
  · exfalso
    rw [drains] at h
    unfold flushSend at hall
    split at h
    · cases h
    · next hq =>
        rw [if_neg hq] at hall
        dsimp only at hall
        cases hsend : env.os.send s.sends with
        | again =>
            rw [hsend] at hall
            have hempty := congrArg (fun p => p.2.sendq) hall
            exact hq hempty
        | fail =>
            rw [hsend] at hall
            cases congrArg Prod.fst hall
        | took n =>
            rw [hsend] at hall h
            have hempty : s.sendq.drop (min n s.sendq.length) = [] := by
              have hdrop := congrArg (fun p => p.2.sendq) hall
              dsimp only at hdrop
              split at hdrop <;> exact hdrop
            have hle := List.drop_eq_nil_iff.1 hempty
            rw [decide_eq_false_iff_not] at h
            omega

theorem Running.write (h : Running base cr s) (hi : empties env .write s = false) :
    Stays base cr s (cgiEvent env cfg os .write s) := by
  have hdrains : drains env { s with mask := ⟨true, false⟩ } = false := by
    rw [empties, decide_eq_false_iff_not] at hi
    exact Bool.eq_false_iff.2 fun hd => hi ⟨h.waiting, hd⟩
  have hnofile : ¬(s.state = .sendData ∧ s.responseBackend ≠ none) := fun hf => hf.2 h.backend
  have h₁ : Running base cr { s with mask := ⟨true, false⟩ } := h.of_eq rfl rfl rfl rfl
  rw [cgiEvent, handleEvent, handleWrite, if_neg hnofile, flushWriteBuf]
  rcases flushSend_undrained hdrains with ⟨k, hk, heq⟩ | heq
  · simp only [heq, if_neg (advanced_sendq_ne hk), Bool.true_eq_false, if_false]
    exact ⟨h₁.of_eq rfl rfl rfl rfl, rfl, (answers_self h.state).advanced⟩
  · simp only [heq, if_true]
    have h₂ : Running base cr { s with mask := ⟨true, false⟩, sends := s.sends + 1 } :=
      h.of_eq rfl rfl rfl rfl
    have hsent : Stays base cr s { s with mask := ⟨true, false⟩, sends := s.sends + 1 } :=
      ⟨h₂, rfl, answers_self h₂.state⟩
    exact hsent.delete

/-! ## Events of the process -/

/-- The calls that queue the response of `cr`. -/
def responseCalls (cr : CGIRequest) : List ModCall :=
  [.sendHeaders cr.rbuf.length 200 (str "OK"), .sendData, .write cr.rbuf, .bufferDone]

theorem CGIRequest.handleEvent_hangup (cr : CGIRequest) (hopen : cr.isOpen = true) :
    cr.handleEvent .error = some ({ cr with isOpen := false, done := true }, responseCalls cr) := by
  rw [CGIRequest.handleEvent, CGIRequest.close, if_pos hopen]
  rfl

/-- What an event does to an open request: an exception, more output, or the response. -/
theorem CGIRequest.handleEvent_cases (cr : CGIRequest) (hopen : cr.isOpen = true) (ev : CgiEvent) :
    cr.handleEvent ev = none ∨
    (∃ rbuf, cr.handleEvent ev = some ({ cr with rbuf := rbuf }, [])) ∨
    (cr.handleEvent ev = some ({ cr with isOpen := false, done := true }, responseCalls cr) ∧
      (cr.rbuf = [] → ev = .error)) := by
  have hclose : cr.close = ({ cr with isOpen := false, done := true }, responseCalls cr) :=
    Option.some.inj (cr.handleEvent_hangup hopen)
  cases ev with
  | write => exact Or.inr (Or.inl ⟨cr.rbuf, rfl⟩)
  | error =>
      exact Or.inr (Or.inr ⟨cr.handleEvent_hangup hopen, fun _ => rfl⟩)
  | read res =>
      cases res with
      | data bytes => exact Or.inr (Or.inl ⟨_, rfl⟩)
      | again => exact Or.inr (Or.inl ⟨cr.rbuf, rfl⟩)
      | fail => exact Or.inl rfl
      | eof =>
          rw [CGIRequest.handleEvent]
          split
          · exact Or.inl rfl
          · next hne =>
              rw [hclose]
              exact Or.inr (Or.inr ⟨rfl, fun h => absurd h hne⟩)

/-- These have been answered, and are older than the request with this number. -/
def Spent (id : Nat) (base : List CGIRequest) : Prop :=
  ∀ c ∈ base, c.done = true ∧ c.isOpen = false ∧ c.id < id

theorem spent_nil (id : Nat) : Spent id [] := fun _ hc => by cases hc

/-- With one process an event is lost, or its request goes on reading or is closed. -/
theorem onEvent_one {v : CgiVars} {l : List CGIRequest} (hspent : Spent cr.id l)
    (hlive : v.live = l ++ [cr]) :
    ∃ v' calls, onEvent os v = (v', calls) ∧ v'.stored = v.stored ∧ v'.made = v.made ∧
      ((calls = [] ∧ ∃ rbuf, v'.live = l ++ [{ cr with rbuf := rbuf }]) ∨
        (cr.isOpen = true ∧ calls = responseCalls cr ∧
          v'.live = l ++ [{ cr with isOpen := false, done := true }] ∧
          (cr.rbuf = [] → hangsUpSilently os v = true))) := by
  unfold onEvent
  dsimp only
  by_cases hab : v.aborted = true
  · rw [if_pos hab]
    exact ⟨_, _, rfl, rfl, rfl, Or.inl ⟨rfl, cr.rbuf, hlive⟩⟩
  rw [if_neg hab]
  have hskip : l.find? (fun cr => decide (cr.id = (os.event v.calls).1 ∧ cr.isOpen)) = none :=
    List.find?_eq_none.2 fun c hc => by simp [(hspent c hc).2.1]
  by_cases hmine : cr.id = (os.event v.calls).1 ∧ cr.isOpen = true
  · have hfind : v.live.find? (fun cr => decide (cr.id = (os.event v.calls).1 ∧ cr.isOpen))
        = some cr := by
      rw [hlive, List.find?_append, hskip, Option.none_or]
      exact List.find?_cons_of_pos (decide_eq_true hmine)
    have hmap : ∀ cr' : CGIRequest,
        v.live.map (fun r => if r.id = (os.event v.calls).1 then cr' else r) = l ++ [cr'] := by
      intro cr'
      have hothers : l.map (fun r => if r.id = (os.event v.calls).1 then cr' else r) = l := by
        refine (List.map_congr_left fun r hr => ?_).trans (List.map_id' l)
        rw [if_neg fun hid => (hspent r hr).2.2.ne (hid.trans hmine.1.symm)]
      rw [hlive, List.map_append, hothers, List.map_singleton, if_pos hmine.1]
    rw [hfind]
    dsimp only
    rcases cr.handleEvent_cases hmine.2 (os.event v.calls).2 with
      heq | ⟨rbuf, heq⟩ | ⟨heq, hsilent⟩
    · rw [heq]
      exact ⟨_, _, rfl, rfl, rfl, Or.inl ⟨rfl, cr.rbuf, hlive⟩⟩
    · rw [heq]
      exact ⟨_, _, rfl, rfl, rfl, Or.inl ⟨rfl, rbuf, hmap _⟩⟩
    · rw [heq]
      have halive : v.aborted = false := by simpa using hab
      refine ⟨_, _, rfl, rfl, rfl, Or.inr ⟨hmine.2, rfl, hmap _, fun hempty => ?_⟩⟩
      refine decide_eq_true ⟨halive, hsilent hempty, ?_⟩
      rw [hlive, List.any_append, List.any_cons, decide_eq_true ⟨hmine.1, hmine.2, hempty⟩]
      simp
  · have hfind : v.live.find? (fun cr => decide (cr.id = (os.event v.calls).1 ∧ cr.isOpen))
        = none := by
      rw [hlive, List.find?_append, hskip, Option.none_or,
        List.find?_cons_of_neg (by simpa using hmine)]
      rfl
    rw [hfind]
    exact ⟨_, _, rfl, rfl, rfl, Or.inl ⟨rfl, cr.rbuf, hlive⟩⟩

/-- A request buffer with no complete header block is left alone. -/
theorem recheck_incomplete {s : St CgiVars} (h : findRequestEnd s.requestbuf 0 = none) :
    recheck env (onlyCgi env cfg os) s = s := by
  rw [recheck, checkRequest, checkFuel, checkOnce, h]

/-- `SendHeaders` where nothing is taken up behind an empty response. -/
theorem sendHeaders_incomplete (size : Nat) {s : St CgiVars}
    (hquiet : size = 0 → s.keepalive = true → findRequestEnd s.requestbuf 0 = none) :
    ∃ t, sendHeaders env (recheck env (onlyCgi env cfg os)) size 200 (str "OK") clear s = t ∧
      Answers s.trace t ∧ t.mods = s.mods ∧
      (s.responseBackend = none → t.responseBackend = none) := by
  have hw : Answers s.trace (writeHeaders env size 200 (str "OK") clear s) :=
    answers_writeHeaders env size 200 (str "OK") core_no_connection.1 rfl
  obtain ⟨w, hweq, hmods, hback, hkeep, hbuf⟩ :
      ∃ w, writeHeaders env size 200 (str "OK") clear s = w ∧ w.mods = s.mods ∧
        w.responseBackend = s.responseBackend ∧ w.keepalive = s.keepalive ∧
        w.requestbuf = s.requestbuf := by
    rw [writeHeaders_eq _ _ _ _ core_no_connection.1]
    exact ⟨_, rfl, rfl, rfl, rfl, rfl⟩
  rw [hweq] at hw
  unfold sendHeaders
  dsimp only
  rw [hweq]
  split
  · next hsize =>
      have hend : endRequest (recheck env (onlyCgi env cfg os)) w = endStep w := by
        rw [endRequest_if]
        split
        · next hk =>
            refine recheck_incomplete ?_
            rw [endStep_of_keepalive hk.1]
            show findRequestEnd w.requestbuf 0 = none
            rw [hbuf]
            exact hquiet hsize (hkeep ▸ hk.1)
        · rfl
      rw [hend]
      refine ⟨_, rfl, hw.trans (answers_endStep rfl), ?_, ?_⟩
      · cases hk : w.keepalive with
        | false =>
            rw [endStep_of_close hk]
            exact hmods
        | true =>
            rw [endStep_of_keepalive hk]
            exact hmods
      · cases hk : w.keepalive with
        | false =>
            rw [endStep_of_close hk]
            exact hback.trans
        | true =>
            rw [endStep_of_keepalive hk]
            exact fun _ => rfl
  · exact ⟨w, rfl, hw, hmods, hback.trans⟩

/-- The rest of the calls. -/
theorem responseCalls_eq (s : St CgiVars) :
    modCalls env (onlyCgi env cfg os) check (responseCalls cr) s =
      let t := sendHeaders env check cr.rbuf.length 200 (str "OK") clear s
      { t with
        state := .sendData
        sendq := t.sendq ++ cr.rbuf
        mask := ⟨false, true⟩
        responseBufferDone := true
        trace := t.trace ++ [.state .sendData, .append cr.rbuf] } := by
  simp only [modCalls, responseCalls, List.foldl_cons, List.foldl_nil, modCall, write_eq]
  simp [St.setState, St.log]

/-- The response is queued, and with nothing read the request ends in front of a header block that
is not complete. -/
theorem Running.respond (h : Running [] cr s) {v : CgiVars} (hstored : v.stored = s.mods.stored)
    (hmade : v.made = s.mods.made) (hlive : v.live = [{ cr with isOpen := false, done := true }])
    (hquiet : cr.rbuf = [] → s.keepalive = true → findRequestEnd s.requestbuf 0 = none) :
    Follows cfg os s (modCalls env (onlyCgi env cfg os) (recheck env (onlyCgi env cfg os))
      (responseCalls cr) { s with mods := v }) := by
  obtain ⟨t, hsent, hanswers, hmods, hback⟩ :=
    @sendHeaders_incomplete env cfg os cr.rbuf.length { s with mods := v }
      fun hlen => hquiet (List.length_eq_zero_iff.1 hlen)
  rw [responseCalls_eq, hsent]
  refine ⟨⟨@Orderly.answered _ { cr with isOpen := false, done := true }
    ⟨hmods ▸ hlive, ?_, rfl, rfl, Or.inl ⟨rfl, rfl⟩, hback h.backend,
      fun hf => by cases hf⟩, Or.inl ?_⟩, ?_, fun c hc hdone => ?_, ?_⟩
  · show t.mods.stored = _
    rw [hmods, hstored]
    exact h.stored
  · show t.mods.live.length ≤ _
    rw [hmods, hlive, h.only]
    exact Nat.le_refl _
  · refine ⟨fun c hc _ => ?_, fun id hle hlt => ?_⟩
    · rw [h.only, List.mem_singleton] at hc
      refine ⟨{ cr with isOpen := false, done := true }, ?_, by rw [hc]⟩
      show { cr with isOpen := false, done := true } ∈ t.mods.live
      rw [hmods, hlive]
      exact List.mem_singleton_self _
    · have hlt' : id < t.mods.made := hlt
      rw [hmods, hmade] at hlt'
      omega
  · have hc' : c ∈ t.mods.live := hc
    rw [hmods, hlive, List.mem_singleton] at hc'
    rw [hc'] at hdone
    cases hdone
  · refine ⟨fun _ => late_of_answers (hanswers.trans ⟨⟨_, rfl, by simp⟩, ?_⟩),
      fun hne => absurd ?_ hne⟩
    · show HttpState.sendData ≠ .recvReqbody
      decide
    · show t.mods.stored = _
      rw [hmods, hstored]

theorem Running.module (h : Running [] cr s) (k : Nat)
    (hs : endsSilently os (.module k) s = false) :
    Follows cfg os s (cgiEvent env cfg os (.module k) s) := by
  cases k with
  | succ k => exact h.stays.follows h
  | zero =>
      rw [cgiEvent_module]
      obtain ⟨v, calls, heq, hstored, hmade,
          ⟨rfl, rbuf, hlive⟩ | ⟨-, rfl, hlive, hsilent⟩⟩ :=
        @onEvent_one os cr s.mods [] (spent_nil cr.id) h.only
      · rw [heq]
        have h' : Running [] { cr with rbuf := rbuf } { s with mods := v } :=
          ⟨⟨[], List.nil_sublist [], hlive⟩, hstored.trans h.stored, h.undone, h.state, h.backend,
            h.gone⟩
        exact h.follows h' rfl hmade (answers_self h'.state)
      · rw [heq]
        refine h.respond hstored hmade hlive fun hempty hk => ?_
        by_contra hsome
        rw [endsSilently, decide_eq_false_iff_not] at hs
        exact hs ⟨hsilent hempty, hk, Option.isSome_iff_ne_none.2 hsome⟩

theorem Running.follows_event (h : Running [] cr s) (ev : Event)
    (ho : overtakes env os ev s = false) : Follows cfg os s (cgiEvent env cfg os ev s) := by
  rw [overtakes, Bool.or_eq_false_iff, Bool.or_eq_false_iff] at ho
  obtain ⟨⟨hcompletes, hempties⟩, hsilent⟩ := ho
  cases ev with
  | read res => exact (h.read res hcompletes).follows h
  | write => exact (h.write hempties).follows h
  | error | timeout => exact h.stays.delete.follows h
  | module k => exact h.module k hsilent

/-! ## While the response goes out -/

theorem Answered.of_eq (h : Answered cr s) (hmods : s'.mods = s.mods) (hstate : s'.state = s.state)
    (hdone : s'.responseBufferDone = s.responseBufferDone)
    (hback : s'.responseBackend = s.responseBackend) (hquit : s'.quitting = s.quitting) :
    Answered cr s' := by
  refine ⟨hmods ▸ h.live, hmods ▸ h.stored, h.done, h.closed, ?_,
    hback ▸ h.backend, ?_⟩
  · rw [hstate, hdone]
    exact h.state
  · rw [hstate, hquit]
    exact h.gone

theorem Answered.delete (h : Answered cr s) : Answered cr (Hottpd.delete s) := by
  rw [delete_eq]
  exact ⟨h.live, h.stored, h.done, h.closed, Or.inr rfl, h.backend, fun _ => rfl⟩

theorem Answered.state_ne (h : Answered cr s) :
    s.state ≠ .recvReqbody ∧ s.state ≠ .waitRequest := by
  rcases h.state with ⟨hs, -⟩ | hs <;> rw [hs] <;> decide

/-- Only output has been added to the trace. -/
theorem Answered.follows (h : Answered cr s) (h' : Answered cr s')
    (hmade : s'.mods.made = s.mods.made) (ht : Answers s.trace s') : Follows cfg os s s' where
  orderly := .answered h'
  survives := by
    refine ⟨fun c hc hdone => ?_, fun id hle hlt => absurd hlt (by omega)⟩
    rw [h.live, List.mem_singleton] at hc
    rw [hc, h.done] at hdone
    cases hdone
  carried := by
    intro c hc hdone
    rw [h'.live, List.mem_singleton] at hc
    rw [hc, h'.done] at hdone
    cases hdone
  inTime := by
    refine ⟨fun _ => late_of_answers ht, fun hne => absurd ?_ hne⟩
    rw [h.stored, h'.stored]
  room := by
    rw [h.live, h'.live]
    exact Or.inl (Nat.le_refl _)

theorem Answered.self (h : Answered cr s) : Follows cfg os s s :=
  h.follows h rfl (answers_self h.state_ne.1)

theorem Answered.followsDelete (h : Answered cr s) (h' : Answered cr s') (hmods : s'.mods = s.mods)
    (htrace : s'.trace = s.trace) : Follows cfg os s (Hottpd.delete s') := by
  refine h.follows h'.delete ?_ (answers_delete htrace)
  rw [delete_eq, hmods]

theorem Answered.read (h : Answered cr s) (res : ReadRes) :
    Follows cfg os s (cgiEvent env cfg os (.read res) s) := by
  rw [cgiEvent, handleEvent]
  split
  · exact h.self
  · cases res with
    | data bytes =>
        obtain ⟨ok, buf, heq⟩ := @addBuffer_incomplete env cfg os s (cstr bytes) h.state_ne.1
          fun hwait => absurd hwait h.state_ne.2
        have h' : Answered cr { s with requestbuf := buf } := h.of_eq rfl rfl rfl rfl rfl
        simp only [readData, heq]
        split
        · exact h.follows h' rfl (answers_self h'.state_ne.1)
        · exact h.followsDelete h' rfl rfl
    | again => exact h.self
    | eof | fail => exact h.followsDelete h rfl rfl

/-- The request that is stored is destroyed when the queue is empty. -/
theorem onFlushed_one {v : CgiVars} (hlive : v.live = [cr]) (hstored : v.stored = some cr.id) :
    (onFlushed v).live = [] ∧ onFlushed v = { v with live := (onFlushed v).live, stored := none } := by
  rw [onFlushed, hstored]
  refine ⟨?_, rfl⟩
  show v.live.filter (fun c => c.id ≠ cr.id) = []
  rw [hlive, List.filter_cons_of_neg (by simp), List.filter_nil]

theorem onFlushed_idle {v : CgiVars} (hlive : v.live = [cr]) (hstored : v.stored = some cr.id) :
    (onFlushed v).Idle [] v.made := by
  obtain ⟨hnone, hrest⟩ := onFlushed_one hlive hstored
  rw [hrest]
  exact ⟨List.sublist_nil.2 hnone, fun _ hid => (by cases hid), rfl⟩

/-- Where the code comes to rest without a process before it, any process is a new one. -/
theorem Settles.carried {n : Nat} (h : Settles [] cfg os n s') :
    ∀ cr' ∈ s'.mods.live, cr'.done = false →
      (∃ cr ∈ s.mods.live, cr.done = false ∧ cr.id = cr'.id) ∨
        (cr'.id = n ∧ s'.mods.made = n + 1 ∧ cr'.rbuf = [] ∧ cr'.isOpen = true) := by
  intro c hc _
  rcases h with hvacant | ⟨⟨cr', hrun, hid, hempty, hopen⟩, hmade, -⟩
  · rw [hvacant.idle.none_left] at hc
    cases hc
  · rw [hrun.only, List.mem_singleton] at hc
    rw [hc]
    exact Or.inr ⟨hid, hmade, hempty, hopen⟩

/-- A process that has been started on the way is still there. -/
theorem Settles.made {n : Nat} (h : Settles base cfg os n s') :
    ∀ id, n ≤ id → id < s'.mods.made → ∃ cr ∈ s'.mods.live, cr.id = id := by
  intro id hle hlt
  rcases h with hvacant | ⟨⟨cr, hrun, hid, -⟩, hmade, -⟩
  · rw [hvacant.idle.made] at hlt
    omega
  · exact ⟨cr, hrun.mem, by omega⟩

theorem Settles.orderly {n : Nat} (h : Settles [] cfg os n s') : Orderly s' := by
  rcases h with hvacant | ⟨⟨cr', hrun, -⟩, -, -⟩
  · exact .vacant (hvacant.idle.made.symm ▸ hvacant)
  · exact .running hrun

theorem Settles.room {n : Nat} (h : Settles [] cfg os n s') : s'.mods.live.length = 0 ∨
    (s'.mods.live.length = 1 ∧ ∃ k, (os.others k : Int) + 1 ≤ cfg.maximumDynamicProcesses) := by
  rcases h with hvacant | ⟨⟨cr', hrun, -⟩, -, k, hroom⟩
  · rw [hvacant.idle.none_left]
    exact Or.inl rfl
  · rw [hrun.only] at hroom ⊢
    exact Or.inr ⟨rfl, k, hroom⟩

theorem Settles.tidy {n : Nat} (h : Settles [] cfg os n s') : Tidy cfg os s s' :=
  ⟨h.orderly, h.room.imp_left fun hnone => by omega⟩

/-- Behind the last byte of the response the request is gone, and the connection goes on. -/
theorem Answered.drained (h : Answered cr s) (hsettles : Settles [] cfg os s.mods.made s')
    (htrace : s'.quitting = true ∧ Answers s.trace s' ∨
      ∃ evs more, s'.trace = s.trace ++ (evs ++ more) ∧ (∀ e ∈ evs, e.isOutput) ∧
        ∃ e ∈ evs, e.isEnded = true) : Follows cfg os s s' where
  toTidy := hsettles.tidy
  survives := by
    refine ⟨fun c hc hdone => ?_, hsettles.made⟩
    rw [h.live, List.mem_singleton] at hc
    rw [hc, h.done] at hdone
    cases hdone
  carried := hsettles.carried
  inTime := by
    rcases htrace with ⟨hquit, hanswers⟩ | ⟨evs, more, htrace, hout, hend⟩
    · exact ⟨fun _ => late_of_answers hanswers, fun _ _ => Or.inl hquit⟩
    · refine ⟨fun _ t ht => ?_, fun _ _ => Or.inr ⟨_, htrace, ?_⟩⟩
      · rw [htrace, List.append_cancel_left_eq] at ht
        subst ht
        refine AtEach.append (atEachFrom_of_forall fun e he past => ?_) (late_behind hend more)
        have houtput := hout e he
        cases e <;> trivial
      · obtain ⟨e, he, hended⟩ := hend
        exact ⟨e, List.mem_append_left more he, hended⟩

theorem endEvents_output {σ : Type} (s : St σ) : ∀ e ∈ endEvents s, e.isOutput := by
  cases hk : s.keepalive <;> simp [endEvents, hk]

theorem Answered.flush (h : Answered cr s) :
    Follows cfg os s (flushWriteBuf env (onlyCgi env cfg os)
      (recheck env (onlyCgi env cfg os)) s) := by
  unfold flushWriteBuf
  rcases flushSend_cases env s with ⟨k, hk, heq⟩ | heq | ⟨sends, heq⟩
  · simp only [heq, if_neg (advanced_sendq_ne hk), Bool.true_eq_false, if_false]
    refine h.follows (h.of_eq rfl rfl rfl rfl rfl) rfl ?_
    exact (answers_self h.state_ne.1).advanced
  · simp only [heq, if_true]
    exact h.followsDelete (h.of_eq rfl rfl rfl rfl rfl) rfl rfl
  · have hempty : (Hottpd.drained s.mask sends s.mods s).sendq = [] := rfl
    have hmods : onBufferFlushed (onlyCgi env cfg os) (Hottpd.drained s.mask sends s.mods s)
        = Hottpd.drained s.mask sends (onFlushed s.mods) s := rfl
    have hidle : (onFlushed s.mods).Idle [] s.mods.made := onFlushed_idle h.live h.stored
    simp only [heq, hempty, if_true, Bool.true_eq_false, if_false, hmods]
    rcases h.state with ⟨hs, hdone⟩ | hs
    · -- the request ends here, and what follows it in the buffer is taken up
      have hpage : (Hottpd.drained s.mask sends (onFlushed s.mods) s).state = .sendData ∧
          (Hottpd.drained s.mask sends (onFlushed s.mods) s).responseBufferDone = true :=
        ⟨hs, hdone⟩
      rw [if_pos hpage]
      refine h.drained (endRequest_settles recheck_settles hidle) (Or.inr ?_)
      obtain ⟨t, ht⟩ : ∃ t, t = endStep (Hottpd.drained s.mask sends (onFlushed s.mods) s) :=
        ⟨_, rfl⟩
      have htrace : t.trace = s.trace ++ (flushEvents s
          ++ endEvents (Hottpd.drained s.mask sends (onFlushed s.mods) s)) := by
        rw [ht, endStep_trace_eq, trace_drained, List.append_assoc]
      have hmore : ∃ more, (endRequest (recheck env (onlyCgi env cfg os))
          (Hottpd.drained s.mask sends (onFlushed s.mods) s)).trace = t.trace ++ more := by
        rw [endRequest_if, ← ht]
        split
        · next hk =>
            have hwait : t.state = .waitRequest := by
              rw [ht]
              exact endStep_state_of_keepalive hk.1
            obtain ⟨more, hmore⟩ :=
              (@recheck_moves CgiVars env (onlyCgi env cfg os) false t hwait).trace
            exact ⟨more, hmore.symm⟩
        · exact ⟨[], (List.append_nil _).symm⟩
      obtain ⟨more, hmore⟩ := hmore
      refine ⟨flushEvents s ++ endEvents (Hottpd.drained s.mask sends (onFlushed s.mods) s), more,
        ?_, fun e he => ?_, _, List.mem_append_right _ List.mem_cons_self, rfl⟩
      · rw [hmore, htrace, List.append_assoc]
      · rcases List.mem_append.1 he with hflush | hend
        · exact flushEvents_output s e hflush
        · exact endEvents_output _ e hend
    · have hnot : ¬((Hottpd.drained s.mask sends (onFlushed s.mods) s).state = .sendData ∧
          (Hottpd.drained s.mask sends (onFlushed s.mods) s).responseBufferDone = true) := by
        rintro ⟨hf, -⟩
        exact absurd (hs.symm.trans hf) (by decide)
      have hnot' : ¬((Hottpd.drained s.mask sends (onFlushed s.mods) s).state = .sendHeaders ∧
          (Hottpd.drained s.mask sends (onFlushed s.mods) s).responseBackend ≠ none) := by
        rintro ⟨hf, -⟩
        exact absurd (hs.symm.trans hf) (by decide)
      rw [if_neg hnot, if_neg hnot']
      refine h.drained (Or.inl ⟨hidle, fun hf => ?_, fun _ => h.gone hs⟩)
        (Or.inl ⟨h.gone hs, (answers_self h.state_ne.1).drained⟩)
      exact absurd (hs.symm.trans hf) (by decide)

theorem Answered.write (h : Answered cr s) : Follows cfg os s (cgiEvent env cfg os .write s) := by
  have hnofile : ¬(s.state = .sendData ∧ s.responseBackend ≠ none) := fun hf => hf.2 h.backend
  have h₁ : Answered cr { s with mask := ⟨true, false⟩ } := h.of_eq rfl rfl rfl rfl rfl
  rw [cgiEvent, handleEvent, handleWrite, if_neg hnofile]
  have hflush := @Answered.flush env cfg os _ cr h₁
  exact ⟨⟨hflush.orderly, hflush.room⟩, hflush.survives, hflush.carried,
    ⟨hflush.inTime.late, hflush.inTime.kept⟩⟩

theorem Answered.follows_event (h : Answered cr s) (ev : Event) :
    Follows cfg os s (cgiEvent env cfg os ev s) := by
  cases ev with
  | read res => exact h.read res
  | write => exact h.write
  | error | timeout => exact h.followsDelete h rfl rfl
  | module k =>
      cases k with
      | succ k => exact h.self
      | zero =>
          have hclosed : ∀ c ∈ s.mods.live, c.isOpen = false := by
            intro c hc
            rw [h.live, List.mem_singleton] at hc
            rw [hc]
            exact h.closed
          rw [cgiEvent_unheard hclosed]
          have h' : Answered cr { s with mods := { s.mods with calls := s.mods.calls + 1 } } :=
            ⟨h.live, h.stored, h.done, h.closed, h.state, h.backend, h.gone⟩
          exact h.follows h' rfl (answers_self h'.state_ne.1)

/-! ## Any event -/

theorem Vacant.follows_event (h : Vacant [] s.mods.made s) (ev : Event) :
    Follows cfg os s (cgiEvent env cfg os ev s) := by
  have hsettles : Settles [] cfg os s.mods.made (cgiEvent env cfg os ev s) :=
    cgiEvent_vacant (fun _ hc => by cases hc) ev h
  refine ⟨hsettles.tidy, ⟨fun c hc _ => ?_, hsettles.made⟩, hsettles.carried,
    ⟨fun hne => absurd h.idle.none_stored hne, fun _ hne => absurd h.idle.none_stored hne⟩⟩
  rw [h.idle.none_left] at hc
  cases hc

theorem vacant_init : Vacant [] 0 (St.init CgiVars.init) where
  idle := ⟨List.nil_sublist [], fun _ hid => (by cases hid), rfl⟩
  backend _ := rfl
  gone hf := by cases hf

theorem orderly_init : Orderly (St.init CgiVars.init) := .vacant vacant_init

theorem Orderly.follows_event (h : Orderly s) (ev : Event)
    (ho : overtakes env os ev s = false) : Follows cfg os s (cgiEvent env cfg os ev s) := by
  cases h with
  | vacant h => exact h.follows_event ev
  | running h => exact h.follows_event ev ho
  | answered h => exact h.follows_event ev

/-! ## Queues that are emptied -/

/-- The flush may destroy the request that is running. -/
theorem Running.tidy_write (h : Running [] cr s) :
    Tidy cfg os s (cgiEvent env cfg os .write s) := by
  have hstays : ∀ s', Running [] cr s' → Tidy cfg os s s' := fun s' h' =>
    ⟨.running h', Or.inl (by rw [h.only, h'.only])⟩
  have hnofile : ¬(s.state = .sendData ∧ s.responseBackend ≠ none) := fun hf => hf.2 h.backend
  rw [cgiEvent, handleEvent, handleWrite, if_neg hnofile, flushWriteBuf]
  rcases flushSend_cases env { s with mask := ⟨true, false⟩ } with
    ⟨k, hk, heq⟩ | heq | ⟨sends, heq⟩
  · simp only [heq, if_neg (advanced_sendq_ne hk), Bool.true_eq_false, if_false]
    exact hstays _ (h.of_eq rfl rfl rfl rfl)
  · simp only [heq, if_true]
    have h₁ : Running [] cr { s with mask := ⟨true, false⟩, sends := s.sends + 1 } :=
      h.of_eq rfl rfl rfl rfl
    exact hstays _ h₁.delete
  · obtain ⟨t, ht⟩ : ∃ t, t = Hottpd.drained ⟨true, false⟩ sends (onFlushed s.mods)
        { s with mask := ⟨true, false⟩ } := ⟨_, rfl⟩
    have hidle : t.mods.Idle [] s.mods.made := by
      rw [ht]
      exact onFlushed_idle h.only h.stored
    have hvacant : Vacant [] s.mods.made t := by
      rw [ht]
      exact ⟨onFlushed_idle h.only h.stored, fun _ => h.backend, h.gone⟩
    have hempty : (Hottpd.drained ⟨true, false⟩ sends s.mods
        { s with mask := ⟨true, false⟩ }).sendq = [] := rfl
    have hmods : onBufferFlushed (onlyCgi env cfg os) (Hottpd.drained ⟨true, false⟩ sends s.mods
        { s with mask := ⟨true, false⟩ }) = t := by
      rw [ht]
      rfl
    simp only [heq, hempty, if_true, Bool.true_eq_false, if_false, hmods]
    split
    · exact (endRequest_settles recheck_settles hidle).tidy
    · split
      · next hfile =>
          rw [ht] at hfile
          exact absurd h.backend hfile.2
      · exact Settles.tidy (Or.inl hvacant)

/-- A queue that is emptied destroys what is running, and leaves the connection in order. -/
theorem Orderly.tidy_event (h : Orderly s) (ev : Event) (hc : crowds os ev s = false) :
    Tidy cfg os s (cgiEvent env cfg os ev s) := by
  rw [crowds, Bool.or_eq_false_iff] at hc
  have htidy : empties env ev s = false → Tidy cfg os s (cgiEvent env cfg os ev s) := by
    intro hempties
    have ho : overtakes env os ev s = false := by
      rw [overtakes, hc.1, hc.2, hempties]
      rfl
    exact (h.follows_event ev ho).toTidy
  cases h with
  | running hrun =>
      cases ev with
      | write => exact hrun.tidy_write
      | read _ | error | timeout | module _ => exact htidy rfl
  | vacant hvacant => exact (hvacant.follows_event ev).toTidy
  | answered hanswered => exact (hanswered.follows_event ev).toTidy

end Hottpd
