import Hottpd.Proofs.Refine
import Hottpd.Core.World
import Hottpd.Lib.Trace

/-!
# How a request reaches `ServeData`

There are two ways. A request without a body goes through `HandleURI` and
then through the hooks, in that order and once. A request with a body is
served from `AddBuffer` as soon as the body is complete, and goes through
neither: its target is handed to the file system as the client wrote it.
-/

namespace Hottpd

open Bytes HTTPHeaders Trace

variable {σ : Type} {env : Env} {mods : List (Module σ)}

/-- The target and the verdict of the last header block taken. -/
def lastAskedStep (last : Option (Bytes × Verdict)) : Ev → Option (Bytes × Verdict)
  | .parsed _ target _ verdict => some (target, verdict)
  | _ => last

def lastAsked (trace : List Ev) : Option (Bytes × Verdict) :=
  trace.foldl lastAskedStep none

theorem lastAsked_append (l evs : List Ev) :
    lastAsked (l ++ evs) = evs.foldl lastAskedStep (lastAsked l) := List.foldl_append

/-- The trace ends with a header block, `HandleURI` and a round of hooks about
`uri` none of which took the request. -/
def Announced (mods : List (Module σ)) (uri : Bytes) (past : List Ev) : Prop :=
  ∃ pre block target keepalive hooks res,
    past = pre ++ .parsed block target keepalive .dispatch :: .cleaned :: hooks ∧
      HookRun (fileOf uri) 0 mods hooks res ∧ res ≠ 1

/-- Where a served request comes from. -/
def Origin (mods : List (Module σ)) (past : List Ev) : Ev → Prop
  | .served _ _ uri _ _ =>
      (∃ target uriquery, lastAsked past = some (target, .dispatch) ∧
        uri = (handleURI target uriquery).1 ∧ Announced mods uri past) ∨
      lastAsked past = some (uri, .body)
  | _ => True

/-- Events of the answering half: nothing is asked, served or opened. -/
@[simp] def Ev.isOutput : Ev → Bool
  | .parsed .. | .cleaned | .hook .. | .served .. | .opened .. => false
  | _ => true

theorem lastAskedStep_output {e : Ev} (h : e.isOutput) (last : Option (Bytes × Verdict)) :
    lastAskedStep last e = last := by
  cases e <;> first | rfl | cases h

theorem HookRun.lastAsked {file : Bytes} {k : Nat} {ms : List (Module σ)} {evs : List Ev} {res : Int}
    (h : HookRun file k ms evs res) (last : Option (Bytes × Verdict)) :
    evs.foldl lastAskedStep last = last :=
  foldl_quiet fun e he => by
    obtain ⟨k, r, rfl⟩ := h.mem_hook e he
    rfl

theorem Announced.lastAsked {past : List Ev} {uri : Bytes} (h : Announced mods uri past) :
    ∃ target, lastAsked past = some (target, .dispatch) := by
  obtain ⟨pre, block, target, keepalive, hooks, res, rfl, hrun, -⟩ := h
  refine ⟨target, ?_⟩
  rw [lastAsked_append]
  exact hrun.lastAsked _

/-! ## The answering half -/

/-- From the trace `l` on the connection has only answered, and it is not
waiting for a body. -/
structure Answers (l : List Ev) (s : St σ) : Prop where
  trace : ∃ evs, s.trace = l ++ evs ∧ ∀ e ∈ evs, e.isOutput
  state : s.state ≠ .recvReqbody

theorem Answers.trans {l : List Ev} {s s' : St σ} (h : Answers l s)
    (h' : Answers s.trace s') : Answers l s' := by
  obtain ⟨evs, heq, hevs⟩ := h.trace
  obtain ⟨evs', heq', hevs'⟩ := h'.trace
  refine ⟨⟨evs ++ evs', by rw [heq', heq, List.append_assoc], fun e he => ?_⟩, h'.state⟩
  exact (List.mem_append.1 he).elim (hevs e) (hevs' e)

theorem Answers.of_append {l evs : List Ev} {s : St σ} (h : Answers (l ++ evs) s)
    (hevs : ∀ e ∈ evs, e.isOutput) : Answers l s := by
  obtain ⟨evs', heq, hevs'⟩ := h.trace
  refine ⟨⟨evs ++ evs', by rw [heq, List.append_assoc], fun e he => ?_⟩, h.state⟩
  exact (List.mem_append.1 he).elim (hevs e) (hevs' e)

section Pieces

variable {l : List Ev} {s : St σ}

theorem answers_delete (hl : s.trace = l) : Answers l (delete s) := by
  rw [delete_eq, ← hl]
  exact ⟨⟨_, rfl, by simp⟩, by simp⟩

theorem answers_endStep (hl : s.trace = l) : Answers l (endStep s) := by
  refine ⟨⟨_, hl ▸ endStep_trace_eq s, ?_⟩, ?_⟩
  · cases hk : s.keepalive <;> simp [endEvents, hk]
  · cases hk : s.keepalive with
    | false => rw [endStep_of_close hk]; simp
    | true => rw [endStep_of_keepalive hk]; simp

variable (env) in
theorem answers_writeHeaders (size code : Nat) (text : Bytes) {rheaders : HTTPHeaders}
    (hconn : getHeader rheaders (str "Connection") = []) (hl : s.trace = l) :
    Answers l (writeHeaders env size code text rheaders s) := by
  rw [writeHeaders_eq _ _ _ _ hconn, ← hl]
  exact ⟨⟨_, rfl, by simp [headEvents]⟩, by simp⟩

variable (env) in
theorem answers_queueError (code : Nat) (text : Bytes) (fatal : Bool) (hl : s.trace = l) :
    Answers l (queueError env code text fatal s) := by
  rw [queueError_eq, ← hl]
  refine ⟨⟨_, rfl, ?_⟩, by simp⟩
  cases fatal <;> simp [errorEvents, headEvents]

theorem flushEvents_output (s : St σ) : ∀ e ∈ flushEvents s, e.isOutput := by
  unfold flushEvents
  split <;> simp

theorem Answers.drained {mask : EpollMask} {sends : Nat} {m : σ} (h : Answers l s) :
    Answers l (drained mask sends m s) :=
  h.trans ⟨⟨_, rfl, flushEvents_output s⟩, h.state⟩

theorem answers_self (hs : s.state ≠ .recvReqbody) : Answers s.trace s :=
  ⟨⟨[], by simp, by simp⟩, hs⟩

theorem Answers.sendData (h : Answers l s) : Answers l (s.setState .sendData) :=
  h.trans ⟨⟨_, rfl, by simp⟩, by simp [St.setState, St.log]⟩

theorem Answers.advanced {n : Nat} (h : Answers l s) : Answers l (advanced n s) :=
  h.trans ⟨⟨_, rfl, by simp⟩, h.state⟩

theorem Answers.dropKeepalive (h : Answers l s) : Answers l (dropKeepalive s) :=
  h.trans ⟨⟨_, rfl, by simp⟩, h.state⟩

end Pieces

theorem Page.answers {s s' : St σ} {code : Nat} {text : Bytes} {fatal : Bool}
    (h : Page env code text fatal s s') : Answers s.trace s' := by
  have hpage := answers_queueError env code text fatal (s := s) rfl
  cases h with
  | queued => exact hpage
  | held => exact hpage.advanced.dropKeepalive
  | failed =>
      refine Answers.dropKeepalive (hpage.trans ?_)
      exact answers_delete rfl
  | sent => exact hpage.drained.trans (answers_endStep rfl)

theorem FileOut.answers {s s' : St σ} (h : FileOut env s s') (hs : s.state ≠ .recvReqbody) :
    Answers s.trace s' := by
  cases h with
  | lost => exact (answers_delete (s := s) rfl).trans (answers_delete rfl)
  | failed => exact answers_delete rfl
  | piece => exact ⟨⟨[], by simp [wantWrite], by simp⟩, hs⟩
  | done => exact answers_endStep rfl

/-- `ServeData` begins with its own events, and the answer follows. -/
theorem Serve.answers {s s' : St σ} (h : Serve env s s') :
    Answers (s.trace ++ serveEvents env s) s' := by
  cases h with
  | page hres hpage =>
      have hnone := resolved_of_error hres
      obtain ⟨upath, filefd, calls, -, rfl⟩ := resolveFile_error hres
      rw [serveEvents, hnone]
      exact hpage.answers
  | file hres =>
      obtain ⟨path, calls, hsome, rfl⟩ := resolved_of_ok hres
      rw [serveEvents, hsome]
      exact answers_writeHeaders env _ _ _ core_no_connection.1 rfl
  | empty hres =>
      obtain ⟨path, calls, hsome, rfl⟩ := resolved_of_ok hres
      rw [serveEvents, hsome]
      have hhead := answers_writeHeaders env 0 200 (str "OK") core_no_connection.1
        (s := openedFile path 0 calls s) rfl
      exact hhead.trans (answers_endStep rfl)

/-! ## All moves -/

/-- Every served request has come one of the two ways, and a connection that
waits for a body has last taken the header block it belongs to. -/
structure Traced (mods : List (Module σ)) (s : St σ) : Prop where
  origin : AtEach (Origin mods) s.trace
  body : s.state = .recvReqbody → lastAsked s.trace = some (s.uri, .body)

theorem origin_output {past l : List Ev} (h : ∀ e ∈ l, e.isOutput) :
    AtEachFrom (Origin mods) past l :=
  atEachFrom_of_forall fun e he _ => by
    have hout := h e he
    cases e <;> first | exact trivial | cases hout

theorem Traced.answers {s s' : St σ} (h : Traced mods s) (ha : Answers s.trace s') :
    Traced mods s' := by
  obtain ⟨evs, heq, hevs⟩ := ha.trace
  exact ⟨heq ▸ h.origin.append (origin_output hevs), fun hs => absurd hs ha.state⟩

/-- Output that leaves the request alone. -/
theorem Traced.output {s s' : St σ} {l : List Ev} (h : Traced mods s)
    (htrace : s'.trace = s.trace ++ l) (hl : ∀ e ∈ l, e.isOutput)
    (hs : s'.state = s.state) (huri : s'.uri = s.uri) : Traced mods s' := by
  refine ⟨htrace ▸ h.origin.append (origin_output hl), fun hrecv => ?_⟩
  rw [htrace, lastAsked_append, huri,
    foldl_quiet fun e he => lastAskedStep_output (hl e he) _]
  exact h.body (hs ▸ hrecv)

theorem Serve.traced {s s' : St σ} (h : Serve env s s') (ht : AtEach (Origin mods) s.trace)
    (horigin : Origin mods s.trace (.served s.calls s.method s.uri s.headers s.requestBody)) :
    Traced mods s' := by
  obtain ⟨evs, heq, hevs⟩ := h.answers.trace
  refine ⟨?_, fun hs => absurd hs h.answers.state⟩
  rw [heq]
  refine AtEach.append (ht.append ⟨horigin, ?_⟩) (origin_output hevs)
  exact atEachFrom_of_forall fun e he _ => by
    obtain ⟨file, -, rfl⟩ := List.mem_map.1 he
    trivial

theorem origin_taken {s : St σ} (reqend : Nat) (h : AtEach (Origin mods) s.trace) :
    AtEach (Origin mods) (takenRequest env reqend s).trace := by
  refine h.append ?_
  exact ⟨trivial, trivial⟩

theorem lastAsked_taken (s : St σ) (reqend : Nat) :
    lastAsked (takenRequest env reqend s).trace
      = some ((takenRequest env reqend s).uri,
        (takeRequest env.cfg reqend s.toConnection).2) := by
  simp [takenRequest, lastAsked_append, lastAskedStep, St.log]

/-- Behind the hooks of a request without a body. -/
theorem origin_hooked {s : St σ} {m : σ} {evs : List Ev} {res : Int} {reqend : Nat}
    (hv : (takeRequest env.cfg reqend s.toConnection).2 = .dispatch)
    (hrun : HookRun (askedFile env reqend s) 0 mods evs res)
    (h : AtEach (Origin mods) s.trace) :
    AtEach (Origin mods) (hooked m evs (cleaned (takenRequest env reqend s))).trace ∧
      (res ≠ 1 → ∀ now method headers body,
        Origin mods (hooked m evs (cleaned (takenRequest env reqend s))).trace
          (.served now method (hooked m evs (cleaned (takenRequest env reqend s))).uri
            headers body)) := by
  obtain ⟨_, target, uri, _, _, keepalive, _, _, -, huri, heq⟩ := hooked_eq env m evs reqend s
  have hfile : askedFile env reqend s = fileOf uri := by
    show fileOf (hooked m evs (cleaned (takenRequest env reqend s))).uri = fileOf uri
    rw [heq]
  rw [heq, hv]
  rw [hfile] at hrun
  refine ⟨h.append ⟨trivial, trivial, atEachFrom_of_forall fun e he _ => ?_⟩,
    fun hres _ _ _ _ => Or.inl ⟨target, s.uriquery, ?_, huri, ?_⟩⟩
  · obtain ⟨k, r, rfl⟩ := hrun.mem_hook e he
    trivial
  · rw [lastAsked_append]
    exact hrun.lastAsked _
  · exact ⟨_, _, target, keepalive, evs, res, rfl, hrun, hres⟩

theorem Move.traced {s s' : St σ} (h : Move env mods true s s') (ht : Traced mods s) :
    Traced mods s' := by
  cases h with
  | receive | modBufferDone | modState => exact ⟨ht.origin, ht.body⟩
  | receiveBody =>
      obtain ⟨body, buf, heq⟩ := takeBody_eq _ s
      rw [heq]
      exact ⟨ht.origin, ht.body⟩
  | refuse _ _ _ hpage =>
      obtain ⟨evs, heq, hevs⟩ := hpage.answers.trace
      refine ⟨?_, fun hs => absurd hs hpage.answers.state⟩
      rw [heq]
      exact (origin_taken _ ht.origin).append (origin_output hevs)
  | @accept reqend _ _ hv =>
      refine ⟨(origin_taken reqend ht.origin).append ⟨trivial, trivial⟩, fun _ => ?_⟩
      rw [trace_setState, lastAsked_append, lastAsked_taken, hv]
      rfl
  | claim hs _ hv hrun =>
      refine ⟨(origin_hooked hv hrun ht.origin).1, fun hrecv => ?_⟩
      obtain ⟨_, _, _, _, _, _, _, _, -, -, heq⟩ := hooked_eq env _ _ _ s
      rw [heq] at hrecv
      exact absurd (hs.symm.trans hrecv) (by decide)
  | notImplemented _ _ hv hrun _ hs₁ _ hpage =>
      subst hs₁
      obtain ⟨evs, heq, hevs⟩ := hpage.answers.trace
      refine ⟨?_, fun hs => absurd hs hpage.answers.state⟩
      rw [heq]
      exact (origin_hooked hv hrun ht.origin).1.append (origin_output hevs)
  | serve _ _ hv hrun hres hs₁ _ hserve =>
      subst hs₁
      exact hserve.traced (origin_hooked hv hrun ht.origin).1
        ((origin_hooked hv hrun ht.origin).2 hres _ _ _ _)
  | serveBody hs _ hserve => exact hserve.traced ht.origin (Or.inr (ht.body hs))
  | advance => exact ht.output (trace_advanced _ s) (by simp) rfl rfl
  | flushed => exact ht.output rfl (flushEvents_output s) rfl rfl
  | sendFailed => exact ht.answers (answers_delete rfl)
  | pageDone _ hs =>
      exact ht.answers ((answers_self (by simp [hs])).drained.trans (answers_endStep rfl))
  | fileStart _ hs _ hfile =>
      exact ht.answers ((answers_self (by simp [hs])).drained.sendData.trans
        (hfile.answers (by simp [St.setState, St.log])))
  | filePart _ hs _ hfile => exact ht.answers (hfile.answers (by simp [hs]))
  | dropKeepalive => exact ht.output (trace_dropKeepalive s) (by simp) rfl rfl
  | drop => exact ht.answers (answers_delete rfl)
  | modError _ hpage => exact ht.answers hpage.answers
  | modHeaders => exact ht.answers (answers_writeHeaders env _ _ _ core_no_connection.1 rfl)
  | modEmpty =>
      exact ht.answers ((answers_writeHeaders env _ _ _ core_no_connection.1 rfl).trans
        (answers_endStep rfl))
  | modSendData =>
      exact ht.answers ⟨⟨[.state .sendData], rfl, by simp⟩, by
        simp [St.setState, St.log]⟩
  | modWrite =>
      rw [write_eq]
      exact ht.output (l := [.append _]) rfl (by simp) rfl rfl

theorem run_traced (m : σ) (evs : List Event) : Traced mods (run env mods m evs) :=
  run_invariant m evs ⟨atEach_nil, fun h => by simp [St.init, Connection.new] at h⟩ Move.traced

/-! ## Containment -/

/-- A path that stays below the document root. -/
def Ev.servesSafe : Ev → Bool
  | .served _ _ uri _ _ => SafePath uri
  | _ => true

/-- A served request asked for something `ServeData` can be given: without a
body `HandleURI` makes the rest of it, with one the target has to be clean as
it came. -/
def AsksSafe (past : List Ev) : Ev → Prop
  | .served .. =>
      match lastAsked past with
      | some (target, .dispatch) => target.head? = some slash
      | some (target, .body) => SafePath target
      | _ => True
  | _ => True

theorem handleURI_safe_iff {uri uriquery : Bytes} :
    SafePath (handleURI uri uriquery).1 ↔ uri.head? = some slash := by
  refine ⟨fun h => ?_, handleURI_safe⟩
  by_contra hraw
  rw [handleURI_raw hraw] at h
  exact hraw h.1

theorem Origin.safe_iff {past : List Ev} {e : Ev} (h : Origin mods past e) :
    e.servesSafe ↔ AsksSafe past e := by
  cases e with
  | served now method uri headers body =>
      rcases h with ⟨target, uriquery, hlast, rfl, -⟩ | hlast
      · simp [AsksSafe, Ev.servesSafe, hlast, handleURI_safe_iff]
      · simp [AsksSafe, Ev.servesSafe, hlast]
  | _ => simp [AsksSafe, Ev.servesSafe]

/-- `ServeData` is only given contained paths, in exactly those runs in which
every request it serves begins with a slash if it has no body, and is
contained as the client wrote it if it has one. -/
theorem served_safe_iff (m : σ) (evs : List Event) :
    (∀ e ∈ (run env mods m evs).trace, e.servesSafe) ↔
      AtEach AsksSafe (run env mods m evs).trace :=
  atEach_const.symm.trans ((run_traced m evs).origin.iff_of_imp fun _ _ h => h.safe_iff)

/-- A body is enough to leave the document root. -/
theorem body_escapes_docRoot :
    ∃ e ∈ (plainRun (smallWorld [str "/www/.."] (str "secret") eager)
      ["POST /../passwd HTTP/1.1\r\nContent-Length: 1\r\n\r\n", "x"]).trace,
      ¬ e.servesSafe := by
  decide +kernel

/-! ## Order -/

/-- A served request has gone through `HandleURI` and one round of hooks that
left it to the core, immediately before and behind its own header block. -/
def Heard (mods : List (Module σ)) (past : List Ev) : Ev → Prop
  | .served _ _ uri _ _ => Announced mods uri past
  | _ => True

/-- A served request has no body. -/
def Bodyless (past : List Ev) : Ev → Prop
  | .served .. => ∀ target, lastAsked past ≠ some (target, .body)
  | _ => True

theorem Origin.heard_iff {past : List Ev} {e : Ev} (h : Origin mods past e) :
    Heard mods past e ↔ Bodyless past e := by
  cases e with
  | served =>
      rcases h with ⟨target, uriquery, hlast, -, hann⟩ | hlast
      · exact iff_of_true hann fun _ hbody => by rw [hlast] at hbody; cases hbody
      · refine iff_of_false (fun hann => ?_) fun hb => hb _ hlast
        obtain ⟨target, hdispatch⟩ := Announced.lastAsked hann
        rw [hlast] at hdispatch
        cases hdispatch
  | _ => exact Iff.rfl

/-- Every request is heard by the modules before it is served, in exactly
those runs in which no request with a body is served. -/
theorem served_heard_iff (m : σ) (evs : List Event) :
    AtEach (Heard mods) (run env mods m evs).trace ↔
      AtEach Bodyless (run env mods m evs).trace :=
  (run_traced m evs).origin.iff_of_imp fun _ _ h => h.heard_iff

/-- The last thing before a served request was `HandleURI` or a hook. -/
def HeardLast (past : List Ev) : Ev → Bool
  | .served .. => past.getLast?.any fun e => !e.isOutput
  | _ => true

theorem Heard.last {past : List Ev} {e : Ev} (h : Heard mods past e) : HeardLast past e := by
  cases e with
  | served =>
      obtain ⟨pre, block, target, keepalive, hooks, res, rfl, hrun, -⟩ := h
      cases hooks using List.reverseRecOn with
      | nil => simp [HeardLast]
      | append_singleton hooks e =>
          obtain ⟨k, r, rfl⟩ := hrun.mem_hook e (by simp)
          have happ : pre ++ .parsed block target keepalive .dispatch
              :: .cleaned :: (hooks ++ [.hook k r])
              = (pre ++ .parsed block target keepalive .dispatch :: .cleaned :: hooks)
                ++ [.hook k r] := by simp
          rw [happ, HeardLast, List.getLast?_concat]
          rfl
  | _ => rfl

set_option maxRecDepth 4000 in
/-- A module that takes everything does not get to see a body. -/
theorem body_unheard :
    ¬ AtEach (Heard [takesAll]) (run (smallWorld [] (str "x") eager) [takesAll] ()
      (chunks ["POST / HTTP/1.1\r\nContent-Length: 1\r\n\r\n", "x"])).trace := by
  intro h
  have hlast := h.mono fun past e => Heard.last
  revert hlast
  decide +kernel

end Hottpd
