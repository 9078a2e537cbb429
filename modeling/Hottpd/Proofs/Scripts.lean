import Hottpd.Modules.Cgi
import Hottpd.Proofs.Served

/-!
# Scripts that are sent as they are

`m_cgi` goes by the last segment of the target, `CheckFilePath` by the first
regular file on the way. The two agree when that file is the whole target.
When it lies further up, or when the hooks are not asked at all, the core opens
a script like any other file.
-/

namespace Hottpd

open Bytes Trace

variable {σ : Type} {env : Env} {mods : List (Module σ)} {input : Bool}

/-! ## What a move adds to the trace -/

/-- Events of the asking half. -/
def Ev.isAsk : Ev → Bool
  | .parsed .. | .cleaned | .hook .. => true
  | _ => false

/-- New events: questions, at most one request that is served, output. -/
def Adds (env : Env) (s s' : St σ) : Prop :=
  ∃ ask mid out, s'.trace = s.trace ++ ask ++ mid ++ out ∧ (∀ e ∈ ask, e.isAsk) ∧
    (mid = [] ∨ ∃ t : St σ, mid = serveEvents env t) ∧ ∀ e ∈ out, e.isOutput

theorem adds_of_answers {s s' : St σ} (h : Answers s.trace s') : Adds env s s' := by
  obtain ⟨evs, heq, hevs⟩ := h.trace
  exact ⟨[], [], evs, by rw [heq, List.append_nil, List.append_nil], by simp, Or.inl rfl, hevs⟩

theorem adds_of_output {s s' : St σ} {l : List Ev} (heq : s'.trace = s.trace ++ l)
    (hl : ∀ e ∈ l, e.isOutput) : Adds env s s' :=
  ⟨[], [], l, by rw [heq, List.append_nil, List.append_nil], by simp, Or.inl rfl, hl⟩

theorem Serve.adds {s t s' : St σ} {ask : List Ev} (h : Serve env t s')
    (heq : t.trace = s.trace ++ ask) (hask : ∀ e ∈ ask, e.isAsk) : Adds env s s' := by
  obtain ⟨evs, htrace, hevs⟩ := h.answers.trace
  exact ⟨ask, _, evs, by rw [htrace, heq], hask, Or.inr ⟨t, rfl⟩, hevs⟩

theorem adds_behind {s t s' : St σ} {ask : List Ev} (h : Answers t.trace s')
    (heq : t.trace = s.trace ++ ask) (hask : ∀ e ∈ ask, e.isAsk) : Adds env s s' := by
  obtain ⟨evs, htrace, hevs⟩ := h.trace
  exact ⟨ask, [], evs, by rw [htrace, heq, List.append_nil], hask, Or.inl rfl, hevs⟩

variable (env) in
theorem asks_taken (reqend : Nat) (s : St σ) :
    ∃ ask, (takenRequest env reqend s).trace = s.trace ++ ask ∧ ∀ e ∈ ask, e.isAsk :=
  ⟨_, rfl, by simp [Ev.isAsk]⟩

theorem asks_hooked {file : Bytes} {m : σ} {evs : List Ev} {res : Int} (reqend : Nat)
    (s : St σ) (hrun : HookRun file 0 mods evs res) :
    ∃ ask, (hooked m evs (cleaned (takenRequest env reqend s))).trace = s.trace ++ ask ∧
      ∀ e ∈ ask, e.isAsk := by
  obtain ⟨_, _, _, _, _, _, _, _, -, -, heq⟩ := hooked_eq env m evs reqend s
  rw [heq]
  refine ⟨_, rfl, ?_⟩
  simp only [List.forall_mem_cons]
  refine ⟨rfl, rfl, fun e he => ?_⟩
  obtain ⟨k, r, rfl⟩ := hrun.mem_hook e he
  rfl

theorem Move.adds {s s' : St σ} (h : Move env mods input s s') : Adds env s s' := by
  cases h with
  | receive | modBufferDone | modState =>
      exact adds_of_output (List.append_nil _).symm (by simp)
  | receiveBody =>
      obtain ⟨body, buf, heq⟩ := takeBody_eq _ s
      rw [heq]
      exact adds_of_output (List.append_nil _).symm (by simp)
  | @refuse _ reqend _ _ _ _ _ _ hpage =>
      obtain ⟨ask, heq, hask⟩ := asks_taken env reqend s
      exact adds_behind hpage.answers heq hask
  | @accept reqend =>
      obtain ⟨ask, heq, hask⟩ := asks_taken env reqend s
      refine ⟨ask, [], [.state .recvReqbody], ?_, hask, Or.inl rfl, by simp⟩
      rw [trace_setState, heq, List.append_nil]
  | @claim reqend _ _ _ _ _ hrun =>
      obtain ⟨ask, heq, hask⟩ := asks_hooked reqend s hrun
      exact ⟨ask, [], [], by rw [heq, List.append_nil, List.append_nil], hask, Or.inl rfl,
        by simp⟩
  | @notImplemented _ _ reqend _ _ _ _ _ _ hrun _ hs₁ _ hpage =>
      subst hs₁
      obtain ⟨ask, heq, hask⟩ := asks_hooked reqend s hrun
      exact adds_behind hpage.answers heq hask
  | @serve _ _ reqend _ _ _ _ _ _ hrun _ hs₁ _ hserve =>
      subst hs₁
      obtain ⟨ask, heq, hask⟩ := asks_hooked reqend s hrun
      exact hserve.adds heq hask
  | serveBody _ _ hserve => exact hserve.adds (List.append_nil _).symm (by simp)
  | advance => exact adds_of_output (trace_advanced _ s) (by simp)
  | flushed => exact adds_of_output rfl (flushEvents_output s)
  | sendFailed => exact adds_of_answers (answers_delete rfl)
  | pageDone _ hs =>
      exact adds_of_answers ((answers_self (by simp [hs])).drained.trans (answers_endStep rfl))
  | fileStart _ hs _ hfile =>
      exact adds_of_answers ((answers_self (by simp [hs])).drained.sendData.trans
        (hfile.answers (by simp [St.setState, St.log])))
  | filePart _ hs _ hfile => exact adds_of_answers (hfile.answers (by simp [hs]))
  | dropKeepalive => exact adds_of_output (trace_dropKeepalive s) (by simp)
  | drop => exact adds_of_answers (answers_delete rfl)
  | modError _ hpage => exact adds_of_answers hpage.answers
  | modHeaders => exact adds_of_answers (answers_writeHeaders env _ _ _ core_no_connection.1 rfl)
  | modEmpty =>
      exact adds_of_answers ((answers_writeHeaders env _ _ _ core_no_connection.1 rfl).trans
        (answers_endStep rfl))
  | modSendData => exact adds_of_output (trace_setState s _) (by simp)
  | modWrite =>
      rw [write_eq]
      exact adds_of_output rfl (by simp)

/-! ## Scripts on the way of a target -/

/-- A script was opened to be sent. -/
def Ev.opensScript (types : CgiTypes) : Ev → Bool
  | .opened path _ _ => registered types (fileOf path)
  | _ => false

/-- The first thing on the way of `uri` that is not a directory is a script
that can be opened, `name`. -/
def ScriptAt (env : Env) (types : CgiTypes) (now : Nat) (uri name : Bytes) : Prop :=
  ∃ n st, Walks (env.os.stat now env.cfg.followSymLinks)
      (stripSlash env.cfg.docRoot ++ uri.take 1) (uri.drop 1) n ∧
    FileAt (env.os.stat now env.cfg.followSymLinks)
      (stripSlash env.cfg.docRoot ++ uri.take (1 + n)) st ∧
    name = cstr (stripSlash env.cfg.docRoot ++ uri.take (1 + n)) ∧
    env.os.openFile (now + 1) name (env.cfg.noAtime && st.uid == env.os.geteuid) = .ok () ∧
    registered types (fileOf name)

theorem resolved_iff {now : Nat} {uri name : Bytes} {size : Nat} :
    resolved env now uri = some (name, size) ↔
      ∃ path st, checkFilePath (env.os.stat now env.cfg.followSymLinks) env.cfg.docRoot uri
          = .ok (path, st) ∧
        env.os.openFile (now + 1) (cstr path)
          (env.cfg.noAtime && st.uid == env.os.geteuid) = .ok () ∧
        name = cstr path ∧ size = st.size := by
  unfold resolved
  cases hpath : checkFilePath (env.os.stat now env.cfg.followSymLinks) env.cfg.docRoot uri with
  | error e => simp
  | ok found =>
      obtain ⟨path, st⟩ := found
      cases hopen : env.os.openFile (now + 1) (cstr path)
          (env.cfg.noAtime && st.uid == env.os.geteuid) with
      | error e =>
          simp only [hopen]
          refine iff_of_false (by simp) ?_
          rintro ⟨path', st', heq, hopen', -⟩
          cases heq
          rw [hopen] at hopen'
          cases hopen'
      | ok _ =>
          simp only [hopen]
          constructor
          · intro h
            cases h
            exact ⟨path, st, rfl, hopen, rfl, rfl⟩
          · rintro ⟨path', st', heq, -, rfl, rfl⟩
            cases heq
            rfl

theorem scriptAt_iff {types : CgiTypes} {now : Nat} {uri name : Bytes} :
    ScriptAt env types now uri name ↔
      ∃ size, resolved env now uri = some (name, size) ∧ registered types (fileOf name) := by
  simp only [resolved_iff, checkFilePath_iff]
  constructor
  · rintro ⟨n, st, hwalk, hfile, rfl, hopen, hreg⟩
    exact ⟨st.size, ⟨_, st, ⟨n, hwalk, rfl, hfile⟩, hopen, rfl, rfl⟩, hreg⟩
  · rintro ⟨size, ⟨path, st, ⟨n, hwalk, rfl, hfile⟩, hopen, rfl, -⟩, hreg⟩
    exact ⟨n, st, hwalk, hfile, rfl, hopen, hreg⟩

/-! ## Past the module -/

/-- The hook of the `k`-th module was not asked about the request that is
served: it has a body, or an earlier hook ended the round. -/
def PassedBy (k : Nat) (past : List Ev) : Prop :=
  (∃ target, lastAsked past = some (target, .body)) ∨
    ∃ j r, past.getLast? = some (.hook j r) ∧ j < k

/-- A request that gets the core to open a script: the script lies further up
than the last segment, the target is not a path, or the `k`-th module, which
is `m_cgi`, was not asked. -/
def Exposed (env : Env) (types : CgiTypes) (k : Nat) (past : List Ev) : Ev → Prop
  | .served now _ uri _ _ =>
      ∃ name, ScriptAt env types now uri name ∧
        (name ≠ stripSlash env.cfg.docRoot ++ uri ∨ uri.head? ≠ some slash ∨ PassedBy k past)
  | _ => False

/-- A round that nobody took has reached every module, unless one before it
stopped it. -/
theorem HookRun.reaches {file : Bytes} {m : Module σ} {after : List (Module σ)} {res : Int}
    (hres : res ≠ 1) : ∀ {before : List (Module σ)} {k : Nat} {evs : List Ev},
    HookRun file k (before ++ m :: after) evs res →
      (∃ j r, evs.getLast? = some (.hook j r) ∧ j < k + before.length) ∨
        ∃ r, m.Answers file r ∧ r ≠ some 1 := by
  intro before
  induction before with
  | nil =>
      intro k evs h
      right
      cases h with
      | pass hr hans _ =>
          refine ⟨_, hans, ?_⟩
          rintro rfl
          rcases hr with hr | hr
          · cases hr
          · exact absurd (Option.some.inj hr) (by decide)
      | stop _ hans => exact ⟨_, hans, fun h => hres (Option.some.inj h)⟩
  | cons b before ih =>
      intro k evs h
      cases h with
      | pass _ _ rest =>
          rcases ih rest with ⟨j, r, hlast, hj⟩ | h
          · left
            refine ⟨j, r, ?_, by rw [List.length_cons]; omega⟩
            rw [List.getLast?_cons, hlast]
            rfl
          · exact Or.inr h
      | stop =>
          left
          exact ⟨k, _, rfl, by rw [List.length_cons]; omega⟩

section Cgi

variable {cfg : CgiConfig} {os : CgiOs} {slot : Slot σ CgiVars} {before after : List (Module σ)}

theorem cgi_declines {file : Bytes} {r : ModResult}
    (h : (cgi env cfg os slot).Answers file r) (hr : r ≠ some 1) :
    registered cfg.types file = false := by
  obtain ⟨m, c, method, vhost, dir, hres⟩ := h
  have hanswer : (onPreRequest env cfg os c.uri file (slot.get m)).2.res = r := hres
  rw [onPreRequest_res] at hanswer
  cases hreg : registered cfg.types file with
  | false => rfl
  | true =>
      rw [hreg, if_pos rfl] at hanswer
      exact absurd hanswer.symm hr

/-- A request that nobody took and that is served in full: if the file opened
is the whole target, `m_cgi` has looked at its extension. -/
theorem Origin.unregistered {past : List Ev} {now : Nat} {method uri body : Bytes}
    {headers : HTTPHeaders}
    (h : Origin (before ++ cgi env cfg os slot :: after) past
      (.served now method uri headers body))
    (hslash : uri.head? = some slash) (hpassed : ¬ PassedBy before.length past) :
    registered cfg.types (fileOf (stripSlash env.cfg.docRoot ++ uri)) = false := by
  have hmem : slash ∈ uri := List.mem_of_head? hslash
  rw [fileOf_append _ hmem]
  rcases h with ⟨target, uriquery, -, -, pre, block, target', keepalive, hooks, res, rfl, hrun,
    hres⟩ | hbody
  · rcases hrun.reaches hres with ⟨j, r, hlast, hj⟩ | ⟨r, hans, hr⟩
    · refine absurd (Or.inr ⟨j, r, ?_, by omega⟩) hpassed
      rw [List.getLast?_append, List.getLast?_cons, List.getLast?_cons, hlast]
      rfl
    · exact cgi_declines hans hr
  · exact absurd (Or.inl ⟨uri, hbody⟩) hpassed

/-- The script that is opened is exposed, and one that is exposed is opened. -/
theorem Origin.exposed_iff {past : List Ev} {now : Nat} {method uri body : Bytes}
    {headers : HTTPHeaders}
    (h : Origin (before ++ cgi env cfg os slot :: after) past
      (.served now method uri headers body)) :
    Exposed env cfg.types before.length past (.served now method uri headers body) ↔
      ∃ name, ScriptAt env cfg.types now uri name := by
  constructor
  · rintro ⟨name, hscript, -⟩
    exact ⟨name, hscript⟩
  · rintro ⟨name, hscript⟩
    refine ⟨name, hscript, ?_⟩
    by_contra hcovered
    simp only [not_or, not_not] at hcovered
    obtain ⟨hwhole, hslash, hpassed⟩ := hcovered
    obtain ⟨-, -, -, -, -, -, hreg⟩ := hscript
    have hnot := h.unregistered hslash hpassed
    rw [← hwhole, hreg] at hnot
    cases hnot

/-! ## All runs -/

theorem serveEvents_exposed_iff {past : List Ev} (t : St σ)
    (h : Origin (before ++ cgi env cfg os slot :: after) past
      (.served t.calls t.method t.uri t.headers t.requestBody)) :
    AtEachFrom (fun past e => ¬ Exposed env cfg.types before.length past e) past
        (serveEvents env t) ↔
      ∀ e ∈ serveEvents env t, ¬ e.opensScript cfg.types := by
  have hscript := h.exposed_iff
  simp only [scriptAt_iff] at hscript
  unfold serveEvents
  cases hres : resolved env t.calls t.uri with
  | none =>
      have hnot : ¬ Exposed env cfg.types before.length past
          (.served t.calls t.method t.uri t.headers t.requestBody) := by
        rw [hscript, hres]
        rintro ⟨name, size, hno, -⟩
        cases hno
      refine iff_of_true ⟨hnot, trivial⟩ ?_
      simp [Ev.opensScript]
  | some file =>
      obtain ⟨name, size⟩ := file
      rw [hres] at hscript
      constructor
      · rintro ⟨hnot, -⟩ e he
        rcases List.mem_cons.1 he with rfl | he
        · exact Bool.false_ne_true
        · obtain rfl : e = .opened name size t.keepalive := by simpa using he
          exact fun hreg => hnot (hscript.2 ⟨name, size, rfl, hreg⟩)
      · intro hall
        refine ⟨fun hexp => ?_, fun h => h, trivial⟩
        obtain ⟨name', size', heq, hreg⟩ := hscript.1 hexp
        cases heq
        exact hall (.opened name size t.keepalive) (by simp) hreg

/-- Events that are neither served requests nor opened files. -/
theorem exposed_iff_of_quiet {types : CgiTypes} {k : Nat} {past l : List Ev}
    (hl : ∀ e ∈ l, e.isAsk ∨ e.isOutput) :
    AtEachFrom (fun past e => ¬ Exposed env types k past e) past l ↔
      ∀ e ∈ l, ¬ e.opensScript types := by
  refine iff_of_true (atEachFrom_of_forall fun e he past => ?_) fun e he => ?_
  all_goals
    have hquiet := hl e he
    cases e <;> simp [Exposed, Ev.opensScript, Ev.isAsk] at hquiet ⊢

structure Watched (before after : List (Module σ)) (env : Env) (cfg : CgiConfig) (os : CgiOs)
    (slot : Slot σ CgiVars) (s : St σ) : Prop where
  traced : Traced (before ++ cgi env cfg os slot :: after) s
  iff : AtEach (fun past e => ¬ Exposed env cfg.types before.length past e) s.trace ↔
    ∀ e ∈ s.trace, ¬ e.opensScript cfg.types

theorem Move.watched {s s' : St σ}
    (h : Move env (before ++ cgi env cfg os slot :: after) true s s')
    (hw : Watched before after env cfg os slot s) :
    Watched before after env cfg os slot s' := by
  have ht := h.traced hw.traced
  refine ⟨ht, ?_⟩
  obtain ⟨ask, mid, out, heq, hask, hmid, hout⟩ := h.adds
  have horigin := ht.origin
  rw [heq] at horigin ⊢
  have hiff : AtEachFrom (fun past e => ¬ Exposed env cfg.types before.length past e)
      (s.trace ++ ask) mid ↔ ∀ e ∈ mid, ¬ e.opensScript cfg.types := by
    rcases hmid with rfl | ⟨t, rfl⟩
    · simp
    · have hserved := (horigin.of_append).append_right
      exact serveEvents_exposed_iff t hserved.1
  simp only [AtEach, atEachFrom_append, List.nil_append, List.forall_mem_append]
  have hold := hw.iff
  rw [AtEach] at hold
  rw [hold, hiff, exposed_iff_of_quiet fun e he => Or.inl (hask e he),
    exposed_iff_of_quiet fun e he => Or.inr (hout e he)]

/-- With `m_cgi` attached no script is opened to be sent as a file, in exactly
those runs in which no served request exposes one. -/
theorem scripts_closed_iff (m : σ) (evs : List Event) :
    (∀ e ∈ (run env (before ++ cgi env cfg os slot :: after) m evs).trace,
        ¬ e.opensScript cfg.types) ↔
      AtEach (fun past e => ¬ Exposed env cfg.types before.length past e)
        (run env (before ++ cgi env cfg os slot :: after) m evs).trace := by
  have h : Watched before after env cfg os slot
      (run env (before ++ cgi env cfg os slot :: after) m evs) :=
    run_invariant m evs
      ⟨⟨atEach_nil, fun h => by simp [St.init, Connection.new] at h⟩, by
        simp [St.init, AtEach]⟩ Move.watched
  exact h.iff.symm

end Cgi

/-- `m_cgi` with one block, as the sample configuration suggests it, and a
system that has room for processes. -/
def phpCgi (env : Env) : Module CgiVars :=
  cgi env ⟨readTypes [(str "php", str "/usr/bin/php")], 2⟩
    { stat := env.os.stat
      pipe := fun _ => (true, true)
      fork := fun _ => true
      addFd := fun _ => true
      others := fun _ => 0
      event := fun _ => (0, .write) } (Slot.whole CgiVars)

def sourceWorld : Env := smallWorld [] (str "<?php") eager

/-- The same script is run when it is asked for, and sent to whoever adds a
slash and a name to its path. -/
theorem script_source_sent :
    (run sourceWorld [phpCgi sourceWorld] .init
        [.read (.data (str "GET /a.php HTTP/1.1\r\n\r\n"))]).mods.live.length = 1 ∧
      (∃ e ∈ (run sourceWorld [phpCgi sourceWorld] .init
          (chunks ["GET /a.php/x HTTP/1.1\r\n\r\n"])).trace,
        e.opensScript (readTypes [(str "php", str "/usr/bin/php")])) ∧
      str "<?php" <:+ (run sourceWorld [phpCgi sourceWorld] .init
        (chunks ["GET /a.php/x HTTP/1.1\r\n\r\n"])).wire := by
  refine ⟨?_, List.any_eq_true.1 ?_, ?_⟩ <;> decide +kernel

end Hottpd
