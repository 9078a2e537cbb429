import Hottpd.Proofs.Refine
import Hottpd.Core.World
import Hottpd.Lib.Trace

/-!
# What the `Connection` field promises

`SendHeaders` writes into the header block what `keepalive` says at that
moment, and `EndRequest` acts on what it says later. In between nothing
changes it but the tail of a fatal `SendError`, so the promise is kept in
every run in which that tail finds no response under way. It finds one when
its own page is held up, and when a request behind it in the buffer has been
taken and is being answered.
-/

namespace Hottpd

open Bytes HTTPHeaders Trace

variable {σ : Type} {env : Env} {mods : List (Module σ)}

/-- The header blocks of the responses under way: queued, and neither ended
nor lost with the connection. -/
def openHeadsStep (heads : List HTTPHeaders) : Ev → List HTTPHeaders
  | .head _ h => heads ++ [h]
  | .ended .. | .deleted => []
  | _ => heads

def openHeads (trace : List Ev) : List HTTPHeaders := trace.foldl openHeadsStep []

theorem openHeads_append (l evs : List Ev) :
    openHeads (l ++ evs) = evs.foldl openHeadsStep (openHeads l) := List.foldl_append

/-- The end of a request does what its header block said. -/
def Truthful (past : List Ev) : Ev → Prop
  | .ended keepalive _ _ _ => ∀ h ∈ openHeads past,
      (getHeader h (str "Connection") = str "Close" ↔ keepalive = false) ∧
        (getHeader h (str "Connection") = str "Keep-Alive" ↔ keepalive = true)
  | _ => True

/-- The tail of a fatal `SendError` breaks no promise. -/
def Unpromised (past : List Ev) : Ev → Prop
  | .dropped keepalive => keepalive = true → openHeads past = []
  | _ => True

instance (past : List Ev) : (e : Ev) → Decidable (Truthful past e)
  | .ended .. => inferInstanceAs (Decidable (∀ h ∈ openHeads past, (_ ↔ _) ∧ (_ ↔ _)))
  | .parsed .. | .cleaned | .hook .. | .served .. | .opened .. | .head .. | .page ..
  | .fatal .. | .dropped .. | .flush .. | .append .. | .state .. | .deleted => isTrue trivial

instance (past : List Ev) : (e : Ev) → Decidable (Unpromised past e)
  | .dropped _ => inferInstanceAs (Decidable (_ → _))
  | .parsed .. | .cleaned | .hook .. | .served .. | .opened .. | .head .. | .page ..
  | .fatal .. | .ended .. | .flush .. | .append .. | .state .. | .deleted => isTrue trivial

/-- What the field says. -/
def promised (keepalive : Bool) : Bytes := if keepalive then str "Keep-Alive" else str "Close"

structure Promise (s : St σ) : Prop where
  kept : ∀ h ∈ openHeads s.trace, getHeader h (str "Connection") = promised s.keepalive
  idle : s.state = .waitRequest ∨ s.state = .recvReqbody → openHeads s.trace = []
  truthful : AtEach Truthful s.trace

/-- Events that neither begin nor end a response. -/
def Ev.isPlain : Ev → Prop
  | .head .. | .ended .. | .deleted => False
  | _ => True

theorem foldl_openHeadsStep_plain {heads : List HTTPHeaders} {evs : List Ev}
    (h : ∀ e ∈ evs, e.isPlain) : evs.foldl openHeadsStep heads = heads := by
  refine foldl_quiet fun e he => ?_
  have hplain := h e he
  cases e <;> first | rfl | exact hplain.elim

theorem truthful_plain {past evs : List Ev} (h : ∀ e ∈ evs, e.isPlain) :
    AtEachFrom Truthful past evs :=
  atEachFrom_of_forall fun e he _ => by
    have hplain := h e he
    cases e <;> first | exact hplain.elim | trivial

theorem Promise.plain {s s' : St σ} {l : List Ev} (h : Promise s)
    (htrace : s'.trace = s.trace ++ l) (hevs : ∀ e ∈ l, e.isPlain)
    (hk : s'.keepalive = s.keepalive ∨ openHeads s.trace = [])
    (hidle : s'.state = .waitRequest ∨ s'.state = .recvReqbody → openHeads s.trace = []) :
    Promise s' := by
  have hopen : openHeads s'.trace = openHeads s.trace := by
    rw [htrace, openHeads_append, foldl_openHeadsStep_plain hevs]
  refine ⟨fun x hx => ?_, fun hs => hopen.trans (hidle hs), ?_⟩
  · rw [hopen] at hx
    rcases hk with hk | hk
    · rw [hk]; exact h.kept x hx
    · simp [hk] at hx
  · rw [htrace]
    exact h.truthful.append (truthful_plain hevs)

theorem promise_delete {s : St σ} (h : Promise s) : Promise (delete s) := by
  rw [delete_eq]
  refine ⟨?_, by simp, h.truthful.append ?_⟩
  · simp [openHeads_append, openHeadsStep]
  · simp [Truthful]

variable (env) in
theorem promise_writeHeaders (size code : Nat) (text : Bytes) {rheaders : HTTPHeaders}
    {s : St σ} (hconn : getHeader rheaders (str "Connection") = []) (h : Promise s) :
    Promise (writeHeaders env size code text rheaders s) := by
  rw [writeHeaders_eq _ _ _ _ hconn]
  refine ⟨fun x hx => ?_, by simp, h.truthful.append ?_⟩
  · simp only [openHeads_append, headEvents, List.foldl_cons, List.foldl_nil, openHeadsStep,
      List.mem_append, List.mem_singleton] at hx
    rcases hx with hx | rfl
    · exact h.kept x hx
    · exact sentHeaders_connection size s hconn
  · simp [headEvents, Truthful]

theorem promise_queueError {code : Nat} {text : Bytes} {fatal : Bool} {s : St σ}
    (h : Promise s) : Promise (queueError env code text fatal s) := by
  have hstart : Promise { (if fatal then s.log (.fatal s.keepalive) else s) with
      responseBackend := none } := by
    cases fatal with
    | false => exact ⟨h.kept, h.idle, h.truthful⟩
    | true => exact h.plain (l := [.fatal s.keepalive]) rfl (by simp [Ev.isPlain]) (Or.inl rfl) h.idle
  have hhead := promise_writeHeaders env (errorPage text).length code text
    core_no_connection.2 hstart
  refine hhead.plain (l := [.state .sendData, .append (errorPage text),
    .page (errorPage text)]) ?_ (by simp [Ev.isPlain]) (Or.inl ?_) ?_
  · simp [queueError, write_eq, St.log, St.setState]
  · simp [queueError, write_eq, St.log, St.setState]
  · simp [queueError, write_eq, St.log, St.setState]

theorem promised_iff (keepalive : Bool) :
    (promised keepalive = str "Close" ↔ keepalive = false) ∧
      (promised keepalive = str "Keep-Alive" ↔ keepalive = true) := by
  cases keepalive <;> decide

theorem promise_endStep {s : St σ} (h : Promise s) : Promise (endStep s) := by
  have hended : ∀ q a b, Truthful s.trace (.ended s.keepalive q a b) :=
    fun _ _ _ x hx => by rw [h.kept x hx]; exact promised_iff s.keepalive
  have hopen : openHeads (endStep s).trace = [] := by
    rw [endStep_trace_eq, openHeads_append]
    cases hk : s.keepalive <;> simp [endEvents, hk, openHeadsStep]
  refine ⟨by simp [hopen], fun _ => hopen, ?_⟩
  rw [endStep_trace_eq]
  refine h.truthful.append ⟨hended _ _ _, ?_⟩
  cases s.keepalive <;> simp [Truthful]

theorem Promise.flushed {mask : EpollMask} {sends : Nat} {m : σ} {s : St σ}
    (h : Promise s) : Promise (drained mask sends m s) := by
  refine h.plain (l := flushEvents s) rfl ?_ (Or.inl rfl) h.idle
  unfold flushEvents
  split <;> simp [Ev.isPlain]

theorem Promise.setSending {s : St σ} {x : HttpState}
    (hx : x ≠ .waitRequest ∧ x ≠ .recvReqbody) (h : Promise s) : Promise (s.setState x) :=
  h.plain (l := [.state x]) rfl (by simp [Ev.isPlain]) (Or.inl rfl)
    fun hs => by simp [St.setState, St.log, hx] at hs

/-- The one step that can break a promise. -/
theorem promise_dropKeepalive {s : St σ} (h : Promise s)
    (hG : AtEach Unpromised (dropKeepalive s).trace) : Promise (dropKeepalive s) := by
  have hdrop : s.keepalive = true → openHeads s.trace = [] := (hG.append_right).1
  refine h.plain (l := [.dropped s.keepalive]) rfl (by simp [Ev.isPlain]) ?_ h.idle
  cases hk : s.keepalive with
  | false => exact Or.inl rfl
  | true => exact Or.inr (hdrop hk)

theorem Page.promise {s s' : St σ} {code : Nat} {text : Bytes} {fatal : Bool}
    (h : Page env code text fatal s s') (hG : AtEach Unpromised s'.trace)
    (hp : Promise s) : Promise s' := by
  have hpage : Promise (queueError env code text fatal s) := promise_queueError hp
  cases h with
  | queued => exact hpage
  | @held _ n _ hn =>
      refine promise_dropKeepalive ?_ hG
      refine hpage.plain (l := [.flush n _]) rfl (by simp [Ev.isPlain]) (Or.inl rfl) hpage.idle
  | failed =>
      exact promise_dropKeepalive (promise_delete ⟨hpage.kept, hpage.idle, hpage.truthful⟩) hG
  | sent => exact promise_endStep hpage.flushed

theorem Serve.promise {s s' : St σ} (h : Serve env s s') (hG : AtEach Unpromised s'.trace)
    (hp : Promise s) : Promise s' := by
  have hopened : ∀ {s₁ : St σ} {evs : List Ev}, s₁.trace = s.trace ++ evs →
      (∀ e ∈ evs, e.isPlain) → s₁.keepalive = s.keepalive → s₁.state = s.state →
      Promise s₁ := fun htrace hevs hk hs =>
    hp.plain htrace hevs (Or.inl hk) fun h => hp.idle (by rwa [hs] at h)
  cases h with
  | page hres hpage =>
      obtain ⟨upath, filefd, calls, -, rfl⟩ := resolveFile_error hres
      exact hpage.promise hG (hopened rfl (by simp [Ev.isPlain]) rfl rfl)
  | file hres =>
      obtain ⟨path, fst, calls, n, -, -, rfl⟩ := resolveFile_ok hres
      exact promise_writeHeaders env _ _ _ core_no_connection.1
        (hopened rfl (by simp [Ev.isPlain]) rfl rfl)
  | empty hres =>
      obtain ⟨path, fst, calls, n, -, -, rfl⟩ := resolveFile_ok hres
      exact promise_endStep (promise_writeHeaders env _ _ _ core_no_connection.1
        (hopened rfl (by simp [Ev.isPlain]) rfl rfl))

theorem FileOut.promise {s s' : St σ} (h : FileOut env s s') (hp : Promise s) :
    Promise s' := by
  cases h with
  | lost =>
      have hd := promise_delete hp
      exact promise_delete ⟨hd.kept, hd.idle, hd.truthful⟩
  | failed => exact promise_delete ⟨hp.kept, hp.idle, hp.truthful⟩
  | piece => exact ⟨hp.kept, hp.idle, hp.truthful⟩
  | done => exact promise_endStep ⟨hp.kept, hp.idle, hp.truthful⟩

theorem openHeads_taken {s : St σ} (reqend : Nat) :
    openHeads (takenRequest env reqend s).trace = openHeads s.trace := by
  simp [takenRequest, openHeads_append, openHeadsStep]

/-- A header block is taken when no response is under way. -/
theorem promise_taken {s : St σ} (reqend : Nat) (hs : s.state = .waitRequest)
    (h : Promise s) : Promise (takenRequest env reqend s) :=
  h.plain (l := [.parsed _ _ _ _]) rfl (by simp [Ev.isPlain]) (Or.inr (h.idle (Or.inl hs)))
    fun _ => h.idle (Or.inl hs)

theorem promise_hooked {s : St σ} {file : Bytes} {m : σ} {evs : List Ev} {res : Int} (reqend : Nat)
    (hs : s.state = .waitRequest) (hrun : HookRun file 0 mods evs res) (h : Promise s) :
    Promise (hooked m evs (cleaned (takenRequest env reqend s))) := by
  obtain ⟨_, _, _, _, _, _, _, _, -, -, heq⟩ := hooked_eq env m evs reqend s
  rw [heq]
  refine h.plain rfl ?_ (Or.inr (h.idle (Or.inl hs))) fun _ => h.idle (Or.inl hs)
  simp only [List.forall_mem_cons]
  refine ⟨trivial, trivial, fun e he => ?_⟩
  obtain ⟨k, r, rfl⟩ := hrun.mem_hook e he
  trivial

theorem Move.promise {s s' : St σ} (h : Move env mods true s s')
    (hG : AtEach Unpromised s'.trace) (hp : Promise s) : Promise s' := by
  cases h with
  | receive | modBufferDone | modState => exact ⟨hp.kept, hp.idle, hp.truthful⟩
  | receiveBody =>
      unfold takeBody
      dsimp only
      split <;> exact ⟨hp.kept, hp.idle, hp.truthful⟩
  | refuse hs _ _ hpage => exact hpage.promise hG (promise_taken _ hs hp)
  | accept hs =>
      refine (promise_taken _ hs hp).plain (l := [.state .recvReqbody]) rfl
        (by simp [Ev.isPlain]) (Or.inl rfl) fun _ => ?_
      rw [openHeads_taken, hp.idle (Or.inl hs)]
  | claim hs _ _ hrun => exact promise_hooked _ hs hrun hp
  | notImplemented hs _ _ hrun _ hs₁ _ hpage =>
      exact hpage.promise hG (hs₁ ▸ promise_hooked _ hs hrun hp)
  | serve hs _ _ hrun _ hs₁ _ hserve =>
      exact hserve.promise hG (hs₁ ▸ promise_hooked _ hs hrun hp)
  | serveBody _ _ hserve => exact hserve.promise hG hp
  | @advance n => exact hp.plain (l := [.flush n _]) rfl (by simp [Ev.isPlain]) (Or.inl rfl) hp.idle
  | flushed => exact hp.flushed
  | sendFailed => exact promise_delete ⟨hp.kept, hp.idle, hp.truthful⟩
  | pageDone => exact promise_endStep hp.flushed
  | fileStart _ _ _ hfile => exact hfile.promise (hp.flushed.setSending (by decide))
  | filePart _ _ _ hfile => exact hfile.promise ⟨hp.kept, hp.idle, hp.truthful⟩
  | dropKeepalive => exact promise_dropKeepalive hp hG
  | drop => exact promise_delete hp
  | modError _ hpage => exact hpage.promise hG hp
  | modHeaders => exact promise_writeHeaders env _ _ _ core_no_connection.1 hp
  | modEmpty => exact promise_endStep (promise_writeHeaders env _ _ _ core_no_connection.1 hp)
  | modSendData => exact hp.setSending (by decide)
  | @modWrite data =>
      rw [write_eq]
      exact hp.plain (l := [.append data]) rfl (by simp [Ev.isPlain]) (Or.inl rfl) hp.idle

/-- Every response ends as its `Connection` field says, in every run in which
no fatal error page turns `keepalive` off under a response that has promised
to keep the connection. -/
theorem connection_field_truthful (m : σ) (evs : List Event)
    (h : AtEach Unpromised (run env mods m evs).trace) :
    AtEach Truthful (run env mods m evs).trace :=
  (run_guarded (I := Promise) (fun h => h.of_append) h
    ⟨by simp [St.init, openHeads], fun _ => rfl, atEach_nil⟩ Move.promise).truthful

set_option maxRecDepth 4000 in
/-- A rejected request whose page goes out in two parts. -/
theorem rejected_keepalive_untruthful :
    ¬ AtEach Truthful (plainRun (smallWorld [] (str "x") (slowStart 10))
      ["PUT / HTTP/1.1\r\n\r\n"]).trace := by
  decide +kernel

theorem connection_field_truthful_pipelined :
    AtEach Truthful (plainRun (smallWorld [] (str "x") (slowStart 10))
      ["GET /a HTTP/1.1\r\n\r\nGET /b HTTP/1.0\r\nConnection: close\r\n\r\n"]).trace := by
  rw [plainRun]
  -- the elaborator is not to evaluate the run
  with_reducible refine connection_field_truthful () _ ?_
  decide +kernel

end Hottpd
