import Hottpd.Proofs.Refine
import Hottpd.Lib.Trace

/-!
# Request, response, end

On a server without modules a connection goes round in a circle: a header
block is taken, the header block of its response is queued, the request is
ended and counted. The phase of the circle is read off the trace, and the
state of the connection says which phase it is in.
-/

namespace Hottpd

open Bytes HTTPHeaders

variable {σ : Type} {env : Env}

inductive Phase where
  | idle
  | asked
  | answering
deriving DecidableEq

/-- `none` once something came out of turn. -/
def phaseStep : Option Phase → Ev → Option Phase
  | some .idle, .parsed .. => some .asked
  | some .asked, .head .. => some .answering
  | some .answering, .ended .. => some .idle
  | _, .parsed .. | _, .head .. | _, .ended .. => none
  | phase, _ => phase

def phase (trace : List Ev) : Option Phase := trace.foldl phaseStep (some .idle)

/-- Header blocks, responses and ends come one of each in turn. -/
def InTurn (trace : List Ev) : Prop := phase trace ≠ none

def Ev.isEnded : Ev → Bool
  | .ended .. => true
  | _ => false

/-- Events between the turns. -/
def Ev.isIdle : Ev → Bool
  | .parsed .. | .head .. | .ended .. => false
  | _ => true

theorem phase_append (l evs : List Ev) :
    phase (l ++ evs) = evs.foldl phaseStep (phase l) := List.foldl_append

theorem foldl_phaseStep_idle {p : Option Phase} {evs : List Ev}
    (h : ∀ e ∈ evs, e.isIdle) : evs.foldl phaseStep p = p := by
  refine Trace.foldl_quiet fun e he => ?_
  have hidle := h e he
  rcases p with _ | _ | _ | _ <;> cases e <;> first | rfl | cases hidle

theorem countP_idle {evs : List Ev} (h : ∀ e ∈ evs, e.isIdle) :
    evs.countP Ev.isEnded = 0 := by
  refine List.countP_eq_zero.2 fun e he hend => ?_
  have hidle := h e he
  cases e <;> first | cases hidle; done | cases hend

/-- The phase that goes with a state. -/
def turnOf : HttpState → Phase
  | .waitRequest | .finished => .idle
  | .recvReqbody => .asked
  | .sendHeaders | .sendData => .answering

structure Turn (s : St σ) : Prop where
  inTurn : InTurn s.trace
  expected : s.state ≠ .finished → phase s.trace = some (turnOf s.state)
  counted : s.requestsCompleted = s.trace.countP Ev.isEnded

/-- A request is waiting for its answer. -/
structure Due (s : St σ) : Prop where
  asked : phase s.trace = some .asked
  counted : s.requestsCompleted = s.trace.countP Ev.isEnded

theorem Turn.idle {s s' : St σ} {l : List Ev} (h : Turn s) (htrace : s'.trace = s.trace ++ l)
    (hl : ∀ e ∈ l, e.isIdle) (hcount : s'.requestsCompleted = s.requestsCompleted)
    (hs : s'.state ≠ .finished → s.state ≠ .finished ∧ turnOf s'.state = turnOf s.state) :
    Turn s' := by
  have hp : phase s'.trace = phase s.trace := by
    rw [htrace, phase_append, foldl_phaseStep_idle hl]
  refine ⟨by rw [InTurn, hp]; exact h.inTurn, fun hne => ?_, ?_⟩
  · rw [hp, (hs hne).2]
    exact h.expected (hs hne).1
  · rw [hcount, htrace, List.countP_append, countP_idle hl]
    exact h.counted

theorem Due.idle {s s' : St σ} {l : List Ev} (h : Due s) (htrace : s'.trace = s.trace ++ l)
    (hl : ∀ e ∈ l, e.isIdle) (hcount : s'.requestsCompleted = s.requestsCompleted) :
    Due s' := by
  constructor
  · rw [htrace, phase_append, foldl_phaseStep_idle hl]
    exact h.asked
  · rw [hcount, htrace, List.countP_append, countP_idle hl]
    exact h.counted

theorem turn_delete {s : St σ} (h : Turn s) : Turn (delete s) := by
  rw [delete_eq]
  exact h.idle rfl (by simp [Ev.isIdle]) rfl fun hs => absurd rfl hs

theorem turn_writeHeaders {size code : Nat} {text : Bytes} {rheaders : HTTPHeaders}
    {s : St σ} (hconn : getHeader rheaders (str "Connection") = []) (h : Due s) :
    Turn (writeHeaders env size code text rheaders s) := by
  have hp : phase (s.trace ++ headEvents env size code text rheaders s)
      = some .answering := by
    rw [phase_append, h.asked]
    rfl
  rw [writeHeaders_eq _ _ _ _ hconn]
  refine ⟨by rw [InTurn, hp]; simp, fun _ => hp, ?_⟩
  simp [List.countP_append, headEvents, Ev.isEnded, h.counted]

variable (env) in
theorem turn_queueError (code : Nat) (text : Bytes) (fatal : Bool) {s : St σ} (h : Due s) :
    Turn (queueError env code text fatal s) := by
  have hp : phase (s.trace ++ errorEvents env code text fatal s) = some .answering := by
    rw [phase_append, h.asked]
    cases fatal <;> rfl
  rw [queueError_eq]
  refine ⟨by rw [InTurn, hp]; simp, fun _ => hp, ?_⟩
  cases fatal <;> simp [List.countP_append, errorEvents, headEvents, Ev.isEnded, h.counted]

theorem turn_endStep {s : St σ} (h : Turn s) (hs : turnOf s.state = .answering) :
    Turn (endStep s) := by
  have hne : s.state ≠ .finished := fun hf => by rw [hf] at hs; cases hs
  have hp : phase (endStep s).trace = some .idle := by
    rw [endStep_trace_eq, phase_append, h.expected hne, hs]
    cases hk : s.keepalive <;> simp [endEvents, hk, phaseStep]
  refine ⟨by rw [InTurn, hp]; simp, fun _ => ?_, ?_⟩
  · rw [hp]
    cases hk : s.keepalive with
    | false => rw [endStep_of_close hk]; rfl
    | true => rw [endStep_of_keepalive hk]; rfl
  · have hcount : (endStep s).requestsCompleted = s.requestsCompleted + 1 := by
      cases hk : s.keepalive with
      | false => rw [endStep_of_close hk]
      | true => rw [endStep_of_keepalive hk]
    rw [hcount, endStep_trace_eq, List.countP_append, h.counted]
    cases hk : s.keepalive <;> simp [endEvents, hk, Ev.isEnded, List.countP_cons]

theorem flushEvents_idle (s : St σ) : ∀ e ∈ flushEvents s, e.isIdle := by
  unfold flushEvents
  split <;> simp [Ev.isIdle]

theorem Turn.drained {mask : EpollMask} {sends : Nat} {m : σ} {s : St σ} (h : Turn s) :
    Turn (drained mask sends m s) :=
  h.idle rfl (flushEvents_idle s) rfl fun hs => ⟨hs, rfl⟩

theorem Turn.sendData {s : St σ} (hs : s.state = .sendHeaders) (h : Turn s) :
    Turn (s.setState .sendData) :=
  h.idle (l := [.state .sendData]) rfl (by simp [Ev.isIdle]) rfl fun _ => by
    simp [hs, St.setState, St.log, turnOf]

theorem Turn.dropKeepalive {s : St σ} (h : Turn s) : Turn (dropKeepalive s) :=
  h.idle rfl (by simp [Ev.isIdle]) rfl fun hs => ⟨hs, rfl⟩

theorem Turn.advanced {n : Nat} {s : St σ} (h : Turn s) : Turn (advanced n s) :=
  h.idle rfl (by simp [Ev.isIdle]) rfl fun hs => ⟨hs, rfl⟩

theorem Page.turn {s s' : St σ} {code : Nat} {text : Bytes} {fatal : Bool}
    (h : Page env code text fatal s s') (hd : Due s) : Turn s' := by
  have hpage := turn_queueError env code text fatal hd
  cases h with
  | queued => exact hpage
  | held => exact hpage.advanced.dropKeepalive
  | failed =>
      refine (turn_delete ?_).dropKeepalive
      exact ⟨hpage.inTurn, hpage.expected, hpage.counted⟩
  | sent => exact turn_endStep hpage.drained (by simp [drained, queueError_eq, turnOf])

theorem Serve.turn {s s' : St σ} (h : Serve env s s') (hd : Due s) : Turn s' := by
  cases h with
  | page hres hpage =>
      obtain ⟨upath, filefd, calls, -, rfl⟩ := resolveFile_error hres
      exact hpage.turn (hd.idle rfl (by simp [Ev.isIdle]) rfl)
  | file hres =>
      obtain ⟨path, fst, calls, n, -, -, rfl⟩ := resolveFile_ok hres
      exact turn_writeHeaders core_no_connection.1 (hd.idle rfl (by simp [Ev.isIdle]) rfl)
  | empty hres =>
      obtain ⟨path, fst, calls, n, -, -, rfl⟩ := resolveFile_ok hres
      refine turn_endStep (turn_writeHeaders core_no_connection.1
        (hd.idle (trace_openedFile ..) (by simp [Ev.isIdle]) rfl)) ?_
      rw [writeHeaders_eq _ _ _ _ core_no_connection.1]
      rfl

theorem FileOut.turn {s s' : St σ} (h : FileOut env s s') (hs : s.state = .sendData)
    (ht : Turn s) : Turn s' := by
  cases h with
  | lost =>
      have hd := turn_delete ht
      exact turn_delete ⟨hd.inTurn, hd.expected, hd.counted⟩
  | failed => exact turn_delete ⟨ht.inTurn, ht.expected, ht.counted⟩
  | piece => exact ⟨ht.inTurn, ht.expected, ht.counted⟩
  | done =>
      refine turn_endStep ⟨ht.inTurn, ht.expected, ht.counted⟩ ?_
      simp [filePiece, hs, turnOf]

variable (env) in
theorem due_taken (reqend : Nat) {s : St σ} (hs : s.state = .waitRequest) (h : Turn s) :
    Due (takenRequest env reqend s) := by
  obtain ⟨_, _, _, _, _, _, -, heq⟩ := takenRequest_eq env reqend s
  rw [heq]
  constructor
  · rw [phase_append, h.expected (by simp [hs]), hs]
    rfl
  · simp [List.countP_append, Ev.isEnded, h.counted]

theorem due_hooked (reqend : Nat) {s : St σ} {file : Bytes} {m : σ} {evs : List Ev} {res : Int}
    (hs : s.state = .waitRequest) (hrun : HookRun file 0 ([] : List (Module σ)) evs res)
    (h : Turn s) : Due (hooked m evs (cleaned (takenRequest env reqend s))) := by
  refine (due_taken env reqend hs h).idle (l := [.cleaned]) ?_ (by simp [Ev.isIdle]) rfl
  rw [hrun.nil_inv.1]
  simp [hooked, cleaned]

theorem Move.turn {s s' : St σ} (h : Move env [] true s s') (ht : Turn s) : Turn s' := by
  cases h with
  | receive => exact ⟨ht.inTurn, ht.expected, ht.counted⟩
  | receiveBody =>
      unfold takeBody
      dsimp only
      split <;> exact ⟨ht.inTurn, ht.expected, ht.counted⟩
  | refuse hs _ _ hpage => exact hpage.turn (due_taken env _ hs ht)
  | @accept reqend hs =>
      have hd := due_taken env reqend hs ht
      have hp : phase ((takenRequest env reqend s).setState .recvReqbody).trace
          = some .asked := by
        rw [trace_setState, phase_append, hd.asked]
        rfl
      refine ⟨by rw [InTurn, hp]; simp, fun _ => hp, hd.counted.trans ?_⟩
      simp [List.countP_append, Ev.isEnded]
  | claim _ _ _ hrun => exact absurd hrun.nil_inv.2 (by decide)
  | notImplemented hs _ _ hrun _ hs₁ _ hpage => exact hpage.turn (hs₁ ▸ due_hooked _ hs hrun ht)
  | serve hs _ _ hrun _ hs₁ _ hserve => exact hserve.turn (hs₁ ▸ due_hooked _ hs hrun ht)
  | serveBody hs _ hserve =>
      refine hserve.turn ⟨?_, ht.counted⟩
      rw [ht.expected (by simp [hs]), hs]
      rfl
  | advance => exact ht.advanced
  | sendFailed => exact turn_delete ⟨ht.inTurn, ht.expected, ht.counted⟩
  | flushed => exact ht.drained
  | pageDone _ hs => exact turn_endStep ht.drained (by simp [drained, hs, turnOf])
  | fileStart _ hs _ hfile =>
      exact hfile.turn rfl (ht.drained.sendData (by simp [drained, hs]))
  | filePart _ hs _ hfile =>
      exact hfile.turn hs ⟨ht.inTurn, ht.expected, ht.counted⟩
  | dropKeepalive => exact ht.dropKeepalive
  | drop => exact turn_delete ht
  | modError hm | modHeaders hm | modEmpty hm | modSendData hm | modWrite hm
    | modBufferDone hm | modState hm => exact absurd rfl hm

variable (env) in
theorem run_turn (m : σ) (evs : List Event) : Turn (run env [] m evs) :=
  run_invariant m evs ⟨by simp [InTurn, St.init, phase], fun _ => rfl, rfl⟩ Move.turn

end Hottpd
