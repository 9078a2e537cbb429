import Hottpd.Proofs.Pieces
import Hottpd.Lib.Transition

/-!
# What the connection code can do

The functions of `Exec.lean` nest, but the connection they leave behind is
reached by a short list of moves: take bytes in, take a header block and
answer it, drain the queue, send a piece of a file, end a request, give the
connection up. `Move` is that list, each move with what held before it.
`handleEvent_moves` is the one proof that walks the code; every statement
about runs is afterwards a case split over moves.

A move is atomic where the code is: between a header block and the answer
queued for it no other request is looked at, and a drained queue is followed
up in the same breath. The two tails that run after a nested `CheckRequest`
has returned, the one of a fatal `SendError` and the unwinding of
`AddBuffer`, are moves of their own.
-/

namespace Hottpd

open Bytes HTTPHeaders Relation

variable {σ : Type} (env : Env) (mods : List (Module σ))

/-- What a hook may return when it is asked about `file`. -/
def Module.Answers (m : Module σ) (file : Bytes) (r : ModResult) : Prop :=
  ∃ st c method vhost dir, (m.onPreRequest st c method vhost dir file).2.res = r

/-- The answers of hooks that declined to take `file`, from the `k`-th on, and
the one that ended the round if there was one. -/
inductive HookRun (file : Bytes) : Nat → List (Module σ) → List Ev → Int → Prop where
  | none {k : Nat} : HookRun file k [] [] 0
  | pass {k : Nat} {m : Module σ} {ms : List (Module σ)} {r : ModResult}
      {evs : List Ev} {res : Int} (hr : r = none ∨ r = some 0) (hans : m.Answers file r)
      (rest : HookRun file (k + 1) ms evs res) :
      HookRun file k (m :: ms) (.hook k r :: evs) res
  | stop {k : Nat} {m : Module σ} {ms : List (Module σ)} {res : Int}
      (hres : res ≠ 0) (hans : m.Answers file (some res)) :
      HookRun file k (m :: ms) [.hook k (some res)] res

variable {file : Bytes}

/-- Without modules the round of hooks is over before it begins. -/
theorem HookRun.nil_inv {k : Nat} {evs : List Ev} {res : Int}
    (h : HookRun file k ([] : List (Module σ)) evs res) : evs = [] ∧ res = 0 := by
  cases h
  exact ⟨rfl, rfl⟩

theorem HookRun.mem_hook {k : Nat} {ms : List (Module σ)} {evs : List Ev} {res : Int}
    (h : HookRun file k ms evs res) : ∀ e ∈ evs, ∃ k r, e = .hook k r := by
  induction h with
  | none => simp
  | pass _ _ _ ih =>
      intro e he
      rcases List.mem_cons.1 he with rfl | he
      · exact ⟨_, _, rfl⟩
      · exact ih e he
  | stop => simp

/-- One turn of `SendStaticData`. -/
inductive FileOut : St σ → St σ → Prop where
  | lost {s : St σ} {calls : Nat} (hfd : s.filefd = none) :
      FileOut s (delete { delete s with calls := calls })
  | failed {s : St σ} {sends calls : Nat} :
      FileOut s (delete { s with sends := sends, calls := calls })
  | piece {s : St σ} {path : Bytes} {n sends calls : Nat}
      (hfd : s.filefd = some path) (hsize : s.rfilesize ≠ 0)
      (hn : n ≤ s.rfilesize - s.rfilesent) (hmore : s.rfilesent + n ≠ s.rfilesize) :
      FileOut s (wantWrite (filePiece env path n sends calls s))
  | done {s : St σ} {path : Bytes} {n sends calls : Nat}
      (hfd : s.filefd = some path) (hsize : s.rfilesize ≠ 0)
      (hn : n ≤ s.rfilesize - s.rfilesent) (hall : s.rfilesent + n = s.rfilesize) :
      FileOut s (endStep (filePiece env path n sends calls s))

/-- `SendError`. One that is fatal and finds `keepalive` on is followed up to
the end of its flush, since only then does it turn `keepalive` off: the queue
is held up, the socket fails, or everything goes and the request ends. -/
inductive Page (code : Nat) (text : Bytes) : Bool → St σ → St σ → Prop where
  | queued {s : St σ} {fatal : Bool} (hk : fatal = true → s.keepalive = false) :
      Page code text fatal s (queueError env code text fatal s)
  | held {s : St σ} {n : Nat} (hk : s.keepalive = true)
      (hn : n < (queueError env code text true s).sendq.length) :
      Page code text true s
        (dropKeepalive (advanced n (queueError env code text true s)))
  | failed {s : St σ} {sends : Nat} (hk : s.keepalive = true) :
      Page code text true s
        (dropKeepalive (delete { queueError env code text true s with sends := sends }))
  | sent {s : St σ} {sends : Nat} {m : σ} (hk : s.keepalive = true) :
      Page code text true s
        (endStep (drained ⟨false, true⟩ sends m (queueError env code text true s)))

/-- `ServeData` and the answer it queues. -/
inductive Serve : St σ → St σ → Prop where
  | page {s s₁ s' : St σ} {code : Nat} {text : Bytes}
      (hres : resolveFile env s = (.error (code, text), s₁))
      (hpage : Page env code text false s₁ s') : Serve s s'
  | file {s s' : St σ} {size : Nat} (hres : resolveFile env s = (.ok size, s'))
      (hsize : size ≠ 0) : Serve s (writeHeaders env size 200 (str "OK") clear s')
  | empty {s s' : St σ} (hres : resolveFile env s = (.ok 0, s')) :
      Serve s (endStep (writeHeaders env 0 200 (str "OK") clear s'))

/-- What a handler can find in the mask: the engine may just have gone back
to watching for input. -/
def Unarmed (mask : EpollMask) (s : St σ) : Prop :=
  mask = s.mask ∨ mask = ⟨true, false⟩

/-- A header block ends at `reqend`. Without modules it is the first one in the
buffer; a module that takes a request may leave the next one lying there. -/
def EndsAt (requestbuf : Bytes) (reqend : Nat) : Prop :=
  (∃ newpos, findRequestEnd requestbuf newpos = some reqend) ∧
    (mods = [] → find terminator requestbuf = some reqend)

/-- What the hooks are asked about. -/
def askedFile (reqend : Nat) (s : St σ) : Bytes :=
  fileOf (cleaned (takenRequest env reqend s)).uri

/-- The moves of a connection; bytes come in only if `input` says so. -/
inductive Move (input : Bool) : St σ → St σ → Prop where
  /-- Bytes for a later request, or for the header block being read. -/
  | receive {s : St σ} {a : Bytes} (hs : s.state ≠ .recvReqbody) (hin : input = true) :
      Move input s { s with requestbuf := s.requestbuf ++ a }
  | receiveBody {s : St σ} {a : Bytes} (hs : s.state = .recvReqbody) (ha : a ≠ [])
      (hin : input = true) : Move input s (takeBody a s)
  /-- A header block that is answered with an error page. -/
  | refuse {s s' : St σ} {reqend code : Nat} {text : Bytes} {fatal : Bool}
      (hs : s.state = .waitRequest)
      (hend : EndsAt mods s.requestbuf reqend)
      (hv : (takeRequest env.cfg reqend s.toConnection).2 = .reject code text fatal)
      (hpage : Page env code text fatal (takenRequest env reqend s) s') : Move input s s'
  /-- A header block that announces a body. -/
  | accept {s : St σ} {reqend : Nat} (hs : s.state = .waitRequest)
      (hend : EndsAt mods s.requestbuf reqend)
      (hv : (takeRequest env.cfg reqend s.toConnection).2 = .body) :
      Move input s ((takenRequest env reqend s).setState .recvReqbody)
  /-- A request without a body that a module takes over. -/
  | claim {s : St σ} {reqend : Nat} {m : σ} {evs : List Ev}
      (hs : s.state = .waitRequest)
      (hend : EndsAt mods s.requestbuf reqend)
      (hv : (takeRequest env.cfg reqend s.toConnection).2 = .dispatch)
      (hrun : HookRun (askedFile env reqend s) 0 mods evs 1) :
      Move input s (hooked m evs (cleaned (takenRequest env reqend s)))
  /-- A method the server does not know. -/
  | notImplemented {s s₁ s' : St σ} {reqend : Nat} {m : σ} {evs : List Ev}
      {res : Int} (hs : s.state = .waitRequest)
      (hend : EndsAt mods s.requestbuf reqend)
      (hv : (takeRequest env.cfg reqend s.toConnection).2 = .dispatch)
      (hrun : HookRun (askedFile env reqend s) 0 mods evs res) (hres : res ≠ 1)
      (hs₁ : s₁ = hooked m evs (cleaned (takenRequest env reqend s)))
      (hm : s₁.method ≠ str "GET" ∧ s₁.method ≠ str "POST")
      (hpage : Page env 501 (str "Not Implemented") true s₁ s') : Move input s s'
  /-- A request without a body that is served. -/
  | serve {s s₁ s' : St σ} {reqend : Nat} {m : σ} {evs : List Ev}
      {res : Int} (hs : s.state = .waitRequest)
      (hend : EndsAt mods s.requestbuf reqend)
      (hv : (takeRequest env.cfg reqend s.toConnection).2 = .dispatch)
      (hrun : HookRun (askedFile env reqend s) 0 mods evs res) (hres : res ≠ 1)
      (hs₁ : s₁ = hooked m evs (cleaned (takenRequest env reqend s)))
      (hm : ¬ (s₁.method ≠ str "GET" ∧ s₁.method ≠ str "POST"))
      (hserve : Serve env s₁ s') : Move input s s'
  /-- A request whose body is complete. -/
  | serveBody {s s' : St σ} (hs : s.state = .recvReqbody)
      (hlen : s.requestBody.length = s.requestBodyLength)
      (hserve : Serve env s s') : Move input s s'
  /-- The socket took part of the queue, perhaps nothing. -/
  | advance {s : St σ} {n : Nat} (hn : n < s.sendq.length) : Move input s (advanced n s)
  | sendFailed {s : St σ} {mask : EpollMask} (hmask : Unarmed mask s) :
      Move input s (delete { s with mask := mask, sends := s.sends + 1 })
  /-- The queue is empty and nothing waits for that. -/
  | flushed {s : St σ} {mask : EpollMask} {sends : Nat} {m : σ}
      (hmask : Unarmed mask s)
      (hnofile : ¬ (s.state = .sendData ∧ s.responseBackend ≠ none))
      (hpage : ¬ (s.state = .sendData ∧ s.responseBufferDone = true))
      (hfile : ¬ (s.state = .sendHeaders ∧ s.responseBackend ≠ none)) :
      Move input s (drained mask sends m s)
  /-- The queue is empty and held the end of a response. -/
  | pageDone {s : St σ} {mask : EpollMask} {sends : Nat} {m : σ} (hmask : Unarmed mask s)
      (hs : s.state = .sendData) (hdone : s.responseBufferDone = true) :
      Move input s (endStep (drained mask sends m s))
  /-- The queue is empty and held the headers of a file. -/
  | fileStart {s s' : St σ} {mask : EpollMask} {sends : Nat} {m : σ}
      (hmask : Unarmed mask s) (hs : s.state = .sendHeaders)
      (hback : s.responseBackend ≠ none)
      (hfile : FileOut env ((drained mask sends m s).setState .sendData) s') :
      Move input s s'
  | filePart {s s' : St σ} {mask : EpollMask} (hmask : Unarmed mask s)
      (hs : s.state = .sendData) (hback : s.responseBackend ≠ none)
      (hfile : FileOut env { s with mask := mask } s') : Move input s s'
  /-- The tail of a fatal `SendError` whose page is out. -/
  | dropKeepalive {s : St σ} {keepalive : Bool} (hfatal : .fatal keepalive ∈ s.trace) :
      Move input s (dropKeepalive s)
  | drop {s : St σ} : Move input s (delete s)
  /-- The moves of a module. -/
  | modError {s s' : St σ} {code : Nat} {text : Bytes} {fatal : Bool} (hm : mods ≠ [])
      (hpage : Page env code text fatal s s') : Move input s s'
  | modHeaders {s : St σ} {size code : Nat} {text : Bytes} (hm : mods ≠ [])
      (hsize : size ≠ 0) : Move input s (writeHeaders env size code text clear s)
  | modEmpty {s : St σ} {code : Nat} {text : Bytes} (hm : mods ≠ []) :
      Move input s (endStep (writeHeaders env 0 code text clear s))
  | modSendData {s : St σ} (hm : mods ≠ []) : Move input s (s.setState .sendData)
  | modWrite {s : St σ} {data : Bytes} (hm : mods ≠ []) : Move input s (write env data s)
  | modBufferDone {s : St σ} (hm : mods ≠ []) :
      Move input s { s with responseBufferDone := true }
  | modState {s : St σ} {m : σ} (hm : mods ≠ []) : Move input s { s with mods := m }

abbrev Moves (input : Bool) : St σ → St σ → Prop := ReflTransGen (Move env mods input)

/-! ## The trace only grows -/

section Trace

variable {env} {mods} {input : Bool}

theorem endStep_trace (s : St σ) : s.trace <+: (endStep s).trace := by
  rw [endStep_trace_eq]
  exact List.prefix_append _ _

theorem writeHeaders_trace (size code : Nat) (text : Bytes) {h : HTTPHeaders} (s : St σ)
    (hconn : getHeader h (str "Connection") = []) :
    s.trace <+: (writeHeaders env size code text h s).trace := by
  simp [writeHeaders_eq _ _ _ _ hconn]

variable (env) in
theorem queueError_trace (code : Nat) (text : Bytes) (fatal : Bool) (s : St σ) :
    s.trace <+: (queueError env code text fatal s).trace := by
  simp [queueError_eq]

theorem FileOut.trace {s s' : St σ} (h : FileOut env s s') : s.trace <+: s'.trace := by
  cases h with
  | lost | failed => simp [delete_eq]
  | piece => exact List.prefix_rfl
  | done => exact List.IsPrefix.trans (by exact List.prefix_rfl) (endStep_trace _)

theorem Page.trace {s s' : St σ} {code : Nat} {text : Bytes} {fatal : Bool}
    (h : Page env code text fatal s s') : s.trace <+: s'.trace := by
  have hq := queueError_trace env code text fatal s
  cases h with
  | queued => exact hq
  | held => exact hq.trans (by simp)
  | failed => exact hq.trans (by simp [delete_eq])
  | sent => exact hq.trans (.trans (by simp) (endStep_trace _))

theorem Serve.trace {s s' : St σ} (h : Serve env s s') : s.trace <+: s'.trace := by
  cases h with
  | page hres hpage =>
      obtain ⟨upath, filefd, calls, -, rfl⟩ := resolveFile_error hres
      exact List.IsPrefix.trans (by simp) hpage.trace
  | file hres =>
      obtain ⟨path, fst, calls, n, -, -, rfl⟩ := resolveFile_ok hres
      simp [writeHeaders_eq _ _ _ _ core_no_connection.1]
  | empty hres =>
      obtain ⟨path, fst, calls, n, -, -, rfl⟩ := resolveFile_ok hres
      refine List.IsPrefix.trans ?_ (endStep_trace _)
      simp [writeHeaders_eq _ _ _ _ core_no_connection.1]

theorem takenRequest_trace (reqend : Nat) (s : St σ) :
    s.trace <+: (takenRequest env reqend s).trace := by
  simp [takenRequest]

theorem hooked_trace (m : σ) (evs : List Ev) (reqend : Nat) (s : St σ) :
    s.trace <+: (hooked m evs (cleaned (takenRequest env reqend s))).trace := by
  simp [hooked, cleaned, takenRequest]

theorem Move.trace {s s' : St σ} (h : Move env mods input s s') : s.trace <+: s'.trace := by
  cases h with
  | receive | modBufferDone | modState => exact List.prefix_rfl
  | advance | flushed | dropKeepalive => simp
  | @receiveBody a =>
      obtain ⟨body, buf, heq⟩ := takeBody_eq a s
      rw [heq]
  | refuse _ _ _ hpage => exact (takenRequest_trace ..).trans hpage.trace
  | accept => exact (takenRequest_trace ..).trans (List.prefix_append _ _)
  | claim => exact hooked_trace ..
  | notImplemented _ _ _ _ _ hs₁ _ hpage =>
      subst hs₁
      exact (hooked_trace ..).trans hpage.trace
  | serve _ _ _ _ _ hs₁ _ hserve => subst hs₁; exact (hooked_trace ..).trans hserve.trace
  | serveBody _ _ hserve => exact hserve.trace
  | sendFailed | drop => simp [delete_eq]
  | pageDone => exact List.IsPrefix.trans (by simp) (endStep_trace _)
  | fileStart _ _ _ hfile => exact List.IsPrefix.trans (by simp) hfile.trace
  | filePart _ _ _ hfile => exact hfile.trace
  | modError _ hpage => exact hpage.trace
  | modHeaders => exact writeHeaders_trace _ _ _ _ core_no_connection.1
  | modEmpty =>
      exact (writeHeaders_trace _ _ _ _ core_no_connection.1).trans (endStep_trace _)
  | modSendData => simp
  | modWrite => simp [write_eq]

theorem Moves.trace {s s' : St σ} (h : Moves env mods input s s') : s.trace <+: s'.trace :=
  Transition.invariant (I := fun t => s.trace <+: t.trace)
    (fun hm ht => ht.trans hm.trace) h List.prefix_rfl

end Trace

end Hottpd
