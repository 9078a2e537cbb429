import Hottpd.Proofs.Coherent
import Hottpd.Proofs.Turns
import Hottpd.Core.World

/-!
# What goes over the wire

The responses are read off the trace: a header block, and as its body the
error page queued behind it or the file opened before it. `Wired` says that
the bytes the socket has accepted, the queue and what is left of the open
file make up these responses, one after the other; a connection that was
given up has sent a beginning of them.

Sizes are taken from `stat` and bytes from the file, so all of this is for
files that do not change under the server.
-/

namespace Hottpd

open Bytes HTTPHeaders

variable {σ : Type} {env : Env}

/-- A regular file is as long as `stat` says, whenever it is asked. -/
def Steady (env : Env) : Prop :=
  ∀ n followSymLinks path st, env.os.stat n followSymLinks path = .ok st → st.kind = .reg →
    (env.os.content path).length = st.size

theorem steady_smallWorld (dirs : List Bytes) (content : Bytes) (send : Nat → SendRes) :
    Steady (smallWorld dirs content send) := by
  intro n followSymLinks path st hst _
  simp only [smallWorld, Except.ok.injEq] at hst
  rw [← hst]
  rfl

/-! ## Responses -/

structure Response where
  status : Bytes
  headers : HTTPHeaders
  body : Bytes
deriving DecidableEq

def Response.bytes (r : Response) : Bytes := headBlock r.status r.headers ++ r.body

/-- The body is as long as the header block says. -/
def Response.Whole (r : Response) : Prop :=
  getHeader r.headers (str "Content-Length") = ofNat r.body.length

/-- The responses so far, the last one first, and the bytes of the file that
is open for the next one. -/
structure Rendered where
  file : Bytes
  responses : List Response

def renderStep (env : Env) (r : Rendered) : Ev → Rendered
  | .opened path _ _ => { r with file := env.os.content path }
  | .head status headers => ⟨[], ⟨status, headers, r.file⟩ :: r.responses⟩
  | .page data =>
      match r.responses with
      | [] => r
      | x :: xs => { r with responses := { x with body := data } :: xs }
  | _ => r

def rendered (env : Env) (trace : List Ev) : Rendered :=
  trace.foldl (renderStep env) ⟨[], []⟩

def responses (env : Env) (trace : List Ev) : List Response :=
  (rendered env trace).responses.reverse

/-- Every response written out. -/
def output (env : Env) (trace : List Ev) : Bytes :=
  (responses env trace).flatMap Response.bytes

theorem rendered_append (l evs : List Ev) :
    rendered env (l ++ evs) = evs.foldl (renderStep env) (rendered env l) :=
  List.foldl_append

/-- Events that render nothing. -/
def Ev.isSilent : Ev → Bool
  | .opened .. | .head .. | .page .. => false
  | _ => true

theorem rendered_silent {l evs : List Ev} (h : ∀ e ∈ evs, e.isSilent) :
    rendered env (l ++ evs) = rendered env l := by
  rw [rendered_append]
  refine Trace.foldl_quiet fun e he => ?_
  have hsilent := h e he
  cases e <;> first | rfl | cases hsilent

variable (env) in
theorem rendered_head (l : List Ev) (size code : Nat) (text : Bytes)
    (rheaders : HTTPHeaders) (s : St σ) :
    rendered env (l ++ headEvents env size code text rheaders s) =
      ⟨[], ⟨statusLine s.httpVersion code text, sentHeaders env size rheaders s,
        (rendered env l).file⟩ :: (rendered env l).responses⟩ := by
  simp [rendered_append, headEvents, renderStep]

theorem rendered_page {l : List Ev} (code : Nat) (text : Bytes) (fatal : Bool) (s : St σ)
    (hfile : (rendered env l).file = []) :
    rendered env (l ++ errorEvents env code text fatal s) =
      ⟨[], ⟨statusLine s.httpVersion code text, sentHeaders env (errorPage text).length
        (setHeader clear (str "Content-Type") (str "text/html")) s, errorPage text⟩
        :: (rendered env l).responses⟩ := by
  cases fatal <;> simp [rendered_append, errorEvents, headEvents, renderStep, hfile]

theorem output_of_rendered {trace : List Ev} {file : Bytes} {r : Response}
    {rs : List Response} {l : List Ev} (h : rendered env trace = ⟨file, r :: rs⟩)
    (hl : (rendered env l).responses = rs) :
    output env trace = output env l ++ r.bytes := by
  simp [output, responses, h, hl]

/-! ## The invariant -/

/-- What is left to send once the queue is empty. -/
def Owes (env : Env) (s : St σ) (rest : Bytes) : Prop :=
  (s.responseBackend = none ∧ rest = []) ∨
    ∃ path, s.responseBackend ≠ none ∧ s.filefd = some path ∧
      (env.os.content path).length = s.rfilesize ∧ rest = (env.os.content path).drop s.rfilesent

structure Wired (env : Env) (s : St σ) : Prop where
  closed : (rendered env s.trace).file = []
  whole : ∀ r ∈ (rendered env s.trace).responses, r.Whole
  sent : s.wire ++ s.sendq <+: output env s.trace
  owed : s.state ≠ .finished →
    ∃ rest, Owes env s rest ∧ output env s.trace = s.wire ++ s.sendq ++ rest

/-- A step that renders nothing. -/
theorem Wired.silent {s s' : St σ} {l : List Ev} (h : Wired env s)
    (htrace : s'.trace = s.trace ++ l) (hl : ∀ e ∈ l, e.isSilent)
    (hwire : s'.wire ++ s'.sendq = s.wire ++ s.sendq)
    (howed : s'.state ≠ .finished → ∃ rest, Owes env s' rest ∧
      output env s.trace = s'.wire ++ s'.sendq ++ rest) : Wired env s' := by
  have hr : rendered env s'.trace = rendered env s.trace := by
    rw [htrace, rendered_silent hl]
  have ho : output env s'.trace = output env s.trace := by
    rw [output, responses, hr]
    rfl
  exact ⟨hr ▸ h.closed, hr ▸ h.whole, by rw [hwire, ho]; exact h.sent, ho.symm ▸ howed⟩

theorem wired_delete {s : St σ} (h : Wired env s) : Wired env (delete s) := by
  rw [delete_eq]
  exact h.silent rfl (by simp [Ev.isSilent]) rfl fun hs => absurd rfl hs

theorem whole_page {r : Response} {text : Bytes} {s : St σ} {status : Bytes}
    (hr : r = ⟨status, sentHeaders env (errorPage text).length
      (setHeader clear (str "Content-Type") (str "text/html")) s, errorPage text⟩) :
    r.Whole := by
  rw [hr]
  exact sentHeaders_length _ s core_no_connection.2

theorem wired_queueError (code : Nat) (text : Bytes) (fatal : Bool) {s : St σ}
    (h : Wired env s) (hall : output env s.trace = s.wire ++ s.sendq) :
    Wired env (queueError env code text fatal s) := by
  have hr := rendered_page code text fatal s h.closed
  have ho := output_of_rendered hr rfl
  rw [hall] at ho
  rw [queueError_eq]
  refine ⟨by rw [hr], ?_, ?_, fun _ => ⟨[], Or.inl ⟨rfl, rfl⟩, ?_⟩⟩
  · rw [hr]
    intro r hmem
    rcases List.mem_cons.1 hmem with hmem | hmem
    · exact whole_page hmem
    · exact h.whole r hmem
  · simp [ho, Response.bytes]
  · simp [ho, Response.bytes]

theorem wired_endStep {s : St σ} (h : Wired env s)
    (hall : output env s.trace = s.wire ++ s.sendq) : Wired env (endStep s) := by
  refine h.silent (endStep_trace_eq s) ?_ ?_ fun hs => ?_
  · cases hk : s.keepalive <;> simp [endEvents, hk, Ev.isSilent]
  · cases hk : s.keepalive with
    | false => rw [endStep_of_close hk]
    | true => rw [endStep_of_keepalive hk]
  · cases hk : s.keepalive with
    | false => rw [endStep_of_close hk] at hs; exact absurd rfl hs
    | true =>
        rw [endStep_of_keepalive hk]
        exact ⟨[], Or.inl ⟨rfl, rfl⟩, by simp [hall]⟩

theorem flushEvents_silent (s : St σ) : ∀ e ∈ flushEvents s, e.isSilent := by
  unfold flushEvents
  split <;> simp [Ev.isSilent]

theorem Wired.drained {mask : EpollMask} {sends : Nat} {m : σ} {s : St σ}
    (h : Wired env s) : Wired env (drained mask sends m s) :=
  h.silent rfl (flushEvents_silent s) (by simp [Hottpd.drained]) fun hs => by
    obtain ⟨rest, hr, ho⟩ := h.owed hs
    exact ⟨rest, hr, by simp [ho, Hottpd.drained]⟩

theorem Wired.advanced {n : Nat} {s : St σ} (h : Wired env s) : Wired env (advanced n s) := by
  have htake : s.wire ++ s.sendq.take n ++ s.sendq.drop n = s.wire ++ s.sendq := by
    rw [List.append_assoc, List.take_append_drop]
  refine h.silent rfl (by simp [Ev.isSilent]) htake fun hs => ?_
  obtain ⟨rest, hr, ho⟩ := h.owed hs
  exact ⟨rest, hr, ho.trans (by rw [← htake]; rfl)⟩

theorem Wired.sendData {s : St σ} (hs : s.state ≠ .finished) (h : Wired env s) :
    Wired env (s.setState .sendData) :=
  h.silent (l := [.state .sendData]) rfl (by simp [Ev.isSilent]) rfl fun _ => h.owed hs

theorem Wired.dropKeepalive {s : St σ} (h : Wired env s) : Wired env (dropKeepalive s) :=
  h.silent rfl (by simp [Ev.isSilent]) rfl h.owed

/-- Without a backend, or with the file sent, the queue is all that is left. -/
theorem Wired.output_eq {s : St σ} (h : Wired env s) (hs : s.state ≠ .finished)
    (hleft : s.responseBackend = none ∨ s.rfilesize ≤ s.rfilesent) :
    output env s.trace = s.wire ++ s.sendq := by
  obtain ⟨rest, hr, ho⟩ := h.owed hs
  have hrest : rest = [] := by
    rcases hr with ⟨-, hr⟩ | ⟨path, hback, -, hlen, hr⟩
    · exact hr
    · rw [hr]
      rcases hleft with hnone | hle
      · exact absurd hnone hback
      · exact List.drop_eq_nil_of_le (by omega)
  rw [ho, hrest, List.append_nil]

theorem Page.wired {s s' : St σ} {code : Nat} {text : Bytes} {fatal : Bool}
    (h : Page env code text fatal s s') (hw : Wired env s)
    (hall : output env s.trace = s.wire ++ s.sendq) : Wired env s' := by
  have hpage := wired_queueError code text fatal hw hall
  cases h with
  | queued => exact hpage
  | held => exact hpage.advanced.dropKeepalive
  | failed =>
      refine (wired_delete ?_).dropKeepalive
      exact ⟨hpage.closed, hpage.whole, hpage.sent, hpage.owed⟩
  | sent =>
      refine wired_endStep hpage.drained (hpage.drained.output_eq ?_ (Or.inl ?_)) <;>
        simp [drained, queueError_eq]

/-- The header block of a file, queued behind everything before it. -/
theorem wired_file (path : Bytes) (size calls : Nat) {s : St σ} (h : Wired env s)
    (hall : output env s.trace = s.wire ++ s.sendq)
    (hlen : (env.os.content (cstr path)).length = size) :
    Wired env (writeHeaders env size 200 (str "OK") clear (openedFile path size calls s)) := by
  rw [writeHeaders_eq _ _ _ _ core_no_connection.1]
  have hr := rendered_head env (openedFile path size calls s).trace size 200 (str "OK") clear
    (openedFile path size calls s)
  rw [show rendered env (openedFile path size calls s).trace
    = ⟨env.os.content (cstr path), (rendered env s.trace).responses⟩ by
      rw [trace_openedFile, rendered_append]; rfl] at hr
  have ho := output_of_rendered hr rfl
  rw [hall, Response.bytes] at ho
  refine ⟨by rw [hr], ?_, ?_, fun _ => ⟨_, Or.inr ⟨cstr path, ?_, rfl, hlen, rfl⟩, ?_⟩⟩
  · rw [hr]
    intro r hmem
    rcases List.mem_cons.1 hmem with rfl | hmem
    · exact (sentHeaders_length size _ core_no_connection.1).trans (by rw [hlen])
    · exact h.whole r hmem
  · rw [ho]; simp [openedFile]
  · simp [openedFile]
  · rw [ho]; simp [openedFile]

theorem Serve.wired {s s' : St σ} (hsteady : Steady env) (h : Serve env s s')
    (hw : Wired env s) (hs : s.state ≠ .finished) (hback : s.responseBackend = none) :
    Wired env s' := by
  have hall := hw.output_eq hs (Or.inl hback)
  have hopened : ∀ {path : Bytes} {fst : Stat} {size n : Nat}, fst.size = size →
      checkFilePath (env.os.stat n env.cfg.followSymLinks) env.cfg.docRoot s.uri
        = .ok (path, fst) → (env.os.content (cstr path)).length = size :=
    fun hsize hpath => by
      obtain ⟨hst, hkind, -⟩ := checkFilePath_ok hpath
      exact (hsteady _ _ _ _ hst hkind).trans hsize
  cases h with
  | page hres hpage =>
      obtain ⟨upath, filefd, calls, -, rfl⟩ := resolveFile_error hres
      have hserved : Wired env { s with
          upath := upath
          filefd := filefd
          calls := calls
          trace := s.trace ++ [.served s.calls s.method s.uri s.headers s.requestBody] } := by
        refine hw.silent rfl (by simp [Ev.isSilent]) rfl fun _ => ⟨[], Or.inl ⟨hback, rfl⟩, ?_⟩
        rw [hall, List.append_nil]
      exact hpage.wired hserved (hserved.output_eq hs (Or.inl hback))
  | file hres =>
      obtain ⟨path, fst, calls, n, hsize, hpath, rfl⟩ := resolveFile_ok hres
      exact wired_file path _ calls hw hall (hopened hsize hpath)
  | empty hres =>
      obtain ⟨path, fst, calls, n, hsize, hpath, rfl⟩ := resolveFile_ok hres
      have hfile := wired_file path 0 calls hw hall (hopened hsize hpath)
      refine wired_endStep hfile (hfile.output_eq ?_ (Or.inr ?_)) <;>
        simp [writeHeaders_eq _ _ _ _ core_no_connection.1, openedFile]

theorem FileOut.wired {s s' : St σ} (h : FileOut env s s') (hw : Wired env s)
    (hs : s.state = .sendData) (hback : s.responseBackend ≠ none) (hsendq : s.sendq = []) :
    Wired env s' := by
  have hpiece : ∀ (path : Bytes) (n sends calls : Nat), s.filefd = some path →
      Wired env (filePiece env path n sends calls s) := fun path n _ _ hfd => by
    obtain ⟨rest, hr, ho⟩ := hw.owed (by simp [hs])
    rcases hr with ⟨hnone, -⟩ | ⟨path', -, hfd', hlen, rfl⟩
    · exact absurd hnone hback
    · obtain rfl : path' = path := Option.some_inj.1 (hfd'.symm.trans hfd)
      have hall : (env.os.content path').take s.rfilesize = env.os.content path' := by
        rw [← hlen, List.take_length]
      have ho' : output env s.trace = s.wire
          ++ ((env.os.content path').drop s.rfilesent).take n
          ++ (env.os.content path').drop (s.rfilesent + n) := by
        rw [ho, hsendq, ← List.drop_drop, List.append_nil, List.append_assoc,
          List.take_append_drop]
      refine ⟨hw.closed, hw.whole, ?_, fun _ =>
        ⟨_, Or.inr ⟨path', hback, hfd, hlen, rfl⟩, ?_⟩⟩
      · simpa [filePiece, hall, hsendq, ho'] using List.take_prefix n _
      · simp [filePiece, hall, hsendq, ho']
  cases h with
  | lost =>
      have hd := wired_delete hw
      exact wired_delete ⟨hd.closed, hd.whole, hd.sent, hd.owed⟩
  | failed => exact wired_delete ⟨hw.closed, hw.whole, hw.sent, hw.owed⟩
  | @piece path n sends calls hfd =>
      have hp := hpiece path n sends calls hfd
      exact ⟨hp.closed, hp.whole, hp.sent, hp.owed⟩
  | @done path n sends calls hfd _ _ hall =>
      have hp := hpiece path n sends calls hfd
      exact wired_endStep hp (hp.output_eq (by simp [filePiece, hs])
        (Or.inr (Nat.le_of_eq hall.symm)))

theorem wired_taken (reqend : Nat) {s : St σ} (hs : s.state = .waitRequest)
    (hback : s.responseBackend = none) (h : Wired env s) :
    Wired env (takenRequest env reqend s) ∧ (takenRequest env reqend s).state = .waitRequest ∧
      (takenRequest env reqend s).responseBackend = none := by
  obtain ⟨_, _, _, _, _, _, -, heq⟩ := takenRequest_eq env reqend s
  rw [heq]
  refine ⟨h.silent rfl (by simp [Ev.isSilent]) rfl fun _ => ⟨[], Or.inl ⟨hback, rfl⟩, ?_⟩,
    hs, hback⟩
  rw [h.output_eq (by simp [hs]) (Or.inl hback), List.append_nil]

theorem wired_hooked (reqend : Nat) {s : St σ} {file : Bytes} {m : σ} {evs : List Ev} {res : Int}
    (hs : s.state = .waitRequest) (hback : s.responseBackend = none)
    (hrun : HookRun file 0 ([] : List (Module σ)) evs res) (h : Wired env s) :
    Wired env (hooked m evs (cleaned (takenRequest env reqend s))) ∧
      (hooked m evs (cleaned (takenRequest env reqend s))).state = .waitRequest ∧
      (hooked m evs (cleaned (takenRequest env reqend s))).responseBackend = none := by
  obtain ⟨_, _, _, _, _, _, _, _, -, -, heq⟩ := hooked_eq env m evs reqend s
  rw [heq, hrun.nil_inv.1]
  refine ⟨h.silent rfl (by simp [Ev.isSilent]) rfl fun _ => ⟨[], Or.inl ⟨hback, rfl⟩, ?_⟩,
    hs, hback⟩
  rw [h.output_eq (by simp [hs]) (Or.inl hback), List.append_nil]

theorem Move.wired {s s' : St σ} (hsteady : Steady env) (h : Move env [] true s s')
    (hc : Coherent s) (hw : Wired env s) : Wired env s' := by
  have hwait : s.state = .waitRequest → s.responseBackend = none := fun hs => by
    simp only [Coherent, hs] at hc
    exact hc.2.1
  cases h with
  | receive => exact ⟨hw.closed, hw.whole, hw.sent, hw.owed⟩
  | receiveBody =>
      unfold takeBody
      dsimp only
      split <;> exact ⟨hw.closed, hw.whole, hw.sent, hw.owed⟩
  | refuse hs _ _ hpage =>
      obtain ⟨ht, hs', hback⟩ := wired_taken _ hs (hwait hs) hw
      exact hpage.wired ht (ht.output_eq (by simp [hs']) (Or.inl hback))
  | accept hs =>
      obtain ⟨ht, hs', hback⟩ := wired_taken _ hs (hwait hs) hw
      refine ht.silent (l := [.state .recvReqbody]) rfl (by simp [Ev.isSilent]) rfl fun _ =>
        ⟨[], Or.inl ⟨hback, rfl⟩, ?_⟩
      rw [ht.output_eq (by simp [hs']) (Or.inl hback), List.append_nil]
      rfl
  | claim _ _ _ hrun => exact absurd hrun.nil_inv.2 (by decide)
  | notImplemented hs _ _ hrun _ hs₁ _ hpage =>
      subst hs₁
      obtain ⟨ht, hs', hback⟩ := wired_hooked _ hs (hwait hs) hrun hw
      exact hpage.wired ht (ht.output_eq (by simp [hs']) (Or.inl hback))
  | serve hs _ _ hrun _ hs₁ _ hserve =>
      subst hs₁
      obtain ⟨ht, hs', hback⟩ := wired_hooked _ hs (hwait hs) hrun hw
      exact hserve.wired hsteady ht (by simp [hs']) hback
  | serveBody hs _ hserve =>
      simp only [Coherent, hs] at hc
      exact hserve.wired hsteady hw (by simp [hs]) hc.2.1
  | advance => exact hw.advanced
  | sendFailed => exact wired_delete ⟨hw.closed, hw.whole, hw.sent, hw.owed⟩
  | flushed => exact hw.drained
  | pageDone _ hs hdone =>
      simp only [Coherent, hs, hdone] at hc
      have hback : s.responseBackend = none := by
        rcases hc.2 with ⟨h, -⟩ | ⟨-, h, -⟩
        · exact h
        · cases h
      exact wired_endStep hw.drained
        (hw.drained.output_eq (by simp [drained, hs]) (Or.inl hback))
  | fileStart _ hs hback hfile =>
      exact hfile.wired (hw.drained.sendData (by simp [drained, hs])) rfl hback rfl
  | filePart _ hs hback hfile =>
      simp only [Coherent, hs, hback, false_and, false_or] at hc
      exact hfile.wired ⟨hw.closed, hw.whole, hw.sent, hw.owed⟩ hs hback hc.2.2.2.2.2
  | dropKeepalive => exact hw.dropKeepalive
  | drop => exact wired_delete hw
  | modError hm | modHeaders hm | modEmpty hm | modSendData hm | modWrite hm
    | modBufferDone hm | modState hm => exact absurd rfl hm

theorem run_wired (hsteady : Steady env) (m : σ) (evs : List Event) :
    Wired env (run env [] m evs) := by
  have hinit : Wired env (St.init m) :=
    ⟨rfl, by simp [St.init, rendered], List.nil_prefix, fun _ => ⟨[], Or.inl ⟨rfl, rfl⟩, rfl⟩⟩
  exact (run_invariant (I := fun s => Coherent s ∧ Wired env s) m evs ⟨coherent_init m, hinit⟩
    fun h hI => ⟨h.coherent hI.1, h.wired hsteady hI.1 hI.2⟩).2

/-- The socket has accepted a beginning of the responses written out one
after the other. Each of them is a header block and as many bytes as it
announces, there is one for each header block taken, and one request is
counted for each. -/
theorem wire_is_responses (hsteady : Steady env) (m : σ) (evs : List Event) :
    let s := run env [] m evs
    s.wire <+: output env s.trace ∧
      (∀ r ∈ responses env s.trace, r.Whole) ∧
      InTurn s.trace ∧
      s.requestsCompleted = s.trace.countP Ev.isEnded ∧
      s.rfilesent ≤ s.rfilesize := by
  have hw := run_wired hsteady m evs
  have ht := run_turn env m evs
  refine ⟨(List.prefix_append _ _).trans hw.sent, fun r hr => hw.whole r ?_, ht.inTurn,
    ht.counted, (run_coherent m evs).rfilesent_le⟩
  simpa [responses] using hr

theorem wire_is_responses_pipelined :
    (plainRun (smallWorld [] (str "hello") (slowStart 10))
      ["GET /a HTTP/1.1\r\n\r\nPUT /b HTTP/1.1\r\n\r\n"]).wire <+:
      output (smallWorld [] (str "hello") (slowStart 10))
        (plainRun (smallWorld [] (str "hello") (slowStart 10))
          ["GET /a HTTP/1.1\r\n\r\nPUT /b HTTP/1.1\r\n\r\n"]).trace :=
  (wire_is_responses (steady_smallWorld _ _ _) () _).1

end Hottpd
