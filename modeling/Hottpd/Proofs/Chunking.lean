import Hottpd.Proofs.Messages
import Hottpd.Proofs.Rejection

/-!
# A stream cut into chunks

What reaches `ServeData` is determined by the stream and not by the chunks it
arrives in, as long as every byte arrives in the state that is meant for it: a
byte of a body while the connection waits for that body, any other byte at any
other time. `AddBuffer` keeps the two in different buffers and never moves a
byte from one to the other.

`Stage` describes the connection exactly after any part of such a stream, by
how many of its messages are dealt with.
-/

namespace Hottpd

open Bytes HTTPHeaders Trace Relation

variable {σ : Type} {env : Env}

/-! ## Reading the trace -/

def Ev.handed : Ev → Option Handed
  | .served _ method uri headers body => some (method, uri, headers, body)
  | _ => none

/-- What `ServeData` was called with. -/
def handedOver (trace : List Ev) : List Handed := trace.filterMap Ev.handed

/-- `EndRequest` ended the connection with the request. -/
def Ev.isLast : Ev → Bool
  | .ended keepalive .. => !keepalive
  | _ => false

/-- Neither of the two. -/
def Ev.isOther (e : Ev) : Bool := e.handed.isNone && !e.isLast

theorem handedOver_append (l evs : List Ev) :
    handedOver (l ++ evs) = handedOver l ++ handedOver evs := List.filterMap_append

theorem handedOver_other {evs : List Ev} (h : ∀ e ∈ evs, e.isOther) : handedOver evs = [] := by
  refine List.filterMap_eq_nil_iff.2 fun e he => ?_
  have := h e he
  simp only [Ev.isOther, Bool.and_eq_true, Option.isNone_iff_eq_none] at this
  exact this.1

theorem isLast_other {evs : List Ev} (h : ∀ e ∈ evs, e.isOther) :
    ∀ e ∈ evs, e.isLast = false := by
  intro e he
  have := h e he
  simp only [Ev.isOther, Bool.and_eq_true, Bool.not_eq_true'] at this
  exact this.2

/-! ## Where the connection is in the stream -/

/-- The part of the stream that has arrived is `done` and the buffer, no byte
of a body is in the buffer, and `due` is what is still to be served. -/
structure Account (cfg : Config) (reqs : List Message) (got : Bytes)
    (done rest : List Message) (due : List Handed) (s : St σ) : Prop where
  split : reqs = done ++ rest
  got_eq : got = stream done ++ s.requestbuf
  clean : ∀ b ∈ (marks rest).take s.requestbuf.length, b = false
  expected_eq : expected cfg 0 reqs = handedOver s.trace ++ due
  alive : s.quitting = false
  going : ∀ e ∈ s.trace, e.isLast = false

/-- The message `r` whose body is being received. -/
structure Receiving (cfg : Config) (reqs : List Message) (got : Bytes)
    (done : List Message) (r : Message) (rest : List Message) (s : St σ) : Prop where
  split : reqs = done ++ r :: rest
  got_eq : got = stream done ++ r.block ++ s.requestBody
  empty : s.requestbuf = []
  fits : s.requestBody.length ≤ r.body.length
  length : s.requestBodyLength = r.body.length
  handed : r.handed cfg = (s.method, s.uri, s.headers, r.body)
  expected_eq : expected cfg 0 reqs = handedOver s.trace ++
    r.handed cfg :: (if s.keepalive then expected cfg (done.length + 1) rest else [])
  completed : s.requestsCompleted = done.length
  alive : s.quitting = false
  going : ∀ e ∈ s.trace, e.isLast = false

inductive Stage (cfg : Config) (reqs : List Message) (got : Bytes) (s : St σ) : Prop where
  | waiting {done rest : List Message} (hs : s.state = .waitRequest)
      (h : Account cfg reqs got done rest (expected cfg done.length rest) s)
      (hfresh : Fresh s.toConnection) (hn : s.requestsCompleted = done.length)
  | receiving {done rest : List Message} {r : Message} (hs : s.state = .recvReqbody)
      (h : Receiving cfg reqs got done r rest s)
  | answering {done rest : List Message} (hs : s.state = .sendHeaders ∨ s.state = .sendData)
      (h : Account cfg reqs got done rest
        (if s.keepalive then expected cfg done.length rest else []) s)
      (hn : s.requestsCompleted + 1 = done.length)
  | closed (hs : s.state = .finished) (hquit : s.quitting = true)
      (hpre : handedOver s.trace <+: expected cfg 0 reqs)
      (hlast : (∃ e ∈ s.trace, e.isLast) → handedOver s.trace = expected cfg 0 reqs)
      (hbuf : s.requestbuf.length ≤ got.length)

section Account

variable {cfg : Config} {reqs done rest : List Message} {got : Bytes} {due : List Handed}
  {s s' : St σ}

/-- Silent events, and nothing else that the account is about. -/
theorem Account.silent (h : Account cfg reqs got done rest due s) {l : List Ev}
    (htrace : s'.trace = s.trace ++ l) (hl : ∀ e ∈ l, e.isOther)
    (hbuf : s'.requestbuf = s.requestbuf) (hquit : s'.quitting = s.quitting) :
    Account cfg reqs got done rest due s' where
  split := h.split
  got_eq := by rw [hbuf, h.got_eq]
  clean := by rw [hbuf]; exact h.clean
  expected_eq := by
    rw [htrace, handedOver_append, handedOver_other hl, List.append_nil, h.expected_eq]
  alive := by rw [hquit, h.alive]
  going := by
    rw [htrace]
    intro e he
    exact (List.mem_append.1 he).elim (h.going e) (isLast_other hl e)

/-- A connection that is given up keeps what it has served. -/
theorem Account.closed (h : Account cfg reqs got done rest due s) {l : List Ev}
    (htrace : s'.trace = s.trace ++ l) (hl : ∀ e ∈ l, e.isOther)
    (hbuf : s'.requestbuf = s.requestbuf) (hs : s'.state = .finished)
    (hquit : s'.quitting = true) : Stage cfg reqs got s' := by
  have hhanded : handedOver s'.trace = handedOver s.trace := by
    rw [htrace, handedOver_append, handedOver_other hl, List.append_nil]
  refine .closed hs hquit ?_ ?_ ?_
  · rw [hhanded, h.expected_eq]
    exact List.prefix_append _ _
  · rintro ⟨e, he, hlast⟩
    rw [htrace] at he
    have hgoing : e.isLast = false :=
      (List.mem_append.1 he).elim (h.going e) (isLast_other hl e)
    rw [hgoing] at hlast
    cases hlast
  · rw [hbuf, h.got_eq, List.length_append]
    omega

theorem Account.deleted (h : Account cfg reqs got done rest due s) :
    Stage cfg reqs got (delete s) := by
  refine h.closed (l := [.deleted, .state .finished]) ?_ (by simp [Ev.isOther, Ev.handed,
    Ev.isLast]) ?_ ?_ ?_ <;> rw [delete_eq]

/-- The end of the last request that was dealt with. -/
theorem Account.ended (h : Account cfg reqs got done rest
      (if s.keepalive then expected cfg done.length rest else []) s)
    (hn : s.requestsCompleted + 1 = done.length) : Stage cfg reqs got (endStep s) := by
  have hstate : ∀ x, (Ev.state x).isOther := fun x => rfl
  cases hk : s.keepalive with
  | false =>
      rw [hk, if_neg (by decide)] at h
      have hhanded : handedOver (endStep s).trace = expected cfg 0 reqs := by
        rw [h.expected_eq, List.append_nil, endStep_trace_eq, handedOver_append, endEvents, hk]
        exact List.append_nil _
      rw [endStep_of_close hk] at hhanded ⊢
      refine .closed rfl rfl ?_ (fun _ => hhanded) ?_
      · rw [hhanded]
      · show s.requestbuf.length ≤ got.length
        rw [h.got_eq, List.length_append]
        omega
  | true =>
      rw [hk, if_pos rfl] at h
      have hnext : Account cfg reqs got done rest (expected cfg done.length rest) (endStep s) := by
        rw [endStep_of_keepalive hk]
        exact h.silent rfl (by simp [Ev.isOther, Ev.handed, Ev.isLast]) rfl rfl
      rw [endStep_of_keepalive hk] at hnext ⊢
      exact .waiting rfl hnext ⟨rfl, rfl, rfl, rfl, rfl, rfl, rfl, hk⟩ hn

end Account

/-! ## Answering -/

section Answering

variable {reqs done rest : List Message} {got : Bytes} {s s' : St σ}

theorem other_head (size code : Nat) (text : Bytes) (rheaders : HTTPHeaders) (s : St σ) :
    ∀ e ∈ headEvents env size code text rheaders s, e.isOther := by
  simp [headEvents, Ev.isOther, Ev.handed, Ev.isLast]

theorem other_error (code : Nat) (text : Bytes) (fatal : Bool) (s : St σ) :
    ∀ e ∈ errorEvents env code text fatal s, e.isOther := by
  cases fatal <;> simp [errorEvents, headEvents, Ev.isOther, Ev.handed, Ev.isLast]

theorem other_flush (s : St σ) : ∀ e ∈ flushEvents s, e.isOther := by
  unfold flushEvents
  split <;> simp [Ev.isOther, Ev.handed, Ev.isLast]

/-- An error page that leaves the rest of the stream as it was. -/
theorem Account.page (h : Account env.cfg reqs got done rest
      (if s.keepalive then expected env.cfg done.length rest else []) s)
    (hn : s.requestsCompleted + 1 = done.length) (code : Nat) (text : Bytes) (fatal : Bool) :
    Stage env.cfg reqs got (queueError env code text fatal s) := by
  rw [queueError_eq]
  exact .answering (Or.inr rfl) (h.silent rfl (other_error code text fatal s) rfl rfl) hn

variable (env) in
theorem Account.head (h : Account env.cfg reqs got done rest
      (if s.keepalive then expected env.cfg done.length rest else []) s)
    (size code : Nat) (text : Bytes) : Account env.cfg reqs got done rest
      (if (writeHeaders env size code text clear s).keepalive
        then expected env.cfg done.length rest else [])
      (writeHeaders env size code text clear s) := by
  rw [writeHeaders_eq _ _ _ _ core_no_connection.1]
  exact h.silent rfl (other_head _ _ _ _ s) rfl rfl

variable (env) in
theorem completed_head (size code : Nat) (text : Bytes) (s : St σ) :
    (writeHeaders env size code text clear s).requestsCompleted = s.requestsCompleted := by
  rw [writeHeaders_eq _ _ _ _ core_no_connection.1]

variable (env) in
theorem state_head (size code : Nat) (text : Bytes) (s : St σ) :
    (writeHeaders env size code text clear s).state = .sendHeaders := by
  rw [writeHeaders_eq _ _ _ _ core_no_connection.1]

/-- A fatal page behind which nothing is due: the connection is given up, or
it is held and its `keepalive` gone. -/
theorem Page.stage {code : Nat} {text : Bytes} (h : Page env code text true s s')
    (ha : Account env.cfg reqs got done rest [] s)
    (hn : s.requestsCompleted + 1 = done.length) (hr : Rejecting s)
    (hheld : AtEach HeldUp s'.trace) : Stage env.cfg reqs got s' := by
  have hq : Account env.cfg reqs got done rest [] (queueError env code text true s) := by
    rw [queueError_eq]
    exact ha.silent rfl (other_error code text true s) rfl rfl
  have hnq : (queueError env code text true s).requestsCompleted + 1 = done.length := by
    rw [queueError_eq]
    exact hn
  have hsending : (queueError env code text true s).state = .sendData := by
    rw [queueError_eq]
  cases h with
  | queued hk =>
      have hoff : (queueError env code text true s).keepalive = false := by
        rw [queueError_eq]
        exact hk rfl
      have hdue : Account env.cfg reqs got done rest
          (if (queueError env code text true s).keepalive
            then expected env.cfg done.length rest else [])
          (queueError env code text true s) := by
        rw [hoff]
        exact hq
      exact .answering (Or.inr hsending) hdue hnq
  | @held _ n =>
      have hdue : Account env.cfg reqs got done rest
          (if (dropKeepalive (advanced n (queueError env code text true s))).keepalive
            then expected env.cfg done.length rest else [])
          (dropKeepalive (advanced n (queueError env code text true s))) := ?_
      · exact .answering (Or.inr hsending) hdue hnq
      generalize queueError env code text true s = q at hq
      refine hq.silent (l := [.flush n q.sendq.length, .dropped q.keepalive]) ?_ ?_ rfl rfl
      · rw [trace_dropKeepalive, trace_advanced, List.append_assoc]
        rfl
      · simp [Ev.isOther, Ev.handed, Ev.isLast]
  | failed =>
      generalize queueError env code text true s = q at hq
      refine hq.closed (l := [.deleted, .state .finished, .dropped q.keepalive]) ?_ ?_ ?_ ?_ ?_
      · rw [trace_dropKeepalive, delete_eq, List.append_assoc]
        rfl
      · simp [Ev.isOther, Ev.handed, Ev.isLast]
      all_goals rw [delete_eq]; rfl
  | sent hk => exact absurd hheld (escaped_sent hr hk).heldUp

/-- `ServeData` hands over the message it was called for. -/
theorem Serve.stage (h : Serve env s s')
    (ha : Account env.cfg reqs got done rest ((s.method, s.uri, s.headers, s.requestBody) ::
      (if s.keepalive then expected env.cfg done.length rest else [])) s)
    (hn : s.requestsCompleted + 1 = done.length) : Stage env.cfg reqs got s' := by
  -- behind the event of the call itself
  have hserved : ∀ {t : St σ} {l : List Ev},
      t.trace = s.trace ++ (.served s.calls s.method s.uri s.headers s.requestBody :: l) →
      (∀ e ∈ l, e.isOther) → t.requestbuf = s.requestbuf → t.quitting = s.quitting →
      t.keepalive = s.keepalive →
      Account env.cfg reqs got done rest
        (if t.keepalive then expected env.cfg done.length rest else []) t := by
    intro t l htrace hl hbuf hquit hkeep
    refine ⟨ha.split, by rw [hbuf, ha.got_eq], by rw [hbuf]; exact ha.clean, ?_,
      by rw [hquit, ha.alive], ?_⟩
    · have hnew : handedOver (.served s.calls s.method s.uri s.headers s.requestBody :: l)
          = [(s.method, s.uri, s.headers, s.requestBody)] := by
        have hrest := handedOver_other hl
        unfold handedOver at hrest ⊢
        rw [List.filterMap_cons, hrest]
        rfl
      rw [ha.expected_eq, htrace, hkeep, handedOver_append, hnew, List.append_assoc,
        List.singleton_append]
    · rw [htrace]
      intro e he
      rcases List.mem_append.1 he with he | he
      · exact ha.going e he
      · rcases List.mem_cons.1 he with rfl | he
        · rfl
        · exact isLast_other hl e he
  cases h with
  | page hres hpage =>
      obtain ⟨upath, filefd, calls, -, rfl⟩ := resolveFile_error hres
      cases hpage with
      | queued =>
          have hcalled := @hserved { s with
            upath := upath
            filefd := filefd
            calls := calls
            trace := s.trace ++ [.served s.calls s.method s.uri s.headers s.requestBody] }
            [] rfl (by simp) rfl rfl rfl
          exact hcalled.page hn _ _ false
  | @file _ size hres _ =>
      obtain ⟨path, fst, calls, n, -, -, rfl⟩ := resolveFile_ok hres
      have hopened := hserved (t := openedFile path size calls s) rfl
        (by simp [Ev.isOther, Ev.handed, Ev.isLast]) rfl rfl rfl
      refine .answering (Or.inl (state_head ..)) (hopened.head env _ 200 (str "OK")) ?_
      rw [completed_head]
      exact hn
  | empty hres =>
      obtain ⟨path, fst, calls, n, -, -, rfl⟩ := resolveFile_ok hres
      have hopened := hserved (t := openedFile path 0 calls s) rfl
        (by simp [Ev.isOther, Ev.handed, Ev.isLast]) rfl rfl rfl
      have hhead := hopened.head env 0 200 (str "OK")
      have hcompleted := (completed_head env 0 200 (str "OK") (openedFile path 0 calls s)).trans
        (show _ = s.requestsCompleted from rfl)
      generalize writeHeaders env 0 200 (str "OK") clear (openedFile path 0 calls s) = t at *
      exact hhead.ended (by rw [hcompleted]; exact hn)

theorem FileOut.stage (h : FileOut env s s') (hs : s.state = .sendData)
    (ha : Account env.cfg reqs got done rest
      (if s.keepalive then expected env.cfg done.length rest else []) s)
    (hn : s.requestsCompleted + 1 = done.length) : Stage env.cfg reqs got s' := by
  cases h with
  | lost =>
      refine ha.closed (l := [.deleted, .state .finished, .deleted, .state .finished]) ?_
        (by simp [Ev.isOther, Ev.handed, Ev.isLast]) ?_ ?_ ?_ <;>
        simp [delete_eq]
  | failed =>
      refine ha.closed (l := [.deleted, .state .finished]) ?_
        (by simp [Ev.isOther, Ev.handed, Ev.isLast]) ?_ ?_ ?_ <;> rw [delete_eq]
  | piece =>
      exact .answering (Or.inr hs)
        (ha.silent (List.append_nil _).symm (by simp) rfl rfl) hn
  | @done path n sends calls =>
      have hpiece : Account env.cfg reqs got done rest
          (if (filePiece env path n sends calls s).keepalive
            then expected env.cfg done.length rest else [])
          (filePiece env path n sends calls s) :=
        ha.silent (List.append_nil _).symm (by simp) rfl rfl
      exact hpiece.ended hn

end Answering

/-! ## Taking a message -/

section Taking

variable {reqs done rest : List Message} {got : Bytes} {s s' : St σ} {reqend : Nat}

/-- The header block at the head of the buffer is the next message's, and what
is behind it in the buffer is no body. -/
theorem Account.next {due : List Handed} (h : Account env.cfg reqs got done rest due s)
    (hwf : ∀ r ∈ reqs, r.WellFormed env.cfg) (hgot : got <+: stream reqs)
    (hfind : find terminator s.requestbuf = some reqend) :
    ∃ r rest' more, rest = r :: rest' ∧ r.WellFormed env.cfg ∧
      s.requestbuf = r.block ++ more ∧ s.requestbuf.drop (reqend + 4) = more ∧
      (r.body ≠ [] → more = []) ∧
      (r.body = [] → ∀ b ∈ (marks rest').take more.length, b = false) := by
  have hbuf : s.requestbuf <+: stream rest := by
    rw [h.got_eq, h.split, stream_append] at hgot
    exact (List.prefix_append_right_inj _).1 hgot
  cases rest with
  | nil =>
      rw [stream_nil, List.prefix_nil] at hbuf
      rw [hbuf] at hfind
      cases hfind
  | cons r rest' =>
      have hr : r.WellFormed env.cfg := hwf r (by rw [h.split]; simp)
      rw [stream_cons] at hbuf
      obtain ⟨hend, more, hmore⟩ := hr.first hbuf hfind
      have hdrop : s.requestbuf.drop (reqend + 4) = more := by
        rw [hend, hmore, List.drop_left]
      have hclean : ∀ b ∈ (List.replicate r.body.length true ++ marks rest').take more.length,
          b = false := by
        intro b hb
        refine h.clean b ?_
        rw [marks_cons, hmore, List.length_append, List.take_append, List.length_replicate,
          Nat.add_sub_cancel_left]
        exact List.mem_append_right _ hb
      refine ⟨r, rest', more, rfl, hr, hmore, hdrop, fun hbody => ?_, fun hbody => ?_⟩
      · by_contra hne
        have hpos : 0 < more.length := List.length_pos_iff.2 hne
        obtain ⟨b, body, hb⟩ := List.exists_cons_of_ne_nil hbody
        have htrue := hclean true (by
          rw [hb, List.length_cons, List.replicate_succ, List.cons_append]
          obtain ⟨n, hn⟩ : ∃ n, more.length = n + 1 := ⟨more.length - 1, by omega⟩
          rw [hn, List.take_succ_cons]
          exact List.mem_cons_self)
        cases htrue
      · rw [hbody] at hclean
        exact hclean

/-- The fields behind a header block, as far as the stages speak of them. -/
theorem takenRequest_fields (env : Env) (reqend : Nat) (s : St σ) :
    (takenRequest env reqend s).requestbuf = s.requestbuf.drop (reqend + 4) ∧
      (takenRequest env reqend s).requestBody = s.requestBody ∧
      (takenRequest env reqend s).uriquery = s.uriquery ∧
      (takenRequest env reqend s).requestsCompleted = s.requestsCompleted ∧
      (takenRequest env reqend s).quitting = s.quitting := by
  obtain ⟨_, _, _, _, _, _, -, heq⟩ := takenRequest_eq env reqend s
  rw [heq]
  exact ⟨rfl, rfl, rfl, rfl, rfl⟩

/-- What the parser has made of the message. -/
theorem Message.WellFormed.read {r : Message} (hr : r.WellFormed env.cfg)
    (hfresh : Fresh s.toConnection) {more : Bytes} (hbuf : s.requestbuf = r.block ++ more) :
    (takenRequest env reqend s).method = (r.parsed env.cfg 0).1.method ∧
      (takenRequest env reqend s).uri = (r.parsed env.cfg 0).1.uri ∧
      (takenRequest env reqend s).headers = (r.parsed env.cfg 0).1.headers ∧
      (takenRequest env reqend s).requestBodyLength = (r.parsed env.cfg 0).1.requestBodyLength ∧
      (takenRequest env reqend s).keepalive
        = (r.parsed env.cfg s.requestsCompleted).1.keepalive ∧
      (takeRequest env.cfg reqend s.toConnection).2 = (r.parsed env.cfg 0).2 := by
  obtain ⟨hsame, hzero, hv⟩ := @Message.WellFormed.taken _ _ hr _ hfresh reqend _ hbuf
  exact ⟨hzero.method, hzero.uri, hzero.headers, hzero.requestBodyLength,
    (hsame.keepalive trivial).1, hv⟩

/-- A message with a body is received from its first byte on. -/
theorem Stage.accept (hwf : ∀ r ∈ reqs, r.WellFormed env.cfg) (hgot : got <+: stream reqs)
    (h : Account env.cfg reqs got done rest (expected env.cfg done.length rest) s)
    (hfresh : Fresh s.toConnection) (hn : s.requestsCompleted = done.length)
    (hfind : find terminator s.requestbuf = some reqend)
    (hv : (takeRequest env.cfg reqend s.toConnection).2 = .body) :
    Stage env.cfg reqs got ((takenRequest env reqend s).setState .recvReqbody) := by
  obtain ⟨r, rest', more, rfl, hr, hbuf, hdrop, hempty, -⟩ := h.next hwf hgot hfind
  obtain ⟨hmethod, huri, hheaders, hlen, hkeep, hverdict⟩ :=
    @Message.WellFormed.read σ env s reqend r hr hfresh more hbuf
  obtain ⟨hbuf', hbody', hquery', hcompleted', hquit'⟩ :=
    takenRequest_fields env reqend s
  have hpos : 0 < (takenRequest env reqend s).requestBodyLength := takeRequest_body hv
  have hannounced : r.body.length = (r.parsed env.cfg 0).1.requestBodyLength := by
    rcases hr.body with ⟨hno, -⟩ | ⟨-, hyes⟩
    · rw [← hverdict, hv] at hno
      cases hno
    · exact hyes
  have hne : r.body ≠ [] := by
    rw [← List.length_pos_iff, hannounced, ← hlen]
    exact hpos
  obtain rfl := hempty hne
  have hserved : r.isServed env.cfg = true := by
    simp only [Message.isServed, decide_eq_true_eq]
    exact Or.inl hne
  have hstays : r.stays env.cfg done.length = (takenRequest env reqend s).keepalive := by
    rw [Message.stays, hserved, Bool.true_and, hkeep, hn]
  refine @Stage.receiving σ env.cfg _ got _ done rest' r rfl ?_
  refine ⟨h.split, ?_, ?_, ?_, ?_, ?_, ?_, ?_, ?_, ?_⟩
  · show got = stream done ++ r.block ++ (takenRequest env reqend s).requestBody
    rw [hbody', hfresh.requestBody, h.got_eq, hbuf]
    simp
  · show (takenRequest env reqend s).requestbuf = []
    rw [hbuf', hdrop]
  · show (takenRequest env reqend s).requestBody.length ≤ r.body.length
    rw [hbody', hfresh.requestBody]
    exact Nat.zero_le _
  · exact hlen.trans hannounced.symm
  · show r.handed env.cfg = ((takenRequest env reqend s).method,
      (takenRequest env reqend s).uri, (takenRequest env reqend s).headers, r.body)
    rw [hmethod, huri, hheaders]
    simp only [Message.handed, if_neg hne]
  · have htrace : handedOver ((takenRequest env reqend s).setState .recvReqbody).trace
        = handedOver s.trace := by
      rw [trace_setState, handedOver_append, takenRequest, trace_log, handedOver_append]
      show handedOver s.trace ++ [] ++ [] = handedOver s.trace
      rw [List.append_nil, List.append_nil]
    rw [h.expected_eq, htrace, expected, hserved, hstays]
    rfl
  · exact hcompleted'.trans hn
  · exact hquit'.trans h.alive
  · intro e he
    rw [trace_setState, takenRequest, trace_log] at he
    simp only [List.mem_append, List.mem_singleton] at he
    rcases he with (he | rfl) | rfl
    · exact h.going e he
    · rfl
    · rfl

/-- A message without a body is dealt with where it was read. -/
theorem Account.dispatched (hwf : ∀ r ∈ reqs, r.WellFormed env.cfg)
    (hgot : got <+: stream reqs)
    (h : Account env.cfg reqs got done rest (expected env.cfg done.length rest) s)
    (hfresh : Fresh s.toConnection) (hn : s.requestsCompleted = done.length)
    (hfind : find terminator s.requestbuf = some reqend)
    (hv : (takeRequest env.cfg reqend s.toConnection).2 = .dispatch) {m : σ}
    (hs₁ : s' = hooked m [] (cleaned (takenRequest env reqend s))) :
    ∃ r rest', Account env.cfg reqs got (done ++ [r]) rest'
        ((if r.isServed env.cfg then [r.handed env.cfg] else []) ++
          (if r.stays env.cfg done.length then
            expected env.cfg (done ++ [r]).length rest' else [])) s' ∧
      s'.requestsCompleted + 1 = (done ++ [r]).length ∧
      r.handed env.cfg = (s'.method, s'.uri, s'.headers, s'.requestBody) ∧
      (r.isServed env.cfg = true ↔ s'.method = str "GET" ∨ s'.method = str "POST") ∧
      r.stays env.cfg done.length = (r.isServed env.cfg && s'.keepalive) := by
  obtain ⟨r, rest', more, rfl, hr, hbuf, hdrop, -, hclean⟩ := h.next hwf hgot hfind
  obtain ⟨hmethod, huri, hheaders, -, hkeep, hverdict⟩ :=
    @Message.WellFormed.read σ env s reqend r hr hfresh more hbuf
  obtain ⟨hbuf', hbody', hquery', hcompleted', hquit'⟩ :=
    takenRequest_fields env reqend s
  have hnobody : r.body = [] := by
    rcases hr.body with ⟨-, hyes⟩ | ⟨hno, -⟩
    · exact hyes
    · rw [← hverdict, hv] at hno
      cases hno
  have hcount : (done ++ [r]).length = done.length + 1 := by
    rw [List.length_append]
    rfl
  have hcleaned : s'.uri = (handleURI (r.parsed env.cfg 0).1.uri []).1 := by
    rw [hs₁]
    show (handleURI (takenRequest env reqend s).uri (takenRequest env reqend s).uriquery).1 = _
    rw [huri, hquery', hfresh.uriquery]
  subst hs₁
  refine ⟨r, rest', ⟨?_, ?_, ?_, ?_, hquit'.trans h.alive, ?_⟩, ?_, ?_, ?_, ?_⟩
  · rw [h.split, List.append_assoc]
    rfl
  · show got = stream (done ++ [r]) ++ (takenRequest env reqend s).requestbuf
    rw [hbuf', hdrop, h.got_eq, hbuf, stream_append, stream_cons, hnobody]
    simp
  · show ∀ b ∈ (marks rest').take (takenRequest env reqend s).requestbuf.length, b = false
    rw [hbuf', hdrop]
    exact hclean hnobody
  · have htrace : handedOver (hooked m [] (cleaned (takenRequest env reqend s))).trace
        = handedOver s.trace := by
      show handedOver (((s.trace ++ [.parsed _ _ _ _]) ++ [.cleaned]) ++ []) = handedOver s.trace
      rw [List.append_nil, handedOver_append, handedOver_append]
      show handedOver s.trace ++ [] ++ [] = handedOver s.trace
      rw [List.append_nil, List.append_nil]
    rw [htrace, h.expected_eq, expected, hcount]
  · intro e he
    replace he : e ∈ ((s.trace ++ [.parsed _ _ _ _]) ++ [.cleaned]) ++ [] := he
    simp only [List.append_nil, List.mem_append, List.mem_singleton] at he
    rcases he with (he | rfl) | rfl
    · exact h.going e he
    · rfl
    · rfl
  · show (takenRequest env reqend s).requestsCompleted + 1 = (done ++ [r]).length
    rw [hcompleted', hn, hcount]
  · have hmethod' : (hooked m [] (cleaned (takenRequest env reqend s))).method
        = (r.parsed env.cfg 0).1.method := hmethod
    have hheaders' : (hooked m [] (cleaned (takenRequest env reqend s))).headers
        = (r.parsed env.cfg 0).1.headers := hheaders
    have hbody'' : (hooked m [] (cleaned (takenRequest env reqend s))).requestBody = [] :=
      hbody'.trans hfresh.requestBody
    rw [hmethod', hheaders', hbody'', hcleaned]
    simp only [Message.handed, hnobody, if_true]
  · have hmethod' : (hooked m [] (cleaned (takenRequest env reqend s))).method
        = (r.parsed env.cfg 0).1.method := hmethod
    rw [hmethod']
    simp [Message.isServed, hnobody]
  · show r.stays env.cfg done.length = (r.isServed env.cfg && (takenRequest env reqend s).keepalive)
    rw [hkeep, hn]
    rfl

/-- A message whose body is complete is dealt with. -/
theorem Receiving.complete {r : Message} (hgot : got <+: stream reqs)
    (h : Receiving env.cfg reqs got done r rest s)
    (hlen : s.requestBody.length = s.requestBodyLength) :
    Account env.cfg reqs got (done ++ [r]) rest
        ((s.method, s.uri, s.headers, s.requestBody) ::
          (if s.keepalive then expected env.cfg (done ++ [r]).length rest else [])) s ∧
      s.requestsCompleted + 1 = (done ++ [r]).length := by
  have hcount : (done ++ [r]).length = done.length + 1 := by
    rw [List.length_append]
    rfl
  have hbody : s.requestBody = r.body := by
    rw [h.got_eq, h.split, stream_append, stream_cons, List.append_assoc,
      List.prefix_append_right_inj, List.prefix_append_right_inj] at hgot
    have hpre : s.requestBody <+: r.body :=
      List.prefix_of_prefix_length_le hgot (List.prefix_append _ _) h.fits
    exact hpre.eq_of_length (hlen.trans h.length)
  refine ⟨⟨?_, ?_, ?_, ?_, h.alive, h.going⟩, ?_⟩
  · rw [h.split, List.append_assoc]
    rfl
  · rw [h.got_eq, h.empty, hbody, stream_append, stream_cons]
    simp
  · rw [h.empty]
    intro b hb
    rw [List.length_nil, List.take_zero] at hb
    cases hb
  · rw [hcount, hbody, ← h.handed]
    exact h.expected_eq
  · rw [h.completed, hcount]

end Taking

/-! ## All moves -/

section Moves

variable {reqs : List Message} {got : Bytes} {s s' : St σ}

/-- What every stage says when the connection is given up. -/
theorem Stage.deleted (h : Stage env.cfg reqs got s) {l : List Ev}
    (htrace : s'.trace = s.trace ++ l) (hl : ∀ e ∈ l, e.isOther)
    (hbuf : s'.requestbuf = s.requestbuf) (hs : s'.state = .finished)
    (hquit : s'.quitting = true) : Stage env.cfg reqs got s' := by
  cases h with
  | waiting _ h => exact h.closed htrace hl hbuf hs hquit
  | answering _ h => exact h.closed htrace hl hbuf hs hquit
  | receiving _ h =>
      have hhanded : handedOver s'.trace = handedOver s.trace := by
        rw [htrace, handedOver_append, handedOver_other hl, List.append_nil]
      refine .closed hs hquit ?_ ?_ ?_
      · rw [hhanded, h.expected_eq]
        exact List.prefix_append _ _
      · rintro ⟨e, he, hlast⟩
        rw [htrace] at he
        have hgoing : e.isLast = false :=
          (List.mem_append.1 he).elim (h.going e) (isLast_other hl e)
        rw [hgoing] at hlast
        cases hlast
      · rw [hbuf, h.empty]
        exact Nat.zero_le _
  | closed _ _ hpre hlast hlen =>
      have hhanded : handedOver s'.trace = handedOver s.trace := by
        rw [htrace, handedOver_append, handedOver_other hl, List.append_nil]
      refine .closed hs hquit (by rw [hhanded]; exact hpre) ?_ (by rw [hbuf]; exact hlen)
      rintro ⟨e, he, hend⟩
      rw [htrace] at he
      rw [hhanded]
      refine hlast ⟨e, (List.mem_append.1 he).resolve_right fun hnew => ?_, hend⟩
      rw [isLast_other hl e hnew] at hend
      cases hend

/-- Silent events that leave the stage where it is. -/
theorem Stage.silent (h : Stage env.cfg reqs got s) {l : List Ev}
    (htrace : s'.trace = s.trace ++ l) (hl : ∀ e ∈ l, e.isOther)
    (hconn : s'.toConnection = { s.toConnection with sendq := s'.sendq }) :
    Stage env.cfg reqs got s' := by
  have hstate : s'.state = s.state := by
    rw [hconn]
  have hbuf : s'.requestbuf = s.requestbuf := by
    rw [hconn]
  have hquit : s'.quitting = s.quitting := by
    rw [hconn]
  have hkeep : s'.keepalive = s.keepalive := by
    rw [hconn]
  have hcompleted : s'.requestsCompleted = s.requestsCompleted := by
    rw [hconn]
  have hhanded : handedOver s'.trace = handedOver s.trace := by
    rw [htrace, handedOver_append, handedOver_other hl, List.append_nil]
  have hgoing : (∀ e ∈ s.trace, e.isLast = false) → ∀ e ∈ s'.trace, e.isLast = false := by
    intro hold e he
    rw [htrace] at he
    exact (List.mem_append.1 he).elim (hold e) (isLast_other hl e)
  cases h with
  | waiting hs h hfresh hn =>
      refine .waiting (hstate.trans hs) (h.silent htrace hl hbuf hquit) ?_ (hcompleted.trans hn)
      obtain ⟨hmethod, huri, hquery, hheaders, hversion, hlen, hbody, halive⟩ := hfresh
      refine ⟨?_, ?_, ?_, ?_, ?_, ?_, ?_, hkeep.trans halive⟩
      · rw [hconn]
        exact hmethod
      · rw [hconn]
        exact huri
      · rw [hconn]
        exact hquery
      · rw [hconn]
        exact hheaders
      · rw [hconn]
        exact hversion
      · rw [hconn]
        exact hlen
      · rw [hconn]
        exact hbody
  | receiving hs h =>
      obtain ⟨hsplit, hgot, hempty, hfits, hlen, hhand, hexp, hn, halive, hgo⟩ := h
      have hbody : s'.requestBody = s.requestBody := by
        rw [hconn]
      have hmethod : s'.method = s.method := by
        rw [hconn]
      have huri : s'.uri = s.uri := by
        rw [hconn]
      have hheaders : s'.headers = s.headers := by
        rw [hconn]
      have hlen' : s'.requestBodyLength = s.requestBodyLength := by
        rw [hconn]
      refine .receiving (hstate.trans hs) ⟨hsplit, by rw [hbody]; exact hgot,
        hbuf.trans hempty, by rw [hbody]; exact hfits,
        hlen'.trans hlen, ?_, ?_, hcompleted.trans hn, hquit.trans halive, hgoing hgo⟩
      · rw [hhand, hmethod, huri, hheaders]
      · rw [hhanded, hkeep]
        exact hexp
  | answering hs h hn =>
      have ha := h.silent htrace hl hbuf hquit
      rw [← hkeep] at ha
      exact .answering (by rw [hstate]; exact hs) ha (by rw [hcompleted]; exact hn)
  | closed hs hq hpre hlast hlen =>
      exact Stage.deleted (.closed hs hq hpre hlast hlen) htrace hl hbuf (hstate.trans hs)
        (hquit.trans hq)

theorem Move.stage (hwf : ∀ r ∈ reqs, r.WellFormed env.cfg) (hgot : got <+: stream reqs)
    (h : Move env [] false s s') (hr : Rejecting s) (hheld : AtEach HeldUp s'.trace)
    (hst : Stage env.cfg reqs got s) : Stage env.cfg reqs got s' := by
  -- a header block is only taken from a connection that waits for one
  have hwait : s.state = .waitRequest → ∃ done rest,
      Account env.cfg reqs got done rest (expected env.cfg done.length rest) s ∧
        Fresh s.toConnection ∧ s.requestsCompleted = done.length := by
    intro hs
    cases hst with
    | waiting _ h hfresh hn => exact ⟨_, _, h, hfresh, hn⟩
    | receiving hs' => rw [hs] at hs'; cases hs'
    | answering hs' => rw [hs] at hs'; rcases hs' with h | h <;> cases h
    | closed hs' => rw [hs] at hs'; cases hs'
  have hanswering : s.state = .sendHeaders ∨ s.state = .sendData → ∃ done rest,
      Account env.cfg reqs got done rest
        (if s.keepalive then expected env.cfg done.length rest else []) s ∧
        s.requestsCompleted + 1 = done.length := by
    intro hs
    cases hst with
    | answering _ h hn => exact ⟨_, _, h, hn⟩
    | waiting hs' | receiving hs' | closed hs' =>
        rw [hs'] at hs
        rcases hs with h | h <;> cases h
  cases h with
  | receive _ hin | receiveBody _ _ hin => cases hin
  | modError hm | modHeaders hm | modEmpty hm | modSendData hm | modWrite hm
  | modBufferDone hm | modState hm => exact absurd rfl hm
  | refuse hs hend hv hpage =>
      obtain ⟨done, rest, ha, hfresh, hn⟩ := hwait hs
      obtain ⟨r, rest', more, rfl, hwell, hbuf, -, -, -⟩ := ha.next hwf hgot (hend.2 rfl)
      obtain ⟨-, -, -, -, -, hverdict⟩ := hwell.read hfresh hbuf
      rw [hv] at hverdict
      rcases hwell.body with ⟨h, -⟩ | ⟨h, -⟩ <;> rw [h] at hverdict <;> cases hverdict
  | accept hs hend hv =>
      obtain ⟨done, rest, ha, hfresh, hn⟩ := hwait hs
      exact Stage.accept hwf hgot ha hfresh hn (hend.2 rfl) hv
  | claim _ _ _ hrun => exact absurd hrun.nil_inv.2 (by decide)
  | notImplemented hs hend hv hrun _ hs₁ hm hpage =>
      obtain ⟨done, rest, ha, hfresh, hn⟩ := hwait hs
      obtain ⟨rfl, -⟩ := hrun.nil_inv
      obtain ⟨r, rest', ha', hn', -, hserved, hstays⟩ :=
        ha.dispatched hwf hgot hfresh hn (hend.2 rfl) hv hs₁
      have hno : r.isServed env.cfg = false := by
        rw [← Bool.not_eq_true, hserved]
        exact not_or.2 hm
      rw [hstays, hno, if_neg (by decide), if_neg (by simp), List.append_nil] at ha'
      have hr₁ := hs₁ ▸ rejecting_hooked _ hs hrun hr
      exact hpage.stage ha' hn' hr₁ hheld
  | serve hs hend hv hrun _ hs₁ hm hserve =>
      obtain ⟨done, rest, ha, hfresh, hn⟩ := hwait hs
      obtain ⟨rfl, -⟩ := hrun.nil_inv
      obtain ⟨r, rest', ha', hn', hhanded, hserved, hstays⟩ :=
        ha.dispatched hwf hgot hfresh hn (hend.2 rfl) hv hs₁
      have hyes : r.isServed env.cfg = true := by
        rw [hserved]
        by_contra hno
        exact hm (not_or.1 hno)
      rw [hstays, hyes, if_pos rfl, Bool.true_and, hhanded] at ha'
      exact hserve.stage ha' hn'
  | serveBody hs hlen hserve =>
      cases hst with
      | receiving _ h =>
          obtain ⟨ha, hn⟩ := h.complete hgot hlen
          exact hserve.stage ha hn
      | waiting hs' | closed hs' => rw [hs] at hs'; cases hs'
      | answering hs' => rw [hs] at hs'; rcases hs' with h | h <;> cases h
  | advance =>
      exact hst.silent (trace_advanced _ s) (by simp [Ev.isOther, Ev.handed, Ev.isLast]) rfl
  | flushed => exact hst.silent (trace_drained _ _ _ s) (other_flush s) rfl
  | sendFailed =>
      refine hst.deleted (l := [.deleted, .state .finished]) ?_
        (by simp [Ev.isOther, Ev.handed, Ev.isLast]) ?_ ?_ ?_ <;> rw [delete_eq]
  | drop =>
      refine hst.deleted (l := [.deleted, .state .finished]) ?_
        (by simp [Ev.isOther, Ev.handed, Ev.isLast]) ?_ ?_ ?_ <;> rw [delete_eq]
  | @pageDone mask sends m _ hs _ =>
      obtain ⟨done, rest, ha, hn⟩ := hanswering (Or.inr hs)
      have hd : Account env.cfg reqs got done rest
          (if (drained mask sends m s).keepalive
            then expected env.cfg done.length rest else [])
          (drained mask sends m s) := ha.silent (trace_drained _ _ _ s) (other_flush s) rfl rfl
      exact hd.ended hn
  | @fileStart _ mask sends m _ hs _ hfile =>
      obtain ⟨done, rest, ha, hn⟩ := hanswering (Or.inl hs)
      have hd : Account env.cfg reqs got done rest
          (if ((drained mask sends m s).setState .sendData).keepalive
            then expected env.cfg done.length rest else [])
          ((drained mask sends m s).setState .sendData) := by
        refine ha.silent (l := flushEvents s ++ [.state .sendData]) ?_ ?_ rfl rfl
        · rw [trace_setState, trace_drained, List.append_assoc]
        · intro e he
          rcases List.mem_append.1 he with he | he
          · exact other_flush s e he
          · rw [List.mem_singleton.1 he]
            rfl
      exact hfile.stage rfl hd hn
  | @filePart _ mask _ hs _ hfile =>
      obtain ⟨done, rest, ha, hn⟩ := hanswering (Or.inr hs)
      have hm : Account env.cfg reqs got done rest
          (if ({ s with mask := mask } : St σ).keepalive
            then expected env.cfg done.length rest else [])
          { s with mask := mask } := ha.silent (List.append_nil _).symm (by simp) rfl rfl
      exact hfile.stage hs hm hn
  | dropKeepalive hfatal =>
      -- a fatal page has sealed the connection already
      obtain ⟨hk, -⟩ := hr.isSealed (List.any_eq_true.2 ⟨_, hfatal, rfl⟩)
      refine hst.silent (trace_dropKeepalive s) (by simp [Ev.isOther, Ev.handed, Ev.isLast]) ?_
      show { s.toConnection with keepalive := false } = s.toConnection
      rw [← hk]

end Moves

end Hottpd
