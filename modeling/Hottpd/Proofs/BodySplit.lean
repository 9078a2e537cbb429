import Hottpd.Lib.Runs
import Hottpd.Core.World
import Hottpd.Proofs.Refine

/-!
# Where the bytes of a body go

`AddBuffer` knows how many bytes of the body remain, and that number is right: a
body is never longer than announced, whatever the modules do. Up to the end of
the body the bytes are filed where they belong. The chunk that goes beyond it is
split, but then all of it is put into `requestbuf`, the bytes of the body with
the rest.
-/

namespace Hottpd

open Bytes

variable {σ : Type} {env : Env} {mods : List (Module σ)}

/-! ## No body is too long -/

/-- The bytes of a body fit into what its header block announced. -/
structure Bounded (s : St σ) : Prop where
  waiting : s.state = .waitRequest → s.requestBody = []
  receiving : s.state = .recvReqbody → s.requestBody.length ≤ s.requestBodyLength
  length : s.requestBodyLength < 2 ^ 32

theorem bounded_of_state {s : St σ} (hwait : s.state ≠ .waitRequest)
    (hrecv : s.state ≠ .recvReqbody) (hlen : s.requestBodyLength < 2 ^ 32) : Bounded s :=
  ⟨fun h => absurd h hwait, fun h => absurd h hrecv, hlen⟩

theorem bounded_delete {s : St σ} (hlen : s.requestBodyLength < 2 ^ 32) : Bounded (delete s) := by
  rw [delete_eq]
  exact bounded_of_state (by simp) (by simp) hlen

theorem bounded_endStep {s : St σ} (hlen : s.requestBodyLength < 2 ^ 32) :
    Bounded (endStep s) := by
  cases hk : s.keepalive with
  | false =>
      rw [endStep_of_close hk]
      exact bounded_of_state (by simp) (by simp) hlen
  | true =>
      rw [endStep_of_keepalive hk]
      exact ⟨fun _ => rfl, fun h => (by cases h), Nat.two_pow_pos 32⟩

theorem Page.bounded {code : Nat} {text : Bytes} {fatal : Bool} {s s' : St σ}
    (h : Page env code text fatal s s') (hlen : s.requestBodyLength < 2 ^ 32) : Bounded s' := by
  have hqueued : ∀ fatal, Bounded (queueError env code text fatal s) := by
    intro fatal
    rw [queueError_eq]
    exact bounded_of_state (by simp) (by simp) hlen
  cases h with
  | queued => exact hqueued fatal
  | held => exact { hqueued true with }
  | failed => exact { bounded_delete (hqueued true).length with }
  | sent => exact bounded_endStep (hqueued true).length

theorem Serve.bounded {s s' : St σ} (h : Serve env s s') (hlen : s.requestBodyLength < 2 ^ 32) :
    Bounded s' := by
  cases h with
  | page hres hpage =>
      obtain ⟨upath, filefd, calls, -, rfl⟩ := resolveFile_error hres
      exact hpage.bounded hlen
  | file hres =>
      obtain ⟨path, fst, calls, n, -, -, rfl⟩ := resolveFile_ok hres
      rw [writeHeaders_eq _ _ _ _ core_no_connection.1]
      exact bounded_of_state (by simp) (by simp) hlen
  | empty hres =>
      obtain ⟨path, fst, calls, n, -, -, rfl⟩ := resolveFile_ok hres
      rw [writeHeaders_eq _ _ _ _ core_no_connection.1]
      exact bounded_endStep hlen

theorem FileOut.bounded {s s' : St σ} (h : FileOut env s s') (hs : s.state = .sendData)
    (hlen : s.requestBodyLength < 2 ^ 32) : Bounded s' := by
  cases h with
  | lost => exact bounded_delete (bounded_delete hlen).length
  | failed => exact bounded_delete hlen
  | piece =>
      refine bounded_of_state ?_ ?_ hlen
      · show s.state ≠ _
        rw [hs]
        decide
      · show s.state ≠ _
        rw [hs]
        decide
  | done => exact bounded_endStep hlen

/-- Reading the lines of a header block does not touch the length. -/
theorem parseLines_length (lines : List Bytes) (c : Connection) :
    (leftBy (parseLines c lines)).requestBodyLength = c.requestBodyLength := by
  refine parseLines_keeps (P := fun c c' => c'.requestBodyLength = c.requestBodyLength)
    (fun _ => rfl) (fun h h' => h'.trans h) (fun c line => ?_) (fun c line => ?_) lines c
  · simp only [requestLine]
    split
    · rfl
    · split
      · rfl
      · split
        · rfl
        · rfl
  · unfold headerLine
    split
    · rfl
    · split
      · rfl
      · rfl

theorem takeRequest_length {cfg : Config} {reqend : Nat} {c : Connection}
    (hlen : c.requestBodyLength < 2 ^ 32) :
    (takeRequest cfg reqend c).1.requestBodyLength < 2 ^ 32 := by
  have hparsed := parseLines_length (crlfLines c.requestbuf) c
  rw [takeRequest]
  split
  · next c' verdict heq =>
      rw [heq] at hparsed
      show c'.requestBodyLength < 2 ^ 32
      rw [show c'.requestBodyLength = c.requestBodyLength from hparsed]
      exact hlen
  · next c' heq =>
      rw [heq] at hparsed
      have hkept : c'.requestBodyLength < 2 ^ 32 := by
        rw [show c'.requestBodyLength = c.requestBodyLength from hparsed]
        exact hlen
      unfold checkHeaders
      split
      · exact hkept
      · dsimp only
        split
        · rw [atoi, toUnsigned]
          omega
        · exact hkept

/-! ## Filing a chunk -/

/-- A chunk that does not go beyond the body. -/
theorem takeBody_within {a : Bytes} {s : St σ} (hlen : s.requestBodyLength < 2 ^ 32)
    (hfits : s.requestBody.length + a.length ≤ s.requestBodyLength) :
    takeBody a s = { s with requestBody := s.requestBody ++ a } := by
  have hremains : sizeSub s.requestBodyLength s.requestBody.length % 2 ^ 32
      = s.requestBodyLength - s.requestBody.length := by
    rw [sizeSub, if_pos (by omega)]
    omega
  rw [takeBody, hremains, if_neg (by omega)]

/-- A chunk that does: all of it goes into `requestbuf`. -/
theorem takeBody_beyond {a : Bytes} {s : St σ} (hlen : s.requestBodyLength < 2 ^ 32)
    (hle : s.requestBody.length ≤ s.requestBodyLength)
    (hbeyond : s.requestBodyLength < s.requestBody.length + a.length) :
    takeBody a s = { s with
      requestBody := s.requestBody ++ a.take (s.requestBodyLength - s.requestBody.length)
      requestbuf := s.requestbuf ++ a } := by
  have hremains : sizeSub s.requestBodyLength s.requestBody.length % 2 ^ 32
      = s.requestBodyLength - s.requestBody.length := by
    rw [sizeSub, if_pos hle]
    omega
  rw [takeBody, hremains, if_pos (by omega)]

theorem takeBody_nil (s : St σ) : takeBody [] s = s := by
  rw [takeBody, if_neg (by simp), List.append_nil]

theorem takeBody_bounded {a : Bytes} {s : St σ} (h : Bounded s) (hs : s.state = .recvReqbody) :
    Bounded (takeBody a s) := by
  have hle := h.receiving hs
  by_cases hfits : s.requestBody.length + a.length ≤ s.requestBodyLength
  · rw [takeBody_within h.length hfits]
    refine ⟨fun hw => ?_, fun _ => ?_, h.length⟩
    · exact absurd (hs.symm.trans hw) (by decide)
    · show (s.requestBody ++ a).length ≤ s.requestBodyLength
      rw [List.length_append]
      exact hfits
  · rw [takeBody_beyond h.length hle (by omega)]
    refine ⟨fun hw => ?_, fun _ => ?_, h.length⟩
    · exact absurd (hs.symm.trans hw) (by decide)
    · show (s.requestBody ++ a.take _).length ≤ s.requestBodyLength
      rw [List.length_append, List.length_take]
      omega

/-! ## Every run -/

variable (env) in
theorem takenRequest_bounded {reqend : Nat} {s : St σ} (h : Bounded s)
    (hs : s.state = .waitRequest) :
    Bounded (takenRequest env reqend s) ∧ (takenRequest env reqend s).requestBody = [] := by
  have hlen : (takenRequest env reqend s).requestBodyLength < 2 ^ 32 := takeRequest_length h.length
  obtain ⟨_, _, _, _, _, _, -, heq⟩ := takenRequest_eq env reqend s
  rw [heq] at hlen ⊢
  refine ⟨⟨h.waiting, fun hrecv => ?_, hlen⟩, h.waiting hs⟩
  exact absurd (hs.symm.trans hrecv) (by decide)

theorem Move.bounded {s s' : St σ} (h : Move env mods true s s') (hb : Bounded s) :
    Bounded s' := by
  cases h with
  | receive | dropKeepalive | modBufferDone | modState | advance | flushed => exact { hb with }
  | receiveBody hs => exact takeBody_bounded hb hs
  | refuse hs _ _ hpage => exact hpage.bounded (takenRequest_bounded env hb hs).1.length
  | accept hs =>
      obtain ⟨htaken, hbody⟩ := takenRequest_bounded env hb hs
      refine ⟨fun hw => (by cases hw), fun _ => ?_, htaken.length⟩
      show (takenRequest env _ s).requestBody.length ≤ _
      rw [hbody]
      exact Nat.zero_le _
  | claim hs => exact { (takenRequest_bounded env hb hs).1 with }
  | notImplemented hs _ _ _ _ hs₁ _ hpage =>
      subst hs₁
      exact hpage.bounded (takenRequest_bounded env hb hs).1.length
  | serve hs _ _ _ _ hs₁ _ hserve =>
      subst hs₁
      exact hserve.bounded (takenRequest_bounded env hb hs).1.length
  | serveBody _ _ hserve => exact hserve.bounded hb.length
  | sendFailed | drop => exact bounded_delete hb.length
  | pageDone => exact bounded_endStep hb.length
  | fileStart _ _ _ hfile => exact hfile.bounded rfl hb.length
  | filePart _ hs _ hfile => exact hfile.bounded hs hb.length
  | modError _ hpage => exact hpage.bounded hb.length
  | modHeaders =>
      rw [writeHeaders_eq _ _ _ _ core_no_connection.1]
      exact bounded_of_state (by simp) (by simp) hb.length
  | modEmpty =>
      rw [writeHeaders_eq _ _ _ _ core_no_connection.1]
      exact bounded_endStep hb.length
  | modSendData => exact ⟨fun hw => (by cases hw), fun hr => (by cases hr), hb.length⟩
  | modWrite =>
      rw [write_eq]
      exact { hb with }

theorem run_bounded (m : σ) (evs : List Event) : Bounded (run env mods m evs) :=
  run_invariant m evs ⟨fun _ => rfl, fun h => (by cases h), Nat.two_pow_pos 32⟩ Move.bounded

/-! ## Sequences of chunks -/

/-- The body is complete. -/
def bodyComplete (s : St σ) : Bool := s.requestBody.length = s.requestBodyLength

/-- The connection when `AddBuffer` has filed a chunk: where it goes on to serve the request
if the body is complete with it, and otherwise where it returns. A complete body is not
added to. -/
def fileChunk (env : Env) (mods : List (Module σ)) (s : St σ) (a : Bytes) : Option (St σ) :=
  if bodyComplete s then none
  else if bodyComplete (takeBody a s) then some (takeBody a s)
  else some (addBuffer env mods a s).2

/-- What is promised of the chunks filed since `s`: the body is not too long, and what was
added to it and to `requestbuf` is what came in, in its order, `requestbuf` having only what
comes behind a complete body. -/
structure Filed (s : St σ) (chunks : List Bytes) (s' : St σ) : Prop where
  bounded : s'.requestBody.length ≤ s'.requestBodyLength
  split : ∃ beyond, s'.requestbuf = s.requestbuf ++ beyond ∧
    s'.requestBody ++ beyond = s.requestBody ++ chunks.flatten ∧
    (beyond ≠ [] → bodyComplete s' = true)

theorem fileChunk_eq {s : St σ} (hs : s.state = .recvReqbody) (a : Bytes) :
    fileChunk env mods s a = if bodyComplete s then none else some (takeBody a s) := by
  unfold fileChunk
  split
  · rfl
  · split
    · rfl
    · next hmore =>
        have hincomplete : ¬(takeBody a s).requestBody.length
            = (takeBody a s).requestBodyLength := by simpa [bodyComplete] using hmore
        by_cases ha : a = []
        · subst ha
          rw [takeBody_nil]
          rfl
        · rw [addBuffer, if_neg ha, if_pos hs]
          dsimp only
          rw [if_neg hincomplete]
          rfl

/-- The chunks are filed as promised, one after the other. -/
def AllFiled (env : Env) (mods : List (Module σ)) (s : St σ) (chunks : List Bytes) : Prop :=
  ∀ past s', past <+: chunks → Runs.run (fileChunk env mods) s past = some s' → Filed s past s'

/-- No chunk begins before the end of the body, `rest` bytes away, and goes beyond it. -/
def WithinBody (rest : Nat) (chunks : List Bytes) : Prop :=
  ∀ past a, past ++ [a] <+: chunks → past.flatten.length < rest →
    (past ++ [a]).flatten.length ≤ rest

section Chunks

variable {s : St σ} {rest : Nat}

/-- The chunks up to here are in the body. -/
def collected (s : St σ) (past : List Bytes) : St σ :=
  { s with requestBody := s.requestBody ++ past.flatten }

/-- The next chunk comes behind those that are in the body. -/
theorem takeBody_collected (h : Bounded s)
    (hrest : s.requestBody.length + rest = s.requestBodyLength)
    {past : List Bytes} {a : Bytes} (hfits : (past ++ [a]).flatten.length ≤ rest) :
    takeBody a (collected s past) = collected s (past ++ [a]) := by
  have hlength : (past ++ [a]).flatten.length = past.flatten.length + a.length := by
    rw [List.flatten_concat, List.length_append]
  rw [takeBody_within (s := collected s past) h.length]
  · show ({ s with requestBody := _ } : St σ) = { s with requestBody := _ }
    rw [List.flatten_concat, ← List.append_assoc]
    rfl
  · show (s.requestBody ++ past.flatten).length + a.length ≤ s.requestBodyLength
    rw [List.length_append]
    omega

/-- The body is complete when as many bytes have come in as were missing. -/
theorem bodyComplete_collected (hrest : s.requestBody.length + rest = s.requestBodyLength)
    (past : List Bytes) :
    bodyComplete (collected s past) = decide (past.flatten.length = rest) := by
  rw [bodyComplete, collected]
  simp only [List.length_append, decide_eq_decide]
  omega

theorem fileChunk_collected (hs : s.state = .recvReqbody)
    (hrest : s.requestBody.length + rest = s.requestBodyLength) {past : List Bytes} (a : Bytes) :
    fileChunk env mods (collected s past) a =
      if past.flatten.length = rest then none else some (takeBody a (collected s past)) := by
  rw [fileChunk_eq (s := collected s past) hs, bodyComplete_collected hrest]
  simp

/-- As long as no chunk goes beyond the body, all of them are in it. -/
theorem filed_within (h : Bounded s) (hs : s.state = .recvReqbody)
    (hrest : s.requestBody.length + rest = s.requestBodyLength) : ∀ {past : List Bytes} {s' : St σ},
    WithinBody rest past → Runs.run (fileChunk env mods) s past = some s' →
    s' = collected s past ∧ past.flatten.length ≤ rest := by
  intro past
  induction past using List.reverseRecOn with
  | nil =>
      intro s' _ hrun
      cases hrun
      exact ⟨by simp [collected], Nat.zero_le _⟩
  | append_singleton past a ih =>
      intro s' hwithin hrun
      rw [Runs.run_concat] at hrun
      obtain ⟨s₁, hs₁, hstep⟩ := Option.bind_eq_some_iff.1 hrun
      obtain ⟨rfl, hle⟩ :=
        ih (fun p b hp => hwithin p b (hp.trans (List.prefix_append past [a]))) hs₁
      rw [fileChunk_collected hs hrest] at hstep
      split at hstep
      · cases hstep
      · next hmore =>
          cases hstep
          have hfits := hwithin past a (List.prefix_refl _) (by omega)
          exact ⟨takeBody_collected h hrest hfits, hfits⟩

/-- Before the body is complete every chunk is filed. -/
theorem filed_before (h : Bounded s) (hs : s.state = .recvReqbody)
    (hrest : s.requestBody.length + rest = s.requestBodyLength) : ∀ {past : List Bytes},
    past.flatten.length < rest →
    Runs.run (fileChunk env mods) s past = some (collected s past) := by
  intro past
  induction past using List.reverseRecOn with
  | nil =>
      intro _
      simp [collected]
  | append_singleton past a ih =>
      intro hshort
      have hlength : (past ++ [a]).flatten.length = past.flatten.length + a.length := by
        rw [List.flatten_concat, List.length_append]
      rw [Runs.run_concat, ih (by omega), Option.bind_some, fileChunk_collected hs hrest,
        if_neg (by omega), takeBody_collected h hrest (by omega)]

/-- The chunk that goes beyond is not filed as promised. -/
theorem not_filed_beyond (h : Bounded s) (hrest : s.requestBody.length + rest = s.requestBodyLength)
    {past : List Bytes} {a : Bytes} (hshort : past.flatten.length < rest)
    (hbeyond : rest < (past ++ [a]).flatten.length) :
    ¬Filed s (past ++ [a]) (takeBody a (collected s past)) := by
  rintro ⟨-, beyond, hbuf, hall, -⟩
  have hlength : (past ++ [a]).flatten.length = past.flatten.length + a.length := by
    rw [List.flatten_concat, List.length_append]
  have hbody : (collected s past).requestBody.length = s.requestBody.length + past.flatten.length :=
    List.length_append
  have hannounced : (collected s past).requestBodyLength = s.requestBodyLength := rfl
  have heq := takeBody_beyond (a := a) (s := collected s past) h.length (by omega) (by omega)
  -- the whole chunk is in the buffer, and its beginning in the body as well
  have hfull : (takeBody a (collected s past)).requestBody.length = s.requestBodyLength := by
    rw [heq]
    show ((collected s past).requestBody ++ a.take _).length = s.requestBodyLength
    rw [List.length_append, List.length_take]
    omega
  have hbuffered : a = beyond := by
    rw [heq] at hbuf
    exact List.append_cancel_left hbuf
  have hcount := congrArg List.length hall
  rw [List.length_append, List.length_append, hfull, hlength, ← hbuffered] at hcount
  omega

/-- What is filed within the body is filed as promised. -/
theorem filed_collected (hrest : s.requestBody.length + rest = s.requestBodyLength)
    {past : List Bytes} (hle : past.flatten.length ≤ rest) : Filed s past (collected s past) := by
  refine ⟨?_, [], (List.append_nil _).symm, List.append_nil _, fun hne => absurd rfl hne⟩
  show (s.requestBody ++ past.flatten).length ≤ s.requestBodyLength
  rw [List.length_append]
  omega

end Chunks

/-- On a connection that receives a body, whatever its server's modules: as the chunks come in
they are filed as promised if and only if none goes beyond the end of the body. -/
theorem body_filed (env : Env) (mods : List (Module σ)) (m : σ) (evs : List Event)
    (hs : (run env mods m evs).state = .recvReqbody) (chunks : List Bytes) :
    AllFiled env mods (run env mods m evs) chunks ↔
      WithinBody ((run env mods m evs).requestBodyLength - (run env mods m evs).requestBody.length)
        chunks := by
  have h : Bounded (run env mods m evs) := run_bounded m evs
  have hle := h.receiving hs
  have hrest : (run env mods m evs).requestBody.length + ((run env mods m evs).requestBodyLength
      - (run env mods m evs).requestBody.length) = (run env mods m evs).requestBodyLength := by
    omega
  constructor
  · intro hfiled past a hpre hshort
    by_contra hbeyond
    refine not_filed_beyond h hrest hshort (Nat.lt_of_not_le hbeyond)
      (hfiled (past ++ [a]) _ hpre ?_)
    rw [Runs.run_concat, filed_before h hs hrest hshort, Option.bind_some,
      fileChunk_collected hs hrest, if_neg (Nat.ne_of_lt hshort)]
  · intro hwithin past s' hpre hrun
    obtain ⟨rfl, hfits⟩ :=
      filed_within h hs hrest (fun p a hp => hwithin p a (hp.trans hpre)) hrun
    exact filed_collected hrest hfits

/-- A request that announces four bytes, with two of them. -/
def twoOfFour : St Unit :=
  plainRun (smallWorld [] (str "x") eager) ["POST / HTTP/1.1\r\nContent-Length: 4\r\n\r\n", "ab"]

theorem body_filed_whole :
    AllFiled (smallWorld [] (str "x") eager) [] twoOfFour [str "c", str "d"] := by
  refine (body_filed _ [] () _ (by decide +kernel) _).2 fun past a hpre _ => ?_
  obtain ⟨more, hmore⟩ := hpre
  have htotal := congrArg (fun l : List Bytes => l.flatten.length) hmore
  have hrest : twoOfFour.requestBodyLength - twoOfFour.requestBody.length = 2 := by
    decide +kernel
  rw [List.flatten_append, List.length_append] at htotal
  have hsum : [str "c", str "d"].flatten.length = 2 := by decide
  exact Nat.le_trans (by omega) (Nat.le_of_eq hrest.symm)

/-- The rest of the body and the beginning of the next request in one chunk: two bytes are
filed twice. -/
theorem body_misfiled :
    ¬AllFiled (smallWorld [] (str "x") eager) [] twoOfFour [str "cdGET"] := by
  intro h
  have hbounded : Bounded twoOfFour := run_bounded () _
  have hs : twoOfFour.state = .recvReqbody := by decide +kernel
  have hrest : twoOfFour.requestBody.length + 2 = twoOfFour.requestBodyLength := by
    decide +kernel
  have hbegin : Runs.run (fileChunk (smallWorld [] (str "x") eager) []) twoOfFour []
      = some (collected twoOfFour []) := filed_before hbounded hs hrest (by decide)
  refine not_filed_beyond hbounded hrest (by decide : ([] : List Bytes).flatten.length < 2)
    (by decide) (h [str "cdGET"] _ (List.prefix_refl _) ?_)
  rw [← List.nil_append [str "cdGET"], Runs.run_concat, hbegin, Option.bind_some,
    fileChunk_collected hs hrest, if_neg (by decide)]

end Hottpd
