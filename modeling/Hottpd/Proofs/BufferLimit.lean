import Hottpd.Proofs.BodySplit

/-!
# How much waits in `requestbuf`

Bytes come into `requestbuf` in `AddBuffer` alone; everything else at most takes
a header block off it. `AddBuffer` tests the limit where it returns, except when
a body is complete with the chunk: then it serves the request and returns at
once. A chunk that goes beyond the body is in `requestbuf` by then.
-/

namespace Hottpd

open Bytes HTTPHeaders

variable {σ : Type} {env : Env} {mods : List (Module σ)}

/-- No more than `n` bytes wait, and if the connection is to go, it goes. -/
structure Waiting (n : Nat) (gone : Bool) (s : St σ) : Prop where
  length : s.requestbuf.length ≤ n
  quitting : gone = true → s.quitting = true

variable {n : Nat} {gone : Bool}

theorem waiting_self (s : St σ) : Waiting s.requestbuf.length s.quitting s :=
  ⟨Nat.le_refl _, id⟩

theorem waiting_delete {s : St σ} (h : Waiting n gone s) : Waiting n gone (delete s) := by
  rw [delete_eq]
  exact ⟨h.length, fun _ => rfl⟩

theorem waiting_endStep {s : St σ} (h : Waiting n gone s) : Waiting n gone (endStep s) := by
  cases hk : s.keepalive with
  | false =>
      rw [endStep_of_close hk]
      exact ⟨h.length, fun _ => rfl⟩
  | true =>
      rw [endStep_of_keepalive hk]
      exact { h with }

theorem waiting_writeHeaders {size code : Nat} {text : Bytes} {s : St σ}
    (h : Waiting n gone s) : Waiting n gone (writeHeaders env size code text clear s) := by
  rw [writeHeaders_eq _ _ _ _ core_no_connection.1]
  exact { h with }

theorem waiting_queueError {code : Nat} {text : Bytes} {s : St σ} (fatal : Bool)
    (h : Waiting n gone s) : Waiting n gone (queueError env code text fatal s) := by
  rw [queueError_eq]
  exact { h with }

theorem waiting_takenRequest {reqend : Nat} {s : St σ} (h : Waiting n gone s) :
    Waiting n gone (takenRequest env reqend s) := by
  obtain ⟨_, _, _, _, _, _, -, heq⟩ := takenRequest_eq env reqend s
  rw [heq]
  refine ⟨?_, h.quitting⟩
  show (s.requestbuf.drop (reqend + 4)).length ≤ n
  have := h.length
  rw [List.length_drop]
  omega

theorem waiting_hooked {m : σ} {evs : List Ev} {reqend : Nat} {s : St σ}
    (h : Waiting n gone s) :
    Waiting n gone (hooked m evs (cleaned (takenRequest env reqend s))) :=
  { (waiting_takenRequest h : Waiting n gone (takenRequest env reqend s)) with }

theorem Page.waiting {code : Nat} {text : Bytes} {fatal : Bool} {s s' : St σ}
    (h : Page env code text fatal s s') (hs : Waiting n gone s) : Waiting n gone s' := by
  cases h with
  | queued => exact waiting_queueError fatal hs
  | held =>
      have hqueued : Waiting n gone (queueError env code text true s) := waiting_queueError true hs
      exact { hqueued with }
  | failed =>
      have hqueued : Waiting n gone (queueError env code text true s) := waiting_queueError true hs
      exact { waiting_delete { hqueued with } with }
  | sent =>
      have hqueued : Waiting n gone (queueError env code text true s) := waiting_queueError true hs
      exact waiting_endStep { hqueued with }

theorem Serve.waiting {s s' : St σ} (h : Serve env s s') (hs : Waiting n gone s) :
    Waiting n gone s' := by
  cases h with
  | page hres hpage =>
      obtain ⟨upath, filefd, calls, -, rfl⟩ := resolveFile_error hres
      exact hpage.waiting { hs with }
  | file hres =>
      obtain ⟨path, fst, calls, n, -, -, rfl⟩ := resolveFile_ok hres
      exact waiting_writeHeaders { hs with }
  | empty hres =>
      obtain ⟨path, fst, calls, n, -, -, rfl⟩ := resolveFile_ok hres
      exact waiting_endStep (waiting_writeHeaders { hs with })

theorem FileOut.waiting {s s' : St σ} (h : FileOut env s s') (hs : Waiting n gone s) :
    Waiting n gone s' := by
  cases h with
  | lost => exact waiting_delete { waiting_delete hs with }
  | failed => exact waiting_delete { hs with }
  | piece => exact { hs with }
  | done => exact waiting_endStep { hs with }

/-- No move but the arrival of bytes adds to `requestbuf`. -/
theorem Move.waiting {s s' : St σ} (h : Move env mods false s s') (hs : Waiting n gone s) :
    Waiting n gone s' := by
  cases h with
  | receive _ hin | receiveBody _ _ hin => cases hin
  | refuse _ _ _ hpage => exact hpage.waiting (waiting_takenRequest hs)
  | accept =>
      have htaken : ∀ reqend, Waiting n gone (takenRequest env reqend s) :=
        fun _ => waiting_takenRequest hs
      exact { htaken _ with }
  | claim => exact waiting_hooked hs
  | notImplemented _ _ _ _ _ hs₁ _ hpage =>
      subst hs₁
      exact hpage.waiting (waiting_hooked hs)
  | serve _ _ _ _ _ hs₁ _ hserve =>
      subst hs₁
      exact hserve.waiting (waiting_hooked hs)
  | serveBody _ _ hserve => exact hserve.waiting hs
  | advance | flushed | dropKeepalive | modSendData | modBufferDone | modState =>
      exact { hs with }
  | sendFailed => exact waiting_delete { hs with }
  | pageDone => exact waiting_endStep { hs with }
  | fileStart _ _ _ hfile | filePart _ _ _ hfile => exact hfile.waiting { hs with }
  | drop => exact waiting_delete hs
  | modError _ hpage => exact hpage.waiting hs
  | modHeaders => exact waiting_writeHeaders hs
  | modEmpty => exact waiting_endStep (waiting_writeHeaders hs)
  | modWrite =>
      rw [write_eq]
      exact { hs with }

theorem Moves.waiting {s s' : St σ} (h : Moves env mods false s s') :
    Waiting s.requestbuf.length s.quitting s' :=
  Transition.invariant (R := Move env mods false) Move.waiting h (waiting_self s)

/-! ## The limit -/

/-- The chunk goes beyond the end of a body, and what waits in `requestbuf` is over the limit
with it. -/
def Overruns (s : St σ) (a : Bytes) : Prop :=
  s.state = .recvReqbody ∧ s.requestBodyLength < s.requestBody.length + a.length ∧
    5120 < s.requestbuf.length + a.length

instance (s : St σ) (a : Bytes) : Decidable (Overruns s a) := by
  unfold Overruns
  infer_instance

/-- The chunk of a read event, where one is given to `AddBuffer`. -/
def chunkOf (s : St σ) : Event → Option Bytes
  | .read (.data bytes) => if s.quitting then none else some (cstr bytes)
  | _ => none

theorem chunkOf_quitting {s : St σ} {ev : Event} {a : Bytes} (h : chunkOf s ev = some a) :
    s.quitting = false := by
  unfold chunkOf at h
  split at h
  · split at h
    · cases h
    · next hq => exact Bool.eq_false_iff.2 hq
  · cases h

/-- Where `AddBuffer` returns true and the connection stays, no more than 5120 bytes wait. -/
def KeepsLimit (env : Env) (mods : List (Module σ)) (s : St σ) (ev : Event) : Prop :=
  ∀ a, chunkOf s ev = some a → (addBuffer env mods a s).1 = true →
    (addBuffer env mods a s).2.quitting = false →
    (addBuffer env mods a s).2.requestbuf.length ≤ 5120

theorem limited_within {s : St σ} (h : (limited s).1 = true) :
    (limited s).2.requestbuf.length ≤ 5120 := of_decide_eq_true h

theorem addBuffer_limited {a : Bytes} {s : St σ} (hb : Bounded s)
    (hset : mods = [] → Settled s) (hle : s.requestbuf.length ≤ 5120) (hfits : ¬Overruns s a)
    (hok : (addBuffer env mods a s).1 = true) :
    (addBuffer env mods a s).2.requestbuf.length ≤ 5120 := by
  by_cases ha : a = []
  · rw [addBuffer, if_pos ha]
    exact hle
  · by_cases hs : s.state = .recvReqbody
    · -- on the body path `requestbuf` is short before the request is served
      have hfiled : (takeBody a s).requestbuf.length ≤ 5120 := by
        by_cases hin : s.requestBody.length + a.length ≤ s.requestBodyLength
        · rw [takeBody_within hb.length hin]
          exact hle
        · rw [takeBody_beyond hb.length (hb.receiving hs) (by omega)]
          show (s.requestbuf ++ a).length ≤ 5120
          rw [List.length_append]
          by_contra hover
          exact hfits ⟨hs, by omega, by omega⟩
      have hmoves := @addBuffer_moves σ env mods false a s ha hset
      rw [if_pos hs] at hmoves
      exact hmoves.waiting.length.trans hfiled
    · rw [addBuffer, if_neg ha, if_neg hs] at hok ⊢
      dsimp only at hok ⊢
      split at hok
      · next hwait =>
          rw [if_pos hwait]
          exact limited_within hok
      · next hwait =>
          rw [if_neg hwait]
          exact limited_within hok

/-! ## Whole runs -/

/-- What waits is within the limit, unless the connection is to go. -/
def Short (s : St σ) : Prop := s.quitting = false → s.requestbuf.length ≤ 5120

theorem handleEvent_short {ev : Event} {s : St σ} (hb : Bounded s)
    (hset : mods = [] → Settled s) (h : Short s)
    (hfits : ∀ a, chunkOf s ev = some a → ¬Overruns s a) :
    Short (handleEvent env mods ev s) := by
  have hother : arrive ev s = s → Short (handleEvent env mods ev s) := by
    intro harrive hq
    have hmoves : Moves env mods false (arrive ev s) (handleEvent env mods ev s) :=
      handleEvent_moves ev hset
    rw [harrive] at hmoves
    have hkept := hmoves.waiting
    cases hs : s.quitting with
    | false => exact hkept.length.trans (h hs)
    | true => exact absurd (hkept.quitting hs) (by simp [hq])
  cases ev with
  | write | error | timeout | module => exact hother rfl
  | read res =>
      cases res with
      | eof | again | fail => exact hother rfl
      | data bytes =>
          cases hs : s.quitting with
          | true =>
              refine hother ?_
              rw [arrive, if_pos (Or.inl hs)]
          | false =>
              rw [handleEvent, hs, if_neg (by simp), readData]
              dsimp only
              split
              · next hok =>
                  intro _
                  exact addBuffer_limited hb hset (h hs)
                    (hfits _ (by simp [chunkOf, hs])) hok
              · intro hq
                rw [delete_eq] at hq
                cases hq

/-- One event of a connection. -/
abbrev connStep (env : Env) (mods : List (Module σ)) (s : St σ) (ev : Event) : Option (St σ) :=
  some (handleEvent env mods ev s)

/-- No chunk overruns. -/
def Fits (s : St σ) (ev : Event) : Prop := ∀ a, chunkOf s ev = some a → ¬Overruns s a

instance (s : St σ) (ev : Event) : Decidable (Fits s ev) :=
  decidable_of_iff (∀ a ∈ chunkOf s ev, ¬Overruns s a) Iff.rfl

theorem run_short {m : σ} {evs : List Event}
    (h : Runs.EachStep (connStep env mods) (St.init m) evs Fits) :
    Runs.Throughout (connStep env mods) (St.init m) evs
      fun s => (∃ past, s = run env mods m past) ∧ Short s := by
  refine h.invariant ⟨⟨[], rfl⟩, fun _ => Nat.zero_le 5120⟩ ?_
  rintro s ev s' ⟨⟨past, rfl⟩, hshort⟩ hfits hstep
  cases hstep
  refine ⟨⟨past ++ [ev], ?_⟩, ?_⟩
  · rw [run, run, List.foldl_append]
    rfl
  · exact handleEvent_short (run_bounded m past) (settled_of_run m past) hshort hfits

/-- In a run where no chunk goes beyond the end of a body with more than the limit, what waits
behind an `AddBuffer` is within it. -/
theorem run_keepsLimit (env : Env) (mods : List (Module σ)) (m : σ) (evs : List Event)
    (h : Runs.EachStep (connStep env mods) (St.init m) evs Fits) :
    Runs.EachStep (connStep env mods) (St.init m) evs (KeepsLimit env mods) := by
  intro past ev s hpre hrun a ha hok _
  have hreached := run_short h past s ((List.prefix_append past [ev]).trans hpre) hrun
  obtain ⟨⟨before, rfl⟩, hshort⟩ := hreached
  exact addBuffer_limited (run_bounded m before) (settled_of_run m before)
    (hshort (chunkOf_quitting ha)) (h past ev _ hpre hrun a ha) hok

/-- A body of four bytes in two chunks, the second with the beginning of the next request. -/
def bodyAndMore : List Event :=
  [.read (.data (str "POST / HTTP/1.1\r\nContent-Length: 4\r\n\r\n")),
    .read (.data (str "ab")), .read (.data (str "cdGET"))]

theorem run_keepsLimit_bodyAndMore :
    Runs.EachStep (connStep (smallWorld [] (str "x") eager) []) (St.init ()) bodyAndMore
      (KeepsLimit (smallWorld [] (str "x") eager) []) :=
  run_keepsLimit _ [] () bodyAndMore
    (Runs.eachStep_cons rfl (by decide +kernel)
      (Runs.eachStep_cons rfl (by decide +kernel)
        (Runs.eachStep_cons rfl (by decide +kernel) Runs.eachStep_nil)))

/-- A body of one byte is announced. -/
def oneByte : List Event := [.read (.data (str "POST / HTTP/1.1\r\nContent-Length: 1\r\n\r\n"))]

/-- Nothing stops the chunk that completes a body. -/
theorem limit_passed :
    ¬∀ (env : Env) (evs : List Event),
      Runs.EachStep (connStep env ([] : List (Module Unit))) (St.init ()) evs
        (KeepsLimit env []) := by
  intro h
  let env := smallWorld [] (str "x") eager
  let chunk : Bytes := List.replicate 5121 97
  have hcstr : cstr chunk = chunk := by
    refine cstr_eq_self fun h0 => ?_
    have := List.eq_of_mem_replicate h0
    cases this
  have hchunk : chunkOf (run env [] () oneByte) (.read (.data chunk)) = some chunk := by
    rw [chunkOf, if_neg (by decide +kernel), hcstr]
  have hstep := h env (oneByte ++ [.read (.data chunk)]) oneByte (.read (.data chunk))
    (run env [] () oneByte) (List.prefix_refl _) rfl chunk hchunk (by decide +kernel)
    (by decide +kernel)
  revert hstep
  decide +kernel

end Hottpd
