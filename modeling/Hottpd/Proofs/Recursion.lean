import Hottpd.Proofs.Settled
import Hottpd.Core.World

/-!
# The circle comes to an end

`CheckRequest` is called again from below itself, by the `EndRequest` at the end
of each chain of calls. Every way out of it first takes the header block off
`requestbuf`, and nothing between there and the `EndRequest` puts bytes back, so
the nested call finds a shorter buffer than its caller.

The proof is a congruence: two candidates for the nested call that agree on the
shorter buffers make no difference to the call around them. It makes the fuel of
`checkFuel` irrelevant and `checkRequest` the only function that answers the
recursion of the source.
-/

namespace Hottpd

open Bytes HTTPHeaders

variable {σ : Type} {env : Env} {check check' : St σ → St σ} {n : Nat}

/-! ## Functions that only pass the call on -/

section Congr

variable (hc : ∀ t, t.requestbuf.length < n → check t = check' t)
include hc

theorem endRequest_congr {s : St σ} (hn : s.requestbuf.length < n) :
    endRequest check s = endRequest check' s := by
  rw [endRequest_if, endRequest_if]
  split
  · next h =>
      rw [endStep_of_keepalive h.1]
      exact hc _ hn
  · rfl

theorem sendStaticData_congr {s : St σ} (hn : s.requestbuf.length < n) :
    sendStaticData env check s = sendStaticData env check' s := by
  rcases sendStaticData_cases env s with ⟨calls, -, heq⟩ | ⟨sends, calls, heq⟩ |
    ⟨path, k, sends, calls, -, -, -, -, heq⟩ | ⟨path, k, sends, calls, -, -, -, -, heq⟩
  · rw [heq, heq]
  · rw [heq, heq]
  · rw [heq, heq]
  · rw [heq, heq, endRequest_congr hc (s := filePiece env path k sends calls s) hn]

theorem flushWriteBuf_congr {s : St σ} (hn : s.requestbuf.length < n) :
    flushWriteBuf env [] check s = flushWriteBuf env [] check' s := by
  unfold flushWriteBuf
  rcases flushSend_cases env s with ⟨k, hk, heq⟩ | heq | ⟨sends, heq⟩
  · simp only [heq, if_neg (advanced_sendq_ne hk)]
  · simp only [heq, if_true]
  · obtain ⟨m, hm⟩ : ∃ m, onBufferFlushed ([] : List (Module σ)) (drained s.mask sends s.mods s)
        = drained s.mask sends m s := ⟨_, rfl⟩
    simp only [heq, hm]
    rw [endRequest_congr hc (s := drained s.mask sends m s) hn,
      sendStaticData_congr hc (s := (drained s.mask sends m s).setState .sendData) hn]

variable (env) in
theorem sendError_congr (code : Nat) (text : Bytes) (fatal : Bool) {s : St σ}
    (hn : s.requestbuf.length < n) :
    sendError env [] check code text fatal s = sendError env [] check' code text fatal s := by
  have hq : (queueError env code text fatal s).requestbuf.length < n := by
    rw [queueError_eq]
    exact hn
  rw [sendError_eq, sendError_eq, flushWriteBuf_congr hc hq]

variable (env) in
theorem sendHeaders_congr (size code : Nat) (text : Bytes) {s : St σ}
    (hn : s.requestbuf.length < n) :
    sendHeaders env check size code text clear s = sendHeaders env check' size code text clear s := by
  have hw : (writeHeaders env size code text clear s).requestbuf.length < n := by
    rw [writeHeaders_eq _ _ _ _ core_no_connection.1]
    exact hn
  unfold sendHeaders
  dsimp only
  rw [endRequest_congr hc hw]

theorem serveData_congr {s : St σ} (hn : s.requestbuf.length < n) :
    serveData env [] check s = serveData env [] check' s := by
  unfold serveData
  split
  · next code text s' hres =>
      obtain ⟨upath, filefd, calls, -, rfl⟩ := resolveFile_error hres
      exact sendError_congr env hc code text false hn
  · next size s' hres =>
      obtain ⟨path, fst, calls, k, -, -, rfl⟩ := resolveFile_ok hres
      exact sendHeaders_congr env hc size 200 (str "OK") hn

theorem dispatchRequest_congr {s : St σ} (hn : s.requestbuf.length < n) :
    dispatchRequest env [] check s = dispatchRequest env [] check' s := by
  unfold dispatchRequest
  dsimp only [foreachResult]
  have hunheard : ¬ (0 : Int) = 1 := by decide
  rw [if_neg hunheard, if_neg hunheard]
  split
  · exact sendError_congr env hc 501 (str "Not Implemented") true hn
  · exact serveData_congr hc hn

theorem actOnRequest_congr {reqend : Nat} {s : St σ}
    (hn : (s.requestbuf.drop (reqend + 4)).length < n) :
    actOnRequest env [] check reqend s = actOnRequest env [] check' reqend s := by
  have htaken : (takenRequest env reqend s).requestbuf.length < n := by
    obtain ⟨_, _, _, _, _, _, -, heq⟩ := takenRequest_eq env reqend s
    rw [heq]
    exact hn
  cases hv : (takeRequest env.cfg reqend s.toConnection).2 with
  | reject code text fatal =>
      rw [actOnRequest_reject hv, actOnRequest_reject hv]
      exact sendError_congr env hc code text fatal htaken
  | body => rw [actOnRequest_body hv, actOnRequest_body hv]
  | dispatch =>
      rw [actOnRequest_dispatch hv, actOnRequest_dispatch hv]
      exact dispatchRequest_congr hc htaken

end Congr

/-! ## The nested call -/

/-- What the nested call does matters on shorter buffers only. -/
theorem checkOnce_congr {newpos : Nat} {s : St σ}
    (hc : ∀ t, t.requestbuf.length < s.requestbuf.length → check t = check' t) :
    checkOnce env [] check newpos s = checkOnce env [] check' newpos s := by
  unfold checkOnce
  split
  · rfl
  · next reqend hend => exact actOnRequest_congr hc (findRequestEnd_drop hend)

variable (env) in
/-- Any two fuels above the length of the buffer give the same. -/
theorem checkFuel_congr (fuel : Nat) : ∀ {fuel' newpos : Nat} {s : St σ},
    s.requestbuf.length < fuel → s.requestbuf.length < fuel' →
    checkFuel env [] fuel newpos s = checkFuel env [] fuel' newpos s := by
  induction fuel with
  | zero =>
      intro fuel' newpos s h _
      exact absurd h (Nat.not_lt_zero _)
  | succ fuel ih =>
      intro fuel' newpos s h h'
      obtain ⟨fuel', rfl⟩ : ∃ k, fuel' = k + 1 := ⟨fuel' - 1, by omega⟩
      rw [checkFuel, checkFuel]
      refine checkOnce_congr fun t ht => ?_
      exact ih (by omega) (by omega)

/-- The recursion of the source, without fuel. -/
theorem checkRequest_eq (newpos : Nat) (s : St σ) :
    checkRequest env [] newpos s = checkOnce env [] (checkRequest env [] 0) newpos s := by
  rw [checkRequest, checkFuel]
  refine checkOnce_congr fun t ht => ?_
  exact checkFuel_congr env _ ht (Nat.lt_succ_self _)

theorem checkRequest_unique {f : Nat → St σ → St σ}
    (hf : ∀ newpos s, f newpos s = checkOnce env [] (f 0) newpos s) (newpos : Nat) (s : St σ) :
    f newpos s = checkRequest env [] newpos s := by
  induction hlen : s.requestbuf.length using Nat.strongRecOn generalizing newpos s with
  | ind k ih =>
      rw [hf, checkRequest_eq]
      refine checkOnce_congr fun t ht => ?_
      exact ih _ (hlen ▸ ht) 0 t rfl

/-- The circle ends for every buffer, configuration and environment. A header block that is
found is gone from the buffer on every way out; what a nested `CheckRequest` does matters on
shorter buffers only; and so the recursion has one solution, which any fuel above the length
of the buffer computes. -/
theorem recursion_ends (env : Env) (newpos : Nat) (s : St σ) :
    (∀ reqend, findRequestEnd s.requestbuf newpos = some reqend →
      (takeRequest env.cfg reqend s.toConnection).1.requestbuf.length < s.requestbuf.length) ∧
    (∀ check check' : St σ → St σ,
      (∀ t, t.requestbuf.length < s.requestbuf.length → check t = check' t) →
      checkOnce env [] check newpos s = checkOnce env [] check' newpos s) ∧
    checkRequest env [] newpos s = checkOnce env [] (checkRequest env [] 0) newpos s ∧
    (∀ f : Nat → St σ → St σ,
      (∀ newpos s, f newpos s = checkOnce env [] (f 0) newpos s) →
      f newpos s = checkRequest env [] newpos s) ∧
    (∀ fuel, s.requestbuf.length < fuel →
      checkFuel env [] fuel newpos s = checkRequest env [] newpos s) := by
  refine ⟨fun reqend hend => ?_, fun _ _ hc => checkOnce_congr hc, checkRequest_eq newpos s,
    fun f hf => checkRequest_unique hf newpos s, fun fuel hfuel => ?_⟩
  · obtain ⟨_, _, _, _, _, _, -, heq⟩ := takenRequest_eq env reqend s
    have htaken : (takenRequest env reqend s).requestbuf = s.requestbuf.drop (reqend + 4) := by
      rw [heq]
    show (takenRequest env reqend s).requestbuf.length < s.requestbuf.length
    rw [htaken]
    exact findRequestEnd_drop hend
  · exact checkFuel_congr env fuel hfuel (Nat.lt_succ_self _)

/-! ## Between events -/

/-- On a connection that waits for a request there is no complete header block left, and
whatever comes in next, `CheckRequest` finds from `newpos - 3` on what it would have found from
the beginning. -/
theorem waiting_none_left (env : Env) (m : σ) {evs : List Event}
    (hs : (run env [] m evs).state = .waitRequest) (a : Bytes) :
    find terminator (run env [] m evs).requestbuf = none ∧
      findRequestEnd ((run env [] m evs).requestbuf ++ a) (run env [] m evs).requestbuf.length
        = find terminator ((run env [] m evs).requestbuf ++ a) ∧
      (∀ s : St σ, s.requestbuf = (run env [] m evs).requestbuf ++ a →
        checkRequest env [] (run env [] m evs).requestbuf.length s
          = checkRequest env [] 0 s) := by
  have hnone := ((run_settled m evs).request hs).2
  have hresumed := findRequestEnd_append a hnone
  refine ⟨hnone, hresumed.trans (findRequestEnd_zero _), fun s hbuf => ?_⟩
  rw [checkRequest_eq, checkRequest_eq, checkOnce, checkOnce, hbuf, hresumed]

/-- Two pipelined requests, and the first bytes of a third. -/
def threePipelined : List Event :=
  chunks ["GET / HTTP/1.1\r\n\r\nGET /b HTTP/1.1\r\n\r\nGET /c HT", ""]

theorem waiting_none_left_pipelined :
    find terminator (run (smallWorld [] (str "x") eager) [] () threePipelined).requestbuf = none ∧
      (run (smallWorld [] (str "x") eager) [] () threePipelined).requestbuf = str "GET /c HT" :=
  ⟨(@waiting_none_left Unit (smallWorld [] (str "x") eager) () threePipelined
    (by decide +kernel) []).1, by decide +kernel⟩

end Hottpd
