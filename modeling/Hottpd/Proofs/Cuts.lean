import Hottpd.Proofs.Chunking

/-!
# Two ways to cut a stream

The events of a connection bring the stream in chunks. As long as each chunk is
`Apart`, the stage the connection is in is a function of what has arrived, so
two cuts of one stream hand the same requests to `ServeData`.

A chunk that holds a body or a part of it behind a header block is not apart:
`CheckRequest` leaves the bytes in `requestbuf`, where no body is looked for.
-/

namespace Hottpd

open Bytes HTTPHeaders Trace Relation

variable {σ : Type} {env : Env} {m : σ} {reqs : List Message}

/-! ## What the events bring -/

def Event.bytes : Event → Bytes
  | .read (.data bytes) => bytes
  | _ => []

def received (evs : List Event) : Bytes := evs.flatMap Event.bytes

theorem received_append (evs evs' : List Event) :
    received (evs ++ evs') = received evs ++ received evs' := List.flatMap_append

/-- The bytes that `ev` brings are those of a body where the connection waits
for a body, and no others. -/
def Apart (env : Env) (m : σ) (reqs : List Message) (past : List Event) (ev : Event) : Prop :=
  (run env [] m past).quitting = false →
    ∀ b ∈ ((marks reqs).drop (received past).length).take ev.bytes.length,
      b = decide ((run env [] m past).state = .recvReqbody)

instance (past : List Event) (ev : Event) : Decidable (Apart env m reqs past ev) :=
  inferInstanceAs (Decidable (_ → _))

/-- The events cut the stream of `reqs`, and keep it apart. -/
structure Cut (env : Env) (m : σ) (reqs : List Message) (evs : List Event) : Prop where
  received : received evs = stream reqs
  apart : AtEach (Apart env m reqs) evs
  heldUp : AtEach HeldUp (run env [] m evs).trace

/-- Nothing is left to send, and the connection has not been given up. -/
def AtRest (s : St σ) : Prop :=
  s.state ≠ .sendHeaders ∧ s.state ≠ .sendData ∧
    (s.state = .finished → ∃ e ∈ s.trace, e.isLast)

instance (s : St σ) : Decidable (AtRest s) := inferInstanceAs (Decidable (_ ∧ _ ∧ _))

/-! ## One event -/

section Event

variable {got a : Bytes} {s s' : St σ} {done rest : List Message}

/-- Where the stream goes on, its marks go on. -/
theorem drop_marks_append (done rest : List Message) (k : Nat) :
    (marks (done ++ rest)).drop ((stream done).length + k) = (marks rest).drop k := by
  rw [marks_append, ← length_marks, List.drop_append, List.drop_eq_nil_of_le (by omega),
    List.nil_append, Nat.add_sub_cancel_left]

/-- Bytes outside of a body are kept in the buffer. -/
theorem Account.receive {due : List Handed} (h : Account env.cfg reqs got done rest due s)
    (hapart : ∀ b ∈ ((marks reqs).drop got.length).take a.length, b = false) :
    Account env.cfg reqs (got ++ a) done rest due { s with requestbuf := s.requestbuf ++ a } where
  split := h.split
  got_eq := by
    rw [h.got_eq]
    exact List.append_assoc ..
  clean := by
    intro b hb
    replace hb : b ∈ (marks rest).take (s.requestbuf ++ a).length := hb
    rw [List.length_append, List.take_add] at hb
    rcases List.mem_append.1 hb with hold | hnew
    · exact h.clean b hold
    · refine hapart b ?_
      rw [h.got_eq, List.length_append, h.split, drop_marks_append]
      exact hnew
  expected_eq := h.expected_eq
  alive := h.alive
  going := h.going

/-- Bytes of a body that is waited for are all of that body. -/
theorem Receiving.fits_more {r : Message} (h : Receiving env.cfg reqs got done r rest s)
    (hwf : ∀ r ∈ reqs, r.WellFormed env.cfg) (hgot : got ++ a <+: stream reqs)
    (hapart : ∀ b ∈ ((marks reqs).drop got.length).take a.length, b = true) :
    s.requestBody.length + a.length ≤ r.body.length := by
  by_contra hlong
  have hfits := h.fits
  have hlen := hgot.length_le
  rw [h.got_eq, h.split, stream_append, stream_cons] at hlen
  simp only [List.length_append] at hlen
  cases rest with
  | nil =>
      rw [stream_nil, List.length_nil] at hlen
      omega
  | cons next rest =>
      -- the first byte behind the body is in the chunk, and begins a header block
      have hblock : 4 ≤ next.block.length :=
        Message.WellFormed.length_le (hwf next (by rw [h.split]; simp))
      obtain ⟨n, hn⟩ : ∃ n, next.block.length = n + 1 := ⟨next.block.length - 1, by omega⟩
      have hpos : (stream (done ++ [r])).length + 0
          = got.length + (r.body.length - s.requestBody.length) := by
        rw [h.got_eq, stream_append, stream_cons, stream_nil]
        simp only [List.length_append, List.length_nil]
        omega
      have hhead : ((marks reqs).drop got.length)[r.body.length - s.requestBody.length]?
          = some false := by
        have hdrop := drop_marks_append (done ++ [r]) (next :: rest) 0
        rw [List.append_assoc, List.singleton_append, ← h.split, hpos, marks_cons, hn,
          List.replicate_succ, List.cons_append, List.drop_zero, ← List.drop_drop] at hdrop
        have hget := congrArg (fun l : List Bool => l[0]?) hdrop
        simpa only [List.getElem?_drop, Nat.add_zero, List.getElem?_cons_zero] using hget
      have hmem : false ∈ ((marks reqs).drop got.length).take a.length := by
        refine List.mem_of_getElem? (i := r.body.length - s.requestBody.length) ?_
        rw [List.getElem?_take_of_lt (by omega), hhead]
      cases hapart false hmem

/-- Bytes of a body go where the body is collected. -/
theorem Receiving.receive {r : Message} (h : Receiving env.cfg reqs got done r rest s)
    (hwf : ∀ r ∈ reqs, r.WellFormed env.cfg) (hgot : got ++ a <+: stream reqs)
    (hshort : (stream reqs).length ≤ 5120)
    (hapart : ∀ b ∈ ((marks reqs).drop got.length).take a.length, b = true) :
    takeBody a s = { s with requestBody := s.requestBody ++ a } ∧
      Receiving env.cfg reqs (got ++ a) done r rest
        { s with requestBody := s.requestBody ++ a } := by
  have hmore := h.fits_more hwf hgot hapart
  have hbody : r.body.length ≤ 5120 := by
    rw [h.split, stream_append, stream_cons] at hshort
    simp only [List.length_append] at hshort
    omega
  constructor
  · have hremains : sizeSub s.requestBodyLength s.requestBody.length % 2 ^ 32
        = r.body.length - s.requestBody.length := by
      have hfits := h.fits
      rw [h.length, sizeSub, if_pos hfits]
      omega
    rw [takeBody, hremains]
    exact if_neg (by omega)
  · refine ⟨h.split, ?_, h.empty, ?_, h.length, h.handed, h.expected_eq, h.completed, h.alive,
      h.going⟩
    · rw [h.got_eq]
      exact List.append_assoc ..
    · show (s.requestBody ++ a).length ≤ r.body.length
      rw [List.length_append]
      exact hmore

theorem arrive_stage (hwf : ∀ r ∈ reqs, r.WellFormed env.cfg) (hnul : 0 ∉ stream reqs)
    (hshort : (stream reqs).length ≤ 5120) {ev : Event} (hgot : got ++ ev.bytes <+: stream reqs)
    (hapart : s.quitting = false → ∀ b ∈ ((marks reqs).drop got.length).take ev.bytes.length,
      b = decide (s.state = .recvReqbody))
    (h : Stage env.cfg reqs got s) : Stage env.cfg reqs (got ++ ev.bytes) (arrive ev s) := by
  have hnone : ev.bytes = [] → arrive ev s = s →
      Stage env.cfg reqs (got ++ ev.bytes) (arrive ev s) := by
    intro hbytes hsame
    rw [hbytes, hsame, List.append_nil]
    exact h
  cases ev with
  | write | error | timeout => exact hnone rfl rfl
  | module k => exact hnone rfl rfl
  | read res =>
      cases res with
      | again | eof | fail => exact hnone rfl rfl
      | data bytes =>
          have hcstr : cstr bytes = bytes :=
            cstr_eq_self fun h0 => hnul (hgot.subset (List.mem_append_right _ h0))
          by_cases hbytes : bytes = []
          · refine hnone hbytes ?_
            rw [arrive, if_pos (Or.inr (hcstr.trans hbytes))]
          have hopen : s.quitting = false → ¬ (s.quitting = true ∨ bytes = []) := by
            intro halive
            rw [halive]
            exact not_or.2 ⟨by decide, hbytes⟩
          replace hapart : s.quitting = false →
              ∀ b ∈ ((marks reqs).drop got.length).take bytes.length,
                b = decide (s.state = .recvReqbody) := hapart
          replace hgot : got ++ bytes <+: stream reqs := hgot
          show Stage env.cfg reqs (got ++ bytes) (arrive (.read (.data bytes)) s)
          rw [arrive, hcstr]
          cases h with
          | waiting hs h hfresh hn =>
              rw [if_neg (hopen h.alive), if_neg (by rw [hs]; decide)]
              rw [hs] at hapart
              exact .waiting hs (h.receive (hapart h.alive))
                ⟨hfresh.method, hfresh.uri, hfresh.uriquery, hfresh.headers, hfresh.httpVersion,
                  hfresh.requestBodyLength, hfresh.requestBody, hfresh.keepalive⟩ hn
          | receiving hs h =>
              rw [if_neg (hopen h.alive), if_pos hs]
              rw [hs] at hapart
              obtain ⟨htake, hmore⟩ := h.receive hwf hgot hshort (hapart h.alive)
              rw [htake]
              exact .receiving hs hmore
          | answering hs h hn =>
              have hno : s.state ≠ .recvReqbody := by rcases hs with hs | hs <;> rw [hs] <;> decide
              rw [if_neg (hopen h.alive), if_neg hno]
              refine .answering hs (h.receive ?_) hn
              rw [decide_eq_false hno] at hapart
              exact hapart h.alive
          | closed hs hquit hpre hlast hlen =>
              rw [if_pos (Or.inl hquit)]
              refine .closed hs hquit hpre hlast ?_
              rw [List.length_append]
              omega

end Event

/-! ## A run -/

theorem Move.stage_rejecting (hwf : ∀ r ∈ reqs, r.WellFormed env.cfg) {got : Bytes}
    (hgot : got <+: stream reqs) {s s' : St σ} (hmove : Move env [] false s s')
    (hheld : AtEach HeldUp s'.trace) (h : Stage env.cfg reqs got s ∧ Rejecting s) :
    Stage env.cfg reqs got s' ∧ Rejecting s' := by
  refine ⟨hmove.stage hwf hgot h.2 hheld h.1, ?_⟩
  rcases hmove.rejecting h.2 with hr | hesc
  · exact hr
  · exact absurd hheld hesc.heldUp

theorem rejecting_arrive {ev : Event} {s : St σ} (h : Rejecting s) : Rejecting (arrive ev s) := by
  obtain ⟨body, buf, heq⟩ := arrive_eq ev s
  rw [heq]
  exact ⟨h.heldUp, h.noReturn, h.settled, h.isSealed⟩

theorem run_stage (hwf : ∀ r ∈ reqs, r.WellFormed env.cfg) (hnul : 0 ∉ stream reqs)
    (hshort : (stream reqs).length ≤ 5120) {evs : List Event}
    (hgot : received evs <+: stream reqs) (hapart : AtEach (Apart env m reqs) evs)
    (hheld : AtEach HeldUp (run env [] m evs).trace) :
    Stage env.cfg reqs (received evs) (run env [] m evs) ∧ Rejecting (run env [] m evs) := by
  induction evs using List.reverseRecOn with
  | nil =>
      refine ⟨@Stage.waiting σ env.cfg reqs [] _ [] reqs rfl ⟨rfl, rfl, ?_, rfl, rfl, ?_⟩ fresh_new rfl,
        rejecting_init m⟩
      · intro b hb
        cases hb
      · intro e he
        cases he
  | append_singleton evs ev ih =>
      have hrun : run env [] m (evs ++ [ev]) = handleEvent env [] ev (run env [] m evs) := by
        rw [run, List.foldl_append]
        rfl
      have hmoves : Moves env [] false (arrive ev (run env [] m evs))
          (handleEvent env [] ev (run env [] m evs)) :=
        handleEvent_moves ev fun _ => run_settled m evs
      have hbytes : received (evs ++ [ev]) = received evs ++ ev.bytes := by
        rw [received_append]
        exact congrArg (received evs ++ ·) (List.flatMap_singleton ..)
      rw [hrun] at hheld ⊢
      rw [hbytes] at hgot ⊢
      obtain ⟨l, hl⟩ := hmoves.trace
      have harrive : (arrive ev (run env [] m evs)).trace = (run env [] m evs).trace := by
        obtain ⟨body, buf, heq⟩ := arrive_eq ev (run env [] m evs)
        rw [heq]
      have hpast : AtEach HeldUp (run env [] m evs).trace := by
        rw [← hl, harrive] at hheld
        exact hheld.of_append
      obtain ⟨hstage, hrej⟩ := ih ((List.prefix_append _ _).trans hgot) hapart.of_append hpast
      refine Transition.guarded_invariant (R := Move env [] false)
        (I := fun s => Stage env.cfg reqs (received evs ++ ev.bytes) s ∧ Rejecting s)
        (G := fun s => AtEach HeldUp s.trace) ?_ ?_ hmoves hheld ?_
      · intro s s' hm hG
        obtain ⟨l, hl⟩ := hm.trace
        rw [← hl] at hG
        exact hG.of_append
      · exact fun hm hG h => hm.stage_rejecting hwf hgot hG h
      · exact ⟨arrive_stage hwf hnul hshort hgot hapart.append_right.1 hstage,
          rejecting_arrive hrej⟩

/-! ## At rest -/

theorem Stage.requestbuf_le {got : Bytes} {s : St σ} (h : Stage env.cfg reqs got s) :
    s.requestbuf.length ≤ got.length := by
  cases h with
  | waiting _ h | answering _ h =>
      rw [h.got_eq, List.length_append]
      omega
  | receiving _ h =>
      rw [h.empty]
      exact Nat.zero_le _
  | closed _ _ _ _ hlen => exact hlen

theorem Stage.served_prefix {got : Bytes} {s : St σ} (h : Stage env.cfg reqs got s) :
    handedOver s.trace <+: expected env.cfg 0 reqs := by
  cases h with
  | waiting _ h | answering _ h =>
      rw [h.expected_eq]
      exact List.prefix_append _ _
  | receiving _ h =>
      rw [h.expected_eq]
      exact List.prefix_append _ _
  | closed _ _ hpre => exact hpre

/-- A connection that has all of the stream and nothing to send is done with it. -/
theorem Stage.served_all (hwf : ∀ r ∈ reqs, r.WellFormed env.cfg) {s : St σ}
    (h : Stage env.cfg reqs (stream reqs) s) (hset : Settled s) (hrest : AtRest s) :
    handedOver s.trace = expected env.cfg 0 reqs := by
  obtain ⟨hheaders, hdata, hfin⟩ := hrest
  cases h with
  | @waiting done rest hs h _ _ =>
      have hbuf : s.requestbuf = stream rest := by
        have hgot := h.got_eq
        rw [h.split, stream_append] at hgot
        exact (List.append_cancel_left hgot).symm
      -- the next message would still be in the buffer
      cases rest with
      | nil =>
          rw [h.expected_eq]
          exact (List.append_nil _).symm
      | cons r rest =>
          have hnone := (hset.request hs).2
          have hr : r.WellFormed env.cfg := hwf r (by rw [h.split]; simp)
          rw [hbuf, stream_cons, find_append _ hr.ends] at hnone
          cases hnone
  | @receiving done rest r hs h =>
      have hbody : r.body ++ stream rest = s.requestBody := by
        have hgot := h.got_eq
        rw [h.split, stream_append, stream_cons, List.append_assoc] at hgot
        exact List.append_cancel_left (List.append_cancel_left hgot)
      have hlen := congrArg List.length hbody
      rw [List.length_append] at hlen
      have hfits := h.fits
      have hmore := hset.body hs
      rw [h.length] at hmore
      omega
  | answering hs => exact hs.elim (absurd · hheaders) (absurd · hdata)
  | closed hs _ _ hlast => exact hlast (hfin hs)

theorem Cut.stage (hwf : ∀ r ∈ reqs, r.WellFormed env.cfg) (hnul : 0 ∉ stream reqs)
    (hshort : (stream reqs).length ≤ 5120) {evs : List Event} (h : Cut env m reqs evs) :
    Stage env.cfg reqs (stream reqs) (run env [] m evs) := by
  have hstage := (run_stage hwf hnul hshort (by rw [h.received]) h.apart h.heldUp).1
  rwa [h.received] at hstage

/-- However a stream of well-formed requests is cut, as long as the cuts keep
bodies and header blocks apart: the connection serves the requests of the stream in their
order, each with its own body, never refuses a chunk, and has served all that are to be
served once it is at rest. -/
theorem cuts_serve_alike (m : σ) {reqs : List Message} (hwf : ∀ r ∈ reqs, r.WellFormed env.cfg)
    (hnul : 0 ∉ stream reqs) (hshort : (stream reqs).length ≤ 5120) {evs evs' : List Event}
    (h : Cut env m reqs evs) (h' : Cut env m reqs evs') :
    handedOver (run env [] m evs).trace <+: expected env.cfg 0 reqs ∧
      handedOver (run env [] m evs').trace <+: expected env.cfg 0 reqs ∧
      (run env [] m evs).requestbuf.length ≤ 5120 ∧
      (run env [] m evs').requestbuf.length ≤ 5120 ∧
      (AtRest (run env [] m evs) → AtRest (run env [] m evs') →
        handedOver (run env [] m evs).trace = handedOver (run env [] m evs').trace ∧
        handedOver (run env [] m evs').trace = expected env.cfg 0 reqs) := by
  have hst := h.stage hwf hnul hshort
  have hst' := h'.stage hwf hnul hshort
  refine ⟨hst.served_prefix, hst'.served_prefix, hst.requestbuf_le.trans hshort,
    hst'.requestbuf_le.trans hshort, fun hrest hrest' => ?_⟩
  have hall := hst.served_all hwf (run_settled m evs) hrest
  have hall' := hst'.served_all hwf (run_settled m evs') hrest'
  exact ⟨hall.trans hall'.symm, hall'⟩

/-! ## Two cuts of a short stream -/

/-- A request with a body of one byte, and one without. -/
def postAndGet : List Message :=
  [⟨str "POST / HTTP/1.1\r\nContent-Length: 1\r\n\r\n", str "x"⟩,
    ⟨str "GET /a HTTP/1.1\r\n\r\n", []⟩]

/-- Cut behind each header block and each body. -/
def whole : List Event :=
  chunks ["POST / HTTP/1.1\r\nContent-Length: 1\r\n\r\n", "x", "GET /a HTTP/1.1\r\n\r\n"]

/-- Cut through a header line and through a terminator as well. -/
def broken : List Event :=
  chunks ["POST / HTTP/1.1\r\nContent-Len", "gth: 1\r\n\r", "\n", "x",
    "GET /a HTTP/1.1\r", "\n\r\n"]

theorem postAndGet_wellFormed :
    ∀ r ∈ postAndGet, r.WellFormed (smallWorld [] (str "hello") eager).cfg := by
  intro r hr
  rcases List.mem_cons.1 hr with rfl | hr
  · exact ⟨by decide +kernel, Or.inr ⟨by decide +kernel, by decide +kernel⟩⟩
  · rw [List.mem_singleton.1 hr]
    exact ⟨by decide +kernel, Or.inl ⟨by decide +kernel, by decide +kernel⟩⟩

set_option maxRecDepth 4000 in
theorem cuts_serve_alike_postAndGet :
    handedOver (run (smallWorld [] (str "hello") eager) [] () whole).trace
        = handedOver (run (smallWorld [] (str "hello") eager) [] () broken).trace ∧
      (handedOver (run (smallWorld [] (str "hello") eager) [] () broken).trace).map
        (fun handed => handed.2.2.2) = [str "x", []] :=
  have h := @cuts_serve_alike Unit (smallWorld [] (str "hello") eager) () postAndGet
    postAndGet_wellFormed (by decide +kernel) (by decide +kernel) whole broken
    ⟨by decide +kernel, by decide +kernel, by decide +kernel⟩
    ⟨by decide +kernel, by decide +kernel, by decide +kernel⟩
  ⟨(h.2.2.2.2 (by decide +kernel) (by decide +kernel)).1, by decide +kernel⟩

/-- With the body in the chunk of its header block, the first byte of the next chunk is
served as the body. -/
theorem body_cut_lost :
    received (chunks ["POST / HTTP/1.1\r\nContent-Length: 1\r\n\r\nx",
        "GET /a HTTP/1.1\r\n\r\n"]) = stream postAndGet ∧
      received whole = stream postAndGet ∧
      AtRest (plainRun (smallWorld [] (str "hello") eager)
        ["POST / HTTP/1.1\r\nContent-Length: 1\r\n\r\nx", "GET /a HTTP/1.1\r\n\r\n"]) ∧
      AtRest (run (smallWorld [] (str "hello") eager) [] () whole) ∧
      (handedOver (plainRun (smallWorld [] (str "hello") eager)
        ["POST / HTTP/1.1\r\nContent-Length: 1\r\n\r\nx",
          "GET /a HTTP/1.1\r\n\r\n"]).trace).map (fun handed => handed.2.2.2) = [str "G"] ∧
      (handedOver (run (smallWorld [] (str "hello") eager) [] () whole).trace).map
        (fun handed => handed.2.2.2) = [str "x", []] := by
  decide +kernel

end Hottpd
