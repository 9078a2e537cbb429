import Hottpd.Proofs.Settled
import Hottpd.Lib.Trace

/-!
# The stream a client sends

A stream of requests, cut into header blocks and bodies by the one who sends
it, and the sequence of requests it says `ServeData` is to be called with. What
a block says is what the parser makes of it on a connection of its own.
-/

namespace Hottpd

open Bytes HTTPHeaders

/-! ## A block is read the same wherever it stands -/

/-- Two connections that the parser cannot tell apart; `k` says whether what
decides about `keepalive` is looked at as well. -/
structure Alike (k : Prop) (c c' : Connection) : Prop where
  method : c.method = c'.method
  uri : c.uri = c'.uri
  headers : c.headers = c'.headers
  httpVersion : c.httpVersion = c'.httpVersion
  requestBodyLength : c.requestBodyLength = c'.requestBodyLength
  keepalive : k → c.keepalive = c'.keepalive ∧ c.requestsCompleted = c'.requestsCompleted

/-- Two outcomes of a parsing step that agree. -/
inductive Agree (k : Prop) : Except (Connection × Verdict) Connection →
    Except (Connection × Verdict) Connection → Prop where
  | ok {c c' : Connection} (h : Alike k c c') : Agree k (.ok c) (.ok c')
  | error {c c' : Connection} {verdict : Verdict} (h : Alike k c c') :
      Agree k (.error (c, verdict)) (.error (c', verdict))

variable {k : Prop} {c c' : Connection}

theorem requestLine_agree (h : Alike k c c') (line : Bytes) :
    Agree k (requestLine c line) (requestLine c' line) := by
  obtain ⟨hmethod, huri, hheaders, hversion, hlen, hkeep⟩ := h
  simp only [requestLine, hmethod, huri]
  split
  · exact .error ⟨rfl, rfl, hheaders, hversion, hlen, hkeep⟩
  · split
    · exact .ok ⟨rfl, rfl, hheaders, rfl, hlen, hkeep⟩
    · split
      · refine .ok ⟨rfl, rfl, hheaders, rfl, hlen, fun hk => ?_⟩
        obtain ⟨halive, hcompleted⟩ := hkeep hk
        exact ⟨by simp only [halive, hcompleted], hcompleted⟩
      · exact .error ⟨rfl, rfl, hheaders, hversion, hlen, hkeep⟩

theorem headerLine_agree (h : Alike k c c') (line : Bytes) :
    Agree k (headerLine c line) (headerLine c' line) := by
  obtain ⟨hmethod, huri, hheaders, hversion, hlen, hkeep⟩ := h
  simp only [headerLine, hheaders]
  split
  · exact .error ⟨hmethod, huri, hheaders, hversion, hlen, hkeep⟩
  · split
    · exact .error ⟨hmethod, huri, hheaders, hversion, hlen, hkeep⟩
    · exact .ok ⟨hmethod, huri, rfl, hversion, hlen, hkeep⟩

theorem parseLines_agree : ∀ (lines : List Bytes) {c c' : Connection}, Alike k c c' →
    Agree k (parseLines c lines) (parseLines c' lines) := by
  intro lines
  induction lines with
  | nil => intro c c' h; exact .ok h
  | cons line rest ih =>
      intro c c' h
      have hline : Agree k
          (if c.method = [] then requestLine c line else headerLine c line)
          (if c'.method = [] then requestLine c' line else headerLine c' line) := by
        rw [h.method]
        split
        · exact requestLine_agree h line
        · exact headerLine_agree h line
      rw [parseLines, parseLines]
      generalize (if c.method = [] then requestLine c line else headerLine c line) = e,
        (if c'.method = [] then requestLine c' line else headerLine c' line) = e' at hline
      cases hline with
      | ok hc => exact ih hc
      | error hc => exact .error hc

theorem checkHeaders_alike (cfg : Config) (h : Alike k c c') :
    Alike k (checkHeaders cfg c).1 (checkHeaders cfg c').1 ∧
      (checkHeaders cfg c).2 = (checkHeaders cfg c').2 := by
  obtain ⟨hmethod, huri, hheaders, hversion, hlen, hkeep⟩ := h
  simp only [checkHeaders, hmethod, huri, hversion]
  split
  · exact ⟨⟨hmethod, huri, hheaders, hversion, hlen, hkeep⟩, rfl⟩
  · refine ⟨⟨rfl, rfl, hheaders, rfl, ?_, fun hk => ?_⟩, ?_⟩
    · simp only [hheaders, hlen]
    · obtain ⟨halive, hcompleted⟩ := hkeep hk
      exact ⟨by simp only [decideKeepalive, hheaders, halive, hcompleted], hcompleted⟩
    · simp only [checkBody, hheaders, hlen]

theorem takeRequest_alike (cfg : Config) {reqend reqend' : Nat} (h : Alike k c c')
    (hlines : crlfLines c.requestbuf = crlfLines c'.requestbuf) :
    Alike k (takeRequest cfg reqend c).1 (takeRequest cfg reqend' c').1 ∧
      (takeRequest cfg reqend c).2 = (takeRequest cfg reqend' c').2 := by
  have hparse := parseLines_agree (crlfLines c'.requestbuf) h
  rw [takeRequest, takeRequest, hlines]
  generalize parseLines c (crlfLines c'.requestbuf) = e,
    parseLines c' (crlfLines c'.requestbuf) = e' at hparse
  cases hparse with
  | ok hc =>
      refine checkHeaders_alike cfg ?_
      exact ⟨hc.method, hc.uri, hc.headers, hc.httpVersion, hc.requestBodyLength, hc.keepalive⟩
  | error hc =>
      exact ⟨⟨hc.method, hc.uri, hc.headers, hc.httpVersion, hc.requestBodyLength, hc.keepalive⟩,
        rfl⟩

theorem terminator_eq : terminator = [13, 10, 13, 10] := by decide

/-- The buffer up to the end of its first header block, and the rest. -/
theorem find_terminator_eq {buf : Bytes} {reqend : Nat} (h : find terminator buf = some reqend) :
    buf.take (reqend + 4) = buf.take reqend ++ [13, 10, 13, 10] ∧
      buf = buf.take reqend ++ 13 :: 10 :: 13 :: 10 :: buf.drop (reqend + 4) := by
  obtain ⟨rest, hrest⟩ := find_prefix h
  rw [terminator_eq] at hrest
  have hdrop : buf.drop (reqend + 4) = rest := by
    rw [← List.drop_drop, ← hrest]
    rfl
  constructor
  · rw [List.take_add, ← hrest]
    rfl
  · conv_lhs => rw [← List.take_append_drop reqend buf, ← hrest]
    rw [hdrop]
    rfl

/-- What is behind the header block is not read with it. -/
theorem crlfLines_take {buf : Bytes} {reqend : Nat} (h : find terminator buf = some reqend) :
    crlfLines buf = crlfLines (buf.take (reqend + 4)) := by
  obtain ⟨hblock, hbuf⟩ := find_terminator_eq h
  have hblank := crlfLinesFrom_blank (buf.drop (reqend + 4)) _ (buf.take reqend) []
    (Nat.le_refl _)
  rw [← hbuf, ← hblock] at hblank
  exact hblank

/-! ## Messages -/

/-- A request as the client sends it. -/
structure Message where
  block : Bytes
  body : Bytes

/-- What the parser makes of the block on a connection of its own that has
completed `n` requests. -/
def Message.parsed (cfg : Config) (n : Nat) (r : Message) : Connection × Verdict :=
  takeRequest cfg (r.block.length - 4)
    { Connection.new with requestbuf := r.block, requestsCompleted := n }

/-- The block ends at its first blank line and is accepted, with a body of the
length it announces. -/
structure Message.WellFormed (cfg : Config) (r : Message) : Prop where
  ends : find terminator r.block = some (r.block.length - 4)
  body : ((r.parsed cfg 0).2 = .dispatch ∧ r.body = []) ∨
    ((r.parsed cfg 0).2 = .body ∧ r.body.length = (r.parsed cfg 0).1.requestBodyLength)

def stream (reqs : List Message) : Bytes := reqs.flatMap fun r => r.block ++ r.body

/-- Which bytes of the stream belong to a body. -/
def marks (reqs : List Message) : List Bool :=
  reqs.flatMap fun r =>
    List.replicate r.block.length false ++ List.replicate r.body.length true

/-- Method, target, header fields and body, as `ServeData` finds them. -/
abbrev Handed := Bytes × Bytes × HTTPHeaders × Bytes

def Message.handed (cfg : Config) (r : Message) : Handed :=
  let c := (r.parsed cfg 0).1
  (c.method, if r.body = [] then (handleURI c.uri []).1 else c.uri, c.headers, r.body)

def Message.isServed (cfg : Config) (r : Message) : Bool :=
  r.body ≠ [] ∨ (r.parsed cfg 0).1.method = str "GET" ∨ (r.parsed cfg 0).1.method = str "POST"

/-- The connection goes on behind its `n + 1`-st request. -/
def Message.stays (cfg : Config) (n : Nat) (r : Message) : Bool :=
  r.isServed cfg && (r.parsed cfg n).1.keepalive

/-- What is served of a stream on a connection that has completed `n` requests. -/
def expected (cfg : Config) : Nat → List Message → List Handed
  | _, [] => []
  | n, r :: rest =>
      (if r.isServed cfg then [r.handed cfg] else [])
        ++ (if r.stays cfg n then expected cfg (n + 1) rest else [])

@[simp] theorem stream_nil : stream [] = [] := rfl

@[simp] theorem stream_cons (r : Message) (rest : List Message) :
    stream (r :: rest) = r.block ++ (r.body ++ stream rest) := by
  simp [stream]

theorem stream_append (done rest : List Message) :
    stream (done ++ rest) = stream done ++ stream rest := List.flatMap_append

theorem marks_cons (r : Message) (rest : List Message) :
    marks (r :: rest) = List.replicate r.block.length false
      ++ (List.replicate r.body.length true ++ marks rest) := by
  simp [marks]

theorem marks_append (done rest : List Message) :
    marks (done ++ rest) = marks done ++ marks rest := List.flatMap_append

theorem length_marks (reqs : List Message) : (marks reqs).length = (stream reqs).length := by
  induction reqs with
  | nil => rfl
  | cons r rest ih => simp [marks_cons, ih]

/-! ## A message is read alone or in the stream -/

theorem Message.WellFormed.length_le {cfg : Config} {r : Message} (h : r.WellFormed cfg) :
    4 ≤ r.block.length := by
  have hfits := find_length h.ends
  have hlen : terminator.length = 4 := rfl
  omega

/-- The first header block in the buffer is the first message's. -/
theorem Message.WellFormed.first {cfg : Config} {r : Message} (h : r.WellFormed cfg)
    {buf behind : Bytes} {reqend : Nat} (hbuf : buf <+: r.block ++ behind)
    (hfind : find terminator buf = some reqend) :
    reqend + 4 = r.block.length ∧ ∃ more, buf = r.block ++ more := by
  obtain ⟨t, ht⟩ := hbuf
  have hblock := find_append behind h.ends
  have hbuf := find_append t hfind
  rw [ht, hblock] at hbuf
  have hlen := h.length_le
  obtain rfl : r.block.length - 4 = reqend := Option.some.inj hbuf
  have hfits := find_length hfind
  have hterm : terminator.length = 4 := rfl
  refine ⟨by omega, buf.drop r.block.length, ?_⟩
  have hpre : r.block <+: buf :=
    List.prefix_of_prefix_length_le (List.prefix_append r.block behind) ⟨t, ht⟩ (by omega)
  exact (List.prefix_iff_eq_append.1 hpre).symm

/-- A connection between two requests, as far as the next one can tell. -/
structure Fresh (c : Connection) : Prop where
  method : c.method = []
  uri : c.uri = []
  uriquery : c.uriquery = []
  headers : c.headers = clear
  httpVersion : c.httpVersion = .unspecified
  requestBodyLength : c.requestBodyLength = 0
  requestBody : c.requestBody = []
  keepalive : c.keepalive = true

theorem fresh_new : Fresh Connection.new := ⟨rfl, rfl, rfl, rfl, rfl, rfl, rfl, rfl⟩

/-- What a well-formed message says is what is read of it at the head of any
buffer. -/
theorem Message.WellFormed.taken {cfg : Config} {r : Message} (h : r.WellFormed cfg)
    {c : Connection} (hfresh : Fresh c) {reqend : Nat} {more : Bytes}
    (hbuf : c.requestbuf = r.block ++ more) :
    Alike True (takeRequest cfg reqend c).1 (r.parsed cfg c.requestsCompleted).1 ∧
      Alike False (takeRequest cfg reqend c).1 (r.parsed cfg 0).1 ∧
      (takeRequest cfg reqend c).2 = (r.parsed cfg 0).2 := by
  have hlines : crlfLines c.requestbuf = crlfLines r.block := by
    have hlen := h.length_le
    have hfind : find terminator c.requestbuf = some (r.block.length - 4) := by
      rw [hbuf]
      exact find_append more h.ends
    have htake : c.requestbuf.take (r.block.length - 4 + 4) = r.block := by
      rw [hbuf, Nat.sub_add_cancel hlen, List.take_left]
    rw [crlfLines_take hfind, htake]
  obtain ⟨hmethod, huri, -, hheaders, hversion, hlen, -, hkeep⟩ := hfresh
  have hsame := @takeRequest_alike True c
    { Connection.new with requestbuf := r.block, requestsCompleted := c.requestsCompleted }
    cfg reqend (r.block.length - 4)
    ⟨hmethod, huri, hheaders, hversion, hlen, fun _ => ⟨hkeep, rfl⟩⟩ hlines
  have hzero := @takeRequest_alike False c
    { Connection.new with requestbuf := r.block, requestsCompleted := 0 }
    cfg reqend (r.block.length - 4)
    ⟨hmethod, huri, hheaders, hversion, hlen, False.elim⟩ hlines
  exact ⟨hsame.1, hzero.1, hzero.2⟩

end Hottpd
