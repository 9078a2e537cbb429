import Hottpd.Core.Connection

/-!
# Header blocks: the parsing half of `CheckRequest`

`CheckRequest` reads a block line by line and leaves at the first error, and
every way out first takes the block off `requestbuf`. Up to that point it
touches nothing but the connection's own fields, so this half is a function
from a connection to a connection and a verdict; acting on the verdict is
the other half.
-/

namespace Hottpd

open Bytes HTTPHeaders

/-- The end of a header block. -/
def terminator : Bytes := str "\r\n\r\n"

/-- Where the first complete header block ends, searching only what is new
and the last three bytes of what is old. -/
def findRequestEnd (requestbuf : Bytes) (newpos : Nat) : Option Nat :=
  findFrom terminator requestbuf (if 3 ≤ newpos then newpos - 3 else 0)

def badRequest : Verdict := .reject 400 (str "Bad Request") false

/-- The first line of a block: method, target and version. An extraction
that fails leaves its string as it was. -/
def requestLine (c : Connection) (line : Bytes) :
    Except (Connection × Verdict) Connection :=
  let words := tokens line
  let c := { c with
    method := words[0]?.getD c.method
    uri := words[1]?.getD c.uri }
  let tmpversion := words[2]?.getD []
  if c.method = [] ∨ c.uri = [] ∨ tmpversion = [] then .error (c, badRequest)
  else
    let tmpversion := tmpversion.map toupper
    if tmpversion = str "HTTP/1.1" then .ok { c with httpVersion := .http11 }
    else if tmpversion = str "HTTP/1.0" then
      -- 1.0 closes by default, but only the connection's first request says so
      .ok { c with
        httpVersion := .http10
        keepalive := if c.requestsCompleted = 0 then false else c.keepalive }
    else .error (c, .reject 505 (str "Version Not Supported") false)

/-- Any later line: a name, a colon, one skipped character and the value. -/
def headerLine (c : Connection) (line : Bytes) :
    Except (Connection × Verdict) Connection :=
  match line.idxOf? 58 with
  | none => .error (c, badRequest)
  | some fieldsep =>
      if fieldsep = 0 ∨ fieldsep = line.length - 1 then .error (c, badRequest)
      else
        .ok { c with
          headers := setHeader c.headers (line.take fieldsep) (line.drop (fieldsep + 2)) }

def parseLines (c : Connection) : List Bytes → Except (Connection × Verdict) Connection
  | [] => .ok c
  | line :: rest =>
      match if c.method = [] then requestLine c line else headerLine c line with
      | .error e => .error e
      | .ok c => parseLines c rest

/-- `Connection: close` and `keep-alive`, then the limit on requests. -/
def decideKeepalive (cfg : Config) (c : Connection) : Bool :=
  let keepalive :=
    if caseEq (getHeader c.headers (str "Connection")) (str "close") then false
    else if caseEq (getHeader c.headers (str "Connection")) (str "keep-alive") then true
    else c.keepalive
  if cfg.keepAliveMax ≤ c.requestsCompleted + 1 then false else keepalive

/-- What a request with these headers may do; the length of the body is
already in `requestBodyLength`. -/
def checkBody (cfg : Config) (c : Connection) : Verdict :=
  if isSet c.headers (str "Content-Length")
      ∧ toUnsigned cfg.maxPostBody < c.requestBodyLength then
    .reject 413 (str "Request Entity Too Large") true
  else if isSet c.headers (str "Transfer-Encoding") then
    .reject 500 (str "Internal Server Error") true
  else if 0 < c.requestBodyLength then
    -- the client will send the body anyway, so the connection cannot go on
    if c.method ≠ str "POST" then .reject 500 (str "Internal Server Error") true
    else .body
  else .dispatch

/-- The checks behind the loop, on a block that parsed. -/
def checkHeaders (cfg : Config) (c : Connection) : Connection × Verdict :=
  if c.method = [] ∨ c.uri = [] ∨ c.httpVersion = .unspecified then (c, badRequest)
  else
    let c := { c with method := c.method.map toupper }
    let c := { c with keepalive := decideKeepalive cfg c }
    let c := { c with
      requestBodyLength :=
        if isSet c.headers (str "Content-Length") then
          atoi (getHeader c.headers (str "Content-Length"))
        else c.requestBodyLength }
    (c, checkBody cfg c)

/-- Take the header block that ends at `reqend` off the buffer. -/
def takeRequest (cfg : Config) (reqend : Nat) (c : Connection) :
    Connection × Verdict :=
  let rest := c.requestbuf.drop (reqend + 4)
  match parseLines c (crlfLines c.requestbuf) with
  | .error (c, verdict) => ({ c with requestbuf := rest }, verdict)
  | .ok c => checkHeaders cfg { c with requestbuf := rest }

/-! ## What a verdict says -/

theorem checkBody_body {cfg : Config} {c : Connection} (h : checkBody cfg c = .body) :
    0 < c.requestBodyLength := by
  unfold checkBody at h
  split at h
  · cases h
  · split at h
    · cases h
    · split at h
      · next hlen => exact hlen
      · cases h

/-- A line that is refused is refused with an error page that is not fatal. -/
theorem line_reject {c c' : Connection} {line : Bytes} {verdict : Verdict}
    (h : (if c.method = [] then requestLine c line else headerLine c line)
      = .error (c', verdict)) : ∃ code text, verdict = .reject code text false := by
  split at h
  · simp only [requestLine] at h
    split at h
    · cases h
      exact ⟨_, _, rfl⟩
    · split at h
      · cases h
      · split at h
        · cases h
        · cases h
          exact ⟨_, _, rfl⟩
  · unfold headerLine at h
    split at h
    · cases h
      exact ⟨_, _, rfl⟩
    · split at h
      · cases h
        exact ⟨_, _, rfl⟩
      · cases h

theorem parseLines_reject : ∀ {lines : List Bytes} {c c' : Connection} {verdict : Verdict},
    parseLines c lines = .error (c', verdict) →
    ∃ code text, verdict = .reject code text false := by
  intro lines
  induction lines with
  | nil => intro c c' verdict h; cases h
  | cons line rest ih =>
      intro c c' verdict h
      rw [parseLines] at h
      split at h
      · next e hline =>
          cases h
          exact line_reject hline
      · exact ih h

/-- A body is only waited for where there is one to come. -/
theorem takeRequest_body {cfg : Config} {reqend : Nat} {c : Connection}
    (h : (takeRequest cfg reqend c).2 = .body) :
    0 < (takeRequest cfg reqend c).1.requestBodyLength := by
  unfold takeRequest at h ⊢
  cases hparse : parseLines c (crlfLines c.requestbuf) with
  | error e =>
      obtain ⟨c', verdict⟩ := e
      simp only [hparse] at h
      obtain ⟨_, _, rfl⟩ := parseLines_reject hparse
      cases h
  | ok c' =>
      simp only [hparse] at h ⊢
      unfold checkHeaders at h ⊢
      split at h
      · cases h
      · next hok =>
          rw [if_neg hok]
          exact checkBody_body h

end Hottpd
