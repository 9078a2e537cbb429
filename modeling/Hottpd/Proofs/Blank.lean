import Hottpd.Proofs.Messages
import Hottpd.Proofs.Coherent
import Hottpd.Core.World

/-!
# Between two requests

`CheckRequest` fills the fields of the request as it reads, and a way out in the
middle leaves them filled. They are emptied by `EndRequest`, and the connection
waits for the next request only once that has run, so a header block is always
read on a blank connection.
-/

namespace Hottpd

open Bytes HTTPHeaders

variable {σ : Type} {env : Env}

/-- Like a new connection, but for what came in, what is to go out, and what the
connection keeps from one request to the next. -/
def Blank (s : St σ) : Prop :=
  s.toConnection = { Connection.new with
    sendq := s.sendq
    requestbuf := s.requestbuf
    requestsCompleted := s.requestsCompleted
    keepalive := s.keepalive
    quitting := s.quitting }

theorem Blank.receive {s : St σ} (h : Blank s) (a : Bytes) :
    Blank { s with requestbuf := s.requestbuf ++ a } := by
  unfold Blank at h ⊢
  exact congrArg (fun c => { c with requestbuf := s.requestbuf ++ a }) h

/-- A connection that waits for a request is blank. -/
def Cleared (s : St σ) : Prop := s.state = .waitRequest → Blank s

theorem cleared_of_state {s : St σ} {x : HttpState} (hx : x ≠ .waitRequest)
    (hs : s.state = x) : Cleared s := fun h => absurd (hs.symm.trans h) hx

theorem cleared_delete (s : St σ) : Cleared (delete s) := by
  rw [delete_eq]
  exact cleared_of_state (x := .finished) (by decide) rfl

theorem cleared_endStep (s : St σ) : Cleared (endStep s) := by
  cases hk : s.keepalive with
  | false =>
      rw [endStep_of_close hk]
      exact cleared_of_state (x := .finished) (by decide) rfl
  | true =>
      rw [endStep_of_keepalive hk]
      exact fun _ => rfl

theorem Page.cleared {code : Nat} {text : Bytes} {fatal : Bool} {s s' : St σ}
    (h : Page env code text fatal s s') : Cleared s' := by
  have hsending : ∀ fatal, (queueError env code text fatal s).state = .sendData := by
    intro fatal
    rw [queueError_eq]
  cases h with
  | queued => exact cleared_of_state (by decide) (hsending fatal)
  | held => exact cleared_of_state (by decide) (hsending true)
  | failed =>
      refine cleared_of_state (x := .finished) (by decide) ?_
      rw [delete_eq]
      rfl
  | sent => exact cleared_endStep _

theorem Serve.cleared {s s' : St σ} (h : Serve env s s') : Cleared s' := by
  cases h with
  | page _ hpage => exact hpage.cleared
  | file =>
      rw [writeHeaders_eq _ _ _ _ core_no_connection.1]
      exact cleared_of_state (x := .sendHeaders) (by decide) rfl
  | empty => exact cleared_endStep _

theorem FileOut.cleared {s s' : St σ} (h : FileOut env s s') (hs : s.state = .sendData) :
    Cleared s' := by
  cases h with
  | lost | failed => exact cleared_delete _
  | piece => exact cleared_of_state (by decide) hs
  | done => exact cleared_endStep _

theorem Move.cleared {s s' : St σ} (h : Move env [] true s s') (hc : Cleared s) : Cleared s' := by
  cases h with
  | @receive a => exact fun hw => (hc hw).receive a
  | receiveBody hs =>
      exact cleared_of_state (by decide) ((takeBody_state _ s).trans hs)
  | refuse _ _ _ hpage => exact hpage.cleared
  | accept => exact cleared_of_state (x := .recvReqbody) (by decide) rfl
  | claim _ _ _ hrun => exact absurd hrun.nil_inv.2 (by decide)
  | notImplemented _ _ _ _ _ _ _ hpage => exact hpage.cleared
  | serve _ _ _ _ _ _ _ hserve => exact hserve.cleared
  | serveBody _ _ hserve => exact hserve.cleared
  | @advance n =>
      intro hw
      exact congrArg (fun c => { c with sendq := s.sendq.drop n }) (hc hw)
  | sendFailed | drop => exact cleared_delete _
  | flushed =>
      intro hw
      exact congrArg (fun c => { c with sendq := [] }) (hc hw)
  | pageDone => exact cleared_endStep _
  | fileStart _ _ _ hfile => exact hfile.cleared rfl
  | filePart _ hs _ hfile => exact hfile.cleared hs
  | dropKeepalive =>
      intro hw
      exact congrArg (fun c => { c with keepalive := false }) (hc hw)
  | modError hm | modHeaders hm | modEmpty hm | modSendData hm | modWrite hm
    | modBufferDone hm | modState hm => exact absurd rfl hm

theorem run_cleared (m : σ) (evs : List Event) : Cleared (run env [] m evs) :=
  run_invariant m evs (fun _ => rfl) Move.cleared

/-! ## The next request -/

/-- The request behind the header block `block`, read by a new connection that has only
been told what is kept between requests. -/
def readAlone (cfg : Config) (block : Bytes) (requestsCompleted : Nat) (keepalive : Bool) :
    Connection × Verdict :=
  takeRequest cfg (block.length - 4)
    { Connection.new with
      requestbuf := block
      requestsCompleted := requestsCompleted
      keepalive := keepalive }

theorem Blank.read {s : St σ} (h : Blank s) (cfg : Config) {reqend : Nat}
    (hfind : find terminator s.requestbuf = some reqend) :
    (takeRequest cfg reqend s.toConnection).2
        = (readAlone cfg (s.requestbuf.take (reqend + 4)) s.requestsCompleted s.keepalive).2 ∧
      (takeRequest cfg reqend s.toConnection).1 =
        { (readAlone cfg (s.requestbuf.take (reqend + 4)) s.requestsCompleted s.keepalive).1 with
          sendq := s.sendq
          requestbuf := s.requestbuf.drop (reqend + 4)
          quitting := s.quitting } := by
  have hfields : ∀ {α : Type} (f : Connection → α), f s.toConnection = f { Connection.new with
      sendq := s.sendq
      requestbuf := s.requestbuf
      requestsCompleted := s.requestsCompleted
      keepalive := s.keepalive
      quitting := s.quitting } := fun f => congrArg f h
  obtain ⟨hsame, hverdict⟩ := @takeRequest_alike True s.toConnection
    { Connection.new with
      requestbuf := s.requestbuf.take (reqend + 4)
      requestsCompleted := s.requestsCompleted
      keepalive := s.keepalive }
    cfg reqend ((s.requestbuf.take (reqend + 4)).length - 4)
    ⟨hfields Connection.method, hfields Connection.uri, hfields Connection.headers,
      hfields Connection.httpVersion, hfields Connection.requestBodyLength, fun _ => ⟨rfl, rfl⟩⟩
    (crlfLines_take hfind)
  refine ⟨hverdict, ?_⟩
  have hleft := takeRequest_eq cfg reqend s.toConnection
  have halone := takeRequest_eq cfg ((s.requestbuf.take (reqend + 4)).length - 4)
    { Connection.new with
      requestbuf := s.requestbuf.take (reqend + 4)
      requestsCompleted := s.requestsCompleted
      keepalive := s.keepalive }
  obtain ⟨hmethod, huri, hheaders, hversion, hlen, hkeep⟩ := hsame
  unfold Reread at hleft halone
  rw [readAlone, hleft, halone, Connection.mk.injEq]
  exact ⟨hfields Connection.state, hheaders, rfl, rfl, rfl, hmethod, huri,
    hfields Connection.uriquery, hfields Connection.upath, hversion, (hkeep trivial).1, hlen,
    hfields Connection.requestBody, hfields Connection.responseBufferDone,
    hfields Connection.responseBackend, hfields Connection.filefd, hfields Connection.rfilesize,
    hfields Connection.rfilesent, rfl⟩

theorem readAlone_quitting (cfg : Config) (block : Bytes) (requestsCompleted : Nat)
    (keepalive : Bool) : (readAlone cfg block requestsCompleted keepalive).1.quitting = false := by
  have hleft := takeRequest_eq cfg (block.length - 4) { Connection.new with
    requestbuf := block
    requestsCompleted := requestsCompleted
    keepalive := keepalive }
  unfold Reread at hleft
  rw [readAlone, hleft]
  rfl

/-- Of an earlier request nothing is left on a connection that waits for the next one, and
what that one is read as is settled by its own header block, `keepalive` and
`RequestsCompleted`. -/
theorem waiting_is_blank (env : Env) (m : σ) {evs : List Event}
    (hs : (run env [] m evs).state = .waitRequest) :
    (run env [] m evs).toConnection = { Connection.new with
        sendq := (run env [] m evs).sendq
        requestbuf := (run env [] m evs).requestbuf
        requestsCompleted := (run env [] m evs).requestsCompleted
        keepalive := (run env [] m evs).keepalive } ∧
      ∀ (a : Bytes) (reqend : Nat),
        find terminator ((run env [] m evs).requestbuf ++ a) = some reqend →
        takeRequest env.cfg reqend { (run env [] m evs).toConnection with
            requestbuf := (run env [] m evs).requestbuf ++ a } =
          let alone := readAlone env.cfg (((run env [] m evs).requestbuf ++ a).take (reqend + 4))
            (run env [] m evs).requestsCompleted (run env [] m evs).keepalive
          ({ alone.1 with
            sendq := (run env [] m evs).sendq
            requestbuf := ((run env [] m evs).requestbuf ++ a).drop (reqend + 4) }, alone.2) := by
  have hblank := run_cleared m evs hs
  have hcoherent : Coherent (run env [] m evs) := run_coherent m evs
  generalize run env [] m evs = s at hs hblank hcoherent ⊢
  have halive : s.quitting = false := by
    simp only [Coherent, hs] at hcoherent
    exact hcoherent.1
  refine ⟨?_, fun a reqend hfind => ?_⟩
  · unfold Blank at hblank
    rw [halive] at hblank
    exact hblank
  have hgrown : Blank { s with requestbuf := s.requestbuf ++ a } := hblank.receive a
  obtain ⟨hverdict, hread⟩ := hgrown.read env.cfg hfind
  refine Prod.ext (hread.trans ?_) hverdict
  have hquit := readAlone_quitting env.cfg ((s.requestbuf ++ a).take (reqend + 4))
    s.requestsCompleted s.keepalive
  dsimp only
  rw [halive, ← hquit]

/-- A rejected block, and one that has been served. -/
def rejectedAndServed : List Event :=
  chunks ["GET / HTTP/9\r\n\r\n", "GET /a HTTP/1.1\r\nHost: b\r\n\r\n", ""]

theorem waiting_is_blank_rejectedAndServed :
    (run (smallWorld [] (str "x") eager) [] () rejectedAndServed).toConnection =
      { Connection.new with
        sendq := (run (smallWorld [] (str "x") eager) [] () rejectedAndServed).sendq
        requestbuf := (run (smallWorld [] (str "x") eager) [] () rejectedAndServed).requestbuf
        requestsCompleted :=
          (run (smallWorld [] (str "x") eager) [] () rejectedAndServed).requestsCompleted
        keepalive := (run (smallWorld [] (str "x") eager) [] () rejectedAndServed).keepalive } ∧
      (run (smallWorld [] (str "x") eager) [] () rejectedAndServed).requestsCompleted = 2 :=
  ⟨(@waiting_is_blank Unit (smallWorld [] (str "x") eager) () rejectedAndServed
    (by decide +kernel)).1, by decide +kernel⟩

end Hottpd
