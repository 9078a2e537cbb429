import Hottpd.Core.Exec

/-!
# The pieces the moves are made of

The straight-line parts of the connection code, each with the one equation
that says what it leaves behind, field by field. Whatever is not named in
such an equation is unchanged, so the invariants never unfold the code.
-/

namespace Hottpd

open Bytes HTTPHeaders

variable {σ : Type} (env : Env)

/-- `EndRequest` short of the pipelined request behind it. -/
def endStep (s : St σ) : St σ := endRequest id s

/-- `SendError` up to the flush. -/
def queueError (code : Nat) (text : Bytes) (fatal : Bool) (s : St σ) : St σ :=
  let s := if fatal then s.log (.fatal s.keepalive) else s
  let empty := setHeader clear (str "Content-Type") (str "text/html")
  let s := writeHeaders env (errorPage text).length code text empty
    { s with responseBackend := none }
  { (write env (errorPage text) (s.setState .sendData)).log (.page (errorPage text)) with
    responseBufferDone := true }

/-- A header block taken off the buffer. -/
def takenRequest (reqend : Nat) (s : St σ) : St σ :=
  { s with toConnection := (takeRequest env.cfg reqend s.toConnection).1 }.log
    (.parsed (s.requestbuf.take (reqend + 4))
      (takeRequest env.cfg reqend s.toConnection).1.uri
      (takeRequest env.cfg reqend s.toConnection).1.keepalive
      (takeRequest env.cfg reqend s.toConnection).2)

/-- Behind `HandleURI`. -/
def cleaned (s : St σ) : St σ :=
  { s with
    uri := (handleURI s.uri s.uriquery).1
    uriquery := (handleURI s.uri s.uriquery).2 }.log .cleaned

/-- Behind the hooks: `evs` is what they answered. -/
def hooked (m : σ) (evs : List Ev) (s : St σ) : St σ :=
  { s with mods := m, trace := s.trace ++ evs }

/-- A header block as it goes out. -/
def headBlock (status : Bytes) (h : HTTPHeaders) : Bytes :=
  status ++ getFormattedHeaders h ++ crlf

/-- What a flush of the whole queue adds to the trace. -/
def flushEvents (s : St σ) : List Ev :=
  if s.sendq = [] then [] else [.flush s.sendq.length s.sendq.length]

/-- The queue gone, whatever the engine was told last. -/
def drained (mask : EpollMask) (sends : Nat) (m : σ) (s : St σ) : St σ :=
  { s with
    mask := mask
    sends := sends
    wire := s.wire ++ s.sendq
    sendq := []
    mods := m
    trace := s.trace ++ flushEvents s }

/-- Part of the queue gone. -/
def advanced (n : Nat) (s : St σ) : St σ :=
  wantWrite { s with
    sends := s.sends + 1
    wire := s.wire ++ s.sendq.take n
    sendq := s.sendq.drop n
    trace := s.trace ++ [.flush n s.sendq.length] }

/-- The file that `CheckFilePath` found, open. -/
def openedFile (path : Bytes) (size calls : Nat) (s : St σ) : St σ :=
  { s with
    upath := path
    filefd := some (cstr path)
    rfilesize := size
    rfilesent := 0
    responseBackend := some .write
    calls := calls
    trace := s.trace ++ [.served s.calls s.method s.uri s.headers s.requestBody,
      .opened (cstr path) size s.keepalive] }

/-- A piece of the open file gone. -/
def filePiece (path : Bytes) (n : Nat) (sends calls : Nat) (s : St σ) : St σ :=
  { s with
    sends := sends
    calls := calls
    wire := s.wire
      ++ (((env.os.content path).take s.rfilesize).drop s.rfilesent).take n
    rfilesent := s.rfilesent + n }

/-- The file `ServeData` opens for `uri` when it is called at `now`, and the size
it has. -/
def resolved (now : Nat) (uri : Bytes) : Option (Bytes × Nat) :=
  match checkFilePath (env.os.stat now env.cfg.followSymLinks) env.cfg.docRoot uri with
  | .error _ => none
  | .ok (path, fst) =>
      match env.os.openFile (now + 1) (cstr path)
          (env.cfg.noAtime && fst.uid == env.os.geteuid) with
      | .error _ => none
      | .ok () => some (cstr path, fst.size)

/-- What `ServeData` adds to the trace before it answers. -/
def serveEvents (s : St σ) : List Ev :=
  .served s.calls s.method s.uri s.headers s.requestBody ::
    (resolved env s.calls s.uri).toList.map fun file => .opened file.1 file.2 s.keepalive

/-! ## What they leave behind -/

section Equations

variable {env}

@[simp] theorem trace_log (s : St σ) (e : Ev) : (s.log e).trace = s.trace ++ [e] := rfl

@[simp] theorem trace_setState (s : St σ) (x : HttpState) :
    (s.setState x).trace = s.trace ++ [.state x] := rfl

@[simp] theorem trace_advanced (n : Nat) (s : St σ) :
    (advanced n s).trace = s.trace ++ [.flush n s.sendq.length] := rfl

@[simp] theorem trace_drained (mask : EpollMask) (sends : Nat) (m : σ) (s : St σ) :
    (drained mask sends m s).trace = s.trace ++ flushEvents s := rfl

@[simp] theorem trace_openedFile (path : Bytes) (size calls : Nat) (s : St σ) :
    (openedFile path size calls s).trace = s.trace ++
      [.served s.calls s.method s.uri s.headers s.requestBody,
        .opened (cstr path) size s.keepalive] := rfl

@[simp] theorem trace_filePiece (path : Bytes) (n sends calls : Nat) (s : St σ) :
    (filePiece env path n sends calls s).trace = s.trace := rfl

@[simp] theorem trace_dropKeepalive (s : St σ) :
    (dropKeepalive s).trace = s.trace ++ [.dropped s.keepalive] := rfl

theorem delete_eq (s : St σ) :
    delete s = { s with
      state := .finished
      quitting := true
      culls := if s.quitting then s.culls else s.culls + 1
      trace := s.trace ++ [.deleted, .state .finished] } := by
  simp [delete, addItem, St.log, St.setState]
  rfl

theorem write_eq (data : Bytes) (s : St σ) :
    write env data s = { s with
      sendq := s.sendq ++ data
      mask := ⟨false, true⟩
      trace := s.trace ++ [.append data] } := by
  have hfd : boundsCheckFd env = true := by
    have := env.fd_lt
    simp only [boundsCheckFd, decide_eq_true_eq]
    omega
  simp [write, hfd, wantWrite, addWriteBuf, St.log]

/-- The fields a response of `s` goes out with. -/
def sentHeaders (env : Env) (size : Nat) (rheaders : HTTPHeaders) (s : St σ) :
    HTTPHeaders :=
  (responseHeaders env s.calls size rheaders s.uri s.keepalive).1

/-- What `SendHeaders` adds to the trace. -/
def headEvents (env : Env) (size response : Nat) (rtext : Bytes)
    (rheaders : HTTPHeaders) (s : St σ) : List Ev :=
  [.state .sendHeaders, .append (protocol s.httpVersion),
    .append (ofNat response ++ str " " ++ rtext ++ crlf),
    .append (getFormattedHeaders (sentHeaders env size rheaders s)), .append crlf,
    .head (statusLine s.httpVersion response rtext) (sentHeaders env size rheaders s)]

theorem getHeader_createHeader_of_ne (h : HTTPHeaders) {name name' : Bytes}
    (data : Bytes) (hne : caseKey name' ≠ caseKey name) :
    getHeader (createHeader h name data) name' = getHeader h name' := by
  unfold createHeader
  split
  · rfl
  · exact getHeader_setHeader_of_ne h data hne

variable (env) in
/-- The fields before the one that says whether the connection stays. -/
theorem responseHeaders_eq (calls size : Nat) {rheaders : HTTPHeaders} (uri : Bytes)
    (keepalive : Bool) (hconn : getHeader rheaders (str "Connection") = []) :
    ∃ h : HTTPHeaders, getHeader h (str "Content-Length") = ofNat size ∧
      responseHeaders env calls size rheaders uri keepalive =
        (setHeader h (str "Connection")
          (if keepalive then str "Keep-Alive" else str "Close"), keepalive) := by
  have hlen : ∀ h : HTTPHeaders,
      getHeader (setHeader h (str "Content-Length") (ofNat size)) (str "Content-Length")
        = ofNat size := fun h => getHeader_setHeader_self h _ _
  have hcl : caseKey (str "Content-Length") ≠ caseKey (str "Content-Type") := by decide
  have hct : caseKey (str "Connection") ≠ caseKey (str "Content-Type") := by decide
  have hbase : getHeader (setHeader (createHeader (createHeader rheaders (str "Date")
      (env.os.asctime calls).dropLast) (str "Server") (str "hottpd"))
      (str "Content-Length") (ofNat size)) (str "Connection") = [] := by
    rw [getHeader_setHeader_of_ne _ _ (by decide), getHeader_createHeader_of_ne _ _ (by decide),
      getHeader_createHeader_of_ne _ _ (by decide), hconn]
  have hclose : caseEq [] (str "Close") = false := by decide
  have key : ∀ h : HTTPHeaders, getHeader h (str "Connection") = [] →
      (if caseEq (getHeader h (str "Connection")) (str "Close") then (h, false)
        else if keepalive then (setHeader h (str "Connection") (str "Keep-Alive"), true)
        else (setHeader h (str "Connection") (str "Close"), false)) =
      (setHeader h (str "Connection")
        (if keepalive then str "Keep-Alive" else str "Close"), keepalive) := by
    intro h hh
    cases keepalive <;> simp [hh, hclose]
  simp only [responseHeaders]
  split
  · refine ⟨_, ?_, key _ ?_⟩
    · rw [getHeader_setHeader_of_ne _ _ hcl, hlen]
    · rw [getHeader_setHeader_of_ne _ _ hct, hbase]
  · split
    · refine ⟨_, ?_, key _ ?_⟩
      · rw [getHeader_removeHeader_of_ne _ hcl, hlen]
      · rw [getHeader_removeHeader_of_ne _ hct, hbase]
    · exact ⟨_, hlen _, key _ hbase⟩

/-- The fields the core itself hands to `SendHeaders`. -/
theorem core_no_connection :
    getHeader clear (str "Connection") = [] ∧
      getHeader (setHeader clear (str "Content-Type") (str "text/html"))
        (str "Connection") = [] := by
  decide

theorem sentHeaders_connection (size : Nat) {rheaders : HTTPHeaders} (s : St σ)
    (hconn : getHeader rheaders (str "Connection") = []) :
    getHeader (sentHeaders env size rheaders s) (str "Connection")
      = if s.keepalive then str "Keep-Alive" else str "Close" := by
  obtain ⟨h, -, heq⟩ := responseHeaders_eq env s.calls size s.uri s.keepalive hconn
  rw [sentHeaders, heq, getHeader_setHeader_self]

theorem sentHeaders_length (size : Nat) {rheaders : HTTPHeaders} (s : St σ)
    (hconn : getHeader rheaders (str "Connection") = []) :
    getHeader (sentHeaders env size rheaders s) (str "Content-Length") = ofNat size := by
  obtain ⟨h, hl, heq⟩ := responseHeaders_eq env s.calls size s.uri s.keepalive hconn
  rw [sentHeaders, heq, getHeader_setHeader_of_ne _ _ (by decide), hl]

theorem writeHeaders_eq (size response : Nat) (rtext : Bytes) {rheaders : HTTPHeaders}
    (s : St σ) (hconn : getHeader rheaders (str "Connection") = []) :
    writeHeaders env size response rtext rheaders s = { s with
      state := .sendHeaders
      sendq := s.sendq ++ headBlock (statusLine s.httpVersion response rtext)
        (sentHeaders env size rheaders s)
      mask := ⟨false, true⟩
      calls := s.calls + 1
      trace := s.trace ++ headEvents env size response rtext rheaders s } := by
  obtain ⟨h, -, heq⟩ := responseHeaders_eq env s.calls size s.uri s.keepalive hconn
  simp [writeHeaders, write_eq, St.log, St.setState, headBlock, statusLine, headEvents,
    sentHeaders, heq]

/-- What a queued error page adds to the trace. -/
def errorEvents (env : Env) (code : Nat) (text : Bytes) (fatal : Bool) (s : St σ) :
    List Ev :=
  (if fatal then [.fatal s.keepalive] else [])
    ++ headEvents env (errorPage text).length code text
      (setHeader clear (str "Content-Type") (str "text/html")) s
    ++ [.state .sendData, .append (errorPage text), .page (errorPage text)]

theorem queueError_eq (code : Nat) (text : Bytes) (fatal : Bool) (s : St σ) :
    queueError env code text fatal s = { s with
      state := .sendData
      sendq := s.sendq ++ headBlock (statusLine s.httpVersion code text)
        (sentHeaders env (errorPage text).length
          (setHeader clear (str "Content-Type") (str "text/html")) s)
        ++ errorPage text
      mask := ⟨false, true⟩
      calls := s.calls + 1
      responseBackend := none
      responseBufferDone := true
      trace := s.trace ++ errorEvents env code text fatal s } := by
  cases fatal <;>
    simp [queueError, writeHeaders_eq _ _ _ _ core_no_connection.2, write_eq, St.log,
      St.setState, errorEvents, headEvents, sentHeaders]

theorem endStep_of_close {s : St σ} (h : s.keepalive = false) :
    endStep s = { s with
      state := .finished
      quitting := true
      culls := if s.quitting then s.culls else s.culls + 1
      requestsCompleted := s.requestsCompleted + 1
      trace := s.trace ++ [.ended false s.sendq s.rfilesent s.rfilesize,
        .state .finished, .deleted, .state .finished] } := by
  simp [endStep, endRequest, delete_eq, St.log, St.setState, h]

theorem endStep_of_keepalive {s : St σ} (h : s.keepalive = true) :
    endStep s = { s with
      state := .waitRequest
      headers := clear
      method := []
      uri := []
      uriquery := []
      upath := []
      requestBody := []
      httpVersion := .unspecified
      requestBodyLength := 0
      responseBackend := none
      responseBufferDone := false
      rfilesize := 0
      rfilesent := 0
      filefd := none
      requestsCompleted := s.requestsCompleted + 1
      trace := s.trace ++ [.ended true s.sendq s.rfilesent s.rfilesize,
        .state .waitRequest] } := by
  simp [endStep, endRequest, clearRequest, St.log, St.setState, h]

/-- What the end of a request adds to the trace. -/
def endEvents (s : St σ) : List Ev :=
  .ended s.keepalive s.sendq s.rfilesent s.rfilesize ::
    if s.keepalive then [.state .waitRequest]
    else [.state .finished, .deleted, .state .finished]

theorem endStep_trace_eq (s : St σ) : (endStep s).trace = s.trace ++ endEvents s := by
  cases h : s.keepalive with
  | false => simp [endStep_of_close h, endEvents, h]
  | true => simp [endStep_of_keepalive h, endEvents, h]

/-- What `ServeData` leaves when it has no file to answer with. -/
theorem resolveFile_error {s s' : St σ} {e : Nat × Bytes}
    (h : resolveFile env s = (.error e, s')) :
    ∃ upath filefd calls, (filefd = s.filefd ∨ filefd = none) ∧
      s' = { s with
        upath := upath
        filefd := filefd
        calls := calls
        trace := s.trace ++ [.served s.calls s.method s.uri s.headers s.requestBody] } := by
  simp only [resolveFile] at h
  split at h
  · obtain ⟨-, rfl⟩ := Prod.mk.inj h
    exact ⟨_, _, _, Or.inl rfl, rfl⟩
  · split at h
    · obtain ⟨-, rfl⟩ := Prod.mk.inj h
      exact ⟨_, _, _, Or.inr rfl, rfl⟩
    · exact absurd (Prod.mk.inj h).1 (by simp)

/-- What it leaves when it has one: the file that `CheckFilePath` found. -/
theorem resolveFile_ok {s s' : St σ} {size : Nat}
    (h : resolveFile env s = (.ok size, s')) :
    ∃ path fst calls n, fst.size = size ∧
      checkFilePath (env.os.stat n env.cfg.followSymLinks) env.cfg.docRoot s.uri
        = .ok (path, fst) ∧
      s' = openedFile path size calls s := by
  simp only [resolveFile] at h
  split at h
  · exact absurd (Prod.mk.inj h).1 (by simp)
  · next path fst hpath =>
      split at h
      · exact absurd (Prod.mk.inj h).1 (by simp)
      · obtain ⟨hsize, rfl⟩ := Prod.mk.inj h
        injection hsize with hsize
        subst hsize
        exact ⟨path, fst, s.calls + 1 + 1, s.calls, rfl, hpath, by simp [openedFile, St.log]⟩

theorem resolved_of_error {s s' : St σ} {e : Nat × Bytes}
    (h : resolveFile env s = (.error e, s')) : resolved env s.calls s.uri = none := by
  unfold resolved
  cases hpath : checkFilePath (env.os.stat s.calls env.cfg.followSymLinks)
      env.cfg.docRoot s.uri with
  | error e => rfl
  | ok found =>
      cases hopen : env.os.openFile (s.calls + 1) (cstr found.1)
          (env.cfg.noAtime && found.2.uid == env.os.geteuid) with
      | error e => simp only [hopen]
      | ok _ =>
          simp only [resolveFile, St.log, hpath, hopen] at h
          exact absurd (Prod.mk.inj h).1 (by simp)

theorem resolved_of_ok {s s' : St σ} {size : Nat}
    (h : resolveFile env s = (.ok size, s')) :
    ∃ path calls, resolved env s.calls s.uri = some (cstr path, size) ∧
      s' = openedFile path size calls s := by
  unfold resolved
  cases hpath : checkFilePath (env.os.stat s.calls env.cfg.followSymLinks)
      env.cfg.docRoot s.uri with
  | error e =>
      simp only [resolveFile, St.log, hpath] at h
      exact absurd (Prod.mk.inj h).1 (by simp)
  | ok found =>
      cases hopen : env.os.openFile (s.calls + 1) (cstr found.1)
          (env.cfg.noAtime && found.2.uid == env.os.geteuid) with
      | error e =>
          simp only [resolveFile, St.log, hpath, hopen] at h
          exact absurd (Prod.mk.inj h).1 (by simp)
      | ok _ =>
          simp only [resolveFile, St.log, hpath, hopen] at h
          obtain ⟨hsize, rfl⟩ := Prod.mk.inj h
          injection hsize with hsize
          subst hsize
          exact ⟨found.1, s.calls + 1 + 1, by simp only [hopen], by simp [openedFile]⟩

/-! ## What taking a request leaves alone -/

/-- Of the connection only what a header block says is new. -/
def Reread (c c' : Connection) : Prop :=
  c' = { c with
    method := c'.method
    uri := c'.uri
    httpVersion := c'.httpVersion
    keepalive := c'.keepalive
    headers := c'.headers
    requestBodyLength := c'.requestBodyLength }

theorem Reread.trans {c₁ c₂ c₃ : Connection} (h : Reread c₁ c₂) (h' : Reread c₂ c₃) :
    Reread c₁ c₃ := by
  unfold Reread at h h' ⊢
  rw [h] at h'
  exact h'

/-- The connection behind a parsing step, failed or not. -/
def leftBy : Except (Connection × Verdict) Connection → Connection
  | .error (c, _) => c
  | .ok c => c

theorem requestLine_reread (c : Connection) (line : Bytes) :
    Reread c (leftBy (requestLine c line)) := by
  simp only [requestLine]
  split
  · exact rfl
  · split
    · exact rfl
    · split <;> exact rfl

theorem headerLine_reread (c : Connection) (line : Bytes) :
    Reread c (leftBy (headerLine c line)) := by
  unfold headerLine
  split
  · exact rfl
  · split <;> exact rfl

/-- What each line keeps, all of them keep. -/
theorem parseLines_keeps {P : Connection → Connection → Prop} (hrefl : ∀ c, P c c)
    (htrans : ∀ {c₁ c₂ c₃}, P c₁ c₂ → P c₂ c₃ → P c₁ c₃)
    (hfirst : ∀ c line, P c (leftBy (requestLine c line)))
    (hfield : ∀ c line, P c (leftBy (headerLine c line))) :
    ∀ (lines : List Bytes) (c : Connection), P c (leftBy (parseLines c lines)) := by
  intro lines
  induction lines with
  | nil => intro c; exact hrefl c
  | cons line rest ih =>
      intro c
      have hline : P c
          (leftBy (if c.method = [] then requestLine c line else headerLine c line)) := by
        split
        · exact hfirst c line
        · exact hfield c line
      simp only [parseLines]
      split
      · next e heq => rw [heq] at hline; exact hline
      · next c' heq => rw [heq] at hline; exact htrans hline (ih c')

theorem parseLines_reread (lines : List Bytes) (c : Connection) :
    Reread c (leftBy (parseLines c lines)) :=
  parseLines_keeps (P := Reread) (fun _ => rfl) Reread.trans requestLine_reread
    headerLine_reread lines c

theorem takeRequest_eq (cfg : Config) (reqend : Nat) (c : Connection) :
    Reread { c with requestbuf := c.requestbuf.drop (reqend + 4) }
      (takeRequest cfg reqend c).1 := by
  have hparse := parseLines_reread (crlfLines c.requestbuf) c
  simp only [takeRequest]
  split
  · next c' verdict heq =>
      rw [heq] at hparse
      simp only [leftBy, Reread] at hparse
      rw [hparse]
      exact rfl
  · next c' heq =>
      rw [heq] at hparse
      simp only [leftBy, Reread] at hparse
      rw [hparse]
      simp only [checkHeaders]
      split <;> exact rfl

variable (env) in
theorem takenRequest_eq (reqend : Nat) (s : St σ) :
    ∃ method uri httpVersion keepalive headers requestBodyLength,
      (takeRequest env.cfg reqend s.toConnection).1.uri = uri ∧
      takenRequest env reqend s = { s with
        method := method
        uri := uri
        httpVersion := httpVersion
        keepalive := keepalive
        headers := headers
        requestBodyLength := requestBodyLength
        requestbuf := s.requestbuf.drop (reqend + 4)
        trace := s.trace ++ [.parsed (s.requestbuf.take (reqend + 4)) uri keepalive
          (takeRequest env.cfg reqend s.toConnection).2] } := by
  have h := takeRequest_eq env.cfg reqend s.toConnection
  unfold Reread at h
  unfold takenRequest
  rw [h]
  exact ⟨_, _, _, _, _, _, rfl, rfl⟩

theorem takeBody_eq (a : Bytes) (s : St σ) :
    ∃ body buf, takeBody a s = { s with requestBody := body, requestbuf := buf } := by
  unfold takeBody
  dsimp only
  split
  · exact ⟨_, _, rfl⟩
  · exact ⟨_, s.requestbuf, rfl⟩

variable (env) in
/-- A request without a body as the hooks leave it. -/
theorem hooked_eq (m : σ) (evs : List Ev) (reqend : Nat) (s : St σ) :
    ∃ method target uri uriquery httpVersion keepalive headers requestBodyLength,
      (takeRequest env.cfg reqend s.toConnection).1.uri = target ∧
      uri = (handleURI target s.uriquery).1 ∧
      hooked m evs (cleaned (takenRequest env reqend s)) = { s with
        method := method
        uri := uri
        uriquery := uriquery
        httpVersion := httpVersion
        keepalive := keepalive
        headers := headers
        requestBodyLength := requestBodyLength
        requestbuf := s.requestbuf.drop (reqend + 4)
        mods := m
        trace := s.trace ++ (.parsed (s.requestbuf.take (reqend + 4)) target keepalive
          (takeRequest env.cfg reqend s.toConnection).2 :: .cleaned :: evs) } := by
  obtain ⟨method, uri, v, k, h, l, huri, heq⟩ := takenRequest_eq env reqend s
  rw [heq]
  refine ⟨method, uri, _, (handleURI uri s.uriquery).2, v, k, h, l, huri, rfl, ?_⟩
  simp [hooked, cleaned, St.log]

end Equations

end Hottpd
