import Hottpd.Core.Request

/-!
# The connection code

`CheckRequest`, `ServeData`, `SendHeaders`, `SendError`, `FlushWriteBuf`,
`SendStaticData` and `EndRequest` call each other in circles, and every
circle passes through the call of `CheckRequest` that `EndRequest` makes for
a pipelined request. The functions below take that one call as a parameter
`check` and are otherwise written in the order of the calls; `checkRequest`
closes the circle on a fuel of its own.

A module is what its hooks do. A hook that is handed the connection uses it
through the calls the server's modules make, `ModCall`.
-/

namespace Hottpd

open Bytes HTTPHeaders

/-! ## Modules -/

/-- What a module does with a `Connection *`. -/
inductive ModCall where
  | sendError (code : Nat) (text : Bytes) (fatal : Bool)
  | sendHeaders (size code : Nat) (text : Bytes)
  /-- `c->State = HTTP_SEND_DATA` -/
  | sendData
  | write (data : Bytes)
  /-- `c->ResponseBufferDone = true` -/
  | bufferDone
deriving DecidableEq

/-- One call of `OnPreRequest`. Only a module that handles the request, and
says so by answering 1, has used the connection. -/
structure PreAnswer where
  res : ModResult
  calls : List ModCall
  quiet : res ≠ some 1 → calls = []

structure Module (σ : Type) where
  onPreRequest : σ → Connection → (method vhost dir file : Bytes) → σ × PreAnswer
  onBufferFlushed : σ → Connection → σ
  /-- An event on a descriptor of the module's own. -/
  handleEvent : σ → Connection → σ × List ModCall

/-! ## Assignments -/

section Assignments

variable {σ : Type}

def St.log (s : St σ) (e : Ev) : St σ := { s with trace := s.trace ++ [e] }

def St.setState (s : St σ) (x : HttpState) : St σ :=
  { s with state := x }.log (.state x)

/-- `CullList::AddItem`: nobody is quit twice. -/
def addItem (s : St σ) : St σ :=
  { s with
    culls := if s.quitting then s.culls else s.culls + 1
    quitting := true }

/-- `ConnectionManager::Delete`. -/
def delete (s : St σ) : St σ :=
  let s := s.log .deleted
  let s := addItem s
  { s with quitting := true }.setState .finished

/-- The tail of a fatal `SendError`. -/
def dropKeepalive (s : St σ) : St σ :=
  { s with keepalive := false }.log (.dropped s.keepalive)

/-- `EPollEngine::WantWrite`. -/
def wantWrite (s : St σ) : St σ := { s with mask := ⟨false, true⟩ }

def boundsCheckFd (env : Env) : Bool := ¬ env.maxDescriptors < env.fd

def addWriteBuf (data : Bytes) (s : St σ) : St σ :=
  { s with sendq := s.sendq ++ data }.log (.append data)

def write (env : Env) (data : Bytes) (s : St σ) : St σ :=
  if boundsCheckFd env then wantWrite (addWriteBuf data s) else s

/-- The assignments at the end of `EndRequest`. -/
def clearRequest (s : St σ) : St σ :=
  { s with
    headers := clear
    method := []
    uri := []
    uriquery := []
    upath := []
    requestBody := []
    httpVersion := .unspecified
    requestBodyLength := 0
    responseBackend := none
    responseBufferDone := false
    rfilesize := 0
    rfilesent := 0
    filefd := none }.setState .waitRequest

end Assignments

/-! ## The circle -/

section Circle

variable {σ : Type} (env : Env) (mods : List (Module σ)) (check : St σ → St σ)

def endRequest (s : St σ) : St σ :=
  let s := { s with requestsCompleted := s.requestsCompleted + 1 }.log
    (.ended s.keepalive s.sendq s.rfilesent s.rfilesize)
  if s.keepalive = false then delete (s.setState .finished)
  else
    let s := clearRequest s
    if s.requestbuf ≠ [] then check s else s

/-- `WriteBackend::ServeFile`: the result and what it leaves. Mapping fails
without a file and on an empty one. -/
def serveFile (s : St σ) : Int × St σ :=
  let s' := { s with calls := s.calls + 1 }
  match s.filefd with
  | none => (-1, s')
  | some path =>
      if s.rfilesize = 0 ∨ env.os.mmap s.calls = false then (-1, s')
      else
        let s' := { s' with sends := s.sends + 1 }
        let fdata := (env.os.content path).take s.rfilesize
        match env.os.send s.sends with
        | .again => (0, s')
        | .fail => (-1, s')
        | .took n =>
            let re := min n (s.rfilesize - s.rfilesent)
            (re, { s' with
              wire := s.wire ++ (fdata.drop s.rfilesent).take re
              rfilesent := s.rfilesent + re })

def sendStaticData (s : St σ) : St σ :=
  -- the missing file does not end the function
  let s := if s.filefd = none then delete s else s
  let (re, s) := serveFile env s
  if re < 0 then delete s
  else if s.rfilesent = s.rfilesize then endRequest check s
  else wantWrite s

/-- The first half of `FlushWriteBuf`; the flag is whether the second half
is reached. -/
def flushSend (s : St σ) : Bool × St σ :=
  if s.sendq = [] then (true, s)
  else
    let s' := { s with sends := s.sends + 1 }
    match env.os.send s.sends with
    | .again => (true, wantWrite (s'.log (.flush 0 s.sendq.length)))
    | .fail => (false, delete s')
    | .took n =>
        let nSent := min n s.sendq.length
        let s' := { s' with
          wire := s.wire ++ s.sendq.take nSent
          sendq := s.sendq.drop nSent }.log (.flush nSent s.sendq.length)
        (true, if nSent ≠ s.sendq.length then wantWrite s' else s')

/-- `FOREACH_MOD(I_OnBufferFlushed, OnBufferFlushed(this))` -/
def onBufferFlushed (s : St σ) : St σ :=
  { s with mods := mods.foldl (fun m h => h.onBufferFlushed m s.toConnection) s.mods }

def flushWriteBuf (s : St σ) : St σ :=
  let (go, s) := flushSend env s
  if go = false then s
  else if s.sendq = [] then
    let s := onBufferFlushed mods s
    if s.state = .sendData ∧ s.responseBufferDone then endRequest check s
    else if s.state = .sendHeaders ∧ s.responseBackend ≠ none then
      sendStaticData env check (s.setState .sendData)
    else s
  else s

/-- The fields `SendHeaders` sends, and what it leaves of `keepalive`; `calls`
is the number of its look at the clock. -/
def responseHeaders (calls size : Nat) (rheaders : HTTPHeaders) (uri : Bytes)
    (keepalive : Bool) : HTTPHeaders × Bool :=
  let h := createHeader rheaders (str "Date") (env.os.asctime calls).dropLast
  let h := createHeader h (str "Server") (str "hottpd")
  let h := setHeader h (str "Content-Length") (ofNat size)
  let h :=
    if size ≠ 0 ∧ isSet h (str "Content-Type") = false then
      let mime :=
        match rfind 46 uri with
        | some p => env.cfg.mimeType (uri.drop (p + 1))
        | none => []
      setHeader h (str "Content-Type")
        (if mime = [] then str "application/x-octet-stream" else mime)
    else if size = 0 then removeHeader h (str "Content-Type")
    else h
  if caseEq (getHeader h (str "Connection")) (str "Close") then (h, false)
  else if keepalive then (setHeader h (str "Connection") (str "Keep-Alive"), true)
  else (setHeader h (str "Connection") (str "Close"), false)

def protocol (version : HttpVersion) : Bytes :=
  if version = .http10 then str "HTTP/1.0 " else str "HTTP/1.1 "

def statusLine (version : HttpVersion) (response : Nat) (rtext : Bytes) : Bytes :=
  protocol version ++ (ofNat response ++ str " " ++ rtext ++ crlf)

/-- `SendHeaders` up to the test for an empty response. -/
def writeHeaders (size response : Nat) (rtext : Bytes) (rheaders : HTTPHeaders)
    (s : St σ) : St σ :=
  let s := s.setState .sendHeaders
  let s := write env (protocol s.httpVersion) s
  let s := write env (ofNat response ++ str " " ++ rtext ++ crlf) s
  let (h, keepalive) := responseHeaders env s.calls size rheaders s.uri s.keepalive
  let s := { s with calls := s.calls + 1, keepalive := keepalive }
  let s := write env (getFormattedHeaders h) s
  let s := write env crlf s
  s.log (.head (statusLine s.httpVersion response rtext) h)

def sendHeaders (size response : Nat) (rtext : Bytes) (rheaders : HTTPHeaders)
    (s : St σ) : St σ :=
  let s := writeHeaders env size response rtext rheaders s
  if size = 0 then endRequest check s else s

def errorPage (text : Bytes) : Bytes :=
  str "<html><head></head><body>" ++ text
    ++ str "<br><small>Powered by Hottpd</small></body></html>"

def sendError (code : Nat) (text : Bytes) (fatal : Bool) (s : St σ) : St σ :=
  let s := if fatal then s.log (.fatal s.keepalive) else s
  let empty := setHeader clear (str "Content-Type") (str "text/html")
  let data := errorPage text
  let s := { s with responseBackend := none }
  let s := sendHeaders env check data.length code text empty s
  let s := s.setState .sendData
  let s := (write env data s).log (.page data)
  let s := { s with responseBufferDone := true }
  let s := flushWriteBuf env mods check s
  if fatal then dropKeepalive s else s

/-- The error page for a path `CheckFilePath` refuses. -/
def statError : Errno → Nat × Bytes
  | .eacces => (403, str "Forbidden")
  | .enoent | .eloop | .enametoolong | .enotdir => (404, str "File Not Found")
  | .other => (500, str "Internal Server Error")

/-- The error page for a file that does not open. -/
def openError : Errno → Nat × Bytes
  | .eacces => (403, str "Forbidden")
  | .enoent | .enotdir => (404, str "File Not Found")
  | .eloop | .enametoolong | .other => (500, str "Internal Server Error")

/-- `ServeData` up to the point where it answers: the error page to send, or
the size of the file it has opened. -/
def resolveFile (s : St σ) : Except (Nat × Bytes) Nat × St σ :=
  let s := s.log (.served s.calls s.method s.uri s.headers s.requestBody)
  let stat := env.os.stat s.calls env.cfg.followSymLinks
  let s' := { s with calls := s.calls + 1 }
  match checkFilePath stat env.cfg.docRoot s.uri with
  | .error e => (.error (statError e), { s' with upath := [] })
  | .ok (path, fst) =>
      let s' := { s' with upath := path }
      let oNoatime := env.cfg.noAtime && fst.uid == env.os.geteuid
      let s'' := { s' with calls := s'.calls + 1 }
      match env.os.openFile s'.calls (cstr path) oNoatime with
      | .error e => (.error (openError e), { s'' with filefd := none })
      | .ok () =>
          (.ok fst.size, { s'' with
            filefd := some (cstr path)
            rfilesize := fst.size
            rfilesent := 0
            responseBackend := some .write }.log (.opened (cstr path) fst.size s.keepalive))

def serveData (s : St σ) : St σ :=
  match resolveFile env s with
  | (.error (code, text), s) => sendError env mods check code text false s
  | (.ok size, s) => sendHeaders env check size 200 (str "OK") clear s

/-! ## Modules at work -/

def modCall (call : ModCall) (s : St σ) : St σ :=
  match call with
  | .sendError code text fatal => sendError env mods check code text fatal s
  | .sendHeaders size code text => sendHeaders env check size code text clear s
  | .sendData => s.setState .sendData
  | .write data => write env data s
  | .bufferDone => { s with responseBufferDone := true }

def modCalls (calls : List ModCall) (s : St σ) : St σ :=
  calls.foldl (fun s call => modCall env mods check call s) s

/-- `FOREACH_RESULT_I` over the handlers of `OnPreRequest`, from the `k`-th
on: the first result other than 0 is `MOD_RESULT`, and an exception counts
as none. -/
def foreachResult (method vhost dir file : Bytes) :
    Nat → List (Module σ) → St σ → Int × St σ
  | _, [], s => (0, s)
  | k, m :: rest, s =>
      let (σ', answer) := m.onPreRequest s.mods s.toConnection method vhost dir file
      let s := { s with mods := σ' }.log (.hook k answer.res)
      let s := modCalls env mods check answer.calls s
      match answer.res with
      | none => foreachResult method vhost dir file (k + 1) rest s
      | some res =>
          if res ≠ 0 then (res, s)
          else foreachResult method vhost dir file (k + 1) rest s

/-- The tail of `CheckRequest`: a request with no body, from `HandleURI` on. -/
def dispatchRequest (s : St σ) : St σ :=
  let (uri, uriquery) := handleURI s.uri s.uriquery
  let s := { s with uri := uri, uriquery := uriquery }.log .cleaned
  let dir := dirOf s.uri
  let file := fileOf s.uri
  let vhost := getHeader s.headers (str "Host")
  let (modResult, s) := foreachResult env mods check s.method vhost dir file 0 mods s
  if modResult = 1 then s
  else if s.method ≠ str "GET" ∧ s.method ≠ str "POST" then
    sendError env mods check 501 (str "Not Implemented") true s
  else serveData env mods check s

/-- Take the block off and act on what it says. -/
def actOnRequest (reqend : Nat) (s : St σ) : St σ :=
  let (c, verdict) := takeRequest env.cfg reqend s.toConnection
  let s := { s with toConnection := c }.log
    (.parsed (s.requestbuf.take (reqend + 4)) c.uri c.keepalive verdict)
  match verdict with
  | .reject code text fatal => sendError env mods check code text fatal s
  | .body => s.setState .recvReqbody
  | .dispatch => dispatchRequest env mods check s

def checkOnce (newpos : Nat) (s : St σ) : St σ :=
  match findRequestEnd s.requestbuf newpos with
  | none => s
  | some reqend => actOnRequest env mods check reqend s

end Circle

/-! ## The circle closed -/

section Events

variable {σ : Type} (env : Env) (mods : List (Module σ))

/-- `CheckRequest`. One unit of fuel is one header block taken off the
buffer, so the length of the buffer is more than enough. -/
def checkFuel : Nat → Nat → St σ → St σ
  | 0, _, s => s
  | fuel + 1, newpos, s => checkOnce env mods (checkFuel fuel 0) newpos s

def checkRequest (newpos : Nat) (s : St σ) : St σ :=
  checkFuel env mods (s.requestbuf.length + 1) newpos s

/-- The recursion below `AddBuffer` and `HandleEvent`. -/
def recheck (s : St σ) : St σ := checkRequest env mods 0 s

/-- What `AddBuffer` does with data while it waits for a body. -/
def takeBody (a : Bytes) (s : St σ) : St σ :=
  let remains := sizeSub s.requestBodyLength s.requestBody.length % 2 ^ 32
  if remains < a.length then
    { s with
      requestBody := s.requestBody ++ a.take remains
      -- all of it, not only the rest
      requestbuf := s.requestbuf ++ a }
  else { s with requestBody := s.requestBody ++ a }

/-- The limit at the end of `AddBuffer`. -/
def limited (s : St σ) : Bool × St σ := (s.requestbuf.length ≤ 5120, s)

/-- `AddBuffer`; the flag is its result. -/
def addBuffer (a : Bytes) (s : St σ) : Bool × St σ :=
  if a = [] then (true, s)
  else if s.state = .recvReqbody then
    let s := takeBody a s
    if s.requestBody.length = s.requestBodyLength then
      (true, serveData env mods (recheck env mods) s)
    else limited s
  else
    let nspos := s.requestbuf.length
    let s := { s with requestbuf := s.requestbuf ++ a }
    if s.state = .waitRequest then limited (checkRequest env mods nspos s)
    else limited s

/-- How a `read` on the socket ends; `again` is `EAGAIN` and `EINTR`. -/
inductive ReadRes where
  | data (bytes : Bytes)
  | eof
  | again
  | fail
deriving DecidableEq

/-- `ReadData`. The buffer is handed on as a C string. -/
def readData (res : ReadRes) (s : St σ) : St σ :=
  match res with
  | .data bytes =>
      let (ok, s) := addBuffer env mods (cstr bytes) s
      if ok then s else delete s
  | .eof => delete s
  | .again => s
  | .fail => delete s

/-- What can happen to a connection: the three kinds of events the engine
dispatches, a timeout in the main loop, and an event of the `k`-th module. -/
inductive Event where
  | read (res : ReadRes)
  | write
  | error
  | timeout
  | module (k : Nat)
deriving DecidableEq

/-- `Connection::HandleEvent(EVENT_WRITE)`. -/
def handleWrite (s : St σ) : St σ :=
  if s.state = .sendData ∧ s.responseBackend ≠ none then
    sendStaticData env (recheck env mods) s
  else flushWriteBuf env mods (recheck env mods) s

/-- One event, as `DispatchEvents` delivers it and `HandleEvent` takes it. -/
def handleEvent (ev : Event) (s : St σ) : St σ :=
  match ev with
  | .read res => if s.quitting then s else readData env mods res s
  -- the engine goes back to watching for input before it calls the handler
  | .write => handleWrite env mods { s with mask := ⟨true, false⟩ }
  | .error => delete s
  | .timeout => delete s
  | .module k =>
      match mods[k]? with
      | none => s
      | some m =>
          let (σ', calls) := m.handleEvent s.mods s.toConnection
          modCalls env mods (recheck env mods) calls { s with mods := σ' }

/-- The life of a connection from `accept` on. -/
def run (m : σ) (evs : List Event) : St σ :=
  evs.foldl (fun s ev => handleEvent env mods ev s) (St.init m)

end Events

end Hottpd
