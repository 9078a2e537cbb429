import Hottpd.Lib.Framing
import Hottpd.Core.MimeTypes
import Hottpd.Proofs.HeaderText
import Hottpd.Proofs.Wire

/-!
# Responses as a client reads them

A client has no trace, only the bytes that have come. It looks for the blank line,
believes the `Content-Length` and takes that many bytes for the body. What it reads
in this way are the responses, one after the other, and at the end a part of the
next: a status line is one line, the names and values that the core puts into the
fields hold no line ends, and the body is as long as it is announced.
-/

namespace Hottpd

open Bytes HTTPHeaders Framing

variable {σ : Type} {env : Env}

/-! ## The client -/

/-- The name up to the colon, and the value behind the space. -/
def readField (h : HTTPHeaders) (line : Bytes) : HTTPHeaders :=
  match line.idxOf? 58 with
  | none => h
  | some fieldsep => setHeader h (line.take fieldsep) (line.drop (fieldsep + 2))

def readResponse (s : Bytes) : Option (Response × Bytes) :=
  match find terminator s with
  | none => none
  | some n =>
      match crlfLines s with
      | [] => none
      | status :: fields =>
          let headers := fields.foldl readField clear
          let size := digits (getHeader headers (str "Content-Length"))
          let rest := s.drop (n + 4)
          if rest.length < size then none
          else some (⟨status ++ crlf, headers, rest.take size⟩, rest.drop size)

def responseCodec : Codec Response UInt8 := ⟨Response.bytes, readResponse⟩

/-! ## What a client can read -/

/-- A line with its end. -/
def StatusLine (status : Bytes) : Prop := ∃ line, status = line ++ crlf ∧ line ≠ [] ∧ NoCrlf line

structure Response.Readable (r : Response) : Prop where
  status : StatusLine r.status
  headers : Printable r.headers
  whole : r.Whole

theorem readField_written (h : HTTPHeaders) {e : Bytes × Bytes} (hcolon : 58 ∉ e.1) :
    readField h (fieldLine (writtenField e)) = setHeader h e.1 e.2 := by
  have hsep : (e.1 ++ 58 :: 32 :: e.2).idxOf? 58 = some e.1.length := by
    rw [List.idxOf?_eq_some_iff]
    refine ⟨by simp, by simp, fun j hj => ?_⟩
    rw [List.getElem_append_left hj]
    intro heq
    exact hcolon (heq ▸ List.getElem_mem hj)
  have hvalue : (e.1 ++ 58 :: 32 :: e.2).drop (e.1.length + 2) = e.2 := by
    rw [← List.drop_drop, List.drop_left]
    rfl
  simp only [fieldLine, writtenField, readField, hsep, hvalue, List.take_left]

theorem readFields (es : List (Bytes × Bytes)) : ∀ h : HTTPHeaders, (∀ e ∈ es, 58 ∉ e.1) →
    ((es.map writtenField).map fieldLine).foldl readField h
      = es.foldl (fun m e => m.insert e.1 e.2) h := by
  induction es with
  | nil => exact fun _ _ => rfl
  | cons e es ih =>
      intro h hes
      rw [List.map_cons, List.map_cons, List.foldl_cons,
        readField_written h (hes e List.mem_cons_self)]
      exact ih _ fun e' he' => hes e' (List.mem_cons_of_mem e he')

/-- The field lines of a header block. -/
def fieldLines (h : HTTPHeaders) : List Bytes := (h.entries.map writtenField).map fieldLine

namespace Response.Readable

variable {r : Response}

/-- The header block is a block of lines. -/
theorem block (hr : r.Readable) : ∃ line, r.status = line ++ crlf ∧
    headBlock r.status r.headers = crlfBlock (line :: fieldLines r.headers) ++ crlf ∧
    ∀ l ∈ line :: fieldLines r.headers, l ≠ [] ∧ NoCrlf l := by
  obtain ⟨line, hstatus, hne, hline⟩ := hr.status
  refine ⟨line, hstatus, ?_, fun l hl => ?_⟩
  · rw [headBlock, hstatus, getFormattedHeaders_eq, crlfBlock_cons]
    simp [crlf, fieldLines]
  · rcases List.mem_cons.1 hl with rfl | hl
    · exact ⟨hne, hline⟩
    · obtain ⟨f, hf, rfl⟩ := List.mem_map.1 hl
      obtain ⟨e, he, rfl⟩ := List.mem_map.1 hf
      obtain ⟨hname, hvalue⟩ := hr.headers.noCrlf e he
      exact ⟨by simp [fieldLine], NoCrlf.append_cons (by decide) (by decide)
        (NoCrlf.append_cons (by decide) (by decide) hvalue .nil) hname⟩

/-- The first blank line is the one at its end. -/
theorem ends (hr : r.Readable) (rest : Bytes) : ∃ n,
    n + 4 = (headBlock r.status r.headers).length ∧
      find terminator (headBlock r.status r.headers ++ rest) = some n := by
  obtain ⟨line, -, hblock, hlines⟩ := hr.block
  obtain ⟨n, hn, hfind⟩ := find_block hlines rest
  refine ⟨n, ?_, ?_⟩
  · rw [hblock, List.length_append, ← hn]
    rfl
  · rw [hblock, terminator_eq]
    exact hfind

/-- What a client makes of a header block and what there is behind it. -/
theorem read (hr : r.Readable) (rest : Bytes) :
    readResponse (headBlock r.status r.headers ++ rest) =
      if rest.length < r.body.length then none
      else some ({ r with body := rest.take r.body.length }, rest.drop r.body.length) := by
  obtain ⟨line, hstatus, hblock, hlines⟩ := hr.block
  obtain ⟨n, hn, hend⟩ := hr.ends rest
  have hread : crlfLines (headBlock r.status r.headers ++ rest) =
      line :: fieldLines r.headers := by
    rw [hblock]
    exact crlfLines_block hlines rest
  have hheaders : (fieldLines r.headers).foldl readField clear = r.headers := by
    rw [fieldLines, readFields _ _ fun e he => (hr.headers.names e he).2]
    exact SortedMap.foldl_insert_entries r.headers
  have hsize : digits (getHeader r.headers (str "Content-Length")) = r.body.length := by
    rw [show getHeader r.headers (str "Content-Length") = ofNat r.body.length from hr.whole]
    exact digits_ofNat _
  have hbehind : (headBlock r.status r.headers ++ rest).drop (n + 4) = rest :=
    List.drop_left' hn.symm
  simp only [readResponse, hend, hread, hheaders, hsize, hbehind, ← hstatus]

/-- A client that has got a part of a response waits for more. -/
theorem part (hr : r.Readable) {front : Bytes} (hfront : front <+: r.bytes)
    (hne : front ≠ r.bytes) : readResponse front = none := by
  by_cases hhead : headBlock r.status r.headers <+: front
  · obtain ⟨body, rfl⟩ := hhead
    obtain ⟨more, hmore⟩ := (List.prefix_append_right_inj _).1 hfront
    rw [hr.read, if_pos]
    rw [← hmore, List.length_append]
    refine Nat.lt_add_of_pos_right (List.length_pos_iff.2 ?_)
    rintro rfl
    rw [List.append_nil] at hmore
    exact hne (by rw [hmore]; rfl)
  · -- there is no blank line yet
    obtain ⟨n, hn, hend⟩ := hr.ends r.body
    have hpart : front <+: headBlock r.status r.headers :=
      (List.prefix_or_prefix_of_prefix hfront (List.prefix_append _ _)).resolve_right hhead
    have hshort : front.length < (headBlock r.status r.headers).length := by
      refine Nat.lt_of_le_of_ne hpart.length_le fun hlen => hhead ?_
      rw [hpart.eq_of_length hlen]
    have hfind : find terminator front = none := by
      cases hfound : find terminator front with
      | none => rfl
      | some m =>
          have hfits := find_length hfound
          obtain ⟨more, hmore⟩ := hfront
          have hwhole := find_append more hfound
          rw [hmore, Response.bytes, hend, Option.some.injEq] at hwhole
          rw [terminator_eq] at hfits
          simp only [List.length_cons, List.length_nil] at hfits
          omega
    rw [readResponse, hfind]

end Response.Readable

theorem responseCodec_delimits : responseCodec.Delimits Response.Readable where
  nil := rfl
  nonempty := fun {r} hr => by
    obtain ⟨line, -, hblock, -⟩ := hr.block
    show headBlock r.status r.headers ++ r.body ≠ []
    rw [hblock]
    simp [crlf]
  whole := fun {r} hr rest => by
    show readResponse (headBlock r.status r.headers ++ r.body ++ rest) = some (r, rest)
    rw [List.append_assoc, hr.read, if_neg (by simp), List.take_left, List.drop_left]
  part := fun hr hfront hne => hr.part hfront hne

/-! ## What the core sends -/

/-- Neither a date nor a MIME type holds a line end. -/
structure PlainTexts (env : Env) : Prop where
  date : ∀ n, NoCrlf (env.os.asctime n).dropLast
  mime : ∀ ext, NoCrlf (env.cfg.mimeType ext)

theorem Printable.clear : Printable clear where
  names := fun e he => by cases he
  noCrlf := fun e he => by cases he

theorem Printable.setHeader {h : HTTPHeaders} (hprint : Printable h) {name data : Bytes}
    (hname : name ≠ [] ∧ 58 ∉ name ∧ NoCrlf name) (hdata : NoCrlf data) :
    Printable (setHeader h name data) := by
  have hold : ∀ e' ∈ h.entries, e'.1 ≠ [] ∧ 58 ∉ e'.1 ∧ NoCrlf e'.1 := fun e' he' =>
    ⟨(hprint.names e' he').1, (hprint.names e' he').2, (hprint.noCrlf e' he').1⟩
  have hentry : ∀ e ∈ (HTTPHeaders.setHeader h name data).entries,
      (e.1 ≠ [] ∧ 58 ∉ e.1 ∧ NoCrlf e.1) ∧ NoCrlf e.2 := by
    intro e he
    rcases SortedMap.mem_insertEntry he with he | ⟨hvalue, hkey | ⟨e', he', hkey⟩⟩
    · exact ⟨hold e he, (hprint.noCrlf e he).2⟩
    · rw [hvalue, hkey]
      exact ⟨hname, hdata⟩
    · rw [hvalue, ← hkey]
      exact ⟨hold e' he', hdata⟩
  exact ⟨fun e he => ⟨(hentry e he).1.1, (hentry e he).1.2.1⟩,
    fun e he => ⟨(hentry e he).1.2.2, (hentry e he).2⟩⟩

theorem Printable.createHeader {h : HTTPHeaders} (hprint : Printable h) {name data : Bytes}
    (hname : name ≠ [] ∧ 58 ∉ name ∧ NoCrlf name) (hdata : NoCrlf data) :
    Printable (createHeader h name data) := by
  unfold HTTPHeaders.createHeader
  split
  · exact hprint
  · exact hprint.setHeader hname hdata

theorem Printable.removeHeader {h : HTTPHeaders} (hprint : Printable h) (name : Bytes) :
    Printable (removeHeader h name) :=
  ⟨fun e he => hprint.names e (List.mem_of_mem_filter he),
    fun e he => hprint.noCrlf e (List.mem_of_mem_filter he)⟩

theorem noCrlf_ofNat (n : Nat) : NoCrlf (ofNat n) :=
  .of_not_mem fun h => absurd (isdigit_ofNat n 13 h) (by decide)

theorem printable_response (hplain : PlainTexts env) (calls size : Nat) {rheaders : HTTPHeaders}
    (uri : Bytes) (keepalive : Bool) (hprint : Printable rheaders) :
    Printable (responseHeaders env calls size rheaders uri keepalive).1 := by
  have hbase : Printable (setHeader (createHeader (createHeader rheaders (str "Date")
      (env.os.asctime calls).dropLast) (str "Server") (str "hottpd"))
      (str "Content-Length") (ofNat size)) :=
    ((hprint.createHeader (by decide) (hplain.date calls)).createHeader (by decide)
      (by decide)).setHeader (by decide) (noCrlf_ofNat size)
  have hconnection : ∀ {h : HTTPHeaders}, Printable h → Printable
      (if caseEq (getHeader h (str "Connection")) (str "Close") then (h, false)
        else if keepalive then (setHeader h (str "Connection") (str "Keep-Alive"), true)
        else (setHeader h (str "Connection") (str "Close"), false)).1 := by
    intro h hh
    split
    · exact hh
    split
    · exact hh.setHeader (by decide) (by decide)
    · exact hh.setHeader (by decide) (by decide)
  have hmime : ∀ {mime : Bytes}, NoCrlf mime →
      NoCrlf (if mime = [] then str "application/x-octet-stream" else mime) := by
    intro mime hmime
    split
    · decide
    · exact hmime
  simp only [responseHeaders]
  refine hconnection ?_
  split
  · refine hbase.setHeader (by decide) (hmime ?_)
    split
    · exact hplain.mime _
    · exact .nil
  · split
    · exact hbase.removeHeader _
    · exact hbase

theorem statusLine_line (version : HttpVersion) (code : Nat) {text : Bytes} (htext : NoCrlf text) :
    StatusLine (statusLine version code text) := by
  have hrest : NoCrlf (ofNat code ++ 32 :: text) :=
    NoCrlf.append_cons (by decide) (by decide) htext (noCrlf_ofNat code)
  have hline : ∀ {word : Bytes}, NoCrlf word →
      StatusLine (word ++ 32 :: (ofNat code ++ 32 :: text) ++ crlf) := fun hword =>
    ⟨_, rfl, by simp, NoCrlf.append_cons (by decide) (by decide) hrest hword⟩
  have hsplit : ∀ word : Bytes, (word ++ str " ") ++ (ofNat code ++ str " " ++ text ++ crlf)
      = word ++ 32 :: (ofNat code ++ 32 :: text) ++ crlf := by
    intro word
    rw [show str " " = [32] from by decide]
    simp
  unfold statusLine protocol
  split
  · rw [show str "HTTP/1.0 " = str "HTTP/1.0" ++ str " " from by decide, hsplit]
    exact hline (by decide)
  · rw [show str "HTTP/1.1 " = str "HTTP/1.1" ++ str " " from by decide, hsplit]
    exact hline (by decide)

/-- The text of an error page fits into the status line. -/
def Verdict.FitsLine : Verdict → Prop
  | .reject _ text _ => NoCrlf text
  | .body | .dispatch => True

theorem badRequest_fitsLine : badRequest.FitsLine :=
  show NoCrlf (str "Bad Request") by decide

theorem line_fitsLine {c c' : Connection} {line : Bytes} {verdict : Verdict}
    (h : (if c.method = [] then requestLine c line else headerLine c line)
      = .error (c', verdict)) : verdict.FitsLine := by
  split at h
  · simp only [requestLine] at h
    split at h
    · cases h
      exact badRequest_fitsLine
    · split at h
      · cases h
      · split at h
        · cases h
        · cases h
          show NoCrlf (str "Version Not Supported")
          decide
  · unfold headerLine at h
    split at h
    · cases h
      exact badRequest_fitsLine
    · split at h
      · cases h
        exact badRequest_fitsLine
      · cases h

theorem parseLines_fitsLine : ∀ {lines : List Bytes} {c c' : Connection} {verdict : Verdict},
    parseLines c lines = .error (c', verdict) → verdict.FitsLine := by
  intro lines
  induction lines with
  | nil => intro c c' verdict h; cases h
  | cons line rest ih =>
      intro c c' verdict h
      rw [parseLines] at h
      split at h
      · next e hline =>
          cases h
          exact line_fitsLine hline
      · exact ih h

theorem takeRequest_fitsLine (cfg : Config) (reqend : Nat) (c : Connection) :
    (takeRequest cfg reqend c).2.FitsLine := by
  unfold takeRequest
  cases hparse : parseLines c (crlfLines c.requestbuf) with
  | error e => exact parseLines_fitsLine hparse
  | ok c' =>
      dsimp only
      unfold checkHeaders
      split
      · exact badRequest_fitsLine
      · generalize ({ c' with requestbuf := c.requestbuf.drop (reqend + 4) } : Connection) = c''
        dsimp only
        rcases checkBody_cases cfg _ with ⟨-, h⟩ | ⟨-, h | h | h⟩
        all_goals
          rw [h]
        · show NoCrlf (str "Request Entity Too Large")
          decide
        · show NoCrlf (str "Internal Server Error")
          decide
        · trivial
        · trivial

theorem resolveFile_fitsLine {s s' : St σ} {code : Nat} {text : Bytes}
    (h : resolveFile env s = (.error (code, text), s')) : NoCrlf text := by
  have hstat : ∀ e : Errno, NoCrlf (statError e).2 := fun e => by cases e <;> decide
  have hopen : ∀ e : Errno, NoCrlf (openError e).2 := fun e => by cases e <;> decide
  simp only [resolveFile] at h
  split at h
  · next e _ =>
      injection h with h _
      injection h with h
      rw [show text = (statError e).2 from by rw [h]]
      exact hstat e
  · split at h
    · next e _ =>
        injection h with h _
        injection h with h
        rw [show text = (openError e).2 from by rw [h]]
        exact hopen e
    · injection h with h _
      cases h

/-! ## Every head that goes out -/

/-- What goes out at the head of a response can be read. -/
def Ev.Legible : Ev → Prop
  | .head status headers => StatusLine status ∧ Printable headers
  | _ => True

def Legible (s : St σ) : Prop := ∀ e ∈ s.trace, e.Legible

variable {s s' : St σ}

theorem Legible.append {l : List Ev} (h : Legible s) (htrace : s'.trace = s.trace ++ l)
    (hl : ∀ e ∈ l, e.Legible) : Legible s' := by
  intro e he
  rw [htrace] at he
  rcases List.mem_append.1 he with he | he
  · exact h e he
  · exact hl e he

theorem Legible.delete (h : Legible s) : Legible (delete s) := by
  rw [delete_eq]
  exact h.append rfl (by simp [Ev.Legible])

theorem Legible.endStep (h : Legible s) : Legible (endStep s) := by
  refine h.append (endStep_trace_eq s) ?_
  unfold endEvents
  split
  · simp [Ev.Legible]
  · simp [Ev.Legible]

theorem Legible.drained {mask : EpollMask} {sends : Nat} {m : σ} (h : Legible s) :
    Legible (drained mask sends m s) := by
  refine h.append (trace_drained mask sends m s) ?_
  unfold flushEvents
  split
  · simp
  · simp [Ev.Legible]

theorem Legible.advanced (n : Nat) (h : Legible s) : Legible (advanced n s) :=
  h.append (trace_advanced n s) (by simp [Ev.Legible])

theorem Legible.dropKeepalive (h : Legible s) : Legible (dropKeepalive s) :=
  h.append (trace_dropKeepalive s) (by simp [Ev.Legible])

theorem Legible.setState (h : Legible s) (x : HttpState) : Legible (s.setState x) :=
  h.append (trace_setState s x) (by simp [Ev.Legible])

/-- Only the trace is looked at. -/
theorem Legible.of_trace (h : Legible s) (htrace : s'.trace = s.trace) : Legible s' :=
  h.append (l := []) (by rw [htrace, List.append_nil]) (by simp)

theorem headEvents_legible (hplain : PlainTexts env) (size code : Nat) {text : Bytes}
    {rheaders : HTTPHeaders} (s : St σ) (htext : NoCrlf text) (hprint : Printable rheaders) :
    ∀ e ∈ headEvents env size code text rheaders s, e.Legible := by
  have hhead : Ev.Legible (.head (statusLine s.httpVersion code text)
      (sentHeaders env size rheaders s)) :=
    ⟨statusLine_line s.httpVersion code htext,
      printable_response hplain s.calls size s.uri s.keepalive hprint⟩
  simpa [headEvents, Ev.Legible] using hhead

theorem printable_page : Printable (setHeader clear (str "Content-Type") (str "text/html")) :=
  Printable.clear.setHeader (by decide) (by decide)

theorem Legible.queueError (hplain : PlainTexts env) (h : Legible s) (code : Nat) {text : Bytes}
    (fatal : Bool) (htext : NoCrlf text) : Legible (queueError env code text fatal s) := by
  rw [queueError_eq]
  refine h.append rfl fun e he => ?_
  rcases List.mem_append.1 he with he | he
  · rcases List.mem_append.1 he with he | he
    · cases fatal with
      | false => cases he
      | true =>
          rw [if_pos rfl, List.mem_singleton] at he
          rw [he]
          trivial
    · exact headEvents_legible hplain _ code s htext printable_page e he
  · have hrest : ∀ e ∈ [Ev.state .sendData, .append (errorPage text), .page (errorPage text)],
        e.Legible := by simp [Ev.Legible]
    exact hrest e he

theorem Legible.writeFile (hplain : PlainTexts env) (h : Legible s) (size : Nat) :
    Legible (writeHeaders env size 200 (str "OK") clear s) := by
  rw [writeHeaders_eq _ _ _ _ core_no_connection.1]
  exact h.append rfl (headEvents_legible hplain size 200 s (by decide) .clear)

theorem Page.legible (hplain : PlainTexts env) {code : Nat} {text : Bytes} {fatal : Bool}
    (hpage : Page env code text fatal s s') (h : Legible s) (htext : NoCrlf text) :
    Legible s' := by
  cases hpage with
  | queued => exact h.queueError hplain code fatal htext
  | held => exact ((h.queueError hplain code true htext).advanced _).dropKeepalive
  | failed =>
      exact ((h.queueError hplain code true htext).of_trace rfl).delete.dropKeepalive
  | sent => exact (h.queueError hplain code true htext).drained.endStep

theorem Serve.legible (hplain : PlainTexts env) (hserve : Serve env s s') (h : Legible s) :
    Legible s' := by
  have hopened : ∀ (path : Bytes) (size calls : Nat), Legible (openedFile path size calls s) :=
    fun path size calls => h.append (trace_openedFile path size calls s) (by simp [Ev.Legible])
  cases hserve with
  | page hres hpage =>
      obtain ⟨upath, filefd, calls, -, rfl⟩ := resolveFile_error hres
      refine hpage.legible hplain (h.append rfl ?_) (resolveFile_fitsLine hres)
      simp [Ev.Legible]
  | file hres =>
      obtain ⟨path, fst, calls, n, -, -, rfl⟩ := resolveFile_ok hres
      exact (hopened path _ calls).writeFile hplain _
  | empty hres =>
      obtain ⟨path, fst, calls, n, -, -, rfl⟩ := resolveFile_ok hres
      exact ((hopened path 0 calls).writeFile hplain 0).endStep

theorem FileOut.legible (hout : FileOut env s s') (h : Legible s) : Legible s' := by
  cases hout with
  | lost => exact (h.delete.of_trace rfl).delete
  | failed => exact (h.of_trace rfl).delete
  | piece => exact h.of_trace rfl
  | done => exact Legible.endStep (h.of_trace (trace_filePiece _ _ _ _ s))

theorem taken_legible (reqend : Nat) (h : Legible s) : Legible (takenRequest env reqend s) := by
  obtain ⟨_, _, _, _, _, _, -, heq⟩ := takenRequest_eq env reqend s
  rw [heq]
  exact h.append rfl (by simp [Ev.Legible])

theorem hooked_legible (reqend : Nat) {file : Bytes} {m : σ} {evs : List Ev} {res : Int}
    (hrun : HookRun file 0 ([] : List (Module σ)) evs res) (h : Legible s) :
    Legible (hooked m evs (cleaned (takenRequest env reqend s))) := by
  obtain ⟨_, _, _, _, _, _, _, _, -, -, heq⟩ := hooked_eq env m evs reqend s
  rw [heq, hrun.nil_inv.1]
  exact h.append rfl (by simp [Ev.Legible])

theorem Move.legible (hplain : PlainTexts env) {input : Bool} (hmove : Move env [] input s s')
    (h : Legible s) : Legible s' := by
  cases hmove with
  | receive => exact h.of_trace rfl
  | @receiveBody a =>
      obtain ⟨body, buf, heq⟩ := takeBody_eq a s
      rw [heq]
      exact h.of_trace rfl
  | @refuse _ reqend _ _ _ _ _ hv hpage =>
      have hfits := takeRequest_fitsLine env.cfg reqend s.toConnection
      rw [hv] at hfits
      exact hpage.legible hplain (taken_legible reqend h) hfits
  | accept => exact (taken_legible _ h).setState _
  | claim _ _ _ hrun => exact absurd hrun.nil_inv.2 (by decide)
  | notImplemented _ _ _ hrun _ hs₁ _ hpage =>
      subst hs₁
      exact hpage.legible hplain (hooked_legible _ hrun h) (by decide)
  | serve _ _ _ hrun _ hs₁ _ hserve =>
      subst hs₁
      exact hserve.legible hplain (hooked_legible _ hrun h)
  | serveBody _ _ hserve => exact hserve.legible hplain h
  | @advance n => exact h.advanced n
  | sendFailed => exact (h.of_trace rfl).delete
  | flushed => exact h.drained
  | pageDone => exact h.drained.endStep
  | fileStart _ _ _ hfile => exact hfile.legible (h.drained.setState _)
  | filePart _ _ _ hfile => exact hfile.legible (h.of_trace rfl)
  | dropKeepalive => exact h.dropKeepalive
  | drop => exact h.delete
  | modError hm | modHeaders hm | modEmpty hm | modSendData hm | modWrite hm
    | modBufferDone hm | modState hm => exact absurd rfl hm

theorem run_legible (hplain : PlainTexts env) (m : σ) (evs : List Event) :
    Legible (run env [] m evs) :=
  run_invariant (I := Legible) m evs (fun e he => by cases he) fun hmove h => hmove.legible hplain h

/-- A response is one of a head that has gone out. -/
theorem head_of_response (env : Env) (trace : List Ev) :
    ∀ r ∈ (rendered env trace).responses, .head r.status r.headers ∈ trace := by
  induction trace using List.reverseRecOn with
  | nil => intro r hr; cases hr
  | append_singleton trace e ih =>
      intro r hr
      rw [rendered_append, List.foldl_cons, List.foldl_nil] at hr
      have hold : r ∈ (rendered env trace).responses → .head r.status r.headers ∈ trace ++ [e] :=
        fun hr => List.mem_append_left [e] (ih r hr)
      cases e with
      | head status headers =>
          rcases List.mem_cons.1 hr with rfl | hr
          · exact List.mem_append_right trace List.mem_cons_self
          · exact hold hr
      | page data =>
          simp only [renderStep] at hr
          split at hr
          · exact hold hr
          · next x xs hresponses =>
              rw [hresponses] at ih
              rcases List.mem_cons.1 hr with rfl | hr
              · exact List.mem_append_left _ (ih x List.mem_cons_self)
              · exact List.mem_append_left _ (ih r (List.mem_cons_of_mem x hr))
      | parsed _ _ _ _ | cleaned | hook _ _ | served _ _ _ _ _ | opened _ _ _ | fatal _
        | dropped _ | flush _ _ | append _ | state _ | ended _ _ _ _ | deleted => exact hold hr

/-- What a client has read of what the socket has accepted are responses of the server, and what
is left is a part of the next. Once all has been accepted the client has read them all. -/
theorem responses_read_back (hsteady : Steady env) (hplain : PlainTexts env) (m : σ)
    (evs : List Event) :
    let s := run env [] m evs
    responseCodec.Arrived (responses env s.trace) s.wire (responseCodec.readAll s.wire) ∧
      (s.wire = output env s.trace →
        responseCodec.readAll s.wire = (responses env s.trace, [])) := by
  have hwired := run_wired hsteady m evs
  have hlegible := run_legible hplain m evs
  have hreadable : ∀ r ∈ responses env (run env [] m evs).trace, r.Readable := by
    intro r hr
    have hr : r ∈ (rendered env (run env [] m evs).trace).responses := List.mem_reverse.1 hr
    obtain ⟨hstatus, hheaders⟩ := hlegible _ (head_of_response env _ r hr)
    exact ⟨hstatus, hheaders, hwired.whole r hr⟩
  have harrived := responseCodec_delimits.readAll hreadable
    ((List.prefix_append _ _).trans hwired.sent)
  refine ⟨harrived, fun hall => ?_⟩
  rw [hall] at harrived ⊢
  exact harrived.all

/-- One file, under every name, and the MIME types of the server. -/
def typedWorld : Env :=
  { smallWorld [] (str "hello") (slowStart 10) with
    cfg := { smallConfig with mimeType := MimeManager.atStart.getType } }

theorem steady_typedWorld : Steady typedWorld :=
  steady_smallWorld [] (str "hello") (slowStart 10)

theorem plain_typedWorld : PlainTexts typedWorld where
  date _ := show NoCrlf (str "Thu Jan  1 00:00:00 1970\n").dropLast by decide
  mime := MimeManager.atStart_noCrlf

/-- A file and an error page. -/
theorem responses_read_back_pipelined :
    let s := plainRun typedWorld ["GET /a.html HTTP/1.1\r\n\r\nPUT /b HTTP/1.1\r\n\r\n"]
    responseCodec.Arrived (responses typedWorld s.trace) s.wire (responseCodec.readAll s.wire) :=
  (responses_read_back steady_typedWorld plain_typedWorld () _).1

end Hottpd
