import Hottpd.Lib.Crlf
import Hottpd.Core.World
import Hottpd.Proofs.Settled
import Hottpd.Proofs.Messages

/-!
# Header fields on the wire

A block that `GetFormattedHeaders` wrote is read back as the headers it was
written from, whatever follows it. That holds because the writer puts exactly
one space behind the colon: the reader does not look for white space there, it
skips one byte. A field with no space loses the first byte of its value, and one
with more keeps all but the first.
-/

namespace Hottpd

open Bytes HTTPHeaders

/-! ## One line -/

/-- A first line that `CheckRequest` accepts. -/
structure RequestLine (line : Bytes) : Prop where
  words : ∃ method uri version more, tokens line = method :: uri :: version :: more ∧
    (version.map toupper = str "HTTP/1.1" ∨ version.map toupper = str "HTTP/1.0")
  noCrlf : NoCrlf line

theorem tokensFrom_ne_nil {w : Bytes} (s : Bytes) : ∀ cur, w ∈ tokensFrom cur s → w ≠ [] := by
  induction s with
  | nil =>
      intro cur hw
      rw [tokensFrom] at hw
      split at hw
      · cases hw
      · next hcur =>
          obtain rfl := List.mem_singleton.1 hw
          simpa using hcur
  | cons b rest ih =>
      intro cur hw
      rw [tokensFrom] at hw
      split at hw
      · split at hw
        · exact ih [] hw
        · next hcur =>
            rcases List.mem_cons.1 hw with rfl | hw
            · simpa using hcur
            · exact ih [] hw
      · exact ih _ hw

theorem RequestLine.ne_nil {line : Bytes} (h : RequestLine line) : line ≠ [] := by
  rintro rfl
  obtain ⟨method, uri, version, more, hwords, -⟩ := h.words
  cases hwords

/-- The first line has been read: method, target and version are there. -/
structure FirstLineRead (c : Connection) : Prop where
  method : c.method ≠ []
  uri : c.uri ≠ []
  httpVersion : c.httpVersion ≠ .unspecified

theorem requestLine_ok (c : Connection) {line : Bytes} (h : RequestLine line) :
    ∃ c', requestLine c line = .ok c' ∧ FirstLineRead c' ∧ c'.headers = c.headers := by
  obtain ⟨method, uri, version, more, hwords, hversion⟩ := h.words
  have hne : ∀ w ∈ tokens line, w ≠ [] := fun w => tokensFrom_ne_nil line []
  rw [hwords] at hne
  have hmethod : method ≠ [] := hne _ List.mem_cons_self
  have huri : uri ≠ [] := hne _ (List.mem_cons_of_mem _ List.mem_cons_self)
  have hword : version ≠ [] :=
    hne _ (List.mem_cons_of_mem _ (List.mem_cons_of_mem _ List.mem_cons_self))
  simp only [requestLine, hwords, List.getElem?_cons_zero, List.getElem?_cons_succ,
    Option.getD_some]
  rw [if_neg (by simp [hmethod, huri, hword])]
  rcases hversion with hversion | hversion
  · rw [if_pos hversion]
    exact ⟨_, rfl, ⟨hmethod, huri, by simp⟩, rfl⟩
  · rw [if_neg (by rw [hversion]; decide), if_pos hversion]
    exact ⟨_, rfl, ⟨hmethod, huri, by simp⟩, rfl⟩

/-- A field line: the name up to the colon, and what is behind the byte that
follows the colon. -/
theorem headerLine_field (c : Connection) {name : Bytes} (tail : Bytes) (hne : name ≠ [])
    (hcolon : 58 ∉ name) :
    headerLine c (name ++ 58 :: tail) =
      if tail = [] then .error (c, badRequest)
      else .ok { c with headers := setHeader c.headers name (tail.drop 1) } := by
  have hsep : (name ++ 58 :: tail).idxOf? 58 = some name.length := by
    rw [List.idxOf?_eq_some_iff]
    refine ⟨by simp, by simp, fun j hj => ?_⟩
    rw [List.getElem_append_left hj]
    intro heq
    exact hcolon (heq ▸ List.getElem_mem hj)
  have hpos : 0 < name.length := List.length_pos_iff.2 hne
  have hlast : name.length = (name ++ 58 :: tail).length - 1 ↔ tail = [] := by
    rw [List.length_append, List.length_cons, ← List.length_eq_zero_iff]
    omega
  have hvalue : (name ++ 58 :: tail).drop (name.length + 2) = tail.drop 1 := by
    rw [← List.drop_drop, List.drop_left]
    rfl
  simp only [headerLine, hsep, hlast, hvalue, List.take_left]
  by_cases htail : tail = []
  · rw [if_pos (Or.inr htail), if_pos htail]
  · rw [if_neg (not_or.2 ⟨by omega, htail⟩), if_neg htail]

/-! ## A block of fields -/

/-- A name and what is behind its colon. -/
abbrev RawField := Bytes × Bytes

def fieldLine (f : RawField) : Bytes := f.1 ++ 58 :: f.2

structure NamedField (f : RawField) : Prop where
  named : f.1 ≠ []
  separate : 58 ∉ f.1

/-- The headers that the fields make of the headers there are. -/
def stored (h : HTTPHeaders) (fields : List RawField) : HTTPHeaders :=
  fields.foldl (fun h f => setHeader h f.1 (f.2.drop 1)) h

theorem parseLines_fields {fields : List RawField} (hfields : ∀ f ∈ fields, NamedField f) :
    ∀ {c : Connection}, c.method ≠ [] →
    ((∀ f ∈ fields, f.2 ≠ []) ∧
        parseLines c (fields.map fieldLine) = .ok { c with headers := stored c.headers fields }) ∨
      ((∃ f ∈ fields, f.2 = []) ∧
        ∃ c', parseLines c (fields.map fieldLine) = .error (c', badRequest)) := by
  induction fields with
  | nil => intro c _; exact Or.inl ⟨by simp, rfl⟩
  | cons f fields ih =>
      intro c hmethod
      obtain ⟨hne, hcolon⟩ := hfields f List.mem_cons_self
      rw [List.map_cons, parseLines, if_neg hmethod, fieldLine, headerLine_field c f.2 hne hcolon]
      by_cases htail : f.2 = []
      · rw [if_pos htail]
        exact Or.inr ⟨⟨f, List.mem_cons_self, htail⟩, c, rfl⟩
      · rw [if_neg htail]
        rcases ih (fun g hg => hfields g (List.mem_cons_of_mem f hg))
          (c := { c with headers := setHeader c.headers f.1 (f.2.drop 1) }) hmethod
          with ⟨hall, heq⟩ | ⟨⟨g, hg, hempty⟩, heq⟩
        · refine Or.inl ⟨fun g hg => ?_, heq⟩
          rcases List.mem_cons.1 hg with rfl | hg
          · exact htail
          · exact hall g hg
        · exact Or.inr ⟨⟨g, List.mem_cons_of_mem f hg, hempty⟩, heq⟩

/-! ## A whole block -/

theorem takeRequest_requestbuf (cfg : Config) (reqend : Nat) (c : Connection) :
    (takeRequest cfg reqend c).1.requestbuf = c.requestbuf.drop (reqend + 4) := by
  have h := takeRequest_eq cfg reqend c
  unfold Reread at h
  rw [h]

/-- What the checks make of the announced length and of the rest. -/
theorem checkBody_cases (cfg : Config) (c : Connection) :
    ((isSet c.headers (str "Content-Length") ∧ toUnsigned cfg.maxPostBody < c.requestBodyLength) ∧
        checkBody cfg c = .reject 413 (str "Request Entity Too Large") true) ∨
      (¬(isSet c.headers (str "Content-Length") ∧
          toUnsigned cfg.maxPostBody < c.requestBodyLength) ∧
        (checkBody cfg c = .reject 500 (str "Internal Server Error") true ∨
          checkBody cfg c = .body ∨ checkBody cfg c = .dispatch)) := by
  unfold checkBody
  split
  · next hlarge => exact Or.inl ⟨hlarge, rfl⟩
  · next hlarge =>
      refine Or.inr ⟨hlarge, ?_⟩
      split
      · exact Or.inl rfl
      · split
        · split
          · exact Or.inl rfl
          · exact Or.inr (Or.inl rfl)
        · exact Or.inr (Or.inr rfl)

theorem checkBody_ne (cfg : Config) (c : Connection) : checkBody cfg c ≠ badRequest := by
  unfold badRequest
  rcases checkBody_cases cfg c with ⟨-, h⟩ | ⟨-, h | h | h⟩ <;>
    · rw [h]
      simp

/-- The checks behind the loop do not refuse a block as malformed. -/
theorem checkHeaders_wellFormed {cfg : Config} {c : Connection} (h : FirstLineRead c) :
    (checkHeaders cfg c).1.headers = c.headers ∧ (checkHeaders cfg c).2 ≠ badRequest := by
  rw [checkHeaders, if_neg (by simp [h.method, h.uri, h.httpVersion])]
  exact ⟨rfl, checkBody_ne _ _⟩

/-- The bytes of a block, of what precedes its first field, and of what follows. -/
def blockText (line : Bytes) (fields : List RawField) (rest : Bytes) : Bytes :=
  crlfBlock (line :: fields.map fieldLine) ++ crlf ++ rest

variable {cfg : Config} {reqend : Nat} {c : Connection} {line rest : Bytes}
  {fields : List RawField}

theorem lines_noCrlf (hline : RequestLine line)
    (hfields : ∀ f ∈ fields, NamedField f ∧ NoCrlf (fieldLine f)) :
    ∀ l ∈ line :: fields.map fieldLine, l ≠ [] ∧ NoCrlf l := by
  intro l hl
  rcases List.mem_cons.1 hl with rfl | hl
  · exact ⟨hline.ne_nil, hline.noCrlf⟩
  · obtain ⟨f, hf, rfl⟩ := List.mem_map.1 hl
    exact ⟨by simp [fieldLine], (hfields f hf).2⟩

variable (cfg reqend) in
/-- A block whose fields have names is read field by field, unless one of them
ends with its colon. -/
theorem takeRequest_fields (hline : RequestLine line)
    (hfields : ∀ f ∈ fields, NamedField f ∧ NoCrlf (fieldLine f)) (hfresh : c.method = [])
    (hbuf : c.requestbuf = blockText line fields rest) :
    ((∀ f ∈ fields, f.2 ≠ []) ∧ (takeRequest cfg reqend c).1.headers = stored c.headers fields ∧
        (takeRequest cfg reqend c).2 ≠ badRequest) ∨
      ((∃ f ∈ fields, f.2 = []) ∧ (takeRequest cfg reqend c).2 = badRequest) := by
  have hlines : crlfLines c.requestbuf = line :: fields.map fieldLine := by
    rw [hbuf, blockText, crlfLines_block (lines_noCrlf hline hfields)]
  obtain ⟨c', hfirst, hread, hheaders⟩ := requestLine_ok c hline
  have hparse : parseLines c (line :: fields.map fieldLine)
      = parseLines c' (fields.map fieldLine) := by
    rw [parseLines, if_pos hfresh, hfirst]
  rw [takeRequest, hlines, hparse]
  rcases parseLines_fields (fun f hf => (hfields f hf).1) hread.method with
    ⟨hall, heq⟩ | ⟨hsome, c'', heq⟩
  · rw [heq]
    have hleft : FirstLineRead { c' with
        headers := stored c'.headers fields
        requestbuf := c.requestbuf.drop (reqend + 4) } :=
      ⟨hread.method, hread.uri, hread.httpVersion⟩
    obtain ⟨hstored, hverdict⟩ := @checkHeaders_wellFormed cfg _ hleft
    refine Or.inl ⟨hall, ?_, hverdict⟩
    rw [← hheaders]
    exact hstored
  · rw [heq]
    exact Or.inr ⟨hsome, rfl⟩

/-! ## Any amount of white space -/

/-- A field with white space behind its colon. -/
structure Field where
  name : Bytes
  spaces : Nat
  value : Bytes
  named : name ≠ []
  separate : 58 ∉ name
  name_noCrlf : NoCrlf name
  value_noCrlf : NoCrlf value
  head_ne : value.head? ≠ some 32
  last_ne : value.getLast? ≠ some 32

def Field.raw (f : Field) : RawField := (f.name, List.replicate f.spaces 32 ++ f.value)

/-- The fields are one text and later ones have other names. -/
def IsLast (fields : List Field) (f : Field) : Prop :=
  ∃ before after, fields = before ++ f :: after ∧ ∀ g ∈ after, caseKey g.name ≠ caseKey f.name

/-- The block is not refused, and each name has the value of its last field. -/
structure Stores (fields : List Field) (r : Connection × Verdict) : Prop where
  accepted : r.2 ≠ badRequest
  values : ∀ f, IsLast fields f → r.1.headers.lookup f.name = some f.value

/-- No field is a name and its colon alone, and the last of each name has one
space behind its colon. -/
structure OneSpace (fields : List Field) : Prop where
  filled : ∀ f ∈ fields, f.spaces ≠ 0 ∨ f.value ≠ []
  single : ∀ f, IsLast fields f → f.spaces = 1

theorem noCrlf_spaces {value : Bytes} (h : NoCrlf value) (n : Nat) :
    NoCrlf (List.replicate n 32 ++ value) := by
  induction n with
  | zero => exact h
  | succ n ih => exact NoCrlf.append_cons (by decide) (by decide) ih .nil

theorem Field.raw_wellFormed (f : Field) : NamedField f.raw ∧ NoCrlf (fieldLine f.raw) :=
  ⟨⟨f.named, f.separate⟩, NoCrlf.append_cons (by decide) (by decide)
    (noCrlf_spaces f.value_noCrlf f.spaces) f.name_noCrlf⟩

theorem Field.raw_eq_nil {f : Field} : f.raw.2 = [] ↔ ¬(f.spaces ≠ 0 ∨ f.value ≠ []) := by
  simp [Field.raw]

/-- What follows the byte behind the colon is the value exactly if this byte is a
space and the only one. -/
theorem drop_spaces {value : Bytes} (hhead : value.head? ≠ some 32) (n : Nat)
    (h : List.replicate n 32 ++ value ≠ []) :
    (List.replicate n 32 ++ value).drop 1 = value ↔ n = 1 := by
  match n with
  | 0 =>
      rw [List.replicate_zero, List.nil_append] at h ⊢
      have hpos : 0 < value.length := List.length_pos_iff.2 h
      constructor
      · intro heq
        have hlen := congrArg List.length heq
        rw [List.length_drop] at hlen
        omega
      · intro heq
        omega
  | 1 => simp
  | n + 2 =>
      constructor
      · intro heq
        refine absurd ?_ hhead
        rw [← heq]
        rfl
      · intro heq
        omega

theorem lookup_stored (h : HTTPHeaders) {fields : List Field} {f : Field}
    (hlast : IsLast fields f) :
    (stored h (fields.map Field.raw)).lookup f.name = some (f.raw.2.drop 1) := by
  obtain ⟨before, after, rfl, hafter⟩ := hlast
  have hmap : stored h ((before ++ f :: after).map Field.raw)
      = (((before ++ f :: after).map Field.raw).map fun g => (g.1, g.2.drop 1)).foldl
        (fun m e => m.insert e.1 e.2) h := by
    rw [List.foldl_map]
    rfl
  rw [hmap, List.map_append, List.map_append, List.map_cons, List.map_cons]
  refine SortedMap.lookup_foldl_insert h (e := (f.raw.1, f.raw.2.drop 1)) fun e he => ?_
  obtain ⟨g', hg', rfl⟩ := List.mem_map.1 he
  obtain ⟨g, hg, rfl⟩ := List.mem_map.1 hg'
  exact hafter g hg

/-- Every name has its value exactly if the white space behind the colons is one
space. -/
theorem values_stored {fields : List Field} (hline : RequestLine line) (hfresh : c.method = [])
    (hbuf : c.requestbuf = blockText line (fields.map Field.raw) rest) :
    Stores fields (takeRequest cfg reqend c) ↔ OneSpace fields := by
  have hfields : ∀ f ∈ fields.map Field.raw, NamedField f ∧ NoCrlf (fieldLine f) := by
    intro f hf
    obtain ⟨g, -, rfl⟩ := List.mem_map.1 hf
    exact g.raw_wellFormed
  rcases takeRequest_fields cfg reqend hline hfields hfresh hbuf with
    ⟨hall, hheaders, hverdict⟩ | ⟨⟨f, hf, hempty⟩, hverdict⟩
  · have hfilled : ∀ f ∈ fields, f.raw.2 ≠ [] := fun f hf => hall _ (List.mem_map_of_mem hf)
    have hvalue : ∀ f, IsLast fields f →
        ((takeRequest cfg reqend c).1.headers.lookup f.name = some f.value ↔ f.spaces = 1) := by
      intro f hlast
      have hin : f ∈ fields := by
        obtain ⟨before, after, rfl, -⟩ := hlast
        exact List.mem_append_right before List.mem_cons_self
      rw [hheaders, lookup_stored c.headers hlast, Option.some.injEq, Field.raw,
        drop_spaces f.head_ne f.spaces (hfilled f hin)]
    constructor
    · intro h
      refine ⟨fun f hf => ?_, fun f hlast => (hvalue f hlast).1 (h.values f hlast)⟩
      by_contra hno
      exact hfilled f hf (Field.raw_eq_nil.2 hno)
    · intro h
      exact ⟨hverdict, fun f hlast => (hvalue f hlast).2 (h.single f hlast)⟩
  · obtain ⟨g, hg, rfl⟩ := List.mem_map.1 hf
    constructor
    · intro h
      exact absurd hverdict h.accepted
    · intro h
      exact absurd (h.filled g hg) (Field.raw_eq_nil.1 hempty)

def twoFields : List Field :=
  [ { name := str "Host"
      spaces := 1
      value := str "a b:80"
      named := by decide
      separate := by decide
      name_noCrlf := by decide
      value_noCrlf := by decide
      head_ne := by decide
      last_ne := by decide },
    { name := str "Content-Length"
      spaces := 0
      value := str "42"
      named := by decide
      separate := by decide
      name_noCrlf := by decide
      value_noCrlf := by decide
      head_ne := by decide
      last_ne := by decide } ]

theorem postLine : RequestLine (str "POST / HTTP/1.1") :=
  ⟨⟨str "POST", str "/", str "HTTP/1.1", [], by decide, by decide⟩, by decide⟩

theorem values_stored_host :
    let sent := { Connection.new with
      requestbuf := blockText (str "POST / HTTP/1.1") ((twoFields.take 1).map Field.raw) [] }
    Stores (twoFields.take 1) (takeRequest smallConfig 32 sent) :=
  (values_stored postLine rfl rfl).2
    { filled := by decide
      single := by
        rintro f ⟨before, after, hsplit, -⟩
        have hin : f ∈ twoFields.take 1 := hsplit ▸ List.mem_append_right before List.mem_cons_self
        obtain rfl := List.mem_singleton.1 hin
        rfl }

/-- A length of 42, with no space before it, is a length of 2. -/
theorem value_shortened :
    let sent := { Connection.new with
      requestbuf := blockText (str "POST / HTTP/1.1") (twoFields.map Field.raw) [] }
    ¬Stores twoFields (takeRequest smallConfig 51 sent) ∧
      (takeRequest smallConfig 51 sent).1.requestBodyLength = 2 := by
  refine ⟨fun h => ?_, by decide +kernel⟩
  have hvalue := h.values twoFields[1] ⟨twoFields.take 1, [], rfl, by simp⟩
  exact absurd hvalue (by decide +kernel)

/-! ## What the server writes itself -/

/-- Headers that keep their lines and their names apart. -/
structure Printable (h : HTTPHeaders) : Prop where
  names : ∀ e ∈ h.entries, e.1 ≠ [] ∧ 58 ∉ e.1
  noCrlf : ∀ e ∈ h.entries, NoCrlf e.1 ∧ NoCrlf e.2

/-- A field as `GetFormattedHeaders` writes it. -/
def writtenField (e : Bytes × Bytes) : RawField := (e.1, 32 :: e.2)

theorem getFormattedHeaders_eq (h : HTTPHeaders) :
    getFormattedHeaders h = crlfBlock ((h.entries.map writtenField).map fieldLine) := by
  rw [getFormattedHeaders, crlfBlock, List.map_map, List.flatMap_map]
  refine List.flatMap_congr fun e _ => ?_
  show e.1 ++ [58, 32] ++ e.2 ++ crlf = e.1 ++ 58 :: 32 :: e.2 ++ crlf
  simp

theorem stored_written (h : HTTPHeaders) : stored clear (h.entries.map writtenField) = h := by
  rw [stored, List.foldl_map]
  exact SortedMap.foldl_insert_entries h

/-- The block that the headers are written into behind a request line is read back
as these headers, and what follows it stays in the buffer. -/
theorem headers_read_back {h : HTTPHeaders} (hprint : Printable h) (hline : RequestLine line)
    (hfresh : c.method = []) (hclear : c.headers = clear)
    (hbuf : c.requestbuf = line ++ crlf ++ getFormattedHeaders h ++ crlf ++ rest) :
    ∃ reqend, findRequestEnd c.requestbuf 0 = some reqend ∧
      (takeRequest cfg reqend c).1.headers = h ∧
      (takeRequest cfg reqend c).1.requestbuf = rest := by
  have hfields : ∀ f ∈ h.entries.map writtenField, NamedField f ∧ NoCrlf (fieldLine f) := by
    intro f hf
    obtain ⟨e, he, rfl⟩ := List.mem_map.1 hf
    obtain ⟨hne, hcolon⟩ := hprint.names e he
    obtain ⟨hname, hvalue⟩ := hprint.noCrlf e he
    exact ⟨⟨hne, hcolon⟩, NoCrlf.append_cons (by decide) (by decide)
      (NoCrlf.append_cons (by decide) (by decide) hvalue .nil) hname⟩
  have htext : c.requestbuf = blockText line (h.entries.map writtenField) rest := by
    rw [hbuf, getFormattedHeaders_eq, blockText, crlfBlock_cons]
    simp [crlf]
  obtain ⟨reqend, hlen, hfind⟩ := find_block (lines_noCrlf hline hfields) rest
  refine ⟨reqend, ?_, ?_, ?_⟩
  · rw [findRequestEnd_zero, htext, terminator_eq]
    exact hfind
  · rcases takeRequest_fields cfg reqend hline hfields hfresh htext with
      ⟨-, hheaders, -⟩ | ⟨⟨f, hf, hempty⟩, -⟩
    · rw [hheaders, hclear, stored_written]
    · obtain ⟨e, -, rfl⟩ := List.mem_map.1 hf
      cases hempty
  · rw [takeRequest_requestbuf, htext, blockText]
    refine List.drop_left' ?_
    rw [List.length_append, ← hlen]
    rfl

def twoHeaders : HTTPHeaders :=
  setHeader (setHeader clear (str "Host") (str "a b:80")) (str "accept") []

theorem headers_read_back_twoHeaders :
    let sent := { Connection.new with
      requestbuf := str "POST / HTTP/1.1" ++ crlf ++ getFormattedHeaders twoHeaders ++ crlf
        ++ str "GET /b" }
    ∃ reqend, findRequestEnd sent.requestbuf 0 = some reqend ∧
      (takeRequest smallConfig reqend sent).1.headers = twoHeaders ∧
      (takeRequest smallConfig reqend sent).1.requestbuf = str "GET /b" :=
  headers_read_back ⟨by decide +kernel, by decide +kernel⟩ postLine rfl rfl rfl

/-! ## The announced length -/

theorem FirstLineRead.of_requestLine {c c' : Connection} {line : Bytes}
    (h : requestLine c line = .ok c') : FirstLineRead c' := by
  simp only [requestLine] at h
  split at h
  · cases h
  · next hwords =>
      obtain ⟨hmethod, hrest⟩ := not_or.1 hwords
      obtain ⟨huri, -⟩ := not_or.1 hrest
      split at h
      · cases h
        exact ⟨hmethod, huri, by simp⟩
      · split at h
        · cases h
          exact ⟨hmethod, huri, by simp⟩
        · cases h

theorem FirstLineRead.headerLine {c c' : Connection} {line : Bytes} (hread : FirstLineRead c)
    (h : headerLine c line = .ok c') : FirstLineRead c' := by
  unfold Hottpd.headerLine at h
  split at h
  · cases h
  · split at h
    · cases h
    · cases h
      exact ⟨hread.method, hread.uri, hread.httpVersion⟩

theorem FirstLineRead.parseLines {lines : List Bytes} : ∀ {c c' : Connection}, FirstLineRead c →
    parseLines c lines = .ok c' → FirstLineRead c' := by
  induction lines with
  | nil => intro c c' hread h; cases h; exact hread
  | cons line lines ih =>
      intro c c' hread h
      rw [Hottpd.parseLines, if_neg hread.method] at h
      split at h
      · cases h
      · next c'' hline => exact ih (hread.headerLine hline) h

/-- A block with a field has a first line. -/
theorem parseLines_first {lines : List Bytes} {c c' : Connection} (hfresh : c.method = [])
    (h : parseLines c lines = .ok c') : c' = c ∨ FirstLineRead c' := by
  cases lines with
  | nil => cases h; exact Or.inl rfl
  | cons line lines =>
      rw [parseLines, if_pos hfresh] at h
      split at h
      · cases h
      · next c'' hline =>
          exact Or.inr ((FirstLineRead.of_requestLine hline).parseLines h)

/-- What a block that announces a length is told by the checks behind the loop. -/
theorem checkHeaders_length {c : Connection} (hread : FirstLineRead c)
    (hset : isSet c.headers (str "Content-Length") = true) :
    (checkHeaders cfg c).1.requestBodyLength = atoi (getHeader c.headers (str "Content-Length")) ∧
      ((checkHeaders cfg c).2 = .reject 413 (str "Request Entity Too Large") true ↔
        toUnsigned cfg.maxPostBody < atoi (getHeader c.headers (str "Content-Length"))) := by
  rw [checkHeaders, if_neg (by simp [hread.method, hread.uri, hread.httpVersion])]
  dsimp only
  rw [if_pos hset]
  refine ⟨rfl, ?_⟩
  generalize hc : ({ c with
    method := c.method.map toupper
    keepalive := decideKeepalive cfg { c with method := c.method.map toupper }
    requestBodyLength := atoi (getHeader c.headers (str "Content-Length")) } : Connection) = checked
  have hheaders : checked.headers = c.headers := by rw [← hc]
  have hlength : checked.requestBodyLength = atoi (getHeader c.headers (str "Content-Length")) := by
    rw [← hc]
  rw [← hlength]
  rcases checkBody_cases cfg checked with ⟨⟨-, hlarge⟩, h⟩ | ⟨hsmall, h⟩
  · rw [h]
    exact iff_of_true rfl hlarge
  · rw [hheaders] at hsmall
    refine iff_of_false (fun h413 => ?_) (fun hlarge => hsmall ⟨hset, hlarge⟩)
    rw [h413] at h
    rcases h with h | h | h
    · cases h
    · cases h
    · cases h

variable (cfg reqend) in
/-- A request that announces a length is told what the checks make of it. -/
theorem takeRequest_length_set {d : Bytes} (hfresh : c.method = []) (hclear : c.headers = clear)
    {c' : Connection} (hparse : parseLines c (crlfLines c.requestbuf) = .ok c')
    (hd : getHeader c'.headers (str "Content-Length") = d) (hne : d ≠ []) :
    (takeRequest cfg reqend c).1.requestBodyLength = atoi d ∧
      ((takeRequest cfg reqend c).2 = .reject 413 (str "Request Entity Too Large") true ↔
        toUnsigned cfg.maxPostBody < atoi d) := by
  have hset : isSet c'.headers (str "Content-Length") = true := by
    rw [isSet]
    cases hlookup : c'.headers.lookup (str "Content-Length") with
    | none =>
        rw [getHeader, hlookup] at hd
        exact absurd hd.symm hne
    | some v => rfl
  have hread : FirstLineRead c' := by
    rcases parseLines_first hfresh hparse with rfl | hread
    · rw [hclear] at hset
      cases hset
    · exact hread
  have hread' : FirstLineRead { c' with requestbuf := c.requestbuf.drop (reqend + 4) } :=
    ⟨hread.method, hread.uri, hread.httpVersion⟩
  rw [takeRequest, hparse, ← hd]
  exact checkHeaders_length hread' hset

/-- A length is refused as too large or taken as it is announced exactly if it fits
into 32 bits or what is left of it in them is too large as well. -/
theorem length_exact {d : Bytes} (hfresh : c.method = []) (hclear : c.headers = clear)
    {c' : Connection} (hparse : parseLines c (crlfLines c.requestbuf) = .ok c')
    (hd : getHeader c'.headers (str "Content-Length") = d) (hne : d ≠ [])
    (hdigits : ∀ b ∈ d, isdigit b = true) :
    ((takeRequest cfg reqend c).2 = .reject 413 (str "Request Entity Too Large") true ∨
        (takeRequest cfg reqend c).1.requestBodyLength = digits d) ↔
      (digits d < 2 ^ 32 ∨
        toUnsigned cfg.maxPostBody < min (digits d) (2 ^ 63 - 1) % 2 ^ 32) := by
  have hatoi : atoi d = min (digits d) (2 ^ 63 - 1) % 2 ^ 32 := by
    rw [atoi, strtol_digits hne hdigits, toUnsigned]
    omega
  obtain ⟨hlength, hrefused⟩ :=
    takeRequest_length_set cfg reqend hfresh hclear hparse hd hne
  rw [hrefused, hlength, hatoi]
  generalize toUnsigned cfg.maxPostBody = limit
  omega

def announces (d : String) : Connection :=
  { Connection.new with
    requestbuf := str ("POST / HTTP/1.1\r\nContent-Length: " ++ d ++ "\r\n\r\n") }

theorem length_exact_42 :
    (takeRequest smallConfig 33 (announces "42")).2
        = .reject 413 (str "Request Entity Too Large") true ∨
      (takeRequest smallConfig 33 (announces "42")).1.requestBodyLength = digits (str "42") := by
  have hparse : parseLines (announces "42") (crlfLines (announces "42").requestbuf)
      = .ok { announces "42" with
        method := str "POST"
        uri := str "/"
        httpVersion := .http11
        headers := setHeader clear (str "Content-Length") (str "42") } := rfl
  exact (length_exact rfl rfl hparse rfl (by decide) (by decide +kernel)).2 (Or.inl (by decide))

/-- A length of `2 ^ 32 + 1` is a length of 1. -/
theorem length_wraps :
    (takeRequest smallConfig 41 (announces "4294967297")).2 = .body ∧
      (takeRequest smallConfig 41 (announces "4294967297")).1.requestBodyLength = 1 ∧
      digits (getHeader (takeRequest smallConfig 41 (announces "4294967297")).1.headers
        (str "Content-Length")) = 4294967297 := by
  decide +kernel

end Hottpd
