import Hottpd.Lib.Bytes
import Hottpd.Lib.MultiMap

/-!
# The configuration file: `ServerConfig`

`LoadConf` goes through the file line by line and character by character, with
its state carried from line to line; whether a name, an item or a word is
pending shows in its string not being empty. `ConfValue` looks a value up, and
may change it where it is stored. Log lines are left out.
-/

namespace Hottpd

open Bytes

/-- A key and its value. -/
abbrev KeyVal := Bytes × Bytes

abbrev KeyValList := List KeyVal

/-- The sections of a file, under their names. -/
abbrev ConfigDataHash := MultiMap stringKey KeyValList

/-! ## `LoadConf` -/

/-- The variables of `LoadConf`. -/
structure ConfReader where
  wordbuffer : Bytes
  /-- `section` -/
  sectionname : Bytes
  itemname : Bytes
  inWord : Bool
  inQuote : Bool
  inMlComment : Bool
  sectiondata : KeyValList
  target : ConfigDataHash

/-- What goes to the error stream, and what is in the target by then. -/
structure ConfFailure where
  message : Bytes
  target : ConfigDataHash

namespace ConfReader

def init (target : ConfigDataHash) : ConfReader :=
  ⟨[], [], [], false, false, false, [], target⟩

/-- The message about something at `place`. -/
def fail (st : ConfReader) (what : String) (place : Bytes) : Except ConfFailure ConfReader :=
  .error ⟨str what ++ str ": " ++ place ++ str "\n", st.target⟩

/-- `"` -/
def quote (place : Bytes) (st : ConfReader) : Except ConfFailure ConfReader :=
  if st.sectionname = [] ∨ st.itemname = [] then st.fail "Unexpected quoted string" place
  else if st.inWord ∨ st.wordbuffer ≠ [] then
    st.fail "Unexpected quoted string (prior unhandled words)" place
  else .ok { st with inQuote := true, inWord := true }

/-- `=` -/
def equals (place : Bytes) (st : ConfReader) : Except ConfFailure ConfReader :=
  if st.sectionname = [] then
    st.fail "Config item outside of section (or stray '=')" place
  else if st.itemname ≠ [] then st.fail "Stray '=' sign or item without value" place
  else .ok { st with inWord := false, itemname := st.wordbuffer, wordbuffer := [] }

/-- The opening brace. -/
def openSection (place : Bytes) (st : ConfReader) : Except ConfFailure ConfReader :=
  if st.sectionname ≠ [] then st.fail "Section inside another section" place
  else if st.wordbuffer = [] then
    st.fail "Section without a name or unexpected '\x7b'" place
  else .ok { st with inWord := false, sectionname := st.wordbuffer, wordbuffer := [] }

/-- The closing brace. -/
def closeSection (place : Bytes) (st : ConfReader) : Except ConfFailure ConfReader :=
  if st.sectionname = [] then st.fail "Stray '\x7d'" place
  else if st.wordbuffer ≠ [] ∨ st.itemname ≠ [] then st.fail "Unexpected end of section" place
  else .ok { st with
    target := st.target.insert st.sectionname st.sectiondata
    sectionname := []
    sectiondata := [] }

/-- A character of a word. -/
def wordChar (place : Bytes) (ch : UInt8) (st : ConfReader) : Except ConfFailure ConfReader :=
  if st.inWord = false ∧ st.wordbuffer ≠ [] then st.fail "Unexpected word" place
  else .ok { st with wordbuffer := st.wordbuffer ++ [ch], inWord := true }

/-- A character outside of quotes and comments that does not begin a comment. -/
def plainChar (place : Bytes) (ch : UInt8) (st : ConfReader) : Except ConfFailure ConfReader :=
  if ch = 34 then st.quote place
  else if ch = 61 then st.equals place
  else if ch = 123 then st.openSection place
  else if ch = 125 then st.closeSection place
  else if ch = 59 ∨ ch = 13 then .ok st
  else if ch = 32 ∨ ch = 9 then .ok { st with inWord := false }
  else st.wordChar place ch

/-- A character inside quotes. -/
def quotedChar (ch : UInt8) (st : ConfReader) : ConfReader :=
  if ch = 34 then { st with inQuote := false, inWord := false }
  else { st with wordbuffer := st.wordbuffer ++ [ch] }

/-- The loop over the characters of a line. -/
def scanLine (place : Bytes) : Bytes → ConfReader → Except ConfFailure ConfReader
  | [], st => .ok st
  | ch :: rest, st =>
      if st.inQuote then scanLine place rest (st.quotedChar ch)
      else if st.inMlComment then
        match rest with
        | [] => .ok st
        | next :: rest' =>
            if ch = 42 ∧ next = 47 then scanLine place rest' { st with inMlComment := false }
            else scanLine place (next :: rest') st
      else if ch = 35 then .ok st
      else
        match rest with
        | [] => st.plainChar place ch
        | next :: rest' =>
            -- line comment
            if ch = 47 ∧ next = 47 then .ok st
            else if ch = 47 ∧ next = 42 then scanLine place rest' { st with inMlComment := true }
            else
              match st.plainChar place ch with
              | .error e => .error e
              | .ok st => scanLine place (next :: rest') st

/-- Behind the last character of a line. -/
def endLine (place : Bytes) (st : ConfReader) : Except ConfFailure ConfReader :=
  if st.inQuote then .ok { st with wordbuffer := st.wordbuffer ++ [10] }
  else
    let st := { st with inWord := false }
    if st.itemname ≠ [] then
      if st.wordbuffer = [] then st.fail "Item without value" place
      else .ok { st with
        sectiondata := st.sectiondata ++ [(st.itemname, st.wordbuffer)]
        wordbuffer := []
        itemname := [] }
    else .ok st

/-- The loop over the lines; the first of them has number `n`. -/
def scanLines (filename : Bytes) : Nat → List Bytes → ConfReader → Except ConfFailure ConfReader
  | _, [], st => .ok st
  | n, line :: lines, st =>
      let place := filename ++ str ":" ++ ofNat n
      match st.scanLine place line with
      | .error e => .error e
      | .ok st =>
          match st.endLine place with
          | .error e => .error e
          | .ok st => scanLines filename (n + 1) lines st

/-- What must not be pending behind the last line. -/
def endFile (filename : Bytes) (st : ConfReader) : Except ConfFailure ConfReader :=
  if st.inMlComment then st.fail "Unterminated multiline comment at end of file" filename
  else if st.inQuote then st.fail "Unterminated quote at end of file" filename
  else if st.itemname ≠ [] ∨ st.wordbuffer ≠ [] then
    st.fail "Unexpected garbage at end of file" filename
  else if st.sectionname ≠ [] then st.fail "Unterminated section at end of file" filename
  else .ok st

end ConfReader

/-- The lines successive calls of `getline` give; `cur` is the line being read. -/
def getlinesFrom (cur : Bytes) : Bytes → List Bytes
  | [] => if cur = [] then [] else [cur]
  | 10 :: rest => cur :: getlinesFrom [] rest
  | b :: rest => getlinesFrom (cur ++ [b]) rest

def getlines (text : Bytes) : List Bytes := getlinesFrom [] text

/-- `LoadConf`: the target it leaves, when it returns true. The file is `none` where it could
not be opened. -/
def loadConf (target : ConfigDataHash) (filename : Bytes) (conf : Option Bytes) :
    Except ConfFailure ConfigDataHash :=
  match conf with
  | none => .error ⟨str "File " ++ filename ++ str " could not be opened." ++ str "\n", target⟩
  | some text =>
      match (ConfReader.init target).scanLines filename 1 (getlines text) with
      | .error e => .error e
      | .ok st =>
          match st.endFile filename with
          | .error e => .error e
          | .ok st => .ok st.target

/-! ## `ConfValue` -/

/-- Line feeds stripped to spaces. -/
def stripLinefeeds (value : Bytes) : Bytes := value.map fun b => if b = 10 then 32 else b

/-- The loop over the items of a section: the value it returns with, and the items it leaves. -/
def findValue (var : Bytes) (allowLinefeeds : Bool) : KeyValList → Option Bytes × KeyValList
  | [] => (none, [])
  | (k, v) :: rest =>
      if k = var then
        if allowLinefeeds = false ∧ 10 ∈ v then
          let (found, rest') := findValue var allowLinefeeds rest
          (found, (k, stripLinefeeds v) :: rest')
        else (some v, (k, v) :: rest)
      else
        let (found, rest') := findValue var allowLinefeeds rest
        (found, (k, v) :: rest')

def defaultValue (default_value : Bytes) : Option Bytes :=
  if default_value = [] then none else some default_value

/-- `ConfValue`: `result` where it returns true, and the store it leaves. As a `size_type` a
negative index is beyond every count. -/
def confValue (target : ConfigDataHash) (tag var default_value : Bytes) (index : Int)
    (allowLinefeeds : Bool) : Option Bytes × ConfigDataHash :=
  if 0 ≤ index ∧ index.toNat < target.count tag then
    match target.entry tag index.toNat with
    | none => (none, target)
    | some items =>
        let (found, items') := findValue var allowLinefeeds items
        let target' := target.modify tag index.toNat fun _ => items'
        match found with
        | some value => (some value, target')
        | none => (defaultValue default_value, target')
  else if index = 0 then (defaultValue default_value, target)
  else (none, target)

end Hottpd
