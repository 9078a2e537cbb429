import Hottpd.Core.ConfigReader
import Mathlib.Data.List.Induction

/-!
# The configuration file in tokens

What `LoadConf` does character by character is done here in two steps: the text
is cut into words, quoted strings, signs and line ends, and the tokens are then
fed to a reader without quotes, comments or unfinished words. The two come to
the same end. A state of the loop is told by the state of the small reader and by
what is being cut, and each line keeps that; where the loop stops with an error
the small reader does not take what follows, though perhaps only later.

Comments are not tokens, and neither are semicolons and carriage returns: a word
goes on behind them.
-/

namespace Hottpd

open Bytes

inductive Token where
  | word (w : Bytes)
  | quoted (q : Bytes)
  | equals
  | lbrace
  | rbrace
  | eol
  /-- The file ends in a quoted string or in a comment. -/
  | torn
deriving DecidableEq

/-! ## Cutting -/

/-- Where in the text we are; `cur` is the word that may go on, if it is not empty. -/
inductive LexMode where
  | plain (cur : Bytes)
  /-- Behind `#` or `//`. -/
  | remark (cur : Bytes)
  | comment (cur : Bytes)
  | quote (q : Bytes)

def wordOf (cur : Bytes) : List Token := if cur = [] then [] else [.word cur]

/-- A character outside of quotes and comments that does not begin a comment. -/
def plainToken (ch : UInt8) (cur : Bytes) : List Token × LexMode :=
  if ch = 34 then (wordOf cur, .quote [])
  else if ch = 61 then (wordOf cur ++ [.equals], .plain [])
  else if ch = 123 then (wordOf cur ++ [.lbrace], .plain [])
  else if ch = 125 then (wordOf cur ++ [.rbrace], .plain [])
  else if ch = 59 ∨ ch = 13 then ([], .plain cur)
  else if ch = 32 ∨ ch = 9 then (wordOf cur, .plain [])
  else ([], .plain (cur ++ [ch]))

/-- Behind the last character. -/
def lastTokens : LexMode → List Token
  | .plain cur | .remark cur => wordOf cur
  | .comment _ | .quote _ => [.torn]

/-- The tokens of a text, from somewhere in it on. -/
def lexFrom : Bytes → LexMode → List Token
  | [], mode => lastTokens mode
  | c :: rest, .quote q =>
      if c = 34 then .quoted q :: lexFrom rest (.plain [])
      else lexFrom rest (.quote (q ++ [c]))
  | c :: rest, .remark cur =>
      if c = 10 then wordOf cur ++ .eol :: lexFrom rest (.plain [])
      else lexFrom rest (.remark cur)
  | c :: rest, .comment cur =>
      if c = 10 then wordOf cur ++ .eol :: lexFrom rest (.comment [])
      else
        match rest with
        | [] => [.torn]
        | next :: rest' =>
            if c = 42 ∧ next = 47 then lexFrom rest' (.plain cur)
            else lexFrom (next :: rest') (.comment cur)
  | c :: rest, .plain cur =>
      if c = 10 then wordOf cur ++ .eol :: lexFrom rest (.plain [])
      else if c = 35 then lexFrom rest (.remark cur)
      else
        match rest with
        | [] => (plainToken c cur).1 ++ lastTokens (plainToken c cur).2
        | next :: rest' =>
            if c = 47 ∧ next = 47 then lexFrom (next :: rest') (.remark cur)
            else if c = 47 ∧ next = 42 then lexFrom rest' (.comment cur)
            else (plainToken c cur).1 ++ lexFrom (next :: rest') (plainToken c cur).2

theorem lexFrom_eol_plain (cur rest : Bytes) :
    lexFrom (10 :: rest) (.plain cur) = wordOf cur ++ .eol :: lexFrom rest (.plain []) := by
  cases rest <;> rfl

theorem lexFrom_eol_comment (cur rest : Bytes) :
    lexFrom (10 :: rest) (.comment cur)
      = wordOf cur ++ .eol :: lexFrom rest (.comment []) := by
  cases rest <;> rfl

/-- The last line of a file may have no line feed. -/
def wholeLines (text : Bytes) : Bytes :=
  if text = [] ∨ text.getLast? = some 10 then text else text ++ [10]

def confTokens (text : Bytes) : List Token := lexFrom (wholeLines text) (.plain [])

/-! ## Feeding -/

/-- What is pending between two tokens. -/
structure ConfParse where
  wordbuffer : Bytes
  sectionname : Bytes
  itemname : Bytes
  sectiondata : KeyValList
  target : ConfigDataHash

namespace ConfParse

def init (target : ConfigDataHash) : ConfParse := ⟨[], [], [], [], target⟩

/-- One token; `none` where it is not taken. -/
def feed (p : ConfParse) : Token → Option ConfParse
  | .word w =>
      if w = [] ∨ p.wordbuffer ≠ [] then none else some { p with wordbuffer := w }
  | .quoted q =>
      if p.sectionname = [] ∨ p.itemname = [] ∨ p.wordbuffer ≠ [] then none
      else some { p with wordbuffer := q }
  | .equals =>
      if p.sectionname = [] ∨ p.itemname ≠ [] then none
      else some { p with itemname := p.wordbuffer, wordbuffer := [] }
  | .lbrace =>
      if p.sectionname ≠ [] ∨ p.wordbuffer = [] then none
      else some { p with sectionname := p.wordbuffer, wordbuffer := [] }
  | .rbrace =>
      if p.sectionname = [] ∨ p.wordbuffer ≠ [] ∨ p.itemname ≠ [] then none
      else some { p with
        target := p.target.insert p.sectionname p.sectiondata
        sectionname := []
        sectiondata := [] }
  | .eol =>
      if p.itemname = [] then some p
      else if p.wordbuffer = [] then none
      else some { p with
        sectiondata := p.sectiondata ++ [(p.itemname, p.wordbuffer)]
        wordbuffer := []
        itemname := [] }
  | .torn => none

def feedAll (p : ConfParse) (ts : List Token) : Option ConfParse := ts.foldlM feed p

/-- The target at the end of a file, if nothing is pending. -/
def finish (p : ConfParse) : Option ConfigDataHash :=
  if p.itemname ≠ [] ∨ p.wordbuffer ≠ [] ∨ p.sectionname ≠ [] then none else some p.target

@[simp] theorem feedAll_nil (p : ConfParse) : p.feedAll [] = some p := rfl

@[simp] theorem feedAll_cons (p : ConfParse) (t : Token) (ts : List Token) :
    p.feedAll (t :: ts) = (p.feed t).bind fun p => p.feedAll ts := rfl

theorem feedAll_append (p : ConfParse) (ts ts' : List Token) :
    p.feedAll (ts ++ ts') = (p.feedAll ts).bind fun p => p.feedAll ts' := by
  rw [feedAll, List.foldlM_append]
  rfl

/-! What each token asks for, and what it leaves. -/

section Feed

variable {p p' : ConfParse}

theorem feed_word_iff {w : Bytes} : p.feed (.word w) = some p' ↔
    w ≠ [] ∧ p.wordbuffer = [] ∧ { p with wordbuffer := w } = p' := by
  simp [feed, not_or, and_assoc]

theorem feed_quoted_iff {q : Bytes} : p.feed (.quoted q) = some p' ↔
    p.sectionname ≠ [] ∧ p.itemname ≠ [] ∧ p.wordbuffer = [] ∧
      { p with wordbuffer := q } = p' := by
  simp [feed, not_or, and_assoc]

theorem feed_equals_iff : p.feed .equals = some p' ↔
    p.sectionname ≠ [] ∧ p.itemname = [] ∧
      { p with itemname := p.wordbuffer, wordbuffer := [] } = p' := by
  simp [feed, not_or, and_assoc]

theorem feed_lbrace_iff : p.feed .lbrace = some p' ↔
    p.sectionname = [] ∧ p.wordbuffer ≠ [] ∧
      { p with sectionname := p.wordbuffer, wordbuffer := [] } = p' := by
  simp [feed, not_or, and_assoc]

theorem feed_rbrace_iff : p.feed .rbrace = some p' ↔
    p.sectionname ≠ [] ∧ p.wordbuffer = [] ∧ p.itemname = [] ∧
      { p with
        target := p.target.insert p.sectionname p.sectiondata
        sectionname := []
        sectiondata := [] } = p' := by
  simp [feed, not_or, and_assoc]

/-- A line end completes an item, if one is pending. -/
theorem feed_eol_iff : p.feed .eol = some p' ↔
    p.itemname = [] ∧ p = p' ∨
      p.itemname ≠ [] ∧ p.wordbuffer ≠ [] ∧
        { p with
          sectiondata := p.sectiondata ++ [(p.itemname, p.wordbuffer)]
          wordbuffer := []
          itemname := [] } = p' := by
  by_cases hitem : p.itemname = []
  · simp [feed, hitem]
  · simp [feed, hitem]

theorem feedAll_cons_some {t : Token} (h : p.feed t = some p') (ts : List Token) :
    p.feedAll (t :: ts) = p'.feedAll ts := by
  rw [feedAll_cons, h, Option.bind_some]

end Feed

end ConfParse

/-- The whole file. -/
def parseTokens (target : ConfigDataHash) (ts : List Token) : Option ConfigDataHash :=
  ((ConfParse.init target).feedAll ts).bind ConfParse.finish

/-! ## The two side by side -/

/-- The state of the loop, told by that of the small reader and where we are. -/
def ConfParse.reader (p : ConfParse) : LexMode → ConfReader
  | .plain cur | .remark cur =>
      ⟨p.wordbuffer ++ cur, p.sectionname, p.itemname, cur ≠ [], false, false,
        p.sectiondata, p.target⟩
  | .comment cur =>
      ⟨p.wordbuffer ++ cur, p.sectionname, p.itemname, cur ≠ [], false, true,
        p.sectiondata, p.target⟩
  | .quote q =>
      ⟨q, p.sectionname, p.itemname, true, true, false, p.sectiondata, p.target⟩

/-- A word or a quoted string has been begun only where it will be taken. -/
def Begun (p : ConfParse) : LexMode → Prop
  | .plain cur | .comment cur => cur ≠ [] → p.wordbuffer = []
  | .remark _ => False
  | .quote _ => p.sectionname ≠ [] ∧ p.itemname ≠ [] ∧ p.wordbuffer = []

/-- The loop has stopped with an error and the tokens are not taken, whatever comes behind; or
the two are side by side again. -/
def Abreast (r : Except ConfFailure ConfReader) (feeds : Bytes → Option ConfParse) : Prop :=
  (∃ e, r = .error e ∧ ∀ rest, feeds rest = none) ∨
    ∃ p mode, r = .ok (p.reader mode) ∧ Begun p mode ∧
      ∀ rest, feeds rest = p.feedAll (lexFrom rest mode)

theorem feedAll_wordOf {p : ConfParse} {cur : Bytes} (h : Begun p (.plain cur)) :
    p.feedAll (wordOf cur) = some { p with wordbuffer := p.wordbuffer ++ cur } := by
  by_cases hcur : cur = []
  · rw [wordOf, if_pos hcur, hcur, List.append_nil]
    rfl
  · have hbuf : p.wordbuffer = [] := h hcur
    rw [wordOf, if_neg hcur, ConfParse.feedAll_cons, ConfParse.feed,
      if_neg (by simp [hcur, hbuf]), hbuf]
    rfl

/-- A quoted string where none is expected is not taken, wherever it ends. -/
theorem feedAll_quote_none {p : ConfParse}
    (h : p.sectionname = [] ∨ p.itemname = [] ∨ p.wordbuffer ≠ []) (text : Bytes) :
    ∀ q, p.feedAll (lexFrom text (.quote q)) = none := by
  induction text with
  | nil => intro q; rfl
  | cons c rest ih =>
      intro q
      rw [lexFrom]
      split
      · rw [ConfParse.feedAll_cons, ConfParse.feed, if_pos h]
        rfl
      · exact ih _

/-- A character ends the word, or the word goes on. -/
theorem plainToken_cases (c : UInt8) (cur : Bytes) :
    (∃ ts, (plainToken c cur).1 = wordOf cur ++ ts) ∨
      ∃ more, plainToken c cur = ([], .plain (cur ++ more)) := by
  unfold plainToken
  split
  · exact Or.inl ⟨[], (List.append_nil _).symm⟩
  · split
    · exact Or.inl ⟨_, rfl⟩
    · split
      · exact Or.inl ⟨_, rfl⟩
      · split
        · exact Or.inl ⟨_, rfl⟩
        · split
          · exact Or.inr ⟨[], by rw [List.append_nil]⟩
          · split
            · exact Or.inl ⟨[], (List.append_nil _).symm⟩
            · exact Or.inr ⟨[c], rfl⟩

/-- A second word is not taken, wherever it ends. -/
theorem feedAll_word_none {p : ConfParse} (h : p.wordbuffer ≠ []) (text : Bytes) :
    ∀ cur, cur ≠ [] →
      p.feedAll (lexFrom text (.plain cur)) = none ∧
      p.feedAll (lexFrom text (.remark cur)) = none ∧
      p.feedAll (lexFrom text (.comment cur)) = none := by
  have hword : ∀ cur ts, cur ≠ [] → p.feedAll (wordOf cur ++ ts) = none := by
    intro cur ts hcur
    rw [wordOf, if_neg hcur, List.singleton_append, ConfParse.feedAll_cons, ConfParse.feed,
      if_pos (Or.inr h)]
    rfl
  have hlast : ∀ cur, cur ≠ [] → p.feedAll (wordOf cur) = none := by
    intro cur hcur
    rw [← List.append_nil (wordOf cur)]
    exact hword cur [] hcur
  have hplain : ∀ c cur (tail : LexMode → List Token), cur ≠ [] →
      (∀ cur', cur' ≠ [] → p.feedAll (tail (.plain cur')) = none) →
      p.feedAll ((plainToken c cur).1 ++ tail (plainToken c cur).2) = none := by
    intro c cur tail hcur htail
    rcases plainToken_cases c cur with ⟨ts, hts⟩ | ⟨more, hmore⟩
    · rw [hts, List.append_assoc]
      exact hword cur _ hcur
    · rw [hmore]
      exact htail _ (List.append_ne_nil_of_left_ne_nil hcur more)
  induction text using List.twoStepInduction with
  | nil =>
      intro cur hcur
      exact ⟨hlast cur hcur, hlast cur hcur, rfl⟩
  | singleton c =>
      intro cur hcur
      refine ⟨?_, ?_, ?_⟩
      · rw [lexFrom]
        split
        · exact hword cur _ hcur
        · split
          · exact hlast cur hcur
          · exact hplain c cur lastTokens hcur hlast
      · rw [lexFrom]
        split
        · exact hword cur _ hcur
        · exact hlast cur hcur
      · rw [lexFrom]
        split
        · exact hword cur _ hcur
        · rfl
  | cons_cons c next rest ih ihnext =>
      intro cur hcur
      refine ⟨?_, ?_, ?_⟩
      · rw [lexFrom]
        split
        · exact hword cur _ hcur
        · split
          · exact (ihnext next cur hcur).2.1
          · split
            · exact (ihnext next cur hcur).2.1
            · split
              · exact (ih cur hcur).2.2
              · exact hplain c cur (lexFrom (next :: rest)) hcur
                  fun cur' hcur' => (ihnext next cur' hcur').1
      · rw [lexFrom]
        split
        · exact hword cur _ hcur
        · exact (ihnext next cur hcur).2.1
      · rw [lexFrom]
        split
        · exact hword cur _ hcur
        · split
          · exact (ih cur hcur).1
          · exact (ihnext next cur hcur).2.2

/-! ## A character -/

section Character

variable {p : ConfParse} {cur : Bytes} {place : Bytes}

/-- The small reader when the word is finished. -/
def ConfParse.worded (p : ConfParse) (cur : Bytes) : ConfParse :=
  { p with wordbuffer := p.wordbuffer ++ cur }

/-- Where the small reader takes a token or refuses it as the loop does, they stay together. -/
theorem abreast_token {r : Except ConfFailure ConfReader} {t : Token} {mode : LexMode}
    (h : Begun p (.plain cur)) (hmode : ∀ p', Begun p' mode)
    (hsame : r.toOption = ((p.worded cur).feed t).map fun p' => p'.reader mode) :
    Abreast r fun rest => p.feedAll (wordOf cur ++ [t] ++ lexFrom rest mode) := by
  have hfed : ∀ rest, p.feedAll (wordOf cur ++ [t] ++ lexFrom rest mode) =
      ((p.worded cur).feed t).bind fun p' => p'.feedAll (lexFrom rest mode) := by
    intro rest
    rw [List.append_assoc, ConfParse.feedAll_append, feedAll_wordOf h]
    rfl
  cases r with
  | error e =>
      have hnone : (p.worded cur).feed t = none := Option.map_eq_none_iff.1 hsame.symm
      refine Or.inl ⟨e, rfl, fun rest => (hfed rest).trans ?_⟩
      rw [hnone]
      rfl
  | ok st =>
      obtain ⟨p', hp', hst⟩ := Option.map_eq_some_iff.1 hsame.symm
      refine Or.inr ⟨p', mode, by rw [← hst], hmode p', fun rest => (hfed rest).trans ?_⟩
      rw [hp']
      rfl

theorem begun_plain_nil (p : ConfParse) : Begun p (.plain []) := fun hne => absurd rfl hne

theorem begun_comment_nil (p : ConfParse) : Begun p (.comment []) := fun hne => absurd rfl hne

theorem equals_same : ((p.reader (.plain cur)).equals place).toOption =
    ((p.worded cur).feed .equals).map fun p' => p'.reader (.plain []) := by
  simp only [ConfReader.equals, ConfParse.reader, ConfParse.feed, ConfParse.worded]
  by_cases hsection : p.sectionname = []
  · simp [hsection, ConfReader.fail, Except.toOption]
  · by_cases hitem : p.itemname = []
    · simp [hsection, hitem, Except.toOption]
    · simp [hsection, hitem, ConfReader.fail, Except.toOption]

theorem openSection_same : ((p.reader (.plain cur)).openSection place).toOption =
    ((p.worded cur).feed .lbrace).map fun p' => p'.reader (.plain []) := by
  simp only [ConfReader.openSection, ConfParse.reader, ConfParse.feed, ConfParse.worded]
  by_cases hsection : p.sectionname = []
  · by_cases hword : p.wordbuffer = [] ∧ cur = []
    · simp [hsection, hword, ConfReader.fail, Except.toOption]
    · simp [hsection, hword, Except.toOption]
  · simp [hsection, ConfReader.fail, Except.toOption]

theorem closeSection_same : ((p.reader (.plain cur)).closeSection place).toOption =
    ((p.worded cur).feed .rbrace).map fun p' => p'.reader (.plain []) := by
  simp only [ConfReader.closeSection, ConfParse.reader, ConfParse.feed, ConfParse.worded]
  by_cases hsection : p.sectionname = []
  · simp [hsection, ConfReader.fail, Except.toOption]
  · by_cases hword : p.wordbuffer = [] ∧ cur = []
    · by_cases hitem : p.itemname = []
      · simp [hsection, hword, hitem, Except.toOption]
      · simp [hsection, hitem, ConfReader.fail, Except.toOption]
    · simp [hsection, hword, ConfReader.fail, Except.toOption]

theorem quote_same : ((p.reader (.plain cur)).quote place).toOption =
    if p.sectionname = [] ∨ p.itemname = [] ∨ p.wordbuffer ++ cur ≠ [] then none
    else some (p.reader (.quote [])) := by
  simp only [ConfReader.quote, ConfParse.reader]
  by_cases hplace : p.sectionname = [] ∨ p.itemname = []
  · rcases hplace with h | h <;> simp [h, ConfReader.fail, Except.toOption]
  · rw [not_or] at hplace
    by_cases hword : p.wordbuffer = [] ∧ cur = []
    · simp [hplace, hword, Except.toOption]
    · simp [hplace, hword, ConfReader.fail, Except.toOption]

theorem quote_abreast (h : Begun p (.plain cur)) :
    Abreast ((p.reader (.plain cur)).quote place) fun rest =>
      p.feedAll (wordOf cur ++ lexFrom rest (.quote [])) := by
  have hsame := @quote_same p cur place
  cases hquote : (p.reader (.plain cur)).quote place with
  | error e =>
      rw [hquote] at hsame
      refine Or.inl ⟨e, rfl, fun rest => ?_⟩
      show p.feedAll (wordOf cur ++ lexFrom rest (.quote [])) = none
      rw [ConfParse.feedAll_append, feedAll_wordOf h, Option.bind_some]
      refine @feedAll_quote_none (p.worded cur) ?_ rest []
      show p.sectionname = [] ∨ p.itemname = [] ∨ p.wordbuffer ++ cur ≠ []
      by_contra hgood
      rw [if_neg hgood] at hsame
      cases hsame
  | ok st =>
      rw [hquote] at hsame
      by_cases hbad : p.sectionname = [] ∨ p.itemname = [] ∨ p.wordbuffer ++ cur ≠ []
      · rw [if_pos hbad] at hsame
        cases hsame
      · rw [if_neg hbad] at hsame
        cases hsame
        rw [not_or, not_or, not_not, List.append_eq_nil_iff] at hbad
        obtain ⟨hsection, hitem, hbuf, rfl⟩ := hbad
        exact Or.inr ⟨p, .quote [], rfl, ⟨hsection, hitem, hbuf⟩, fun _ => rfl⟩

theorem wordChar_same (c : UInt8) : ((p.reader (.plain cur)).wordChar place c).toOption =
    if cur = [] ∧ p.wordbuffer ≠ [] then none else some (p.reader (.plain (cur ++ [c]))) := by
  simp only [ConfReader.wordChar, ConfParse.reader]
  by_cases hcur : cur = []
  · by_cases hbuf : p.wordbuffer = []
    · simp [hcur, hbuf, Except.toOption]
    · simp [hcur, hbuf, ConfReader.fail, Except.toOption]
  · simp [hcur, Except.toOption]

theorem wordChar_abreast (h : Begun p (.plain cur)) (c : UInt8) :
    Abreast ((p.reader (.plain cur)).wordChar place c) fun rest =>
      p.feedAll (lexFrom rest (.plain (cur ++ [c]))) := by
  have hsame := @wordChar_same p cur place c
  cases hword : (p.reader (.plain cur)).wordChar place c with
  | error e =>
      rw [hword] at hsame
      by_cases hsecond : cur = [] ∧ p.wordbuffer ≠ []
      · exact Or.inl ⟨e, rfl, fun rest => (feedAll_word_none hsecond.2 rest _ (by simp)).1⟩
      · rw [if_neg hsecond] at hsame
        cases hsame
  | ok st =>
      rw [hword] at hsame
      by_cases hsecond : cur = [] ∧ p.wordbuffer ≠ []
      · rw [if_pos hsecond] at hsame
        cases hsame
      · rw [if_neg hsecond] at hsame
        cases hsame
        refine Or.inr ⟨p, .plain (cur ++ [c]), rfl, fun _ => ?_, fun _ => rfl⟩
        by_contra hbuf
        by_cases hcur : cur = []
        · exact hsecond ⟨hcur, hbuf⟩
        · exact hbuf (h hcur)

theorem plainChar_abreast (h : Begun p (.plain cur)) (c : UInt8) :
    Abreast ((p.reader (.plain cur)).plainChar place c) fun rest =>
      p.feedAll ((plainToken c cur).1 ++ lexFrom rest (plainToken c cur).2) := by
  unfold plainToken ConfReader.plainChar
  by_cases hquote : c = 34
  · rw [if_pos hquote, if_pos hquote]
    exact quote_abreast h
  rw [if_neg hquote, if_neg hquote]
  by_cases hequals : c = 61
  · rw [if_pos hequals, if_pos hequals]
    exact abreast_token h begun_plain_nil equals_same
  rw [if_neg hequals, if_neg hequals]
  by_cases hopen : c = 123
  · rw [if_pos hopen, if_pos hopen]
    exact abreast_token h begun_plain_nil openSection_same
  rw [if_neg hopen, if_neg hopen]
  by_cases hclose : c = 125
  · rw [if_pos hclose, if_pos hclose]
    exact abreast_token h begun_plain_nil closeSection_same
  rw [if_neg hclose, if_neg hclose]
  by_cases hignored : c = 59 ∨ c = 13
  · rw [if_pos hignored, if_pos hignored]
    exact Or.inr ⟨p, .plain cur, rfl, h, fun _ => rfl⟩
  rw [if_neg hignored, if_neg hignored]
  by_cases hblank : c = 32 ∨ c = 9
  · rw [if_pos hblank, if_pos hblank]
    refine Or.inr ⟨p.worded cur, .plain [], ?_, begun_plain_nil _, fun rest => ?_⟩
    · simp [ConfParse.reader, ConfParse.worded]
    · show p.feedAll (wordOf cur ++ lexFrom rest (.plain [])) = _
      rw [ConfParse.feedAll_append, feedAll_wordOf h]
      rfl
  rw [if_neg hblank, if_neg hblank]
  exact wordChar_abreast h c

theorem endLine_same {inMlComment : Bool} :
    (({ p.reader (.plain cur) with
        inMlComment := inMlComment } : ConfReader).endLine place).toOption
      = ((p.worded cur).feed .eol).map fun p' =>
          { p'.reader (.plain []) with inMlComment := inMlComment } := by
  simp only [ConfReader.endLine, ConfParse.reader, ConfParse.feed, ConfParse.worded]
  by_cases hitem : p.itemname = []
  · simp [hitem, Except.toOption]
  · by_cases hword : p.wordbuffer = [] ∧ cur = []
    · simp [hitem, hword, ConfReader.fail, Except.toOption]
    · simp [hitem, hword, Except.toOption]

theorem endLine_abreast {mode : LexMode} (h : Begun p mode) :
    Abreast ((p.reader mode).endLine place) fun rest => p.feedAll (lexFrom (10 :: rest) mode) := by
  cases mode with
  | plain cur =>
      have hline : ∀ rest, lexFrom (10 :: rest) (.plain cur)
          = wordOf cur ++ [.eol] ++ lexFrom rest (.plain []) := by
        intro rest
        rw [lexFrom_eol_plain, List.append_assoc]
        rfl
      simp only [hline]
      exact abreast_token h begun_plain_nil (@endLine_same p cur place false)
  | remark cur => exact absurd h id
  | comment cur =>
      have hline : ∀ rest, lexFrom (10 :: rest) (.comment cur)
          = wordOf cur ++ [.eol] ++ lexFrom rest (.comment []) := by
        intro rest
        rw [lexFrom_eol_comment, List.append_assoc]
        rfl
      simp only [hline]
      exact @abreast_token p cur _ _ _ h begun_comment_nil (@endLine_same p cur place true)
  | quote q =>
      refine Or.inr ⟨p, .quote (q ++ [10]), rfl, h, fun rest => ?_⟩
      show p.feedAll (lexFrom (10 :: rest) (.quote q)) = _
      rw [lexFrom, if_neg (by decide)]

end Character

/-! ## A line -/

/-- The rest of the line behind `#` or `//`. -/
theorem lexFrom_remark {line : Bytes} (hline : 10 ∉ line) (cur rest : Bytes) :
    lexFrom (line ++ 10 :: rest) (.remark cur) = lexFrom (10 :: rest) (.plain cur) := by
  induction line with
  | nil =>
      rw [List.nil_append, lexFrom_eol_plain, lexFrom, if_pos rfl]
  | cons c line ih =>
      rw [List.mem_cons, not_or] at hline
      rw [List.cons_append, lexFrom, if_neg (Ne.symm hline.1), ih hline.2]

/-- What is done next keeps them together as well. -/
theorem Abreast.bind {r : Except ConfFailure ConfReader} {feeds : Bytes → Option ConfParse}
    (h : Abreast r feeds) (k : ConfReader → Except ConfFailure ConfReader) (tail : Bytes → Bytes)
    (hk : ∀ p mode, Begun p mode →
      Abreast (k (p.reader mode)) fun rest => p.feedAll (lexFrom (tail rest) mode)) :
    Abreast (r.bind k) fun rest => feeds (tail rest) := by
  rcases h with ⟨e, rfl, hnone⟩ | ⟨p, mode, rfl, hbegun, hsame⟩
  · exact Or.inl ⟨e, rfl, fun rest => hnone (tail rest)⟩
  · simp only [hsame]
    exact hk p mode hbegun

/-- A character inside quotes. -/
theorem quotedChar_abreast {p : ConfParse} {q : Bytes} (h : Begun p (.quote q)) (c : UInt8) :
    Abreast (.ok ((p.reader (.quote q)).quotedChar c)) fun rest =>
      p.feedAll (lexFrom (c :: rest) (.quote q)) := by
  by_cases hc : c = 34
  · refine Or.inr ⟨{ p with wordbuffer := q }, .plain [], ?_, begun_plain_nil _, fun rest => ?_⟩
    · simp [ConfReader.quotedChar, ConfParse.reader, hc]
    · show p.feedAll (lexFrom (c :: rest) (.quote q)) = _
      rw [lexFrom, if_pos hc, ConfParse.feedAll_cons, ConfParse.feed,
        if_neg (by simp [h.1, h.2.1, h.2.2])]
      rfl
  · refine Or.inr ⟨p, .quote (q ++ [c]), ?_, h, fun rest => ?_⟩
    · simp [ConfReader.quotedChar, ConfParse.reader, hc]
    · show p.feedAll (lexFrom (c :: rest) (.quote q)) = _
      rw [lexFrom, if_neg hc]

/-- On this line the two stay together. -/
def LineAbreast (place line : Bytes) : Prop :=
  ∀ p mode, Begun p mode →
    Abreast (((p.reader mode).scanLine place line).bind (ConfReader.endLine place)) fun rest =>
      p.feedAll (lexFrom (line ++ 10 :: rest) mode)

section Line

variable {p : ConfParse} {cur place : Bytes} {c next : UInt8} {line : Bytes}

theorem comment_last (hc : c ≠ 10) (h : Begun p (.comment cur)) :
    Abreast (((p.reader (.comment cur)).scanLine place [c]).bind (ConfReader.endLine place))
      fun rest => p.feedAll (lexFrom ([c] ++ 10 :: rest) (.comment cur)) := by
  have htokens : ∀ rest, lexFrom ([c] ++ 10 :: rest) (.comment cur)
      = lexFrom (10 :: rest) (.comment cur) := by
    intro rest
    rw [List.singleton_append, lexFrom, if_neg hc]
    exact if_neg fun hclose => absurd hclose.2 (by decide)
  simp only [htokens]
  exact endLine_abreast h

theorem plain_last (hc : c ≠ 10) (h : Begun p (.plain cur)) :
    Abreast (((p.reader (.plain cur)).scanLine place [c]).bind (ConfReader.endLine place))
      fun rest => p.feedAll (lexFrom ([c] ++ 10 :: rest) (.plain cur)) := by
  by_cases hremark : c = 35
  · have htokens : ∀ rest, lexFrom ([c] ++ 10 :: rest) (.plain cur)
        = lexFrom (10 :: rest) (.plain cur) := by
      intro rest
      rw [List.singleton_append, lexFrom, if_neg hc, if_pos hremark]
      exact @lexFrom_remark [] List.not_mem_nil cur rest
    have hscan : (p.reader (.plain cur)).scanLine place [c] = .ok (p.reader (.plain cur)) := by
      rw [ConfReader.scanLine]
      exact if_pos hremark
    simp only [htokens, hscan]
    exact endLine_abreast h
  · have htokens : ∀ rest, lexFrom ([c] ++ 10 :: rest) (.plain cur)
        = (plainToken c cur).1 ++ lexFrom (10 :: rest) (plainToken c cur).2 := by
      intro rest
      rw [List.singleton_append, lexFrom, if_neg hc, if_neg hremark]
      exact (if_neg fun hslash => absurd hslash.2 (by decide)).trans
        (if_neg fun hstar => absurd hstar.2 (by decide))
    have hscan : (p.reader (.plain cur)).scanLine place [c]
        = (p.reader (.plain cur)).plainChar place c := by
      rw [ConfReader.scanLine]
      exact if_neg hremark
    simp only [htokens, hscan]
    exact (plainChar_abreast h c).bind (ConfReader.endLine place) (10 :: ·)
      fun _ _ => endLine_abreast

theorem lexFrom_plain_cons (hc : c ≠ 10) (rest : Bytes) :
    lexFrom (c :: next :: rest) (.plain cur) =
      if c = 35 then lexFrom (next :: rest) (.remark cur)
      else if c = 47 ∧ next = 47 then lexFrom (next :: rest) (.remark cur)
      else if c = 47 ∧ next = 42 then lexFrom rest (.comment cur)
      else (plainToken c cur).1 ++ lexFrom (next :: rest) (plainToken c cur).2 :=
  if_neg hc

/-- Inside a comment only its end counts. -/
theorem comment_cons (hc : c ≠ 10) (h : Begun p (.comment cur)) (hline : LineAbreast place line)
    (hnext : LineAbreast place (next :: line)) :
    Abreast (((p.reader (.comment cur)).scanLine place (c :: next :: line)).bind
      (ConfReader.endLine place))
      fun rest => p.feedAll (lexFrom (c :: next :: line ++ 10 :: rest) (.comment cur)) := by
  by_cases hclose : c = 42 ∧ next = 47
  · have htokens : ∀ rest, lexFrom (c :: next :: line ++ 10 :: rest) (.comment cur)
        = lexFrom (line ++ 10 :: rest) (.plain cur) := by
      intro rest
      rw [List.cons_append, List.cons_append, lexFrom, if_neg hc]
      exact if_pos hclose
    have hscan : (p.reader (.comment cur)).scanLine place (c :: next :: line)
        = (p.reader (.plain cur)).scanLine place line := by
      rw [ConfReader.scanLine]
      exact if_pos hclose
    simp only [htokens, hscan]
    exact hline p (.plain cur) h
  · have htokens : ∀ rest, lexFrom (c :: next :: line ++ 10 :: rest) (.comment cur)
        = lexFrom (next :: line ++ 10 :: rest) (.comment cur) := by
      intro rest
      rw [List.cons_append, List.cons_append, lexFrom, if_neg hc]
      exact if_neg hclose
    have hscan : (p.reader (.comment cur)).scanLine place (c :: next :: line)
        = (p.reader (.comment cur)).scanLine place (next :: line) := by
      rw [ConfReader.scanLine]
      exact if_neg hclose
    simp only [htokens, hscan]
    exact hnext p (.comment cur) h

/-- Where no comment begins, the character is taken and the line goes on. -/
theorem plain_goes_on (hc : c ≠ 10) (h : Begun p (.plain cur)) (hhash : c ≠ 35)
    (hslash : ¬(c = 47 ∧ next = 47)) (hstar : ¬(c = 47 ∧ next = 42))
    (hnext : LineAbreast place (next :: line)) :
    Abreast (((p.reader (.plain cur)).scanLine place (c :: next :: line)).bind
      (ConfReader.endLine place))
      fun rest => p.feedAll (lexFrom (c :: next :: line ++ 10 :: rest) (.plain cur)) := by
  have htokens : ∀ rest, lexFrom (c :: next :: line ++ 10 :: rest) (.plain cur)
      = (plainToken c cur).1 ++ lexFrom (next :: line ++ 10 :: rest) (plainToken c cur).2 := by
    intro rest
    rw [List.cons_append, List.cons_append, lexFrom_plain_cons hc, if_neg hhash,
      if_neg hslash, if_neg hstar]
  have hscan : ((p.reader (.plain cur)).scanLine place (c :: next :: line)).bind
      (ConfReader.endLine place) = ((p.reader (.plain cur)).plainChar place c).bind fun st =>
        (st.scanLine place (next :: line)).bind (ConfReader.endLine place) := by
    have hchar : (p.reader (.plain cur)).scanLine place (c :: next :: line)
        = ((p.reader (.plain cur)).plainChar place c).bind fun st =>
            st.scanLine place (next :: line) := by
      rw [ConfReader.scanLine]
      refine (if_neg hhash).trans ((if_neg hslash).trans ((if_neg hstar).trans ?_))
      cases (p.reader (.plain cur)).plainChar place c <;> rfl
    rw [hchar]
    cases (p.reader (.plain cur)).plainChar place c <;> rfl
  simp only [htokens, hscan]
  exact (plainChar_abreast h c).bind
    (fun st => (st.scanLine place (next :: line)).bind (ConfReader.endLine place))
    (next :: line ++ 10 :: ·) hnext

theorem plain_cons (hc : c ≠ 10) (hmem : 10 ∉ next :: line) (h : Begun p (.plain cur))
    (hline : LineAbreast place line) (hnext : LineAbreast place (next :: line)) :
    Abreast (((p.reader (.plain cur)).scanLine place (c :: next :: line)).bind
      (ConfReader.endLine place))
      fun rest => p.feedAll (lexFrom (c :: next :: line ++ 10 :: rest) (.plain cur)) := by
  by_cases hremark : c = 35 ∨ (c = 47 ∧ next = 47)
  · have htokens : ∀ rest, lexFrom (c :: next :: line ++ 10 :: rest) (.plain cur)
        = lexFrom (10 :: rest) (.plain cur) := by
      intro rest
      refine Eq.trans ?_ (lexFrom_remark hmem cur rest)
      rw [List.cons_append, List.cons_append, lexFrom_plain_cons hc]
      by_cases hhash : c = 35
      · rw [if_pos hhash]
      · rw [if_neg hhash, if_pos (hremark.resolve_left hhash)]
    have hscan : (p.reader (.plain cur)).scanLine place (c :: next :: line)
        = .ok (p.reader (.plain cur)) := by
      rw [ConfReader.scanLine]
      by_cases hhash : c = 35
      · exact if_pos hhash
      · exact (if_neg hhash).trans (if_pos (hremark.resolve_left hhash))
    simp only [htokens, hscan]
    exact endLine_abreast h
  · rw [not_or] at hremark
    by_cases hstar : c = 47 ∧ next = 42
    · have htokens : ∀ rest, lexFrom (c :: next :: line ++ 10 :: rest) (.plain cur)
          = lexFrom (line ++ 10 :: rest) (.comment cur) := by
        intro rest
        rw [List.cons_append, List.cons_append, lexFrom_plain_cons hc, if_neg hremark.1,
          if_neg hremark.2, if_pos hstar]
      have hscan : (p.reader (.plain cur)).scanLine place (c :: next :: line)
          = (p.reader (.comment cur)).scanLine place line := by
        rw [ConfReader.scanLine]
        exact (if_neg hremark.1).trans ((if_neg hremark.2).trans (if_pos hstar))
      simp only [htokens, hscan]
      exact hline p (.comment cur) h
    · exact plain_goes_on hc h hremark.1 hremark.2 hstar hnext

end Line

theorem scanLine_abreast (place line : Bytes) (hline : 10 ∉ line) : LineAbreast place line := by
  induction line using List.twoStepInduction with
  | nil => exact fun p mode h => endLine_abreast h
  | singleton c =>
      intro p mode h
      have hc : c ≠ 10 := (List.ne_of_not_mem_cons hline).symm
      cases mode with
      | remark cur => exact absurd h id
      | quote q =>
          exact (quotedChar_abreast h c).bind (ConfReader.endLine place) (10 :: ·)
            fun _ _ => endLine_abreast
      | comment cur => exact comment_last hc h
      | plain cur => exact plain_last hc h
  | cons_cons c next line ih ihnext =>
      intro p mode h
      have hc : c ≠ 10 := (List.ne_of_not_mem_cons hline).symm
      have hmem : 10 ∉ next :: line := List.not_mem_of_not_mem_cons hline
      have hbehind : LineAbreast place line := ih (List.not_mem_of_not_mem_cons hmem)
      have hnext : LineAbreast place (next :: line) := ihnext next hmem
      cases mode with
      | remark cur => exact absurd h id
      | quote q =>
          exact (quotedChar_abreast h c).bind
            (fun st => (st.scanLine place (next :: line)).bind (ConfReader.endLine place))
            (next :: line ++ 10 :: ·) hnext
      | comment cur => exact comment_cons hc h hbehind hnext
      | plain cur => exact plain_cons hc hmem h hbehind hnext

/-! ## The file -/

theorem scanLines_abreast (filename : Bytes) (lines : List Bytes) :
    ∀ {n : Nat} {p : ConfParse} {mode : LexMode}, (∀ line ∈ lines, 10 ∉ line) → Begun p mode →
    Abreast ((p.reader mode).scanLines filename n lines) fun rest =>
      p.feedAll (lexFrom (lines.flatMap (· ++ [10]) ++ rest) mode) := by
  induction lines with
  | nil => intro n p mode _ h; exact Or.inr ⟨p, mode, rfl, h, fun _ => rfl⟩
  | cons line lines ih =>
      intro n p mode hlines h
      have hfirst := scanLine_abreast (filename ++ str ":" ++ ofNat n) line
        (hlines line List.mem_cons_self) p mode h
      have hrest := hfirst.bind (fun st => st.scanLines filename (n + 1) lines)
        (lines.flatMap (· ++ [10]) ++ ·)
        fun _ _ => ih fun line' hline' => hlines line' (List.mem_cons_of_mem line hline')
      have hscan : (p.reader mode).scanLines filename n (line :: lines)
          = (((p.reader mode).scanLine (filename ++ str ":" ++ ofNat n) line).bind
              (ConfReader.endLine (filename ++ str ":" ++ ofNat n))).bind
            fun st => st.scanLines filename (n + 1) lines := by
        rw [ConfReader.scanLines]
        cases (p.reader mode).scanLine (filename ++ str ":" ++ ofNat n) line with
        | error e => rfl
        | ok st =>
            dsimp only [Except.bind]
            cases st.endLine (filename ++ str ":" ++ ofNat n) <;> rfl
      have htext : ∀ rest, (line :: lines).flatMap (· ++ [10]) ++ rest
          = line ++ 10 :: (lines.flatMap (· ++ [10]) ++ rest) := by
        intro rest
        rw [List.flatMap_cons, List.append_assoc, List.append_assoc]
        rfl
      simp only [hscan, htext]
      exact hrest

theorem getlinesFrom_no_linefeed (text : Bytes) : ∀ cur, 10 ∉ cur →
    ∀ line ∈ getlinesFrom cur text, 10 ∉ line := by
  induction text with
  | nil =>
      intro cur hcur line hline
      rw [getlinesFrom] at hline
      split at hline
      · cases hline
      · rwa [List.mem_singleton.1 hline]
  | cons b text ih =>
      intro cur hcur line hline
      by_cases hb : b = 10
      · subst hb
        rw [getlinesFrom] at hline
        rcases List.mem_cons.1 hline with rfl | hline
        · exact hcur
        · exact ih [] List.not_mem_nil line hline
      · rw [getlinesFrom] at hline
        · refine ih (cur ++ [b]) ?_ line hline
          rw [List.mem_append, not_or]
          exact ⟨hcur, fun hmem => hb (List.mem_singleton.1 hmem).symm⟩
        · exact hb

theorem wholeLines_line (line text : Bytes) :
    wholeLines (line ++ 10 :: text) = line ++ 10 :: wholeLines text := by
  have hne : line ++ 10 :: text ≠ [] := by simp
  rw [wholeLines, wholeLines]
  by_cases htext : text = []
  · subst htext
    rw [if_pos (Or.inr (by simp)), if_pos (Or.inl rfl)]
  · have hlast : (line ++ 10 :: text).getLast? = text.getLast? := by
      rw [List.getLast?_append, List.getLast?_cons]
      cases htail : text.getLast? with
      | none => exact absurd (List.getLast?_eq_none_iff.1 htail) htext
      | some b => rfl
    rw [hlast]
    by_cases hend : text.getLast? = some 10
    · rw [if_pos (Or.inr hend), if_pos (Or.inr hend)]
    · rw [if_neg (not_or.2 ⟨hne, hend⟩), if_neg (not_or.2 ⟨htext, hend⟩), List.append_assoc]
      rfl

/-- The lines make up the text again. -/
theorem flatMap_getlinesFrom (text : Bytes) : ∀ cur, 10 ∉ cur →
    (getlinesFrom cur text).flatMap (· ++ [10]) = wholeLines (cur ++ text) := by
  induction text with
  | nil =>
      intro cur hcur
      rw [List.append_nil, getlinesFrom, wholeLines]
      by_cases hnil : cur = []
      · rw [if_pos hnil, if_pos (Or.inl hnil), hnil]
        rfl
      · have hend : cur.getLast? ≠ some 10 := fun h => hcur (List.mem_of_getLast? h)
        rw [if_neg hnil, if_neg (not_or.2 ⟨hnil, hend⟩), List.flatMap_singleton]
  | cons b text ih =>
      intro cur hcur
      by_cases hb : b = 10
      · subst hb
        rw [getlinesFrom, List.flatMap_cons, ih [] List.not_mem_nil, List.nil_append,
          wholeLines_line, List.append_assoc]
        rfl
      · rw [getlinesFrom, ih (cur ++ [b]), List.append_assoc]
        · rfl
        · rw [List.mem_append, not_or]
          exact ⟨hcur, fun hmem => hb (List.mem_singleton.1 hmem).symm⟩
        · exact hb

/-- At the end of the file nothing may be pending. -/
theorem endFile_same {p : ConfParse} {mode : LexMode} (h : Begun p mode) (filename : Bytes) :
    (((p.reader mode).endFile filename).toOption.map fun st => st.target)
      = (p.feedAll (lexFrom [] mode)).bind ConfParse.finish := by
  cases mode with
  | remark cur => exact absurd h id
  | comment cur => rfl
  | quote q => rfl
  | plain cur =>
      have hlast : p.feedAll (lexFrom [] (.plain cur)) = some (p.worded cur) := feedAll_wordOf h
      rw [hlast, Option.bind_some]
      simp only [ConfReader.endFile, ConfParse.reader, ConfParse.finish, ConfParse.worded]
      by_cases hitem : p.itemname = []
      · by_cases hword : p.wordbuffer = [] ∧ cur = []
        · by_cases hsection : p.sectionname = []
          · simp [hitem, hword, hsection, Except.toOption]
          · simp [hitem, hword, hsection, ConfReader.fail, Except.toOption]
        · simp [hitem, hword, ConfReader.fail, Except.toOption]
      · simp [hitem, ConfReader.fail, Except.toOption]

/-- `LoadConf` reads a file as the small reader reads its tokens. -/
theorem loadConf_eq (target : ConfigDataHash) (filename text : Bytes) :
    (loadConf target filename (some text)).toOption = parseTokens target (confTokens text) := by
  have hbegun : Begun (ConfParse.init target) (.plain []) := begun_plain_nil _
  have habreast := scanLines_abreast filename (getlines text) (n := 1)
    (getlinesFrom_no_linefeed text [] List.not_mem_nil) hbegun
  have hread : ∀ rest, (getlines text).flatMap (· ++ [10]) ++ rest = wholeLines text ++ rest := by
    intro rest
    rw [getlines, flatMap_getlinesFrom text [] List.not_mem_nil, List.nil_append]
  simp only [hread] at habreast
  rw [loadConf, parseTokens, confTokens]
  rcases habreast with ⟨e, herr, hnone⟩ | ⟨p, mode, hok, hend, hsame⟩
  · have hfail : (ConfReader.init target).scanLines filename 1 (getlines text) = .error e := herr
    have hempty : (ConfParse.init target).feedAll (lexFrom (wholeLines text ++ []) (.plain []))
        = none := hnone []
    rw [List.append_nil] at hempty
    rw [hfail, hempty]
    rfl
  · have hdone : (ConfReader.init target).scanLines filename 1 (getlines text)
        = .ok (p.reader mode) := hok
    have hempty : (ConfParse.init target).feedAll (lexFrom (wholeLines text ++ []) (.plain []))
        = p.feedAll (lexFrom [] mode) := hsame []
    rw [List.append_nil] at hempty
    rw [hdone, hempty, ← endFile_same hend filename]
    dsimp only
    cases (p.reader mode).endFile filename <;> rfl

end Hottpd
