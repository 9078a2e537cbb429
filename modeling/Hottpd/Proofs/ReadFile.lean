import Hottpd.Core.ReadFile
import Hottpd.Core.Uri

/-!
# The lines of a file

A line that ends in a newline is read without meeting the end of the file, so it is
stored. What is behind the last newline is read up to the end, and the question that
follows takes the end for the sign that nothing was read.
-/

namespace Hottpd

open Bytes

/-! ## Text -/

/-- The lines of a text, of which the last may be without a newline. -/
def textLines : Bytes → List Bytes
  | [] => []
  | c :: rest =>
      if c = 10 then [] :: textLines rest
      else
        match textLines rest with
        | [] => [[c]]
        | line :: more => (c :: line) :: more

/-- The lines that end in a newline. -/
def endedLines (text : Bytes) : List Bytes := (textLines text).take (text.count 10)

/-- A text without a NUL, whose lines all fit in the buffer with their newlines. -/
structure IsText (maxbuf : Nat) (text : Bytes) : Prop where
  nul : 0 ∉ text
  short : ∀ line ∈ textLines text, line.length < maxbuf - 1

/-- Nothing is behind the last newline. -/
def Ended (text : Bytes) : Prop := text = [] ∨ text.getLast? = some 10

variable {line rest text : Bytes}

theorem textLines_newline (h : 10 ∉ line) :
    textLines (line ++ 10 :: rest) = line :: textLines rest := by
  induction line with
  | nil => exact if_pos rfl
  | cons c line ih =>
      obtain ⟨hc, hline⟩ := List.ne_and_not_mem_of_not_mem_cons h
      rw [List.cons_append, textLines, if_neg (Ne.symm hc), ih hline]

theorem textLines_open (h : 10 ∉ line) (hne : line ≠ []) : textLines line = [line] := by
  induction line with
  | nil => exact absurd rfl hne
  | cons c line ih =>
      obtain ⟨hc, hline⟩ := List.ne_and_not_mem_of_not_mem_cons h
      rw [textLines, if_neg (Ne.symm hc)]
      by_cases hnil : line = []
      · rw [hnil, textLines]
      · rw [ih hline hnil]

theorem endedLines_newline (h : 10 ∉ line) :
    endedLines (line ++ 10 :: rest) = line :: endedLines rest := by
  rw [endedLines, textLines_newline h, List.count_append, List.count_eq_zero.2 h, Nat.zero_add,
    List.count_cons_self, List.take_succ_cons, endedLines]

theorem endedLines_open (h : 10 ∉ line) : endedLines line = [] := by
  rw [endedLines, List.count_eq_zero.2 h, List.take_zero]

theorem ended_newline : Ended (line ++ 10 :: rest) ↔ Ended rest := by
  rw [Ended, Ended, List.getLast?_append_of_ne_nil line (List.cons_ne_nil 10 rest)]
  cases rest with
  | nil => exact iff_of_true (Or.inr rfl) (Or.inl rfl)
  | cons c rest =>
      rw [List.getLast?_cons_cons]
      simp

theorem ended_open (h : 10 ∉ line) : Ended line ↔ line = [] :=
  or_iff_left fun hlast => h (List.mem_of_getLast? hlast)

/-- A text is a line and a text behind its newline, until there is no newline left. -/
theorem text_induction {P : Bytes → Prop} (last : ∀ line, 10 ∉ line → P line)
    (newline : ∀ line rest, 10 ∉ line → P rest → P (line ++ 10 :: rest)) (text : Bytes) :
    P text := by
  by_cases h : 10 ∈ text
  · obtain ⟨line, rest, heq, hline⟩ := List.eq_append_cons_of_mem h
    rw [heq]
    exact newline line rest hline (text_induction last newline rest)
  · exact last text h
termination_by text.length
decreasing_by
  rw [heq, List.length_append, List.length_cons]
  omega

theorem textLines_length_le (text : Bytes) :
    (textLines text).length ≤ text.count 10 ↔ Ended text := by
  induction text using text_induction with
  | last line h =>
      rw [List.count_eq_zero.2 h, ended_open h, Nat.le_zero, List.length_eq_zero_iff]
      refine ⟨fun hnil => ?_, fun hnil => by rw [hnil, textLines]⟩
      by_contra hne
      rw [textLines_open h hne] at hnil
      cases hnil
  | newline line rest h ih =>
      rw [textLines_newline h, ended_newline, ← ih, List.count_append, List.count_eq_zero.2 h,
        List.count_cons_self, List.length_cons]
      omega

theorem endedLines_eq_iff (text : Bytes) :
    (endedLines text).map entry = (textLines text).map entry ↔ Ended text := by
  rw [← textLines_length_le]
  constructor
  · intro h
    have hlen := congrArg List.length h
    rw [List.length_map, List.length_map, endedLines, List.length_take] at hlen
    omega
  · intro h
    rw [endedLines, List.take_of_length_le h]

theorem IsText.newline {maxbuf : Nat} (h : 10 ∉ line) (ht : IsText maxbuf (line ++ 10 :: rest)) :
    0 ∉ line ∧ line.length < maxbuf - 1 ∧ IsText maxbuf rest := by
  have hlines := ht.short
  rw [textLines_newline h] at hlines
  refine ⟨fun hmem => ht.nul (List.mem_append_left _ hmem), hlines line List.mem_cons_self, ?_, ?_⟩
  · exact fun hmem => ht.nul (List.mem_append_right _ (List.mem_cons_of_mem _ hmem))
  · exact fun l hl => hlines l (List.mem_cons_of_mem _ hl)

/-! ## One read -/

variable {maxbuf : Nat}

theorem readUpto_newline {n : Nat} (h : 10 ∉ line) (hn : line.length < n) :
    readUpto n (line ++ 10 :: rest) = (line ++ [10], rest, false) := by
  induction line generalizing n with
  | nil =>
      obtain ⟨n, rfl⟩ := Nat.exists_eq_add_of_lt hn
      exact if_pos rfl
  | cons c line ih =>
      obtain ⟨hc, hline⟩ := List.ne_and_not_mem_of_not_mem_cons h
      cases n with
      | zero => exact absurd hn (Nat.not_lt_zero _)
      | succ n =>
          rw [List.cons_append, readUpto, if_neg (Ne.symm hc),
            ih hline (Nat.lt_of_succ_lt_succ hn)]
          rfl

theorem readUpto_open {n : Nat} (h : 10 ∉ line) (hn : line.length < n) :
    readUpto n line = (line, [], true) := by
  induction line generalizing n with
  | nil =>
      cases n with
      | zero => exact absurd hn (Nat.not_lt_zero _)
      | succ n => rfl
  | cons c line ih =>
      obtain ⟨hc, hline⟩ := List.ne_and_not_mem_of_not_mem_cons h
      cases n with
      | zero => exact absurd hn (Nat.not_lt_zero _)
      | succ n => rw [readUpto, if_neg (Ne.symm hc), ih hline (Nat.lt_of_succ_lt_succ hn)]

theorem readLines_newline (h : 10 ∉ line) (hnul : 0 ∉ line) (hshort : line.length < maxbuf - 1)
    (fuel : Nat) (F : List Bytes) :
    readLines maxbuf (fuel + 1) ⟨line ++ 10 :: rest, false⟩ F
      = readLines maxbuf fuel ⟨rest, false⟩ (F ++ [entry line]) := by
  have hcstr : cstr (line ++ [10]) = line ++ [10] :=
    cstr_eq_self fun hmem => (List.mem_append.1 hmem).elim hnul (by decide)
  rw [readLines, if_neg Bool.false_ne_true, Stream.fgets, readUpto_newline h hshort]
  dsimp only
  rw [if_neg (List.append_ne_nil_of_right_ne_nil _ (List.cons_ne_nil _ _)), Option.map_some,
    Option.getD_some, hcstr, List.dropLast_concat]
  rfl

theorem readLines_open (h : 10 ∉ line) (hshort : line.length < maxbuf - 1) (fuel : Nat)
    (F : List Bytes) : readLines maxbuf (fuel + 2) ⟨line, false⟩ F = some F := by
  rw [readLines, if_neg Bool.false_ne_true, Stream.fgets, readUpto_open h hshort]
  rfl

/-! ## All reads -/

/-- Every line that ends in a newline becomes an entry, and nothing else does. -/
theorem readLines_text (hmax : 1 < maxbuf) (ht : IsText maxbuf text) :
    ∀ (fuel : Nat) (F : List Bytes), text.length + 2 ≤ fuel →
      readLines maxbuf fuel ⟨text, false⟩ F = some (F ++ (endedLines text).map entry) := by
  induction text using text_induction with
  | last line h =>
      intro fuel F hfuel
      have hshort : line.length < maxbuf - 1 := by
        by_cases hnil : line = []
        · rw [hnil]
          exact Nat.sub_pos_of_lt hmax
        · exact ht.short line (textLines_open h hnil ▸ List.mem_singleton_self line)
      obtain ⟨k, rfl⟩ := Nat.exists_eq_add_of_le' (Nat.le_of_add_left_le hfuel)
      rw [readLines_open h hshort, endedLines_open h, List.map_nil, List.append_nil]
  | newline line rest h ih =>
      intro fuel F hfuel
      obtain ⟨hnul, hshort, hrest⟩ := ht.newline h
      rw [List.length_append, List.length_cons] at hfuel
      obtain ⟨k, rfl⟩ := Nat.exists_eq_add_of_le' (show 1 ≤ fuel by omega)
      rw [readLines_newline h hnul hshort, ih hrest k _ (by omega), endedLines_newline h,
        List.map_cons, List.append_assoc, List.singleton_append]

theorem readUpto_rest {n : Nat} (hn : 0 < n) (text : Bytes) :
    (readUpto n text).2.2 = true ∨ (readUpto n text).2.1.length < text.length := by
  induction text generalizing n with
  | nil =>
      cases n with
      | zero => exact absurd hn (Nat.not_lt_zero _)
      | succ n => exact Or.inl rfl
  | cons c text ih =>
      cases n with
      | zero => exact absurd hn (Nat.not_lt_zero _)
      | succ n =>
          rw [readUpto]
          by_cases hc : c = 10
          · rw [if_pos hc]
            exact Or.inr (Nat.lt_succ_self _)
          · rw [if_neg hc]
            by_cases hpos : 0 < n
            · exact (ih hpos).imp_right fun h => Nat.lt_succ_of_lt h
            · rw [Nat.eq_zero_of_not_pos hpos]
              exact Or.inr (Nat.lt_succ_self _)

/-- Each read meets the end or takes a byte, so the loop ends on any file. -/
theorem readLines_some (hmax : 1 < maxbuf) : ∀ (fuel : Nat) (text : Bytes) (F : List Bytes),
    text.length + 2 ≤ fuel → ∃ lines, readLines maxbuf fuel ⟨text, false⟩ F = some lines
  | fuel + 1, text, F, hfuel => by
      rw [readLines, if_neg Bool.false_ne_true, Stream.fgets]
      dsimp only
      rw [Bool.false_or]
      obtain ⟨k, rfl⟩ := Nat.exists_eq_add_of_le' (show 1 ≤ fuel by omega)
      cases heof : (readUpto (maxbuf - 1) text).2.2 with
      | true => exact ⟨F, rfl⟩
      | false =>
          have hless := (readUpto_rest (Nat.sub_pos_of_lt hmax) text).resolve_left
            (Bool.eq_false_iff.1 heof)
          exact readLines_some hmax (k + 1) (readUpto (maxbuf - 1) text).2.1 _ (by omega)

/-! ## `ReadFile` and `LoadFile` -/

namespace FileReader

theorem foldl_contents (fc : List Bytes) (x : Bytes) (n : Nat) (h : n = x.length) :
    fc.foldl (fun n a => n + (a.length + 2)) n
      = (fc.foldl (fun x a => x ++ a ++ crlf) x).length := by
  induction fc generalizing x n with
  | nil => exact h
  | cons a fc ih =>
      refine ih (x ++ a ++ crlf) (n + (a.length + 2)) ?_
      rw [List.length_append, List.length_append, h, Nat.add_assoc]
      rfl

theorem calcSize_size (r : FileReader) : r.calcSize.contentsize = r.calcSize.contents.length :=
  foldl_contents r.fc [] 0 rfl

end FileReader

/-- The file `fname` can be opened, both times, and `text` is read from it. -/
structure Disk.Opens (disk : Disk) (configFileName fname text : Bytes) : Prop where
  name : fname ≠ []
  file : fileExists disk (newfile configFileName fname) = true
  text : disk.read (newfile configFileName fname) = some text

theorem readFile_text {disk : Disk} {configFileName fname : Bytes} (hmax : 1 < maxbuf)
    (hopens : disk.Opens configFileName fname text) (ht : IsText maxbuf text) (F : List Bytes) :
    readFile maxbuf disk configFileName F fname
      = some (true, (endedLines text).map entry) := by
  rw [readFile, if_neg hopens.name]
  dsimp only
  rw [if_pos hopens.file, hopens.text]
  dsimp only
  rw [readLines_text hmax ht _ _ (Nat.le_refl _), List.nil_append, Option.map_some]

/-- `ReadFile` stores every line of the text, whatever was in `F`, and `LoadFile` gives a reader
of these lines whose size is that of its contents. -/
structure StoresLines (maxbuf : Nat) (disk : Disk) (configFileName fname text : Bytes) : Prop where
  read : ∀ F, readFile maxbuf disk configFileName F fname = some (true, (textLines text).map entry)
  load : ∀ r : FileReader, ∃ r', r.loadFile maxbuf disk configFileName fname = some r' ∧
    r'.fc = (textLines text).map entry ∧ r'.contentsize = r'.contents.length

theorem readFile_stores {disk : Disk} {configFileName fname : Bytes} (hmax : 1 < maxbuf)
    (hname : 0 ∉ fname) (hopens : disk.Opens configFileName fname text)
    (ht : IsText maxbuf text) :
    StoresLines maxbuf disk configFileName fname text ↔ text = [] ∨ text.getLast? = some 10 := by
  have hread := readFile_text hmax hopens ht
  refine Iff.trans ⟨fun h => ?_, fun h => ?_⟩ (endedLines_eq_iff text)
  · have heq := (hread []).symm.trans (h.read [])
    exact (Prod.ext_iff.1 (Option.some_inj.1 heq)).2
  · refine ⟨fun F => ?_, fun r => ?_⟩
    · rw [hread F, h]
    · refine ⟨{ r with fc := (textLines text).map entry }.calcSize, ?_, rfl,
        FileReader.calcSize_size _⟩
      rw [FileReader.loadFile, cstr_eq_self hname, hread [], h]
      rfl

/-- The file named `/etc/motd` has this text. -/
def motd (text : Bytes) : Disk where
  stat file := if file = str "/etc/motd" then some 0o100644 else none
  opens _ := true
  read file := if file = str "/etc/motd" then some text else none

theorem motd_opens (text : Bytes) :
    (motd text).Opens (str "/etc/hottpd.conf") (str "motd") text := by
  have hfile : newfile (str "/etc/hottpd.conf") (str "motd") = str "/etc/motd" := by decide
  have hstat : (motd text).stat (str "/etc/motd") = some 0o100644 := by
    simp only [motd, ↓reduceIte]
  refine ⟨by decide, ?_, ?_⟩
  · rw [hfile, fileExists, hstat]
    rfl
  · rw [hfile]
    simp only [motd, ↓reduceIte]

theorem readFile_stores_motd :
    StoresLines 514 (motd (str "one\n\ntwo\n")) (str "/etc/hottpd.conf") (str "motd")
      (str "one\n\ntwo\n") :=
  (readFile_stores (by decide) (by decide) (motd_opens _) ⟨by decide, by decide⟩).2
    (Or.inr (by decide))

theorem last_line_lost :
    ¬StoresLines 514 (motd (str "one\ntwo")) (str "/etc/hottpd.conf") (str "motd")
      (str "one\ntwo") := by
  intro h
  have hread := readFile_text (by decide) (motd_opens (str "one\ntwo"))
    ⟨by decide, (by decide : ∀ line ∈ textLines (str "one\ntwo"), line.length < 514 - 1)⟩ []
  exact absurd (hread.symm.trans (h.read [])) (by decide)

end Hottpd
