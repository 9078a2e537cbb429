import Hottpd.Lib.Bytes

/-!
# Blocks of lines

A text of lines, each with a CRLF behind it and a blank line behind the last, is
read back as these lines, and its end is found where it is, if no line is blank
and none holds a CRLF. A lone CR or LF does no harm, at the ends of a line
either: between two lines the CRLF is the first that can be found.
-/

namespace Bytes

/-- The bytes CR LF do not come in a row. -/
def NoCrlf (s : Bytes) : Prop := ¬crlf <:+: s

instance (s : Bytes) : Decidable (NoCrlf s) := inferInstanceAs (Decidable (¬crlf <:+: s))

theorem NoCrlf.nil : NoCrlf [] := by decide

/-- Without a CR there is no line end. -/
theorem NoCrlf.of_not_mem {s : Bytes} (h : 13 ∉ s) : NoCrlf s := by
  rintro ⟨before, after, rfl⟩
  exact h (by simp [crlf])

/-- The lines, with their line ends. -/
def crlfBlock (lines : List Bytes) : Bytes := lines.flatMap (· ++ crlf)

theorem crlfBlock_cons (line : Bytes) (lines : List Bytes) :
    crlfBlock (line :: lines) = line ++ 13 :: 10 :: crlfBlock lines := by
  simp [crlfBlock, crlf]

theorem NoCrlf.tail {b : UInt8} {s : Bytes} (h : NoCrlf (b :: s)) : NoCrlf s :=
  fun hin => h (hin.trans (List.suffix_cons b s).isInfix)

theorem NoCrlf.head {b : UInt8} {s : Bytes} (h : NoCrlf (b :: s)) :
    ¬(b = 13 ∧ s.head? = some 10) := by
  rintro ⟨rfl, hhead⟩
  cases s with
  | nil => cases hhead
  | cons c s =>
      obtain rfl : c = 10 := Option.some.inj hhead
      exact h ⟨[], s, rfl⟩

/-- Two strings with a byte between them that is neither. -/
theorem NoCrlf.append_cons {b : UInt8} (hcr : b ≠ 13) (hlf : b ≠ 10) {t : Bytes} (ht : NoCrlf t) :
    ∀ {s : Bytes}, NoCrlf s → NoCrlf (s ++ b :: t) := by
  have hpair : ∀ (c : UInt8) (l : Bytes), crlf <:+: c :: l →
      (c = 13 ∧ l.head? = some 10) ∨ crlf <:+: l := by
    intro c l hin
    rcases List.infix_cons_iff.1 hin with hpre | hin
    · obtain ⟨rest, hrest⟩ := hpre
      obtain ⟨rfl, rfl⟩ := List.cons.inj hrest
      exact Or.inl ⟨rfl, rfl⟩
    · exact Or.inr hin
  intro s
  induction s with
  | nil =>
      intro _ hin
      rcases hpair b t hin with ⟨h, -⟩ | h
      · exact hcr h
      · exact ht h
  | cons c s ih =>
      intro hs hin
      rcases hpair c (s ++ b :: t) hin with ⟨rfl, hhead⟩ | h
      · cases s with
        | nil => exact hlf (Option.some.inj hhead)
        | cons d s => exact hs.head ⟨rfl, hhead⟩
      · exact ih hs.tail h

/-- Behind a line without CRLF the line end is the next CRLF there is. -/
theorem head_line {s : Bytes} (tail : Bytes) {b : UInt8} (h : NoCrlf (b :: s)) :
    ¬(b = 13 ∧ (s ++ 13 :: tail).head? = some 10) := by
  rintro ⟨rfl, hhead⟩
  cases s with
  | nil => exact absurd (Option.some.inj hhead) (by decide)
  | cons c s => exact h.head ⟨rfl, hhead⟩

theorem crlfLinesFrom_line (tail : Bytes) : ∀ {line cur : Bytes}, NoCrlf line →
    crlfLinesFrom cur (line ++ 13 :: 10 :: tail) =
      if (cur ++ line).isEmpty then [] else (cur ++ line) :: crlfLinesFrom [] tail := by
  intro line
  induction line with
  | nil => intro cur _; rw [List.nil_append, crlfLinesFrom_crlf, List.append_nil]
  | cons b line ih =>
      intro cur h
      rw [List.cons_append, crlfLinesFrom_cons cur (head_line _ h), ih h.tail, List.append_assoc]
      rfl

/-- The lines are read back. -/
theorem crlfLines_block {lines : List Bytes} (h : ∀ line ∈ lines, line ≠ [] ∧ NoCrlf line)
    (rest : Bytes) : crlfLines (crlfBlock lines ++ crlf ++ rest) = lines := by
  unfold crlfLines
  induction lines with
  | nil => exact crlfLinesFrom_crlf [] rest
  | cons line lines ih =>
      obtain ⟨hne, hline⟩ := h line List.mem_cons_self
      have hmore := ih fun l hl => h l (List.mem_cons_of_mem line hl)
      rw [crlfBlock_cons, List.append_assoc, List.append_assoc, List.cons_append, List.cons_append,
        crlfLinesFrom_line _ hline, List.nil_append, if_neg (by simpa using hne),
        ← List.append_assoc, hmore]

/-! ## The blank line -/

theorem crlf_prefix_iff {s : Bytes} : crlf <+: s ↔ s.head? = some 13 ∧ s.tail.head? = some 10 := by
  constructor
  · rintro ⟨rest, rfl⟩
    exact ⟨rfl, rfl⟩
  · rintro ⟨hcr, hlf⟩
    cases s with
    | nil => cases hcr
    | cons b s =>
        cases s with
        | nil => cases hlf
        | cons c s =>
            obtain rfl : b = 13 := Option.some.inj hcr
            obtain rfl : c = 10 := Option.some.inj hlf
            exact ⟨s, rfl⟩

/-- Two line ends in a row begin behind a line or further on. -/
theorem find_blank_line (tail : Bytes) : ∀ {line : Bytes}, NoCrlf line →
    find (crlf ++ crlf) (line ++ 13 :: 10 :: tail) =
      if crlf.isPrefixOf tail then some line.length
      else (find (crlf ++ crlf) tail).map (· + (line.length + 2)) := by
  have hnot : ∀ {b : UInt8} {s : Bytes}, ¬(b = 13 ∧ s.head? = some 10) →
      find (crlf ++ crlf) (b :: s) = (find (crlf ++ crlf) s).map (· + 1) := by
    intro b s hb
    rcases find_nil_or_cons (crlf ++ crlf) b s with ⟨⟨rest, hrest⟩, -⟩ | ⟨-, heq⟩
    · obtain ⟨rfl, rfl⟩ := List.cons.inj hrest
      exact absurd ⟨rfl, rfl⟩ hb
    · exact heq
  intro line
  induction line with
  | nil =>
      intro _
      rw [List.nil_append]
      rcases find_nil_or_cons (crlf ++ crlf) 13 (10 :: tail) with ⟨⟨rest, hrest⟩, heq⟩ | ⟨hno, heq⟩
      · have htail : crlf <+: tail := ⟨rest, (List.cons.inj (List.cons.inj hrest).2).2⟩
        rw [heq, if_pos (List.isPrefixOf_iff_prefix.2 htail)]
        rfl
      · have htail : ¬crlf <+: tail := by
          rintro ⟨rest, rfl⟩
          exact hno ⟨rest, rfl⟩
        rw [heq, if_neg (mt List.isPrefixOf_iff_prefix.1 htail), hnot (by simp), Option.map_map]
        rfl
  | cons b line ih =>
      intro h
      rw [List.cons_append, hnot (head_line _ h), ih h.tail]
      split
      · rfl
      · rw [Option.map_map]
        rfl

/-- A block ends where its last line does. -/
theorem find_block {line : Bytes} {lines : List Bytes}
    (h : ∀ l ∈ line :: lines, l ≠ [] ∧ NoCrlf l) (rest : Bytes) :
    ∃ n, n + 2 = (crlfBlock (line :: lines)).length ∧
      find (crlf ++ crlf) (crlfBlock (line :: lines) ++ crlf ++ rest) = some n := by
  induction lines generalizing line with
  | nil =>
      obtain ⟨-, hline⟩ := h line List.mem_cons_self
      refine ⟨line.length, by simp [crlfBlock, crlf], ?_⟩
      have heq := find_blank_line (crlf ++ rest) hline
      rw [if_pos (List.isPrefixOf_iff_prefix.2 (List.prefix_append crlf rest))] at heq
      simpa [crlfBlock, crlf] using heq
  | cons next lines ih =>
      obtain ⟨-, hline⟩ := h line List.mem_cons_self
      obtain ⟨hne, hnext⟩ := h next (List.mem_cons_of_mem line List.mem_cons_self)
      obtain ⟨n, hn, hfind⟩ := ih fun l hl => h l (List.mem_cons_of_mem line hl)
      have hmore : ¬crlf <+: crlfBlock (next :: lines) ++ crlf ++ rest := by
        rw [crlf_prefix_iff]
        rintro ⟨hcr, hlf⟩
        cases next with
        | nil => exact hne rfl
        | cons b next =>
            rw [crlfBlock_cons] at hcr hlf
            refine head_line (10 :: (crlfBlock lines ++ crlf ++ rest)) hnext
              ⟨Option.some.inj hcr, ?_⟩
            simpa using hlf
      refine ⟨n + (line.length + 2), ?_, ?_⟩
      · rw [crlfBlock_cons, List.length_append, List.length_cons, List.length_cons, ← hn]
        omega
      · rw [crlfBlock_cons, List.append_assoc, List.append_assoc, List.cons_append,
          List.cons_append, ← List.append_assoc, find_blank_line _ hline,
          if_neg (mt List.isPrefixOf_iff_prefix.1 hmore), hfind]
        rfl

end Bytes
