import Mathlib.Algebra.Group.Int.Defs
import Mathlib.Algebra.Group.Nat.Defs
import Mathlib.Data.List.Basic
import Mathlib.Data.List.TakeDrop
import Mathlib.Data.List.TakeWhile
import Mathlib.Data.List.Infix

/-!
# Byte strings

The C and C++ string operations a text protocol is written with, on lists of
bytes: forward and backward search, the split into CRLF lines, white-space
tokens, case folding, the NUL-terminated view and the decimal conversions.
Positions count from the front and a search that fails answers `none`, where
the C++ interface has `npos`.
-/

/-- A `std::string`. -/
abbrev Bytes := List UInt8

namespace Bytes

/-- The bytes of a literal. -/
def str (s : String) : Bytes := s.toList.map Char.toUInt8

def crlf : Bytes := [13, 10]

/-- A byte read as a signed `char`. -/
def signed (b : UInt8) : Int := if b.toNat < 128 then b.toNat else b.toNat - 256

def tolower (b : UInt8) : UInt8 := if 65 ≤ b ∧ b ≤ 90 then b + 32 else b

def toupper (b : UInt8) : UInt8 := if 97 ≤ b ∧ b ≤ 122 then b - 32 else b

/-- The `isspace` of the C locale. -/
def isspace (b : UInt8) : Bool := b = 32 ∨ (9 ≤ b ∧ b ≤ 13)

/-- What is left of a string behind `c_str()`. -/
def cstr (s : Bytes) : Bytes := s.takeWhile (· ≠ 0)

/-- What the order of `std::string` goes by. -/
def stringKey (s : Bytes) : List Nat := s.map UInt8.toNat

theorem stringKey_inj {a b : Bytes} (h : stringKey a = stringKey b) : a = b :=
  List.map_injective_iff.2 (fun _ _ => UInt8.toNat_inj.1) h

/-- `strcasecmp(a, b) == 0`. -/
def caseEq (a b : Bytes) : Bool := (cstr a).map tolower = (cstr b).map tolower

/-! ## Searching -/

/-- `s.find(pat)`. -/
def find (pat : Bytes) : Bytes → Option Nat
  | [] => if pat.isPrefixOf [] then some 0 else none
  | b :: s => if pat.isPrefixOf (b :: s) then some 0 else (find pat s).map (· + 1)

/-- `s.find(pat, pos)`. -/
def findFrom (pat s : Bytes) (pos : Nat) : Option Nat :=
  if pos ≤ s.length then (find pat (s.drop pos)).map (· + pos) else none

/-- `s.rfind(c)`. -/
def rfind (c : UInt8) : Bytes → Option Nat
  | [] => none
  | b :: s =>
      match rfind c s with
      | some i => some (i + 1)
      | none => if b = c then some 0 else none

/-- `s.rfind(c, pos)`: the last `c` that begins at or before `pos`. -/
def rfindUpto (c : UInt8) (s : Bytes) (pos : Nat) : Option Nat :=
  rfind c (s.take (pos + 1))

/-! ## Lines and tokens -/

/-- The lines a loop over `find("\r\n", hbegin)` visits before it meets an
empty one or runs out of line ends; `cur` is the line being read. -/
def crlfLinesFrom (cur : Bytes) : Bytes → List Bytes
  | [] => []
  | 13 :: 10 :: rest => if cur.isEmpty then [] else cur :: crlfLinesFrom [] rest
  | b :: rest => crlfLinesFrom (cur ++ [b]) rest

def crlfLines (s : Bytes) : List Bytes := crlfLinesFrom [] s

/-- The words successive `>>` extractions of a stream over the string give;
`cur` is the word being read. -/
def tokensFrom (cur : Bytes) : Bytes → List Bytes
  | [] => if cur.isEmpty then [] else [cur]
  | b :: rest =>
      if isspace b then
        if cur.isEmpty then tokensFrom [] rest else cur :: tokensFrom [] rest
      else tokensFrom (cur ++ [b]) rest

def tokens (s : Bytes) : List Bytes := tokensFrom [] s

/-! ## Numbers -/

/-- The decimal text of a number. -/
def ofNat (n : Nat) : Bytes := (Nat.toDigits 10 n).map Char.toUInt8

def isdigit (b : UInt8) : Bool := 48 ≤ b ∧ b ≤ 57

/-- The value of the digits a string starts with. -/
def digits (s : Bytes) : Nat :=
  (s.takeWhile isdigit).foldl (fun n b => n * 10 + (b.toNat - 48)) 0

/-- Decimal digits and nothing else. -/
structure IsNumeral (s : Bytes) : Prop where
  ne_nil : s ≠ []
  all : ∀ b ∈ s, isdigit b = true

instance (s : Bytes) : Decidable (IsNumeral s) :=
  decidable_of_iff (s ≠ [] ∧ s.all isdigit = true)
    ⟨fun h => ⟨h.1, List.all_eq_true.1 h.2⟩, fun h => ⟨h.ne_nil, List.all_eq_true.2 h.all⟩⟩

/-- `strtol(s, NULL, 10)` with a 64-bit `long`: white space, one sign, the
digits, clamped to the ends of the range. -/
def strtol (s : Bytes) : Int :=
  match (cstr s).dropWhile isspace with
  | 45 :: rest => max (-(digits rest)) (-2 ^ 63)
  | 43 :: rest => min (digits rest) (2 ^ 63 - 1)
  | rest => min (digits rest) (2 ^ 63 - 1)

/-- `a - b` on `size_t`. -/
def sizeSub (a b : Nat) : Nat := if b ≤ a then a - b else 2 ^ 64 - (b - a)

/-- A 64-bit value converted to `unsigned int`. -/
def toUnsigned (n : Int) : Nat := (n % 2 ^ 32).toNat

/-- `(unsigned int) atoi(s)`: the `long` is cut to an `int` and the `int` is
read as unsigned, which is the `long` modulo `2 ^ 32`. -/
def atoi (s : Bytes) : Nat := toUnsigned (strtol s)

/-! ## Strings without special bytes -/

theorem cstr_eq_self {a : Bytes} (h : 0 ∉ a) : cstr a = a := by
  unfold cstr
  induction a with
  | nil => rfl
  | cons x a ih =>
      rw [List.mem_cons, not_or] at h
      have hx : x ≠ 0 := fun h0 => h.1 h0.symm
      rw [List.takeWhile_cons_of_pos (by simp [hx]), ih h.2]

theorem cstr_eq_iff {data : Bytes} : cstr data = data ↔ 0 ∉ data := by
  constructor
  · intro h h0
    rw [← h] at h0
    simpa using List.mem_takeWhile_imp h0
  · exact cstr_eq_self

theorem isspace_digit {b : UInt8} (hb : isdigit b = true) : isspace b = false := by
  simp only [isdigit, isspace, decide_eq_true_eq, decide_eq_false_iff_not, not_or] at hb ⊢
  obtain ⟨hlow, hhigh⟩ := hb
  rw [UInt8.le_iff_toNat_le] at hlow hhigh
  refine ⟨?_, ?_⟩
  · rintro rfl
    exact absurd hlow (by decide)
  · rintro ⟨-, h⟩
    rw [UInt8.le_iff_toNat_le] at h
    exact absurd (hlow.trans h) (by decide)

theorem strtol_digits {d : Bytes} (hne : d ≠ []) (hd : ∀ b ∈ d, isdigit b = true) :
    strtol d = min (digits d : Int) (2 ^ 63 - 1) := by
  have hnul : 0 ∉ d := fun h => absurd (hd 0 h) (by decide)
  cases d with
  | nil => exact absurd rfl hne
  | cons b d =>
      have hb : isdigit b = true := hd b List.mem_cons_self
      have hsign : b ≠ 45 ∧ b ≠ 43 := by
        constructor <;> rintro rfl <;> exact absurd hb (by decide)
      rw [strtol, cstr_eq_self hnul, List.dropWhile_cons, isspace_digit hb]
      simp only [Bool.false_eq_true, if_false]
      split
      · next h => exact absurd (List.cons.inj h).1 hsign.1
      · next h => exact absurd (List.cons.inj h).1 hsign.2
      · rfl

/-! ## What a search finds -/

theorem find_nil_or_cons (pat : Bytes) (b : UInt8) (s : Bytes) :
    (pat <+: b :: s ∧ find pat (b :: s) = some 0) ∨
      (¬ pat <+: b :: s ∧ find pat (b :: s) = (find pat s).map (· + 1)) := by
  by_cases h : pat <+: b :: s
  · left
    exact ⟨h, by rw [find, if_pos (List.isPrefixOf_iff_prefix.2 h)]⟩
  · right
    exact ⟨h, by rw [find, if_neg (mt List.isPrefixOf_iff_prefix.1 h)]⟩

/-- What is found lies within the string. -/
theorem find_length {pat : Bytes} : ∀ {s : Bytes} {i : Nat}, find pat s = some i →
    i + pat.length ≤ s.length := by
  intro s
  induction s with
  | nil =>
      intro i h
      rw [find] at h
      split at h
      · next hpre =>
          have hlen := (List.isPrefixOf_iff_prefix.1 hpre).length_le
          cases h
          omega
      · cases h
  | cons b s ih =>
      intro i h
      rcases find_nil_or_cons pat b s with ⟨hpre, heq⟩ | ⟨-, heq⟩
      · rw [heq] at h
        cases h
        have hlen := hpre.length_le
        omega
      · rw [heq] at h
        obtain ⟨j, hj, rfl⟩ := Option.map_eq_some_iff.1 h
        have hlen := ih hj
        rw [List.length_cons]
        omega

/-- The first occurrence in a beginning of a string is the first of all. -/
theorem find_append {pat : Bytes} : ∀ {s : Bytes} {i : Nat} (t : Bytes),
    find pat s = some i → find pat (s ++ t) = some i := by
  intro s
  induction s with
  | nil =>
      intro i t h
      rw [find] at h
      split at h
      · next hpre =>
          obtain rfl := List.prefix_nil.1 (List.isPrefixOf_iff_prefix.1 hpre)
          rw [← h]
          cases t <;> rfl
      · cases h
  | cons b s ih =>
      intro i t h
      rcases find_nil_or_cons pat b s with ⟨hpre, heq⟩ | ⟨hpre, heq⟩
      · rw [heq] at h
        rcases find_nil_or_cons pat b (s ++ t) with ⟨-, heq'⟩ | ⟨hno, -⟩
        · rw [List.cons_append, heq', h]
        · exact absurd (hpre.trans (List.prefix_append (b :: s) t)) hno
      · rw [heq] at h
        obtain ⟨j, hj, rfl⟩ := Option.map_eq_some_iff.1 h
        have hfits := find_length hj
        rcases find_nil_or_cons pat b (s ++ t) with ⟨hyes, -⟩ | ⟨-, heq'⟩
        · refine absurd (List.prefix_of_prefix_length_le hyes
            (List.prefix_append (b :: s) t) ?_) hpre
          rw [List.length_cons]
          omega
        · rw [List.cons_append, heq', ih t hj]
          rfl

theorem findFrom_length {pat s : Bytes} {pos i : Nat} (h : findFrom pat s pos = some i) :
    i + pat.length ≤ s.length := by
  unfold findFrom at h
  split at h
  · obtain ⟨j, hj, rfl⟩ := Option.map_eq_some_iff.1 h
    have hfits := find_length hj
    rw [List.length_drop] at hfits
    omega
  · cases h

theorem findFrom_zero (pat s : Bytes) : findFrom pat s 0 = find pat s := by
  rw [findFrom, if_pos (Nat.zero_le _), List.drop_zero]
  exact Option.map_id'

/-- Where nothing was found the search need not start over: what more bytes
bring is found from the last place on at which it can begin. -/
theorem findFrom_append {pat : Bytes} (hpat : pat ≠ []) : ∀ {pos : Nat} {s : Bytes} (t : Bytes),
    find pat s = none → pos + pat.length ≤ s.length + 1 →
    findFrom pat (s ++ t) pos = find pat (s ++ t) := by
  have hpos : 0 < pat.length := List.length_pos_iff.2 hpat
  intro pos
  induction pos with
  | zero =>
      intro s t _ _
      exact findFrom_zero pat _
  | succ pos ih =>
      intro s t hnone hlen
      cases s with
      | nil =>
          rw [List.length_nil] at hlen
          omega
      | cons b s =>
          rw [List.length_cons] at hlen
          rcases find_nil_or_cons pat b s with ⟨-, heq⟩ | ⟨hpre, heq⟩
          · rw [heq] at hnone
            cases hnone
          · rw [heq] at hnone
            have hnone' : find pat s = none := Option.map_eq_none_iff.1 hnone
            have hrest := ih t hnone' (by omega)
            rcases find_nil_or_cons pat b (s ++ t) with ⟨hyes, -⟩ | ⟨-, heq'⟩
            · refine absurd (List.prefix_of_prefix_length_le hyes
                (List.prefix_append (b :: s) t) ?_) hpre
              rw [List.length_cons]
              omega
            · have hin : pos ≤ (s ++ t).length := by
                rw [List.length_append]
                omega
              rw [List.cons_append, heq', ← hrest, findFrom, findFrom,
                if_pos (by rw [List.length_cons]; omega), if_pos hin, List.drop_succ_cons,
                Option.map_map]
              rfl

/-- The pattern is where it was found. -/
theorem find_prefix {pat : Bytes} : ∀ {s : Bytes} {i : Nat}, find pat s = some i →
    pat <+: s.drop i := by
  intro s
  induction s with
  | nil =>
      intro i h
      rw [find] at h
      split at h
      · next hpre =>
          cases h
          exact List.isPrefixOf_iff_prefix.1 hpre
      · cases h
  | cons b s ih =>
      intro i h
      rcases find_nil_or_cons pat b s with ⟨hpre, heq⟩ | ⟨-, heq⟩
      · rw [heq] at h
        cases h
        exact hpre
      · rw [heq] at h
        obtain ⟨j, hj, rfl⟩ := Option.map_eq_some_iff.1 h
        exact ih hj

/-! ## Lines up to a blank one -/

theorem crlfLinesFrom_crlf (cur rest : Bytes) :
    crlfLinesFrom cur (13 :: 10 :: rest)
      = if cur.isEmpty then [] else cur :: crlfLinesFrom [] rest := by
  rw [crlfLinesFrom]

theorem crlfLinesFrom_cons {b : UInt8} {rest : Bytes} (cur : Bytes)
    (h : ¬ (b = 13 ∧ rest.head? = some 10)) :
    crlfLinesFrom cur (b :: rest) = crlfLinesFrom (cur ++ [b]) rest := by
  rw [crlfLinesFrom]
  rintro rest' rfl rfl
  exact h ⟨rfl, rfl⟩

/-- Nothing behind two line ends in a row is read. -/
theorem crlfLinesFrom_blank (rest : Bytes) : ∀ (n : Nat) (s cur : Bytes), s.length ≤ n →
    crlfLinesFrom cur (s ++ 13 :: 10 :: 13 :: 10 :: rest)
      = crlfLinesFrom cur (s ++ [13, 10, 13, 10]) := by
  intro n
  induction n with
  | zero =>
      intro s cur hs
      obtain rfl := List.length_eq_zero_iff.1 (Nat.le_zero.1 hs)
      rw [List.nil_append, List.nil_append, crlfLinesFrom_crlf, crlfLinesFrom_crlf,
        crlfLinesFrom_crlf, crlfLinesFrom_crlf]
      rfl
  | succ n ih =>
      intro s cur hs
      cases s with
      | nil => exact ih [] cur (Nat.zero_le n)
      | cons b s =>
          rw [List.length_cons] at hs
          by_cases hcrlf : b = 13 ∧ s.head? = some 10
          · obtain ⟨rfl, hhead⟩ := hcrlf
            cases s with
            | nil => cases hhead
            | cons c s =>
                obtain rfl : c = 10 := Option.some.inj hhead
                rw [List.length_cons] at hs
                simp only [List.cons_append]
                rw [crlfLinesFrom_crlf, crlfLinesFrom_crlf, ih s [] (by omega)]
          · have hhead : ∀ rest', (s ++ 13 :: rest').head? = some 10 → s.head? = some 10 := by
              intro rest' h
              cases s with
              | nil => cases h
              | cons c s => exact h
            rw [List.cons_append, List.cons_append,
              crlfLinesFrom_cons cur fun h => hcrlf ⟨h.1, hhead _ h.2⟩,
              crlfLinesFrom_cons cur fun h => hcrlf ⟨h.1, hhead _ h.2⟩]
            exact ih s _ (by omega)

/-! ## Decimal numbers -/

theorem digitChar_digit : ∀ d < 10, isdigit (Nat.digitChar d).toUInt8 = true ∧
    (Nat.digitChar d).toUInt8.toNat - 48 = d := by
  decide

/-- The digits before the last, and the last. -/
theorem ofNat_eq (n : Nat) :
    ofNat n = if n < 10 then [(Nat.digitChar n).toUInt8]
      else ofNat (n / 10) ++ [(Nat.digitChar (n % 10)).toUInt8] := by
  unfold ofNat
  rw [Nat.toDigits_eq_if (by decide)]
  split
  · rfl
  · rw [List.map_append]
    rfl

theorem isdigit_ofNat (n : Nat) : ∀ b ∈ ofNat n, isdigit b = true := by
  induction n using Nat.strongRecOn with
  | ind n ih =>
      intro b hb
      rw [ofNat_eq] at hb
      split at hb
      · next hlt =>
          rw [List.mem_singleton.1 hb]
          exact (digitChar_digit n hlt).1
      · rcases List.mem_append.1 hb with hb | hb
        · exact ih (n / 10) (by omega) b hb
        · rw [List.mem_singleton.1 hb]
          exact (digitChar_digit (n % 10) (by omega)).1

theorem foldl_ofNat (n : Nat) :
    (ofNat n).foldl (fun n b => n * 10 + (b.toNat - 48)) 0 = n := by
  induction n using Nat.strongRecOn with
  | ind n ih =>
      rw [ofNat_eq]
      split
      · next hlt =>
          rw [List.foldl_cons, List.foldl_nil, (digitChar_digit n hlt).2]
          omega
      · rw [List.foldl_append, ih (n / 10) (by omega), List.foldl_cons, List.foldl_nil,
          (digitChar_digit (n % 10) (by omega)).2]
        omega

/-- A number is read back. -/
theorem digits_ofNat (n : Nat) : digits (ofNat n) = n := by
  rw [digits, List.takeWhile_eq_self_iff.2 (isdigit_ofNat n)]
  exact foldl_ofNat n

end Bytes
