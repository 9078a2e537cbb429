import Mathlib.Data.List.TakeWhile
import Hottpd.Core.ConfigNumbers

/-!
# What the readers of a number make of it

Both readers begin with the integer in front: white space, a sign, digits. A
stream refuses one that does not fit an `int`, and `atoi` clamps it to a `long`
and cuts that. What `ConfValueInteger` does afterwards, the multiplication and
the second reading in hexadecimal, is done without a look at the range, and the
other reader does none of it.
-/

namespace Hottpd

open Bytes

/-! ## The integer in front -/

/-- The sign of the integer a string starts with, and what starts with its digits. -/
def front (s : Bytes) : Bool × Bytes := takeSign (s.dropWhile isspace)

/-- The number in front, without its sign. -/
def magnitude (s : Bytes) : Nat := digits (front s).2

/-- With its sign. -/
def withSign (negative : Bool) (n : Nat) : Int := if negative then -n else n

theorem digits_le_append (a b : Bytes) :
    a.foldl (fun n b => n * 10 + (b.toNat - 48)) 0 ≤
      (a ++ b).foldl (fun n b => n * 10 + (b.toNat - 48)) 0 := by
  rw [List.foldl_append]
  generalize a.foldl (fun n b => n * 10 + (b.toNat - 48)) 0 = n
  induction b generalizing n with
  | nil => exact Nat.le_refl n
  | cons c b ih =>
      have hstep : n ≤ n * 10 + (c.toNat - 48) := by omega
      exact hstep.trans (ih _)

theorem digits_take_le (s : Bytes) (m : Nat) : digits (s.take m) ≤ digits s := by
  have hsplit : s.takeWhile isdigit =
      (s.take m).takeWhile isdigit ++ (s.takeWhile isdigit).drop m := by
    rw [← List.take_takeWhile, List.take_append_drop]
  rw [digits, digits, hsplit]
  exact digits_le_append _ _

theorem dropWhile_take (p : UInt8 → Bool) (s : Bytes) (n : Nat) :
    ∃ m, (s.take n).dropWhile p = (s.dropWhile p).take m := by
  induction s generalizing n with
  | nil => exact ⟨0, by simp⟩
  | cons b s ih =>
      cases n with
      | zero => exact ⟨0, by simp⟩
      | succ n =>
          rw [List.take_succ_cons, List.dropWhile_cons, List.dropWhile_cons]
          split
          · exact ih n
          · exact ⟨n + 1, rfl⟩

theorem takeSign_plain {b : UInt8} (hminus : b ≠ 45) (hplus : b ≠ 43) (rest : Bytes) :
    takeSign (b :: rest) = (false, b :: rest) := by
  rw [takeSign]
  · rintro rest' heq
    exact hminus (List.cons.inj heq).1
  · rintro rest' heq
    exact hplus (List.cons.inj heq).1

/-- A string that is cut has the same sign in front, or nothing behind it. -/
theorem front_take (s : Bytes) (n : Nat) :
    (front (s.take n)).2 = [] ∨ ∃ m, front (s.take n) = ((front s).1, (front s).2.take m) := by
  obtain ⟨m, hm⟩ := dropWhile_take isspace s n
  rw [front, front, hm]
  cases s.dropWhile isspace with
  | nil => exact Or.inl (by rw [List.take_nil]; rfl)
  | cons b rest =>
      cases m with
      | zero => exact Or.inl rfl
      | succ m =>
          refine Or.inr ?_
          rw [List.take_succ_cons]
          by_cases hminus : b = 45
          · subst hminus
            exact ⟨m, rfl⟩
          · by_cases hplus : b = 43
            · subst hplus
              exact ⟨m, rfl⟩
            · exact ⟨m + 1, by
                rw [takeSign_plain hminus hplus, takeSign_plain hminus hplus,
                  List.take_succ_cons]⟩

theorem magnitude_take_le (s : Bytes) (n : Nat) : magnitude (s.take n) ≤ magnitude s := by
  rw [magnitude, magnitude]
  rcases front_take s n with hnil | ⟨m, heq⟩
  · rw [hnil]
    exact Nat.zero_le _
  · rw [heq]
    exact digits_take_le _ m

theorem withSign_take (s : Bytes) (n : Nat) :
    withSign (front (s.take n)).1 (magnitude (s.take n)) =
      withSign (front s).1 (magnitude (s.take n)) := by
  rcases front_take s n with hnil | ⟨m, heq⟩
  · have hzero : magnitude (s.take n) = 0 := by
      rw [magnitude, hnil]
      rfl
    rw [hzero]
    cases (front s).1 <;> cases (front (s.take n)).1 <;> rfl
  · rw [heq]

/-! ## Up to a NUL -/

theorem cstr_cons {b : UInt8} (hb : b ≠ 0) (s : Bytes) : cstr (b :: s) = b :: cstr s := by
  rw [cstr, List.takeWhile_cons, if_pos (decide_eq_true hb)]
  rfl

/-- A NUL ends a run of bytes as any other does that is not of its kind. -/
theorem takeWhile_cstr {p : UInt8 → Bool} (hp : p 0 = false) (s : Bytes) :
    (cstr s).takeWhile p = s.takeWhile p := by
  induction s with
  | nil => rfl
  | cons b s ih =>
      by_cases hb : b = 0
      · subst hb
        rw [List.takeWhile_cons, hp]
        rfl
      · rw [cstr_cons hb, List.takeWhile_cons, List.takeWhile_cons, ih]

theorem dropWhile_cstr {p : UInt8 → Bool} (hp : p 0 = false) (s : Bytes) :
    (cstr s).dropWhile p = cstr (s.dropWhile p) := by
  induction s with
  | nil => rfl
  | cons b s ih =>
      by_cases hb : b = 0
      · subst hb
        rw [List.dropWhile_cons, hp]
        rfl
      · rw [cstr_cons hb, List.dropWhile_cons, List.dropWhile_cons, ih]
        split
        · rfl
        · rw [cstr_cons hb]

theorem front_cstr (s : Bytes) : front (cstr s) = ((front s).1, cstr (front s).2) := by
  rw [front, front, dropWhile_cstr (by decide)]
  cases s.dropWhile isspace with
  | nil => rfl
  | cons b rest =>
      by_cases hzero : b = 0
      · subst hzero
        rfl
      · rw [cstr_cons hzero]
        by_cases hminus : b = 45
        · subst hminus
          rfl
        · by_cases hplus : b = 43
          · subst hplus
            rfl
          · rw [takeSign_plain hminus hplus, takeSign_plain hminus hplus, cstr_cons hzero]

theorem magnitude_cstr (s : Bytes) : magnitude (cstr s) = magnitude s := by
  rw [magnitude, magnitude, front_cstr, digits, digits, takeWhile_cstr (by decide)]

theorem strtol_eq (s : Bytes) : strtol s =
    if (front s).1 then max (-(magnitude s : Int)) (-2 ^ 63)
    else min (magnitude s : Int) (2 ^ 63 - 1) := by
  have hfront := front_cstr s
  rw [← magnitude_cstr, magnitude, hfront]
  rw [front] at hfront
  rw [strtol]
  split
  · next rest heq =>
      rw [heq] at hfront
      have hsign := Prod.ext_iff.1 hfront
      rw [← hsign.1, ← hsign.2]
      rfl
  · next rest heq =>
      rw [heq] at hfront
      have hsign := Prod.ext_iff.1 hfront
      rw [← hsign.1, ← hsign.2]
      rfl
  · next rest hminus hplus =>
      have hplain : takeSign ((cstr s).dropWhile isspace)
          = (false, (cstr s).dropWhile isspace) := by
        rw [takeSign]
        · exact hminus
        · exact hplus
      rw [hplain] at hfront
      have hsign := Prod.ext_iff.1 hfront
      rw [← hsign.1, ← hsign.2]
      rfl

theorem strlcpy_eq_cstr (value : Bytes) (n : Nat) :
    strlcpy value n = cstr (value.take (n - 1)) := by
  rw [strlcpy, cstr, cstr, List.take_takeWhile]

/-- What `atoi` makes of a value in a buffer. -/
theorem atoiInt_strlcpy (value : Bytes) (maxbuf : Nat) :
    atoiInt (strlcpy value maxbuf) = atoiInt (value.take (maxbuf - 1)) := by
  rw [strlcpy_eq_cstr, atoiInt, atoiInt, strtol_eq, strtol_eq, front_cstr, magnitude_cstr]

/-! ## Narrowing -/

theorem toInt_range (n : Int) : -2 ^ 31 ≤ toInt n ∧ toInt n < 2 ^ 31 := by
  rw [toInt]
  omega

/-- What is cut to 32 bits is known by its residue. -/
theorem toInt_eq_iff {x y : Int} (hlow : -2 ^ 31 ≤ y) (hhigh : y < 2 ^ 31) :
    toInt x = y ↔ x % 2 ^ 32 = y % 2 ^ 32 := by
  rw [toInt]
  omega

theorem toInt_of_range {n : Int} (hlow : -2 ^ 31 ≤ n) (hhigh : n < 2 ^ 31) : toInt n = n :=
  (toInt_eq_iff hlow hhigh).2 rfl

theorem toInt_emod (n : Int) : toInt n % 2 ^ 32 = n % 2 ^ 32 := by
  rw [toInt]
  omega

/-- The multiplications are one, cut to 32 bits. -/
theorem scale_eq (k : Nat) {n : Int} (hlow : -2 ^ 31 ≤ n) (hhigh : n < 2 ^ 31) :
    scale k n = toInt (n * 1024 ^ k) := by
  induction k generalizing n with
  | zero => rw [scale, pow_zero, mul_one, toInt_of_range hlow hhigh]
  | succ k ih =>
      obtain ⟨hlow', hhigh'⟩ := toInt_range (n * 1024)
      rw [scale, ih hlow' hhigh']
      refine (toInt_eq_iff (toInt_range _).1 (toInt_range _).2).2 ?_
      rw [toInt_emod, Int.mul_emod, toInt_emod, ← Int.mul_emod, mul_assoc, ← pow_succ']

/-! ## Numbers as they are written -/

/-- Decimal digits, with one of the letters behind them or without, or hexadecimal ones. -/
inductive NumberText where
  | decimal (d : Bytes)
  | scaled (d : Bytes) (letter : UInt8)
  | hex (d : Bytes)

namespace NumberText

def text : NumberText → Bytes
  | decimal d => d
  | scaled d letter => d ++ [letter]
  | hex d => str "0x" ++ d

/-- K, M or G, in either case. -/
def IsLetter (letter : UInt8) : Prop := toupper letter ∈ [75, 77, 71]

instance (letter : UInt8) : Decidable (IsLetter letter) :=
  inferInstanceAs (Decidable (toupper letter ∈ [75, 77, 71]))

def Valid : NumberText → Prop
  | decimal d => IsNumeral d
  | scaled d letter => IsNumeral d ∧ IsLetter letter
  | hex d => d ≠ [] ∧ ∀ b ∈ d, isxdigit b = true

/-- The power of 1024 a letter stands for. -/
def exponent (letter : UInt8) : Nat :=
  if toupper letter = 75 then 1 else if toupper letter = 77 then 2 else 3

def number : NumberText → Nat
  | decimal d => digits d
  | scaled d letter => digits d * 1024 ^ exponent letter
  | hex d => xdigits d

/-- The digits are refused, or the number is in the range of an `int`. -/
def Fits : NumberText → Prop
  | decimal _ => True
  | v@(scaled d _) => 2 ^ 31 ≤ digits d ∨ v.number < 2 ^ 31
  | v@(hex _) => v.number < 2 ^ 31

end NumberText

theorem front_digit {b : UInt8} (hb : isdigit b = true) (rest : Bytes) :
    front (b :: rest) = (false, b :: rest) := by
  have hminus : b ≠ 45 := by
    rintro rfl
    exact absurd hb (by decide)
  have hplus : b ≠ 43 := by
    rintro rfl
    exact absurd hb (by decide)
  rw [front, List.dropWhile_cons, isspace_digit hb]
  exact takeSign_plain hminus hplus rest

theorem front_numeral {d : Bytes} (h : IsNumeral d) (rest : Bytes) :
    front (d ++ rest) = (false, d ++ rest) := by
  obtain ⟨b, d, rfl⟩ := List.exists_cons_of_ne_nil h.ne_nil
  exact front_digit (h.all b List.mem_cons_self) (d ++ rest)

theorem takeWhile_numeral {d rest : Bytes} (h : IsNumeral d) (hrest : rest.takeWhile isdigit = []) :
    (d ++ rest).takeWhile isdigit = d := by
  rw [List.takeWhile_append_of_pos h.all, hrest, List.append_nil]

theorem digits_numeral {d rest : Bytes} (h : IsNumeral d) (hrest : rest.takeWhile isdigit = []) :
    digits (d ++ rest) = digits d := by
  rw [digits, digits, takeWhile_numeral h hrest, List.takeWhile_eq_self_iff.2 h.all]

theorem atoiInt_numeral {d rest : Bytes} (h : IsNumeral d) (hrest : rest.takeWhile isdigit = [])
    (hlt : digits d < 2 ^ 31) : atoiInt (d ++ rest) = digits d := by
  rw [atoiInt, strtol_eq, magnitude, front_numeral h, digits_numeral h hrest,
    if_neg Bool.false_ne_true, min_eq_left (by omega), toInt_of_range (by omega) (by omega)]

theorem extractInt_numeral {d rest : Bytes} (h : IsNumeral d)
    (hrest : rest.takeWhile isdigit = []) :
    extractInt (d ++ rest) = if 2 ^ 31 ≤ digits d then none else some (digits d : Int) := by
  have hfront : takeSign ((d ++ rest).dropWhile isspace) = (false, d ++ rest) :=
    front_numeral h rest
  rw [extractInt, hfront]
  dsimp only
  rw [takeWhile_numeral h hrest, digits_numeral h hrest]
  refine if_congr ?_ rfl rfl
  simp only [h.ne_nil, false_or, Bool.false_eq_true, if_false]
  omega

theorem not_hex_prefix {s : Bytes} (h : 120 ∉ s) : ¬str "0x" <+: s := by
  intro hpre
  exact h (hpre.subset (by decide))

theorem denominator_concat (s : Bytes) (b : UInt8) :
    denominator (s ++ [b]) = denominator [b] := by
  rw [denominator, denominator, List.getLast?_concat]
  rfl

theorem denominator_one (b : UInt8) : denominator [b] =
    if toupper b = 75 then 1 else if toupper b = 77 then 2
      else if toupper b = 71 then 3 else 0 := by
  rw [denominator, List.getLast?_singleton, Option.map_some]
  split
  · next heq => rw [if_pos (Option.some.inj heq)]
  · next heq =>
      rw [Option.some.inj heq]
      rfl
  · next heq =>
      rw [Option.some.inj heq]
      rfl
  · next hk hm hg =>
      rw [if_neg fun h => hk (congrArg some h), if_neg fun h => hm (congrArg some h),
        if_neg fun h => hg (congrArg some h)]

theorem denominator_digit {b : UInt8} (hb : isdigit b = true) : denominator [b] = 0 := by
  have hupper : toupper b = b := by
    refine if_neg fun h => ?_
    simp only [isdigit, decide_eq_true_eq] at hb
    have hlow := UInt8.le_iff_toNat_le.1 h.1
    exact absurd (hlow.trans (UInt8.le_iff_toNat_le.1 hb.2)) (by decide)
  rw [denominator_one, hupper, if_neg, if_neg, if_neg] <;> rintro rfl <;>
    exact absurd hb (by decide)

theorem denominator_letter {b : UInt8} (hb : NumberText.IsLetter b) :
    denominator [b] = NumberText.exponent b := by
  rw [denominator_one, NumberText.exponent]
  rw [NumberText.IsLetter, List.mem_cons, List.mem_cons, List.mem_singleton] at hb
  rcases hb with h | h | h <;> rw [h] <;> rfl

theorem isxdigit_plain {b : UInt8} (hb : isxdigit b = true) :
    isspace b = false ∧ b ≠ 45 ∧ b ≠ 43 ∧ b ≠ 0 ∧ toupper b ≠ 88 := by
  have hall : ∀ i : Fin 256, isxdigit (UInt8.ofNat i) = true →
      isspace (UInt8.ofNat i) = false ∧ UInt8.ofNat i ≠ 45 ∧ UInt8.ofNat i ≠ 43 ∧
        UInt8.ofNat i ≠ 0 ∧ toupper (UInt8.ofNat i) ≠ 88 := by decide +kernel
  have hof : UInt8.ofNat b.toNat = b := UInt8.ofNat_toNat
  have h := hall ⟨b.toNat, b.toNat_lt⟩
  simp only [hof] at h
  exact h hb

theorem convertInteger_decimal {d : Bytes} (h : IsNumeral d) :
    convertInteger d = if 2 ^ 31 ≤ digits d then none else some (digits d : Int) := by
  have hhex : ¬str "0x" <+: d := not_hex_prefix fun hmem => absurd (h.all _ hmem) (by decide)
  have hextract := @extractInt_numeral d [] h rfl
  rw [List.append_nil] at hextract
  have hdenominator : denominator d = 0 := by
    obtain ⟨w, b, rfl⟩ := (List.eq_nil_or_concat' d).resolve_left h.ne_nil
    rw [denominator_concat, denominator_digit (h.all b (by simp))]
  rw [convertInteger, hextract, hdenominator]
  by_cases hbig : 2 ^ 31 ≤ digits d
  · rw [if_pos hbig]
    rfl
  · rw [if_neg hbig, Option.bind_some, if_neg hhex]
    rfl

theorem convertInteger_scaled {d : Bytes} {letter : UInt8} (h : IsNumeral d)
    (hletter : NumberText.IsLetter letter) :
    convertInteger (d ++ [letter]) = if 2 ^ 31 ≤ digits d then none
      else some (toInt ((digits d * 1024 ^ NumberText.exponent letter : Nat) : Int)) := by
  have hplain : letter ≠ 120 ∧ isdigit letter = false := by
    rw [NumberText.IsLetter, List.mem_cons, List.mem_cons, List.mem_singleton] at hletter
    refine ⟨by rintro rfl; exact absurd hletter (by decide), ?_⟩
    by_contra hdigit
    have hzero := denominator_digit (Bool.not_eq_false _ ▸ hdigit)
    rw [denominator_one] at hzero
    rcases hletter with heq | heq | heq <;> simp [heq] at hzero
  have hhex : ¬str "0x" <+: d ++ [letter] := not_hex_prefix fun hmem => by
    rcases List.mem_append.1 hmem with hmem | hmem
    · exact absurd (h.all _ hmem) (by decide)
    · exact hplain.1 (List.mem_singleton.1 hmem).symm
  have hrest : [letter].takeWhile isdigit = [] := by rw [List.takeWhile_cons, hplain.2]; rfl
  rw [convertInteger, extractInt_numeral h hrest, denominator_concat, denominator_letter hletter]
  by_cases hbig : 2 ^ 31 ≤ digits d
  · rw [if_pos hbig, if_pos hbig]
    rfl
  · rw [if_neg hbig, if_neg hbig, Option.bind_some, if_neg hhex,
      scale_eq _ (by omega) (by omega), Int.natCast_mul, Int.natCast_pow]
    rfl

theorem strtolHex_digits {d : Bytes} (hne : d ≠ []) (hd : ∀ b ∈ d, isxdigit b = true) :
    strtolHex d = some (min (xdigits d : Int) (2 ^ 63 - 1)) := by
  have hnul : 0 ∉ d := fun hmem => (isxdigit_plain (hd 0 hmem)).2.2.2.1 rfl
  have hkeep : dropHexPrefix d = d := by
    unfold dropHexPrefix
    split
    · next x b rest =>
        have hx : toupper x ≠ 88 := (isxdigit_plain (hd x (by simp))).2.2.2.2
        rw [if_neg fun hboth => hx hboth.1]
    · rfl
  have hall : d.takeWhile isxdigit = d := List.takeWhile_eq_self_iff.2 hd
  have hsign : takeSign (d.dropWhile isspace) = (false, d) := by
    obtain ⟨b, rest, rfl⟩ := List.exists_cons_of_ne_nil hne
    obtain ⟨hspace, hminus, hplus, -⟩ := isxdigit_plain (hd b List.mem_cons_self)
    rw [List.dropWhile_cons, hspace]
    exact takeSign_plain hminus hplus rest
  rw [strtolHex, cstr_eq_self hnul, hsign]
  dsimp only
  rw [hkeep, hall, if_neg hne, if_neg Bool.false_ne_true]

theorem convertInteger_hex {d : Bytes} (hne : d ≠ []) (hd : ∀ b ∈ d, isxdigit b = true) :
    convertInteger (str "0x" ++ d) = some (toInt (min (xdigits d : Int) (2 ^ 63 - 1))) := by
  have hzero : IsNumeral (str "0") := by decide +kernel
  have hextract : extractInt (str "0x" ++ d) = some 0 :=
    @extractInt_numeral (str "0") (120 :: d) hzero rfl
  rw [convertInteger, hextract, Option.bind_some, if_pos (List.prefix_append _ _)]
  exact congrArg (Option.map toInt) (strtolHex_digits hne hd)

namespace NumberText

/-- What is true only of the number itself: an accepted value is it, and no product or cast on
the way went out of range. -/
def Exact (v : NumberText) (result : Option Int) : Prop :=
  ∀ n, result = some n → n = v.number ∧ v.number < 2 ^ 31

theorem exact_some {v : NumberText} {n : Int} (hn : n = v.number ↔ v.number < 2 ^ 31) :
    v.Exact (some n) ↔ v.number < 2 ^ 31 := by
  constructor
  · exact fun h => (h n rfl).2
  · rintro hlt m heq
    cases heq
    exact ⟨hn.2 hlt, hlt⟩

theorem toInt_cast_iff (n : Nat) : toInt (n : Int) = n ↔ n < 2 ^ 31 := by
  constructor
  · intro h
    have hrange := (toInt_range (n : Int)).2
    omega
  · intro h
    exact toInt_of_range (by omega) (by omega)

theorem exact_convertInteger {v : NumberText} (hv : v.Valid) :
    v.Exact (convertInteger v.text) ↔ v.Fits := by
  have hnone : v.Exact none := fun n h => nomatch h
  cases v with
  | decimal d =>
      rw [text, convertInteger_decimal hv, Fits, iff_true]
      split
      · exact hnone
      · exact fun n h => ⟨(Option.some.inj h).symm, by rw [number]; omega⟩
  | scaled d letter =>
      rw [text, convertInteger_scaled hv.1 hv.2, Fits]
      by_cases hbig : 2 ^ 31 ≤ digits d
      · rw [if_pos hbig]
        exact iff_of_true hnone (Or.inl hbig)
      · rw [if_neg hbig, or_iff_right hbig]
        exact exact_some (toInt_cast_iff _)
  | hex d =>
      rw [text, convertInteger_hex hv.1 hv.2, Fits]
      refine exact_some ?_
      rw [number]
      by_cases hlong : xdigits d < 2 ^ 63
      · rw [min_eq_left (by omega)]
        exact toInt_cast_iff _
      · have hcut := toInt_range (min (xdigits d : Int) (2 ^ 63 - 1))
        omega

end NumberText

/-- A number in the configuration is read as it is written, or refused, exactly if it is in
range, or its digits alone are not. -/
theorem confValueInteger_exact (target : ConfigDataHash) (tag var default_value : Bytes)
    (index : Int) (v : NumberText) (hv : v.Valid)
    (hfound : (confValue target tag var default_value index false).1 = some v.text) :
    v.Exact (confValueInteger target tag var default_value index).1 ↔ v.Fits := by
  have hconverted : (confValueInteger target tag var default_value index).1 =
      (confValue target tag var default_value index false).1.bind convertInteger := rfl
  rw [hconverted, hfound]
  exact NumberText.exact_convertInteger hv

def limitConf (limit : String) : ConfigDataHash :=
  MultiMap.empty.insert (str "performance") [(str "max-post-body", str limit)]

theorem oneMegabyte_exact : (NumberText.scaled (str "1") 77).Exact
    (confValueInteger (limitConf "1M") (str "performance") (str "max-post-body") [] 0).1 :=
  (confValueInteger_exact _ _ _ _ _ (.scaled (str "1") 77)
    ⟨by decide +kernel, by decide +kernel⟩ (by decide +kernel)).2 (Or.inr (by decide +kernel))

/-- Two gigabytes are a negative number, and four are none. -/
theorem gigabytes_wrap :
    (confValueInteger (limitConf "2G") (str "performance") (str "max-post-body") [] 0).1 =
        some (-2147483648) ∧
      (confValueInteger (limitConf "4194304k") (str "performance") (str "max-post-body") [] 0).1 =
        some 0 ∧
      ¬(NumberText.scaled (str "2") 71).Exact
        (confValueInteger (limitConf "2G") (str "performance") (str "max-post-body") [] 0).1 := by
  have hwrap : (confValueInteger (limitConf "2G") (str "performance") (str "max-post-body") [] 0).1
      = some (-2147483648) := by decide +kernel
  refine ⟨hwrap, by decide +kernel, fun h => ?_⟩
  exact absurd (h _ hwrap).1 (by decide +kernel)

end Hottpd
