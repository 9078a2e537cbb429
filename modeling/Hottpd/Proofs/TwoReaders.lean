import Mathlib.Data.Nat.ModEq
import Mathlib.Data.Nat.Prime.Basic
import Hottpd.Proofs.ConfigNumbers

/-!
# Two readers of one value

`Read` asks a `ValueItem` where everybody else asks `ConfValueInteger` and
`ConfValueBool`. The item is the value cut to a buffer, and what it knows of a
number are the decimal digits in front: no letter behind them, no hexadecimal.
For a boolean it takes any number but zero.
-/

namespace Hottpd

open Bytes

/-- The stream reads the integer in front, if it is that of an `int`. -/
theorem extractInt_eq_some {s : Bytes} {n : Int} (h : extractInt s = some n) :
    n = withSign (front s).1 (magnitude s) ∧ -2 ^ 31 ≤ n ∧ n < 2 ^ 31 := by
  have heq : extractInt s = if (front s).2.takeWhile isdigit = [] ∨
      withSign (front s).1 (magnitude s) < -2 ^ 31 ∨ 2 ^ 31 ≤ withSign (front s).1 (magnitude s)
      then none else some (withSign (front s).1 (magnitude s)) := rfl
  rw [heq] at h
  split at h
  · cases h
  · next hrange =>
      cases h
      refine ⟨rfl, ?_⟩
      omega

theorem atoiInt_eq {s : Bytes} (hrange : -2 ^ 31 ≤ withSign (front s).1 (magnitude s) ∧
    withSign (front s).1 (magnitude s) < 2 ^ 31) :
    atoiInt s = withSign (front s).1 (magnitude s) := by
  rw [atoiInt, strtol_eq]
  cases hsign : (front s).1 <;>
    simp only [hsign, withSign, if_true, if_false, Bool.false_eq_true] at hrange ⊢ <;>
    rw [toInt] <;> omega

/-- What `atoi` finds in the buffer, where the stream finds an `int`. -/
theorem atoiInt_item {value : Bytes} {n : Int} (h : extractInt value = some n) (maxbuf : Nat) :
    atoiInt (strlcpy value maxbuf) =
      withSign (front value).1 (magnitude (value.take (maxbuf - 1))) := by
  obtain ⟨rfl, hlow, hhigh⟩ := extractInt_eq_some h
  have hle := magnitude_take_le value (maxbuf - 1)
  rw [atoiInt_strlcpy, atoiInt_eq, withSign_take]
  rw [withSign_take]
  cases hsign : (front value).1 <;>
    simp only [hsign, withSign, if_true, if_false, Bool.false_eq_true] at hlow hhigh ⊢ <;> omega

theorem getInteger_item (value : Bytes) (maxbuf : Nat) :
    (ValueItem.mk (strlcpy value maxbuf)).getInteger = atoiInt (strlcpy value maxbuf) := by
  rw [ValueItem.getInteger]
  split
  · next hnil =>
      dsimp only at hnil ⊢
      rw [hnil]
      rfl
  · rfl

/-! ## Integers -/

/-- Where the two readers have the same number to give. For a value that fits the buffer it is
one without a letter, or zero. -/
def SameInteger (maxbuf : Nat) (value : Bytes) : Prop :=
  extractInt value = none ∨
    if str "0x" <+: value then ∀ n, strtolHex (value.drop 2) = some n → n % 2 ^ 32 = 0
    else if value.length < maxbuf then denominator value = 0 ∨ magnitude value = 0
    else magnitude value * 1024 ^ denominator value % 2 ^ 32 =
      magnitude (value.take (maxbuf - 1)) % 2 ^ 32

/-- Of the digits of zero, any are those of zero. -/
theorem magnitude_hex {value : Bytes} (h : str "0x" <+: value) (n : Nat) :
    magnitude (value.take n) = 0 := by
  obtain ⟨rest, rfl⟩ := h
  have hzero : magnitude (str "0x" ++ rest) = 0 := rfl
  exact Nat.le_zero.1 (hzero ▸ magnitude_take_le _ n)

theorem toInt_withSign (negative : Bool) (m n k : Nat)
    (hrange : -2 ^ 31 ≤ withSign negative n ∧ withSign negative n < 2 ^ 31) :
    toInt (withSign negative m * 1024 ^ k) = withSign negative n ↔
      m * 1024 ^ k % 2 ^ 32 = n % 2 ^ 32 := by
  rw [toInt_eq_iff hrange.1 hrange.2]
  have hcast : ((m : Int) * 1024 ^ k) = ((m * 1024 ^ k : Nat) : Int) := by
    rw [Int.natCast_mul, Int.natCast_pow]
    rfl
  cases negative
  · simp only [withSign, Bool.false_eq_true, if_false, hcast]
    omega
  · simp only [withSign, if_true, Int.neg_mul, hcast]
    omega

/-- The letters multiply by an even number, so the low bits do not come back. -/
theorem scaled_mod_iff {m : Nat} (hm : m ≤ 2 ^ 31) (k : Nat) :
    m * 1024 ^ k % 2 ^ 32 = m % 2 ^ 32 ↔ k = 0 ∨ m = 0 := by
  constructor
  · intro h
    cases k with
    | zero => exact Or.inl rfl
    | succ k =>
        have hpos : 1 ≤ 1024 ^ (k + 1) := Nat.one_le_pow _ _ (by decide)
        have hdvd : 2 ^ 32 ∣ m * (1024 ^ (k + 1) - 1) := by
          rw [Nat.mul_sub, Nat.mul_one]
          exact (Nat.modEq_iff_dvd' (Nat.le_mul_of_pos_right m hpos)).1 h.symm
        have hodd : Odd (1024 ^ (k + 1) - 1) := by
          rw [Nat.odd_iff]
          rw [Nat.pow_succ] at hpos ⊢
          omega
        have hcoprime : Nat.Coprime (2 ^ 32) (1024 ^ (k + 1) - 1) :=
          Nat.Coprime.pow_left 32 (Nat.coprime_two_left.2 hodd)
        refine Or.inr (Nat.eq_zero_of_not_pos fun hmpos => ?_)
        have hle := Nat.le_of_dvd hmpos (hcoprime.dvd_of_dvd_mul_right hdvd)
        omega
  · rintro (rfl | rfl)
    · rw [Nat.pow_zero, Nat.mul_one]
    · rw [Nat.zero_mul]

theorem sameInteger_iff (maxbuf : Nat) (value : Bytes) :
    (∀ n, convertInteger value = some n →
        (ValueItem.mk (strlcpy value maxbuf)).getInteger = n) ↔ SameInteger maxbuf value := by
  rw [getInteger_item, SameInteger, convertInteger]
  cases hextract : extractInt value with
  | none => simp
  | some n =>
      obtain ⟨hn, hlow, hhigh⟩ := extractInt_eq_some hextract
      rw [or_iff_right (by simp), atoiInt_item hextract, Option.bind_some]
      by_cases hhex : str "0x" <+: value
      · rw [if_pos hhex, if_pos hhex, magnitude_hex hhex]
        have hzero : withSign (front value).1 0 = 0 := by cases (front value).1 <;> rfl
        rw [hzero]
        cases strtolHex (value.drop 2) with
        | none => simp
        | some h =>
            simp only [Option.map_some, Option.some.injEq, forall_eq']
            rw [eq_comm, toInt_eq_iff (by decide) (by decide)]
            rfl
      · rw [if_neg hhex, if_neg hhex]
        simp only [Option.some.injEq, forall_eq']
        have hle := magnitude_take_le value (maxbuf - 1)
        have hrange : -2 ^ 31 ≤ withSign (front value).1 (magnitude (value.take (maxbuf - 1))) ∧
            withSign (front value).1 (magnitude (value.take (maxbuf - 1))) < 2 ^ 31 := by
          cases hsign : (front value).1 <;>
            simp only [hn, hsign, withSign, if_true, if_false, Bool.false_eq_true]
              at hlow hhigh ⊢ <;> omega
        rw [scale_eq _ hlow hhigh, hn, eq_comm, toInt_withSign _ _ _ _ hrange]
        split
        · next hshort =>
            have hsmall : magnitude value ≤ 2 ^ 31 := by
              cases hsign : (front value).1 <;>
                simp only [hn, hsign, withSign, if_true, if_false, Bool.false_eq_true]
                  at hlow hhigh <;> omega
            rw [List.take_of_length_le (by omega)]
            exact scaled_mod_iff hsmall _
        · rfl

/-! ## Booleans -/

/-- The values that `ConfValueBool` takes for true. -/
def trueValues : List Bytes := [str "yes", str "true", str "1"]

/-- Where the two readers have the same boolean to give: nothing in front of any other value is a
number but zero. -/
def SameBool (maxbuf : Nat) (value : Bytes) : Prop :=
  value ∈ trueValues ∧ value.length < maxbuf ∨
    value ∉ trueValues ∧ atoiInt (value.take (maxbuf - 1)) = 0 ∧
      strlcpy value maxbuf ≠ str "yes" ∧ strlcpy value maxbuf ≠ str "true"

theorem mem_trueValues {value : Bytes} : value ∈ trueValues ↔
    some value = some (str "yes") ∨ some value = some (str "true") ∨
      some value = some (str "1") := by
  rw [trueValues, List.mem_cons, List.mem_cons, List.mem_singleton]
  simp only [Option.some.injEq]

/-- A buffer that is too small has a part of a true value that is none. -/
theorem getBool_true {value : Bytes} (h : value ∈ trueValues) (maxbuf : Nat) :
    (ValueItem.mk (strlcpy value maxbuf)).getBool = true ↔ value.length < maxbuf := by
  have hsmall : ∀ n < 5, ∀ v ∈ trueValues,
      (ValueItem.mk (strlcpy v n)).getBool = true ↔ v.length < n := by decide +kernel
  have hwhole : ∀ v ∈ trueValues, 0 ∉ v ∧ v.length < 5 ∧ (ValueItem.mk v).getBool = true := by
    decide +kernel
  by_cases hbig : maxbuf < 5
  · exact hsmall maxbuf hbig value h
  · obtain ⟨hnul, hlen, htrue⟩ := hwhole value h
    rw [strlcpy_eq_cstr, List.take_of_length_le (by omega), cstr_eq_self hnul]
    exact iff_of_true htrue (by omega)

theorem sameBool_iff (maxbuf : Nat) (value : Bytes) :
    (ValueItem.mk (strlcpy value maxbuf)).getBool = decide (value ∈ trueValues) ↔
      SameBool maxbuf value := by
  rw [SameBool]
  by_cases h : value ∈ trueValues
  · rw [decide_eq_true h, getBool_true h maxbuf, and_iff_right h,
      or_iff_left fun hother => hother.1 h]
  · rw [decide_eq_false h, ValueItem.getBool, decide_eq_false_iff_not, getInteger_item,
      atoiInt_strlcpy, not_or, not_or, not_not, and_iff_right h,
      or_iff_right fun htrue => h htrue.1]

/-! ## Both -/

/-- The readers of a value of the file, by way of the buffer and without. -/
structure ReadersAgree (maxbuf : Nat) (target : ConfigDataHash) (tag var default_value : Bytes) :
    Prop where
  integer : ∀ n, (confValueInteger target tag var default_value 0).1 = some n →
    (readItem maxbuf target tag var default_value false).1.getInteger = n
  boolean : (readItem maxbuf target tag var default_value false).1.getBool =
    (confValueBool target tag var default_value 0).1

/-- They agree on a value exactly if it is the same integer to both, and the same boolean. -/
theorem readersAgree_iff (maxbuf : Nat) (target : ConfigDataHash) (tag var default_value : Bytes)
    (value : Bytes) (hfound : (confValue target tag var default_value 0 false).1 = some value) :
    ReadersAgree maxbuf target tag var default_value ↔
      SameInteger maxbuf value ∧ SameBool maxbuf value := by
  have hinteger : (confValueInteger target tag var default_value 0).1 = convertInteger value := by
    have hbind : (confValueInteger target tag var default_value 0).1 =
        (confValue target tag var default_value 0 false).1.bind convertInteger := rfl
    rw [hbind, hfound, Option.bind_some]
  have hitem : (readItem maxbuf target tag var default_value false).1 =
      ⟨strlcpy value maxbuf⟩ := by
    have hcopy : (readItem maxbuf target tag var default_value false).1 =
        ⟨strlcpy ((confValue target tag var default_value 0 false).1.getD []) maxbuf⟩ := rfl
    rw [hcopy, hfound, Option.getD_some]
  have hbool : (confValueBool target tag var default_value 0).1 = decide (value ∈ trueValues) := by
    have hcompare : (confValueBool target tag var default_value 0).1 =
        decide ((confValue target tag var default_value 0 false).1 = some (str "yes") ∨
          (confValue target tag var default_value 0 false).1 = some (str "true") ∨
          (confValue target tag var default_value 0 false).1 = some (str "1")) := rfl
    rw [hcompare, decide_eq_decide, hfound, mem_trueValues]
  rw [← sameInteger_iff, ← sameBool_iff]
  constructor
  · intro h
    have hi := h.integer
    have hb := h.boolean
    rw [hinteger, hitem] at hi
    rw [hitem, hbool] at hb
    exact ⟨hi, hb⟩
  · rintro ⟨hi, hb⟩
    refine ⟨?_, ?_⟩
    · rw [hinteger, hitem]
      exact hi
    · rw [hitem, hbool]
      exact hb

theorem readersAgree_one :
    ReadersAgree 514 (limitConf "1") (str "performance") (str "max-post-body") (str "1024") :=
  (readersAgree_iff 514 _ _ _ _ (str "1") (by decide +kernel)).2
    ⟨Or.inr (by
      rw [if_neg (by decide +kernel), if_pos (by decide +kernel)]
      exact Or.inl (by decide +kernel)), Or.inl ⟨by decide +kernel, by decide +kernel⟩⟩

/-- Ten kilobytes are ten to the one reader, and two is true to it. -/
theorem readers_differ :
    (confValueInteger (limitConf "10K") (str "performance") (str "max-post-body") [] 0).1 =
        some 10240 ∧
      (readItem 514 (limitConf "10K") (str "performance") (str "max-post-body") [] false).1.getInteger
        = 10 ∧
      (confValueBool (limitConf "2") (str "performance") (str "max-post-body") [] 0).1 = false ∧
      (readItem 514 (limitConf "2") (str "performance") (str "max-post-body") [] false).1.getBool
        = true :=
  ⟨by decide +kernel, by decide +kernel, by decide +kernel, by decide +kernel⟩

end Hottpd
