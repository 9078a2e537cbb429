import Hottpd.Core.Duration
import Mathlib.Data.List.TakeWhile
import Mathlib.Tactic.Ring

/-!
# What a duration adds up to

Scanned to the beginning of a group, a duration has the sum of what is behind the group
in `total`, and the number of the group in `subtotal`. As the arithmetic is that of the
integers up to multiples of `2 ^ 64`, that is so whatever is out of range on the way.
-/

namespace Hottpd

open Bytes

/-! ## Arithmetic of `long` -/

theorem toLong_emod (n : Int) : toLong n % 2 ^ 64 = n % 2 ^ 64 := by
  rw [toLong]
  omega

theorem toLong_congr {m n : Int} (h : m % 2 ^ 64 = n % 2 ^ 64) : toLong m = toLong n := by
  rw [toLong, toLong]
  omega

theorem toLong_of_range {n : Int} (hlow : -2 ^ 63 ≤ n) (hhigh : n < 2 ^ 63) : toLong n = n := by
  rw [toLong]
  omega

theorem toLong_mul (a b : Int) : toLong (toLong a * b) = toLong (a * b) := by
  refine toLong_congr ?_
  rw [Int.mul_emod, toLong_emod, ← Int.mul_emod]

theorem toLong_add_mul (a b c : Int) : toLong (toLong a + b * toLong c) = toLong (a + b * c) := by
  refine toLong_congr ?_
  rw [Int.add_emod, toLong_emod, Int.mul_emod b, toLong_emod, ← Int.mul_emod, ← Int.add_emod]

theorem toLong_toLong (a : Int) : toLong (toLong a) = toLong a := toLong_congr (toLong_emod a)

/-! ## Digits from the end -/

theorem foldl_digits (n : Nat) (d : Bytes) :
    d.foldl (fun n b => n * 10 + (b.toNat - 48)) n =
      n * 10 ^ d.length + d.foldl (fun n b => n * 10 + (b.toNat - 48)) 0 := by
  induction d generalizing n with
  | nil => simp
  | cons b d ih =>
      rw [List.foldl_cons, List.foldl_cons, ih, ih (0 * 10 + (b.toNat - 48)), List.length_cons]
      ring

theorem digits_cons {b : UInt8} {d : Bytes} (hd : ∀ c ∈ b :: d, isdigit c = true) :
    digits (b :: d) = (b.toNat - 48) * 10 ^ d.length + digits d := by
  have hrest : ∀ c ∈ d, isdigit c = true := fun c hc => hd c (List.mem_cons_of_mem b hc)
  rw [digits, digits, List.takeWhile_eq_self_iff.2 hd, List.takeWhile_eq_self_iff.2 hrest,
    List.foldl_cons, foldl_digits, Nat.zero_mul, Nat.zero_add]

namespace DurationScan

/-- The scan up to the beginning of a string. -/
def scan (s : DurationScan) (text : Bytes) : DurationScan := text.foldr (fun c s => s.step c) s

theorem scan_append (s : DurationScan) (a b : Bytes) : s.scan (a ++ b) = (s.scan b).scan a :=
  List.foldr_append

theorem duration_eq (str : Bytes) : duration str = if (new.scan str).multiplier ≠ 0 then
    toLong ((new.scan str).total + (new.scan str).product)
      else toLong ((new.scan str).total + (new.scan str).subtotal) := by
  rw [duration, List.foldl_reverse]
  rfl

theorem scan_digits {s : DurationScan} (htimes : s.times = 1) (hsubtotal : s.subtotal = 0)
    {d : Bytes} (hd : ∀ c ∈ d, isdigit c = true) : s.scan d = { s with
      subtotal := toLong (digits d)
      times := toLong (10 ^ d.length) } := by
  obtain ⟨multiplier, total, times, subtotal⟩ := s
  subst htimes hsubtotal
  induction d with
  | nil => rfl
  | cons b d ih =>
      have hrest : ∀ c ∈ d, isdigit c = true := fun c hc => hd c (List.mem_cons_of_mem b hc)
      change ((⟨multiplier, total, 1, 0⟩ : DurationScan).scan d).step b = _
      have hsubtotal : ((digits (b :: d) : Nat) : Int)
          = digits d + ((b.toNat - 48 : Nat) : Int) * 10 ^ d.length := by
        rw [digits_cons hd, Int.add_comm, Int.natCast_add, Int.natCast_mul, Int.natCast_pow]
        rfl
      rw [ih hrest, step, if_pos (hd b List.mem_cons_self), hsubtotal, List.length_cons,
        toLong_add_mul, toLong_mul, pow_succ]

/-! ## Groups -/

/-- What the scan stands for when it is at the beginning of a group. -/
def sum (s : DurationScan) : Int := s.total + s.product

end DurationScan

/-- How many seconds a letter stands for. -/
def unitSeconds (c : UInt8) : Nat :=
  if tolower c = 121 then 31536000
  else if tolower c = 119 then 604800
  else if tolower c = 100 then 86400
  else if tolower c = 104 then 3600
  else if tolower c = 109 then 60
  else if tolower c = 115 then 1
  else 0

structure DurationGroup where
  numeral : Bytes
  unit : UInt8

namespace DurationGroup

/-- A decimal numeral and one of the letters. -/
def Valid (g : DurationGroup) : Prop := IsNumeral g.numeral ∧ unitSeconds g.unit ≠ 0

def text (g : DurationGroup) : Bytes := g.numeral ++ [g.unit]

def seconds (g : DurationGroup) : Nat := digits g.numeral * unitSeconds g.unit

end DurationGroup

/-- The text of groups with some digits behind them. -/
def durationText (groups : List DurationGroup) (last : Bytes) : Bytes :=
  groups.flatMap DurationGroup.text ++ last

def durationSeconds (groups : List DurationGroup) (last : Bytes) : Nat :=
  (groups.map DurationGroup.seconds).sum + digits last

theorem unit_table {c : UInt8} (h : unitSeconds c ≠ 0) :
    durationMulti.getD c.toNat 0 = unitSeconds c ∧ isdigit c = false ∧ c ≠ 0 := by
  have hall : ∀ i : Fin 256, unitSeconds (UInt8.ofNat i) ≠ 0 →
      durationMulti.getD (UInt8.ofNat i).toNat 0 = unitSeconds (UInt8.ofNat i) ∧
        isdigit (UInt8.ofNat i) = false ∧ UInt8.ofNat i ≠ 0 := by decide +kernel
  have hof : UInt8.ofNat c.toNat = c := UInt8.ofNat_toNat
  have hc := hall ⟨c.toNat, c.toNat_lt⟩
  simp only [hof] at hc
  exact hc h

namespace DurationScan

/-- A letter starts a new number, and all before is in the total. -/
theorem step_unit {c : UInt8} (h : isdigit c = false) {s : DurationScan}
    (htotal : toLong s.total = s.total) :
    s.step c = ⟨c, toLong s.sum, 1, 0⟩ := by
  rw [step, if_neg (by simp [h]), sum]
  by_cases hzero : s.subtotal = 0
  · rw [if_neg (not_not.2 hzero), product, hzero, Int.zero_mul, Int.add_zero, htotal]
  · rw [if_pos hzero]

/-- Behind a group: the number of the group is the subtotal, and the rest the total. -/
theorem scan_group {g : DurationGroup} (h : g.Valid) {s : DurationScan}
    (htotal : toLong s.total = s.total) : s.scan g.text =
      ⟨g.unit, toLong s.sum, toLong (10 ^ g.numeral.length), toLong (digits g.numeral)⟩ := by
  have hunit : s.scan [g.unit] = ⟨g.unit, toLong s.sum, 1, 0⟩ :=
    step_unit (unit_table h.2).2.1 htotal
  rw [DurationGroup.text, scan_append, hunit, scan_digits rfl rfl h.1.all]

/-- The invariant of the scan: what it stands for is the sum of what it has seen, up to a
multiple of `2 ^ 64`. -/
theorem scan_text {groups : List DurationGroup} {last : Bytes} (hgroups : ∀ g ∈ groups, g.Valid)
    (hlast : ∀ c ∈ last, isdigit c = true) :
    toLong (new.scan (durationText groups last)).sum = toLong (durationSeconds groups last) ∧
      toLong (new.scan (durationText groups last)).total
        = (new.scan (durationText groups last)).total := by
  induction groups with
  | nil =>
      have hscan : new.scan (durationText [] last) = _ := scan_digits rfl rfl hlast
      have hseconds : durationSeconds [] last = digits last := Nat.zero_add _
      rw [hscan, hseconds, sum, product]
      refine ⟨?_, rfl⟩
      change toLong (0 + toLong (digits last) * 1) = _
      rw [Int.zero_add, Int.mul_one, toLong_toLong]
  | cons g groups ih =>
      have hg := hgroups g List.mem_cons_self
      obtain ⟨hsum, htotal⟩ := ih fun g hg => hgroups g (List.mem_cons_of_mem _ hg)
      have htext : durationText (g :: groups) last = g.text ++ durationText groups last := by
        rw [durationText, List.flatMap_cons, List.append_assoc]
        rfl
      have hseconds : durationSeconds (g :: groups) last
          = g.seconds + durationSeconds groups last := Nat.add_assoc _ _ _
      rw [htext, scan_append, scan_group hg htotal, hsum, hseconds, sum, product]
      refine ⟨?_, toLong_toLong _⟩
      dsimp only
      rw [(unit_table hg.2).1, Int.mul_comm, toLong_add_mul, DurationGroup.seconds,
        Int.natCast_add, Int.natCast_mul, Int.add_comm, Int.mul_comm]

end DurationScan

/-- A duration is the sum of its groups and of the seconds behind them. -/
theorem duration_sum {groups : List DurationGroup} {last : Bytes}
    (hgroups : ∀ g ∈ groups, g.Valid) (hlast : ∀ c ∈ last, isdigit c = true)
    (hfits : durationSeconds groups last < 2 ^ 63) :
    duration (durationText groups last) = durationSeconds groups last := by
  have hrange : toLong (durationSeconds groups last) = durationSeconds groups last :=
    toLong_of_range (by omega) (by omega)
  rw [← hrange, ← (DurationScan.scan_text hgroups hlast).1, DurationScan.duration_eq]
  split
  · rfl
  · next hzero =>
      rw [not_not] at hzero
      rw [DurationScan.sum, DurationScan.product, hzero]
      change toLong _ = toLong (_ + _ * 1)
      rw [Int.mul_one]

def mixedGroups : List DurationGroup :=
  [⟨str "1", 104⟩, ⟨str "2", 68⟩, ⟨str "30", 109⟩, ⟨str "1", 104⟩]

theorem duration_sum_mixed : duration (str "1h2D30m1h15") = 181815 := by
  have hvalid : ∀ g ∈ mixedGroups, g.Valid := by
    simp only [mixedGroups, List.forall_mem_cons, DurationGroup.Valid]
    decide +kernel
  have htext : durationText mixedGroups (str "15") = str "1h2D30m1h15" := by decide +kernel
  have hseconds : durationSeconds mixedGroups (str "15") = 181815 := by decide +kernel
  have hsum := @duration_sum mixedGroups (str "15") hvalid (by decide +kernel)
    (hseconds ▸ by decide)
  rw [htext, hseconds] at hsum
  exact hsum

end Hottpd
