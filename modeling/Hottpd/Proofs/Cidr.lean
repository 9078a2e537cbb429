import Hottpd.Core.Cidr
import Hottpd.Core.Uri

/-!
# How many bits a mask compares

The entries of the table have as many ones in front as their index says, so what
`MatchCIDRBits` compares are the bits in front. How many those are is up to `atoi`,
which makes a number of every text: what has no digits in front is no bits at all.
-/

namespace Hottpd

open Bytes

/-! ## Bits -/

/-- The `k`-th bit, the highest of the first byte being the first. -/
def bitAt (a : Bytes) (k : Nat) : Bool := (a[k / 8]?.getD 0).toBitVec.getMsbD (k % 8)

/-- The first `n` bits are the same. -/
def SameBits (a b : Bytes) (n : Nat) : Prop := ∀ k < n, bitAt a k = bitAt b k

theorem SameBits.mono {a b : Bytes} {m n : Nat} (h : SameBits a b n) (hm : m ≤ n) :
    SameBits a b m := fun k hk => h k (hk.trans_le hm)

theorem invertedBits_getMsbD : ∀ m : Fin 8, ∀ j : Fin 8,
    (invertedBits[m.val]?.getD 0).toBitVec.getMsbD j.val = decide (j.val < m.val) := by
  decide

/-- Masked bytes agree just in the bits that the mask has. -/
theorem and_inverted_eq_iff {m : Nat} (hm : m < 8) {bits : UInt8}
    (hbits : invertedBits[m]? = some bits) (a b : UInt8) :
    a &&& bits = b &&& bits ↔ ∀ j < m, a.toBitVec.getMsbD j = b.toBitVec.getMsbD j := by
  have hones : ∀ j < 8, bits.toBitVec.getMsbD j = decide (j < m) := by
    intro j hj
    have htable := invertedBits_getMsbD ⟨m, hm⟩ ⟨j, hj⟩
    rwa [hbits] at htable
  rw [← UInt8.toBitVec_inj, UInt8.toBitVec_and, UInt8.toBitVec_and]
  constructor
  · intro h j hj
    have hbit := congrArg (fun v => BitVec.getMsbD v j) h
    simpa [BitVec.getMsbD_and, hones j (hj.trans hm), hj] using hbit
  · intro h
    refine BitVec.eq_of_getMsbD_eq fun j hj => ?_
    rw [BitVec.getMsbD_and, BitVec.getMsbD_and, hones j hj]
    by_cases hjm : j < m
    · rw [h j hjm]
    · simp [hjm]

theorem bitAt_byte (a : Bytes) (i : Nat) {j : Nat} (hj : j < 8) :
    bitAt a (8 * i + j) = (a[i]?.getD 0).toBitVec.getMsbD j := by
  have hdiv : (8 * i + j) / 8 = i := by omega
  have hmod : (8 * i + j) % 8 = j := by omega
  rw [bitAt, hdiv, hmod]

/-- Whole bytes agree just in all of their bits. -/
theorem take_eq_iff {a b : Bytes} {n : Nat} (ha : n ≤ a.length) (hb : n ≤ b.length) :
    a.take n = b.take n ↔ SameBits a b (8 * n) := by
  constructor
  · intro h k hk
    have hbyte : a[k / 8]? = b[k / 8]? := by
      have hlt : k / 8 < n := by omega
      rw [← List.getElem?_take_of_lt hlt, h, List.getElem?_take_of_lt hlt]
    rw [bitAt, bitAt, hbyte]
  · intro h
    refine List.ext_getElem? fun i => ?_
    by_cases hi : i < n
    · rw [List.getElem?_take_of_lt hi, List.getElem?_take_of_lt hi,
        List.getElem?_eq_getElem (hi.trans_le ha), List.getElem?_eq_getElem (hi.trans_le hb)]
      refine congrArg some (UInt8.toBitVec_inj.1 (BitVec.eq_of_getMsbD_eq fun j hj => ?_))
      have hbit := h (8 * i + j) (by omega)
      rw [bitAt_byte a i hj, bitAt_byte b i hj, List.getElem?_eq_getElem (hi.trans_le ha),
        List.getElem?_eq_getElem (hi.trans_le hb)] at hbit
      exact hbit
    · rw [List.getElem?_eq_none (by simp; omega), List.getElem?_eq_none (by simp; omega)]

theorem sameBits_split {a b : Bytes} (n : Nat) :
    SameBits a b n ↔ SameBits a b (8 * (n / 8)) ∧
      ∀ j < n % 8, bitAt a (8 * (n / 8) + j) = bitAt b (8 * (n / 8) + j) := by
  constructor
  · intro h
    exact ⟨h.mono (by omega), fun j hj => h _ (by omega)⟩
  · rintro ⟨hwhole, hodd⟩ k hk
    by_cases hlt : k < 8 * (n / 8)
    · exact hwhole k hlt
    · have hbit := hodd (k - 8 * (n / 8)) (by omega)
      rwa [Nat.add_sub_cancel' (by omega)] at hbit

/-- The odd bits are in a byte of the arrays. -/
theorem oddBitsDiffer_eq {address mask : Bytes} {divisor modulus : Nat} (hm : modulus < 8)
    (ha : modulus ≠ 0 → divisor < address.length) (hb : modulus ≠ 0 → divisor < mask.length) :
    ∃ b, oddBitsDiffer address mask divisor modulus = some b ∧
      (b = false ↔
        ∀ j < modulus, bitAt address (8 * divisor + j) = bitAt mask (8 * divisor + j)) := by
  by_cases hzero : modulus = 0
  · refine ⟨false, by rw [oddBitsDiffer, if_pos hzero], iff_of_true rfl ?_⟩
    intro j hj
    omega
  · have htable : invertedBits[modulus]? = some (invertedBits[modulus]?.getD 0) := by
      rw [List.getElem?_eq_getElem (by exact hm)]
      rfl
    have haddr := List.getElem?_eq_getElem (ha hzero)
    have hmask := List.getElem?_eq_getElem (hb hzero)
    refine ⟨_, by rw [oddBitsDiffer, if_neg hzero, haddr, hmask, htable], ?_⟩
    rw [decide_eq_false_iff_not, not_not, and_inverted_eq_iff hm htable]
    refine forall₂_congr fun j hj => ?_
    rw [bitAt_byte _ _ (hj.trans hm), bitAt_byte _ _ (hj.trans hm), haddr, hmask]
    rfl

/-- The comparison stays in the arrays. -/
theorem matchCIDRBits_eq {address mask : Bytes} (hlength : address.length = mask.length) {n : Nat}
    (hn : n ≤ 8 * mask.length) :
    ∃ b, matchCIDRBits address mask n = some b ∧ (b = true ↔ SameBits address mask n) := by
  obtain ⟨differ, hodd, hiff⟩ := @oddBitsDiffer_eq address mask (n / 8) (n % 8)
    (Nat.mod_lt n (by decide)) (by omega) (by omega)
  rw [matchCIDRBits, sameBits_split, hodd]
  cases differ with
  | true =>
      refine ⟨false, rfl, iff_of_false Bool.false_ne_true fun h => ?_⟩
      cases hiff.2 h.2
  | false =>
      refine ⟨!decide (address.take (n / 8) ≠ mask.take (n / 8)), ?_, ?_⟩
      · rw [memcmp, if_pos (by omega)]
        rfl
      · rw [Bool.not_eq_true', decide_eq_false_iff_not, not_not,
          take_eq_iff (by omega) (by omega)]
        exact (and_iff_left (hiff.1 rfl)).symm

/-- `MatchCIDRBits` reads nothing beyond the arrays and is true just where their first bits are the
same, so with fewer bits it is true as well. -/
theorem matchCIDRBits_sameBits {address mask : Bytes} {maskBits : Nat}
    (hlength : address.length = mask.length) (hbits : maskBits ≤ 8 * mask.length) :
    (∃ b, matchCIDRBits address mask maskBits = some b ∧
      (b = true ↔ SameBits address mask maskBits)) ∧
    ∀ n ≤ maskBits, matchCIDRBits address mask maskBits = some true →
      matchCIDRBits address mask n = some true := by
  refine ⟨matchCIDRBits_eq hlength hbits, fun n hn htrue => ?_⟩
  obtain ⟨b, hb, hsame⟩ := matchCIDRBits_eq hlength hbits
  obtain ⟨b', hb', hsame'⟩ := matchCIDRBits_eq hlength (hn.trans hbits)
  rw [hb, Option.some.injEq] at htrue
  rw [hb', hsame'.2 ((hsame.1 htrue).mono hn)]

theorem matchCIDRBits_sameBits_twelve :
    ∃ b, matchCIDRBits [10, 1, 2, 3] [10, 15, 0, 0] 12 = some b ∧
      (b = true ↔ SameBits [10, 1, 2, 3] [10, 15, 0, 0] 12) :=
  (@matchCIDRBits_sameBits [10, 1, 2, 3] [10, 15, 0, 0] 12 rfl (by decide)).1

/-! ## The number of bits -/

/-- What is behind the last `c`. -/
theorem split_last {c : UInt8} {s : Bytes} (h : c ∈ s) :
    ∃ base text, s = base ++ c :: text ∧ c ∉ text := by
  induction s with
  | nil => cases h
  | cons b s ih =>
      by_cases hs : c ∈ s
      · obtain ⟨base, text, rfl, htext⟩ := ih hs
        exact ⟨b :: base, text, rfl, htext⟩
      · obtain rfl := (List.mem_cons.1 h).resolve_right hs
        exact ⟨[], s, rfl, hs⟩

/-- `atoi` of a numeral, where `long` is cut to 32 bits. -/
theorem atoi_numeral {text : Bytes} (h : IsNumeral text) :
    atoi text = if digits text < 2 ^ 63 then digits text % 2 ^ 32 else 2 ^ 32 - 1 := by
  rw [atoi, strtol_digits h.ne_nil h.all, toUnsigned]
  split <;> omega

/-- A numeral that is not cut to a smaller number. -/
def PlainBits (text : Bytes) : Prop :=
  IsNumeral text ∧ (digits text < 2 ^ 32 ∨ 2 ^ 63 ≤ digits text)

instance (text : Bytes) : Decidable (PlainBits text) := by
  unfold PlainBits
  infer_instance

section MatchCIDR

variable {ip6links : Bool} {inetPton : InetPton} {address base text : Bytes}

theorem min_atoi {w : Nat} (hw : w ≤ 128) (h : PlainBits text) :
    min (atoi text) w = min (digits text) w := by
  rw [atoi_numeral h.1]
  rcases h.2 with hlt | hge
  · rw [if_pos (by omega), Nat.mod_eq_of_lt hlt]
  · rw [if_neg (by omega)]
    omega

theorem size_le (af : AddressFamily) : 8 * af.size ≤ 128 := by cases af <;> decide

/-- The mask and the address are valid in one family, and agree in as many bits as `atoi` says. -/
def CidrAgree (ip6links : Bool) (inetPton : InetPton) (address base : Bytes) (bits : Nat) : Prop :=
  ∃ af a m, addressFamily ip6links inetPton address = some af ∧ inetPton af address = some a ∧
    inetPton af base = some m ∧ SameBits a.val m.val (min bits (8 * af.size))

theorem not_cidrAgree {bits : Nat} (h : addressFamily ip6links inetPton address = none) :
    ¬CidrAgree ip6links inetPton address base bits := by
  rintro ⟨af, _, _, haf, -⟩
  rw [h] at haf
  cases haf

/-- The family is that of the address. -/
theorem cidrAgree_iff {af : AddressFamily} {bits : Nat}
    (h : addressFamily ip6links inetPton address = some af) :
    CidrAgree ip6links inetPton address base bits ↔
      ∃ a m, inetPton af address = some a ∧ inetPton af base = some m ∧
        SameBits a.val m.val (min bits (8 * af.size)) := by
  constructor
  · rintro ⟨af', a, m, haf, hrest⟩
    rw [h] at haf
    cases haf
    exact ⟨a, m, hrest⟩
  · rintro ⟨a, m, hrest⟩
    exact ⟨af, a, m, h, hrest⟩

/-- The comparison ends, and is true where the two agree. -/
theorem matchCIDR_slash (htext : 47 ∉ text) :
    ∃ b, matchCIDR ip6links inetPton address (base ++ 47 :: text) false = some b ∧
      (b = true ↔ CidrAgree ip6links inetPton address base (atoi text)) := by
  have hbase : (base ++ 47 :: text).take base.length = base := List.take_left
  have hbehind : (base ++ 47 :: text).drop (base.length + 1) = text := by
    rw [← List.drop_drop, List.drop_left]
    rfl
  rw [matchCIDR, if_neg Bool.false_ne_true, matchCIDRHost, rfind_append_cons htext]
  dsimp only
  rw [hbase, hbehind]
  cases hfamily : addressFamily ip6links inetPton address with
  | none => exact ⟨false, rfl, iff_of_false Bool.false_ne_true (not_cidrAgree hfamily)⟩
  | some af =>
      dsimp only
      rw [matchFamily, cidrAgree_iff hfamily]
      cases ha : inetPton af address with
      | none =>
          refine ⟨false, rfl, iff_of_false Bool.false_ne_true ?_⟩
          rintro ⟨_, _, h, -⟩
          cases h
      | some a =>
          cases hm : inetPton af base with
          | none =>
              refine ⟨false, rfl, iff_of_false Bool.false_ne_true ?_⟩
              rintro ⟨_, _, -, h, -⟩
              cases h
          | some m =>
              have hclamp : (if 8 * af.size < atoi text then 8 * af.size else atoi text)
                  = min (atoi text) (8 * af.size) := by
                split <;> omega
              dsimp only
              rw [hclamp]
              have hwithin : min (atoi text) (8 * af.size) ≤ 8 * m.val.length := by
                rw [m.property]
                exact Nat.min_le_right _ _
              obtain ⟨b, hb, hsame⟩ :=
                matchCIDRBits_eq (a.property.trans m.property.symm) hwithin
              refine ⟨b, hb, hsame.trans ?_⟩
              constructor
              · exact fun h => ⟨a, m, rfl, rfl, h⟩
              · rintro ⟨a', m', ha', hm', h⟩
                cases ha'
                cases hm'
                exact h

/-- What a true answer promises: a numeral behind the last slash, and as many equal bits. -/
def CidrPromises (ip6links : Bool) (inetPton : InetPton) (address cidrMask : Bytes) : Prop :=
  matchCIDR ip6links inetPton address cidrMask false = some true →
    ∃ base text, cidrMask = base ++ 47 :: text ∧ 47 ∉ text ∧ IsNumeral text ∧
      CidrAgree ip6links inetPton address base (digits text)

/-- The text behind the last slash is a numeral that keeps its value, or the address and the mask
are not even alike in the bits that are compared; or they are one address, with any numeral. -/
def CidrTold (ip6links : Bool) (inetPton : InetPton) (address cidrMask : Bytes) : Prop :=
  ∀ base text, cidrMask = base ++ 47 :: text → 47 ∉ text →
    PlainBits text ∨ ¬CidrAgree ip6links inetPton address base (atoi text) ∨
      IsNumeral text ∧ CidrAgree ip6links inetPton address base 128

theorem CidrAgree.mono {m n : Nat} (h : CidrAgree ip6links inetPton address base n)
    (hm : ∀ af : AddressFamily, min m (8 * af.size) ≤ min n (8 * af.size)) :
    CidrAgree ip6links inetPton address base m := by
  obtain ⟨af, a, r, haf, ha, hr, hsame⟩ := h
  exact ⟨af, a, r, haf, ha, hr, hsame.mono (hm af)⟩

/-- `MatchCIDR` comes to an answer, and keeps its promise just where the number of bits tells. -/
theorem matchCIDR_promises (ip6links : Bool) (inetPton : InetPton) (address cidrMask : Bytes) :
    (∃ b, matchCIDR ip6links inetPton address cidrMask false = some b) ∧
      (CidrPromises ip6links inetPton address cidrMask ↔
        CidrTold ip6links inetPton address cidrMask) := by
  by_cases hslash : 47 ∈ cidrMask
  · obtain ⟨base, text, rfl, htext⟩ := split_last hslash
    obtain ⟨b, hb, hagree⟩ := @matchCIDR_slash ip6links inetPton address base text htext
    have hunique : ∀ {base' text'}, base ++ 47 :: text = base' ++ 47 :: text' → 47 ∉ text' →
        base = base' ∧ text = text' := by
      intro base' text' heq htext'
      have hlength : base.length = base'.length := by
        have hfind := @rfind_append_cons 47 base text htext
        rw [heq, rfind_append_cons htext', Option.some.injEq] at hfind
        exact hfind.symm
      obtain ⟨rfl, htail⟩ := List.append_inj heq hlength
      exact ⟨rfl, (List.cons.inj htail).2⟩
    refine ⟨⟨b, hb⟩, ?_⟩
    constructor
    · intro hpromise base' text' heq htext'
      obtain ⟨rfl, rfl⟩ := hunique heq htext'
      by_cases htrue : CidrAgree ip6links inetPton address base (atoi text)
      · obtain ⟨base', text', heq', htext', hnumeral, hdigits⟩ :=
          hpromise (by rw [hb, hagree.2 htrue])
        obtain ⟨rfl, rfl⟩ := hunique heq' htext'
        by_cases hplain : PlainBits text
        · exact Or.inl hplain
        · refine Or.inr (Or.inr ⟨hnumeral, hdigits.mono fun af => ?_⟩)
          have hlarge : 2 ^ 32 ≤ digits text := by
            by_contra hsmall
            exact hplain ⟨hnumeral, Or.inl (by omega)⟩
          have hsize := size_le af
          omega
      · exact Or.inr (Or.inl htrue)
    · intro htold htrue
      rw [hb, Option.some.injEq] at htrue
      have hat := hagree.1 htrue
      refine ⟨base, text, rfl, htext, ?_⟩
      rcases htold base text rfl htext with hplain | hno | ⟨hnumeral, hall⟩
      · refine ⟨hplain.1, hat.mono fun af => ?_⟩
        rw [min_atoi (size_le af) hplain]
      · exact absurd hat hno
      · refine ⟨hnumeral, hall.mono fun af => ?_⟩
        have hsize := size_le af
        omega
  · have hfalse : matchCIDR ip6links inetPton address cidrMask false = some false := by
      rw [matchCIDR, if_neg Bool.false_ne_true, matchCIDRHost, rfind_eq_none hslash]
    refine ⟨⟨false, hfalse⟩, iff_of_true ?_ ?_⟩
    · intro htrue
      rw [hfalse] at htrue
      cases htrue
    · rintro base text rfl
      exact absurd (List.mem_append_right base List.mem_cons_self) hslash

end MatchCIDR

/-- Dotted quads, of which there are two. -/
def twoAddresses : InetPton
  | .inet, text =>
      if text = str "10.0.0.1" then some ⟨[10, 0, 0, 1], rfl⟩
      else if text = str "192.168.0.0" then some ⟨[192, 168, 0, 0], rfl⟩
      else none
  | .inet6, _ => none

/-- A slash with nothing behind it matches every address. -/
theorem typo_matches : ¬CidrPromises true twoAddresses (str "10.0.0.1") (str "192.168.0.0/") := by
  intro h
  obtain ⟨base, text, heq, htext, hnumeral, -⟩ := h (by decide +kernel)
  have hlast := congrArg List.getLast? heq
  cases hrest : text.getLast? with
  | none => exact hnumeral.ne_nil (List.getLast?_eq_none_iff.1 hrest)
  | some b =>
      have hslash : (str "192.168.0.0/").getLast? = some 47 := by decide
      rw [hslash, List.getLast?_append, List.getLast?_cons, hrest] at hlast
      cases hlast
      exact htext (List.mem_of_getLast? hrest)

end Hottpd
