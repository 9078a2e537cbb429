import Mathlib.Data.List.Nodup
import Mathlib.Data.List.Perm.Subperm
import Mathlib.Data.List.ProdSigma
import Hottpd.Lib.Runs
import Hottpd.Core.Bitmask

/-!
# Bitfields that are handed out and given back

The taken bits are those of the outstanding bitfields, so none is handed out twice, and
to set one leaves the bits of the others alone. What is not looked after is the bit
itself: it is cleared when the bitmap grows by its byte, and not when it is given back.
-/

namespace Hottpd

/-! ## Bits -/

/-- One bit, as `Allocate` hands them out. -/
def Bitfield.IsSingle (pos : Bitfield) : Prop := pos.2 ∈ bitPositions

/-- Whether the bit is set in an array. -/
def bitOn (bytes : Bytes) (pos : Bitfield) : Bool := bytes.getD pos.1 0 &&& pos.2 ≠ 0

theorem byte_or_and (b c d : UInt8) : (b ||| c) &&& d = b &&& d ||| c &&& d :=
  UInt8.toBitVec_inj.1 BitVec.and_or_distrib_right

theorem single_and {c d : UInt8} (hc : c ∈ bitPositions) (hd : d ∈ bitPositions) :
    c &&& d = (if d = c then d else 0) ∧ ~~~c &&& d = (if d = c then 0 else d) ∧ d ≠ 0 := by
  have hall : ∀ c ∈ bitPositions, ∀ d ∈ bitPositions,
      c &&& d = (if d = c then d else 0) ∧ ~~~c &&& d = (if d = c then 0 else d) ∧ d ≠ 0 := by
    decide +kernel
  exact hall c hc d hd

theorem byte_bits {b c d : UInt8} (hc : c ∈ bitPositions) (hd : d ∈ bitPositions) :
    ((b ||| c) &&& d ≠ 0 ↔ d = c ∨ b &&& d ≠ 0) ∧
      (b &&& ~~~c &&& d ≠ 0 ↔ d ≠ c ∧ b &&& d ≠ 0) := by
  obtain ⟨hand, hnot, hne⟩ := single_and hc hd
  rw [byte_or_and, UInt8.and_assoc, hand, hnot]
  by_cases heq : d = c
  · rw [if_pos heq, if_pos heq, UInt8.and_zero]
    refine ⟨iff_of_true (fun h => hne (UInt8.or_eq_zero_iff.1 h).2) (Or.inl heq), ?_⟩
    exact iff_of_false (fun h => h rfl) fun h => h.1 heq
  · rw [if_neg heq, if_neg heq, UInt8.or_zero]
    exact ⟨(or_iff_right heq).symm, (and_iff_right heq).symm⟩

theorem bitOn_modify {bytes : Bytes} {i : Nat} (hi : i < bytes.length) (f : UInt8 → UInt8)
    (pos : Bitfield) : bitOn (bytes.modify i f) pos =
      if pos.1 = i then decide (f (bytes.getD i 0) &&& pos.2 ≠ 0) else bitOn bytes pos := by
  rw [bitOn, List.getD_eq_getElem?_getD]
  by_cases heq : pos.1 = i
  · rw [if_pos heq, heq, List.getElem?_modify_eq, List.getD_eq_getElem?_getD,
      List.getElem?_eq_getElem hi]
    rfl
  · rw [if_neg heq, List.getElem?_modify_ne _ _ (Ne.symm heq), bitOn, List.getD_eq_getElem?_getD]

theorem bitOn_set {bytes : Bytes} {pos other : Bitfield} (hpos : pos.1 < bytes.length)
    (hsingle : pos.IsSingle) (hother : other.IsSingle) :
    bitOn (bytes.modify pos.1 (· ||| pos.2)) other = true ↔
      other = pos ∨ bitOn bytes other = true := by
  rw [bitOn_modify hpos]
  by_cases heq : other.1 = pos.1
  · rw [if_pos heq, decide_eq_true_iff, (byte_bits hsingle hother).1, bitOn, decide_eq_true_iff,
      heq, Prod.ext_iff, and_iff_right heq]
  · have hne : other ≠ pos := fun h => heq (congrArg Prod.fst h)
    rw [if_neg heq, or_iff_right hne]

theorem bitOn_clear {bytes : Bytes} {pos other : Bitfield} (hpos : pos.1 < bytes.length)
    (hsingle : pos.IsSingle) (hother : other.IsSingle) :
    bitOn (bytes.modify pos.1 (· &&& ~~~pos.2)) other = true ↔
      other ≠ pos ∧ bitOn bytes other = true := by
  rw [bitOn_modify hpos]
  by_cases heq : other.1 = pos.1
  · rw [if_pos heq, decide_eq_true_iff, (byte_bits hsingle hother).2, bitOn, decide_eq_true_iff,
      heq, ne_eq other, Prod.ext_iff, and_iff_right heq]
  · have hne : other ≠ pos := fun h => heq (congrArg Prod.fst h)
    rw [if_neg heq, and_iff_right hne]

theorem bitOn_append {bytes : Bytes} {b : UInt8} {pos : Bitfield} (h : pos.1 < bytes.length) :
    bitOn (bytes ++ [b]) pos = bitOn bytes pos := by
  rw [bitOn, bitOn, List.getD_eq_getElem?_getD, List.getD_eq_getElem?_getD,
    List.getElem?_append_left h]

theorem bitOn_concat {bytes : Bytes} {b : UInt8} {pos : Bitfield} (h : pos.1 = bytes.length) :
    bitOn (bytes ++ [b]) pos = decide (b &&& pos.2 ≠ 0) := by
  rw [bitOn, List.getD_eq_getElem?_getD, h, List.getElem?_concat_length]
  rfl

theorem bitOn_zeros {bytes : Bytes} (h : ∀ b ∈ bytes, b = 0) (pos : Bitfield) :
    bitOn bytes pos = false := by
  have hzero : bytes.getD pos.1 0 = 0 := by
    rw [List.getD_eq_getElem?_getD]
    cases hb : bytes[pos.1]? with
    | none => rfl
    | some b => exact h b (List.mem_of_getElem? hb)
  rw [bitOn, hzero]
  exact decide_eq_false (not_not.2 (UInt8.zero_and ..))

/-! ## The lowest free bit -/

/-- The order in which `Allocate` looks at the bits. -/
def Bitfield.Before (pos other : Bitfield) : Prop :=
  pos.1 < other.1 ∨ (pos.1 = other.1 ∧ pos.2.toNat < other.2.toNat)

/-- A bit that is not taken, where all before it are. -/
structure LowestFree (freebits : Bytes) (pos : Bitfield) : Prop where
  single : pos.IsSingle
  inside : pos.1 < freebits.length
  free : bitOn freebits pos = false
  lowest : ∀ other : Bitfield, other.IsSingle → other.Before pos → bitOn freebits other = true

theorem LowestFree.unique {freebits : Bytes} {pos other : Bitfield} (h : LowestFree freebits pos)
    (h' : LowestFree freebits other) : pos = other := by
  have hnot : ∀ {p q : Bitfield}, LowestFree freebits p → LowestFree freebits q → ¬p.Before q := by
    intro p q hp hq hbefore
    have htaken := hq.lowest p hp.single hbefore
    rw [hp.free] at htaken
    cases htaken
  have hleft := hnot h h'
  have hright := hnot h' h
  rw [Bitfield.Before, not_or, not_and, Nat.not_lt] at hleft hright
  have hfirst : pos.1 = other.1 := le_antisymm hright.1 hleft.1
  have hsecond := le_antisymm (not_lt.1 (hright.2 hfirst.symm)) (not_lt.1 (hleft.2 hfirst))
  exact Prod.ext hfirst (UInt8.toNat_inj.1 hsecond)

theorem find?_lowest {l : List UInt8} (hl : l.Pairwise (·.toNat < ·.toNat)) {p : UInt8 → Bool}
    {c : UInt8} (h : l.find? p = some c) : ∀ d ∈ l, d.toNat < c.toNat → p d = false := by
  obtain ⟨hc, front, rear, rfl, hfront⟩ := List.find?_eq_some_iff_append.1 h
  intro d hd hlt
  rw [List.mem_append, List.mem_cons] at hd
  rcases hd with hd | rfl | hd
  · have hnot := hfront d hd
    rwa [Bool.not_eq_true'] at hnot
  · exact absurd hlt (Nat.lt_irrefl _)
  · have hsorted := (List.pairwise_cons.1 (List.pairwise_append.1 hl).2.1).1 d hd
    exact absurd (hlt.trans hsorted) (Nat.lt_irrefl _)

/-- A bit of the array whose first byte is byte `i`. -/
theorem findFree_spec {bytes : Bytes} : ∀ {i : Nat},
    (∀ pos, findFree i bytes = some pos → ∃ j, pos.1 = i + j ∧ LowestFree bytes (j, pos.2)) ∧
      (findFree i bytes = none → ∀ pos : Bitfield, pos.IsSingle → pos.1 < bytes.length →
        bitOn bytes pos = true) := by
  induction bytes with
  | nil =>
      intro i
      exact ⟨fun _ h => (Option.some_ne_none _ h.symm).elim,
        fun _ _ _ h => (Nat.not_lt_zero _ h).elim⟩
  | cons b rest ih =>
      intro i
      rw [findFree]
      cases hfound : bitPositions.find? fun c => b &&& c = 0 with
      | some c =>
          refine ⟨fun pos h => ?_, fun h => by cases h⟩
          cases h
          have hfree : decide (b &&& c = 0) = true :=
            (List.find?_eq_some_iff_append.1 hfound).1
          refine ⟨0, rfl, List.mem_of_find?_eq_some hfound, Nat.zero_lt_succ _, ?_, ?_⟩
          · exact decide_eq_false (not_not.2 (of_decide_eq_true hfree))
          · rintro ⟨j, d⟩ hd (hlt | ⟨hzero, hlt⟩)
            · exact absurd hlt (Nat.not_lt_zero j)
            · obtain rfl : j = 0 := hzero
              have hsorted : bitPositions.Pairwise (·.toNat < ·.toNat) := by decide
              exact decide_eq_true (of_decide_eq_false (find?_lowest hsorted hfound d hd hlt))
      | none =>
          have htaken : ∀ d : UInt8, d ∈ bitPositions → bitOn (b :: rest) (0, d) = true := by
            intro d hd
            have hnot := List.find?_eq_none.1 hfound d hd
            exact decide_eq_true fun h => hnot (decide_eq_true h)
          obtain ⟨hsome, hnone⟩ := @ih (i + 1)
          refine ⟨fun pos h => ?_, fun h => ?_⟩
          · obtain ⟨j, hj, hlowest⟩ := hsome pos h
            refine ⟨j + 1, by omega, hlowest.single, Nat.succ_lt_succ hlowest.inside,
              hlowest.free, ?_⟩
            rintro ⟨k, d⟩ hd hbefore
            cases k with
            | zero => exact htaken d hd
            | succ k =>
                refine hlowest.lowest (k, d) hd ?_
                rcases hbefore with hlt | ⟨heq, hlt⟩
                · exact Or.inl (Nat.lt_of_succ_lt_succ hlt)
                · exact Or.inr ⟨Nat.succ.inj heq, hlt⟩
          · rintro ⟨k, d⟩ hd hk
            cases k with
            | zero => exact htaken d hd
            | succ k => exact hnone h (k, d) hd (Nat.lt_of_succ_lt_succ hk)

/-! ## The operations -/

namespace DynamicBitmask

variable {m : DynamicBitmask} {pos other : Bitfield}

theorem get_eq (m : DynamicBitmask) (h : pos.1 < m.bits.length) :
    m.get pos = some (bitOn m.bits pos) := by
  rw [get, bitOn, List.getD_eq_getElem?_getD, List.getElem?_eq_getElem h]
  rfl

/-- There is a free bit, or all are taken and the array grows, unless it cannot. -/
theorem allocate_cases (m : DynamicBitmask) :
    (∃ pos, LowestFree m.freebits pos ∧ m.allocate.1 = some pos ∧
      m.allocate.2.bits = m.bits ∧
      m.allocate.2.freebits = m.freebits.modify pos.1 (· ||| pos.2)) ∨
    ((∀ pos : Bitfield, pos.IsSingle → pos.1 < m.bits.length → bitOn m.freebits pos = true) ∧
      ((m.bits.length = 255 ∧ m.allocate = (none, m)) ∨
        (m.allocate.1 = some (m.bits.length, 1) ∧ m.allocate.2.bits = m.bits ++ [0] ∧
          m.allocate.2.freebits = m.freebits ++ [1]))) := by
  obtain ⟨hsome, hnone⟩ := @findFree_spec m.freebits 0
  rw [allocate]
  split
  · next pos hfound =>
      obtain ⟨j, hj, hlowest⟩ := hsome pos hfound
      rw [Nat.zero_add] at hj
      have hpair : (j, pos.2) = pos := Prod.ext hj.symm rfl
      rw [hpair] at hlowest
      exact Or.inl ⟨_, hlowest, rfl, rfl, rfl⟩
  · next hfound =>
      refine Or.inr ⟨m.same_length ▸ hnone hfound, ?_⟩
      split
      · next hfull => exact Or.inl ⟨hfull, rfl⟩
      · exact Or.inr ⟨rfl, rfl, rfl⟩

theorem deallocate_eq (m : DynamicBitmask) (h : pos.1 < m.bits.length) :
    (m.deallocate pos).2.bits = m.bits ∧
      (m.deallocate pos).2.freebits = m.freebits.modify pos.1 (· &&& ~~~pos.2) := by
  rw [deallocate, if_pos h]
  exact ⟨rfl, rfl⟩

/-- To set a bitfield changes its own bit and no other. -/
theorem toggle_eq (m : DynamicBitmask) (h : pos.1 < m.bits.length) (hpos : pos.IsSingle)
    (state : Bool) : (m.toggle pos state).bits.length = m.bits.length ∧
      (m.toggle pos state).freebits = m.freebits ∧
      ∀ other : Bitfield, other.IsSingle → bitOn (m.toggle pos state).bits other =
        if other = pos then state else bitOn m.bits other := by
  rw [toggle, if_pos h]
  refine ⟨List.length_modify .., rfl, fun other hother => ?_⟩
  have hset := bitOn_set h hpos hother
  have hclear := bitOn_clear h hpos hother
  by_cases heq : other = pos
  · rw [if_pos heq]
    cases state with
    | true => exact hset.2 (Or.inl heq)
    | false => exact Bool.eq_false_iff.2 fun htrue => (hclear.1 htrue).1 heq
  · rw [if_neg heq]
    cases state with
    | true => exact Bool.eq_iff_iff.2 (hset.trans (or_iff_right heq))
    | false => exact Bool.eq_iff_iff.2 (hclear.trans (and_iff_right heq))

end DynamicBitmask

/-! ## Runs -/

namespace BitmaskUser

/-- The outstanding bitfields are different ones, each reads what it was last set to, or off, and
there is another one while there are fewer than 2040. -/
structure Kept (u : BitmaskUser) : Prop where
  distinct : (u.outstanding.map Prod.fst).Nodup
  reads : ∀ e ∈ u.outstanding, u.mask.get e.1 = some e.2
  room : u.outstanding.length < 2040 → u.mask.allocate.1 ≠ none

/-- When a bitfield is asked for, the lowest free bit is off. -/
def LowestOff (u : BitmaskUser) (c : BitmaskCall) : Prop :=
  c = .allocate → ∀ pos, LowestFree u.mask.freebits pos → u.mask.get pos = some false

/-- What the calls keep. -/
structure Consistent (u : BitmaskUser) : Prop where
  distinct : (u.outstanding.map Prod.fst).Nodup
  handed : ∀ pos ∈ u.handed, pos.IsSingle ∧ pos.1 < u.mask.bits.length
  known : ∀ e ∈ u.outstanding, e.1 ∈ u.handed
  taken : ∀ pos : Bitfield, pos.IsSingle → pos.1 < u.mask.bits.length →
    (bitOn u.mask.freebits pos = true ↔ pos ∈ u.outstanding.map Prod.fst)
  reads : ∀ e ∈ u.outstanding, bitOn u.mask.bits e.1 = e.2

variable {u : BitmaskUser}

theorem Consistent.kept (h : u.Consistent) : u.Kept := by
  refine ⟨h.distinct, fun e he => ?_, fun hroom hnone => ?_⟩
  · rw [DynamicBitmask.get_eq _ (h.handed _ (h.known e he)).2, h.reads e he]
  · rcases u.mask.allocate_cases with ⟨pos, -, hsome, -⟩ | ⟨htaken, ⟨hfull, -⟩ | ⟨hsome, -⟩⟩
    · exact Option.some_ne_none _ (hsome.symm.trans hnone)
    · -- all bits of 255 bytes are those of outstanding bitfields
      have hall : (List.range 255 ×ˢ bitPositions) ⊆ u.outstanding.map Prod.fst := by
        rintro ⟨i, c⟩ hmem
        obtain ⟨hi, hc⟩ := List.pair_mem_product.1 hmem
        rw [List.mem_range, ← hfull] at hi
        exact (h.taken (i, c) hc hi).1 (htaken (i, c) hc hi)
      have hnodup : (List.range 255 ×ˢ bitPositions).Nodup :=
        List.nodup_range.product (by decide)
      have hle := (hnodup.subperm hall).length_le
      rw [List.length_product, List.length_range, List.length_map] at hle
      exact absurd (hle.trans_lt hroom) (by decide)
    · exact Option.some_ne_none _ (hsome.symm.trans hnone)

theorem Consistent.deallocate (h : u.Consistent) {pos : Bitfield}
    (hpos : pos ∈ u.outstanding.map Prod.fst) :
    Consistent { u with
      mask := (u.mask.deallocate pos).2
      outstanding := u.outstanding.filter fun e => e.1 ≠ pos } := by
  obtain ⟨e, he, rfl⟩ := List.mem_map.1 hpos
  obtain ⟨hsingle, hinside⟩ := h.handed _ (h.known e he)
  obtain ⟨hbits, hfree⟩ := u.mask.deallocate_eq hinside
  have hmem : ∀ other, other ∈ (u.outstanding.filter fun e' => e'.1 ≠ e.1).map Prod.fst ↔
      other ≠ e.1 ∧ other ∈ u.outstanding.map Prod.fst := by
    intro other
    simp only [List.mem_map, List.mem_filter, decide_eq_true_iff]
    constructor
    · rintro ⟨e', ⟨he', hne⟩, rfl⟩
      exact ⟨hne, e', he', rfl⟩
    · rintro ⟨hne, e', he', rfl⟩
      exact ⟨e', ⟨he', hne⟩, rfl⟩
  refine ⟨h.distinct.sublist (List.filter_sublist.map _), ?_,
    fun e' he' => h.known e' (List.mem_of_mem_filter he'), ?_, ?_⟩
  · dsimp only
    rw [hbits]
    exact h.handed
  · intro other hother hin
    dsimp only at hin ⊢
    rw [hbits] at hin
    rw [hfree, bitOn_clear (u.mask.same_length ▸ hinside) hsingle hother, h.taken other hother hin,
      hmem]
  · intro e' he'
    dsimp only
    rw [hbits]
    exact h.reads e' (List.mem_of_mem_filter he')

theorem Consistent.toggle (h : u.Consistent) {pos : Bitfield} (hpos : pos ∈ u.handed)
    (state : Bool) : Consistent { u with
      mask := u.mask.toggle pos state
      outstanding := u.outstanding.map fun e => if e.1 = pos then (pos, state) else e } := by
  obtain ⟨hsingle, hinside⟩ := h.handed pos hpos
  obtain ⟨hlength, hfree, hbits⟩ := u.mask.toggle_eq hinside hsingle state
  have hfst : ∀ e : Bitfield × Bool, (if e.1 = pos then (pos, state) else e).1 = e.1 := by
    intro e
    split
    · next heq => exact heq.symm
    · rfl
  have hmap : (u.outstanding.map fun e => if e.1 = pos then (pos, state) else e).map Prod.fst
      = u.outstanding.map Prod.fst := by
    rw [List.map_map]
    exact List.map_congr_left fun e _ => hfst e
  refine ⟨?_, ?_, ?_, ?_, ?_⟩
  · dsimp only
    rw [hmap]
    exact h.distinct
  · dsimp only
    rw [hlength]
    exact h.handed
  · intro e' he'
    obtain ⟨e, he, rfl⟩ := List.mem_map.1 he'
    rw [hfst]
    exact h.known e he
  · intro other hother hin
    dsimp only at hin ⊢
    rw [hlength] at hin
    rw [hfree, hmap]
    exact h.taken other hother hin
  · intro e' he'
    obtain ⟨e, he, rfl⟩ := List.mem_map.1 he'
    have hone := (h.handed _ (h.known e he)).1
    dsimp only
    rw [hfst, hbits e.1 hone]
    split
    · rfl
    · exact h.reads e he

/-- A new bitfield that is none of the outstanding ones, is inside, and reads off. -/
theorem Consistent.add {m : DynamicBitmask} {pos : Bitfield} (h : u.Consistent)
    (hsingle : pos.IsSingle) (hinside : pos.1 < m.bits.length)
    (hnew : pos ∉ u.outstanding.map Prod.fst) (hle : u.mask.bits.length ≤ m.bits.length)
    (htaken : ∀ other : Bitfield, other.IsSingle → other.1 < m.bits.length →
      (bitOn m.freebits other = true ↔ other = pos ∨ other ∈ u.outstanding.map Prod.fst))
    (hsame : ∀ other : Bitfield, other.1 < u.mask.bits.length →
      bitOn m.bits other = bitOn u.mask.bits other)
    (hoff : bitOn m.bits pos = false) :
    Consistent ⟨m, u.outstanding ++ [(pos, false)], u.handed ++ [pos]⟩ := by
  refine ⟨?_, ?_, ?_, fun other hother hin => ?_, ?_⟩
  · dsimp only
    rw [List.map_append, List.map_singleton, List.nodup_append]
    refine ⟨h.distinct, List.nodup_singleton pos, ?_⟩
    rintro other hmem _ hpos rfl
    have heq : other = pos := List.mem_singleton.1 hpos
    exact hnew (heq ▸ hmem)
  · dsimp only
    rw [List.forall_mem_append]
    exact ⟨fun other hmem => ⟨(h.handed other hmem).1, (h.handed other hmem).2.trans_le hle⟩,
      List.forall_mem_singleton.2 ⟨hsingle, hinside⟩⟩
  · dsimp only
    rw [List.forall_mem_append]
    exact ⟨fun e he => List.mem_append_left _ (h.known e he),
      List.forall_mem_singleton.2 (List.mem_append_right _ (List.mem_singleton_self pos))⟩
  · dsimp only at hin ⊢
    rw [htaken other hother hin, List.map_append, List.map_singleton, List.mem_append,
      List.mem_singleton, or_comm]
  · dsimp only
    rw [List.forall_mem_append]
    refine ⟨fun e he => ?_, List.forall_mem_singleton.2 hoff⟩
    rw [hsame e.1 (h.handed _ (h.known e he)).2, h.reads e he]

theorem Consistent.allocate (h : u.Consistent)
    (hoff : ∀ pos, LowestFree u.mask.freebits pos → u.mask.get pos = some false) :
    Consistent
      { mask := u.mask.allocate.2
        outstanding := u.outstanding ++ u.mask.allocate.1.toList.map fun pos => (pos, false)
        handed := u.handed ++ u.mask.allocate.1.toList } := by
  rcases u.mask.allocate_cases with ⟨pos, hlowest, hsome, hbits, hfree⟩ |
    ⟨htaken, ⟨-, hfull⟩ | ⟨hsome, hbits, hfree⟩⟩
  · have hinside : pos.1 < u.mask.bits.length := u.mask.same_length ▸ hlowest.inside
    have hread := hoff pos hlowest
    rw [u.mask.get_eq hinside, Option.some_inj] at hread
    rw [hsome]
    refine h.add hlowest.single (hbits ▸ hinside) ?_ (hbits ▸ le_rfl) ?_ ?_ (hbits ▸ hread)
    · rw [← h.taken pos hlowest.single hinside, hlowest.free]
      exact Bool.false_ne_true
    · intro other hother hin
      rw [hbits] at hin
      rw [hfree, bitOn_set hlowest.inside hlowest.single hother, h.taken other hother hin]
    · intro other _
      rw [hbits]
  · rw [hfull]
    dsimp only [Option.toList_none]
    rw [List.map_nil, List.append_nil, List.append_nil]
    exact h
  · have hlength : u.mask.allocate.2.bits.length = u.mask.bits.length + 1 := by
      rw [hbits, List.length_append]
      rfl
    have hbehind : ∀ other : Bitfield, other.1 = u.mask.bits.length →
        other ∉ u.outstanding.map Prod.fst := by
      intro other heq hmem
      obtain ⟨e, he, rfl⟩ := List.mem_map.1 hmem
      exact absurd (h.handed _ (h.known e he)).2 (by omega)
    rw [hsome]
    refine h.add (show (1 : UInt8) ∈ bitPositions by decide) (by dsimp only; omega)
      (hbehind _ rfl) (by omega) ?_ ?_ ?_
    · intro other hother hin
      rw [hfree]
      by_cases heq : other.1 = u.mask.bits.length
      · have hone : ∀ c ∈ bitPositions, (1 &&& c ≠ 0 ↔ c = 1) := by decide +kernel
        rw [bitOn_concat (heq.trans u.mask.same_length.symm), decide_eq_true_iff,
          hone _ hother, or_iff_left (hbehind other heq), Prod.ext_iff, and_iff_right heq]
      · have hne : other ≠ (u.mask.bits.length, 1) := fun h => heq (congrArg Prod.fst h)
        have hlt : other.1 < u.mask.bits.length := by omega
        rw [bitOn_append (u.mask.same_length.symm ▸ hlt), or_iff_right hne,
          h.taken other hother hlt]
    · intro other hlt
      rw [hbits, bitOn_append hlt]
    · rw [hbits, bitOn_concat rfl]
      exact decide_eq_false (not_not.2 (UInt8.zero_and ..))

theorem Consistent.step (h : u.Consistent) {c : BitmaskCall} (hoff : u.LowestOff c)
    {u' : BitmaskUser} (hstep : u.step c = some u') : u'.Consistent := by
  cases c with
  | allocate =>
      cases hstep
      exact h.allocate (hoff rfl)
  | deallocate pos =>
      rw [BitmaskUser.step] at hstep
      split at hstep
      · next hpos =>
          cases hstep
          exact h.deallocate hpos
      · cases hstep
  | toggle pos state =>
      rw [BitmaskUser.step] at hstep
      split at hstep
      · next hpos =>
          cases hstep
          exact h.toggle hpos state
      · cases hstep

/-- A bitfield that is on is handed out. -/
theorem breaks_of_on {c : BitmaskCall} (hon : ¬u.LowestOff c) :
    ∃ u', u.step c = some u' ∧ ¬u'.Kept := by
  rw [LowestOff, Classical.not_imp, not_forall] at hon
  obtain ⟨rfl, pos, hpos⟩ := hon
  rw [Classical.not_imp] at hpos
  obtain ⟨hlowest, hread⟩ := hpos
  refine ⟨_, rfl, fun hkept => ?_⟩
  rcases u.mask.allocate_cases with ⟨pos', hlowest', hsome, hbits, -⟩ | ⟨htaken, -⟩
  · obtain rfl := hlowest.unique hlowest'
    have hoff := hkept.reads (pos, false) (by rw [hsome]; simp)
    rw [DynamicBitmask.get, hbits] at hoff
    exact hread hoff
  · have hin := htaken pos hlowest.single (u.mask.same_length ▸ hlowest.inside)
    rw [hlowest.free] at hin
    cases hin

theorem consistent_new : new.Consistent := by
  refine ⟨List.nodup_nil, List.forall_mem_nil _, List.forall_mem_nil _, fun pos _ _ => ?_,
    List.forall_mem_nil _⟩
  have hzeros : bitOn new.mask.freebits pos = false := bitOn_zeros (by decide +kernel) pos
  rw [hzeros]
  exact iff_of_false Bool.false_ne_true List.not_mem_nil

end BitmaskUser

/-- The bitfields are kept in a run exactly if each is handed out off. -/
theorem bitfields_kept (calls : List BitmaskCall) :
    Runs.Throughout BitmaskUser.step BitmaskUser.new calls BitmaskUser.Kept ↔
      Runs.EachStep BitmaskUser.step BitmaskUser.new calls BitmaskUser.LowestOff :=
  Runs.throughout_iff BitmaskUser.consistent_new (fun h => h.kept)
    (fun h hoff hstep => h.step hoff hstep) (fun _ hon => BitmaskUser.breaks_of_on hon) calls

/-- A bitfield is set, given back and handed out again. -/
def setAndReused : List BitmaskCall :=
  [.allocate, .toggle (0, 1) true, .deallocate (0, 1), .allocate]

theorem reused_bitfield_on :
    ¬Runs.Throughout BitmaskUser.step BitmaskUser.new setAndReused BitmaskUser.Kept := by
  intro h
  have hrun : (Runs.run BitmaskUser.step BitmaskUser.new setAndReused).map
      (fun u => (u.outstanding, u.mask.get (0, 1))) = some ([((0, 1), false)], some true) := by
    decide +kernel
  obtain ⟨u, hu, heq⟩ := Option.map_eq_some_iff.1 hrun
  obtain ⟨houtstanding, hget⟩ : u.outstanding = [((0, 1), false)] ∧ u.mask.get (0, 1) = some true :=
    Prod.ext_iff.1 heq
  have hread := (h _ u (List.prefix_refl _) hu).reads ((0, 1), false)
    (houtstanding ▸ List.mem_singleton_self _)
  exact absurd (hget.symm.trans hread) (by decide)

end Hottpd
