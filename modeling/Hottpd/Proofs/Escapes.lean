import Hottpd.Proofs.Targets

/-!
# Escapes

The table of `unhexchar` has the sixteen digits right, so an escape of two digits
makes their byte. Two things a reader might not expect. A byte from 128 on is
negative as a `char` and dropped as unprintable. And a character between the
ranges of digits is looked up too, as -1: behind one of the digits 3 to 7 it makes
a printable byte, of which the one for 3 is the slash.
-/

namespace Hottpd

open Bytes

/-! ## Digits -/

/-- The value of a hexadecimal digit. -/
def hexDigit (c : UInt8) : Option Nat :=
  if 48 ≤ c ∧ c ≤ 57 then some (c.toNat - 48)
  else if 65 ≤ c ∧ c ≤ 70 then some (c.toNat - 55)
  else if 97 ≤ c ∧ c ≤ 102 then some (c.toNat - 87)
  else none

/-- The table has the digits right. -/
theorem hexLookup_digit : ∀ {c : UInt8} {n : Nat}, hexDigit c = some n →
    n < 16 ∧ 48 ≤ signed c ∧ signed c ≤ 102 ∧ hexLookup.getD (c.toNat - 48) 0 = n := by
  have hall : ∀ i : Fin 256, ∀ n, hexDigit (UInt8.ofNat i) = some n →
      n < 16 ∧ 48 ≤ signed (UInt8.ofNat i) ∧ signed (UInt8.ofNat i) ≤ 102 ∧
        hexLookup.getD ((UInt8.ofNat i).toNat - 48) 0 = n := by
    decide +kernel
  intro c n h
  have hc : UInt8.ofNat c.toNat = c := UInt8.ofNat_toNat
  have := hall ⟨c.toNat, c.toNat_lt⟩ n
  simp only [hc] at this
  exact this h

/-- Two digits make the byte they are the digits of. -/
theorem unhexchar_digits {v a b : UInt8} (ha : hexDigit a = some (v.toNat / 16))
    (hb : hexDigit b = some (v.toNat % 16)) : unhexchar a b = some v := by
  obtain ⟨-, halow, hahigh, hatable⟩ := hexLookup_digit ha
  obtain ⟨-, hblow, hbhigh, hbtable⟩ := hexLookup_digit hb
  have hbyte : toChar (((v.toNat / 16 : Nat) : Int) * 16 + ((v.toNat % 16 : Nat) : Int)) = v := by
    have hlt := v.toNat_lt
    have hsum : ((((v.toNat / 16 : Nat) : Int) * 16 + ((v.toNat % 16 : Nat) : Int)) % 256).toNat
        = v.toNat := by omega
    rw [toChar, hsum, UInt8.ofNat_toNat]
  rw [unhexchar, if_neg (by omega), hatable, hbtable, hbyte]

/-! ## PercentEncoded segments -/

/-- Every byte is written as a percent sign and two digits. -/
inductive PercentEncoded : Bytes → Bytes → Prop
  | nil : PercentEncoded [] []
  | cons {v a b : UInt8} {seg text : Bytes} : hexDigit a = some (v.toNat / 16) →
      hexDigit b = some (v.toNat % 16) → PercentEncoded seg text →
      PercentEncoded (v :: seg) (37 :: a :: b :: text)

/-- A segment that is not a dot name, of bytes that are printable but for those that are not
ASCII. -/
structure PlainSegment (seg : Bytes) : Prop where
  pushed : isPushed seg = true
  bytes : ∀ v ∈ seg, 32 ≤ v ∧ v ≠ 127 ∧ v ≠ slash

theorem signed_lt {v : UInt8} (h : 32 ≤ v) : signed v < 32 ↔ ¬v < 128 := by
  rw [UInt8.le_iff_toNat_le] at h
  rw [UInt8.lt_iff_toNat_lt, signed]
  have h32 : (32 : UInt8).toNat = 32 := rfl
  have h128 : (128 : UInt8).toNat = 128 := rfl
  have hlt := v.toNat_lt
  split
  · omega
  · omega

/-- Of an escaped segment the ASCII bytes come out. -/
theorem decodeTarget_escaped {seg text : Bytes} (rest : Bytes) (h : PercentEncoded seg text)
    (hbytes : ∀ v ∈ seg, 32 ≤ v ∧ v ≠ 127 ∧ v ≠ slash) :
    decodeTarget (text ++ rest) =
      (seg.filter (· < 128) ++ (decodeTarget rest).1, (decodeTarget rest).2) := by
  induction h with
  | nil => rfl
  | @cons v a b seg text ha hb _ ih =>
      obtain ⟨hlow, hdel, -⟩ := hbytes v List.mem_cons_self
      have hmore := ih fun w hw => hbytes w (List.mem_cons_of_mem v hw)
      have hescape : unescape a b = if v < 128 then some v else none := by
        rw [unescape, unhexchar_digits ha hb]
        dsimp only
        by_cases hascii : v < 128
        · rw [if_pos hascii, if_neg (not_or.2 ⟨fun h => (signed_lt hlow).1 h hascii, hdel⟩)]
        · rw [if_neg hascii, if_pos (Or.inl ((signed_lt hlow).2 hascii))]
      rw [List.cons_append, List.cons_append, List.cons_append, decodeTarget.eq_def]
      dsimp only
      rw [if_pos rfl, hescape, hmore]
      by_cases hascii : v < 128
      · rw [if_pos hascii, List.filter_cons_of_pos (by simpa using hascii)]
        rfl
      · rw [if_neg hascii, List.filter_cons_of_neg (by simpa using hascii)]

theorem decodeTarget_segments {segs texts : List Bytes} (h : List.Forall₂ PercentEncoded segs texts)
    (hsegs : ∀ seg ∈ segs, PlainSegment seg) :
    decodeTarget (List.intercalate [slash] texts)
      = (List.intercalate [slash] (segs.map (List.filter (· < 128))), none) := by
  induction h with
  | nil => rfl
  | @cons seg text segs texts hseg hmore ih =>
      have hbytes := (hsegs seg List.mem_cons_self).bytes
      have hrest := ih fun s hs => hsegs s (List.mem_cons_of_mem seg hs)
      cases hmore with
      | nil =>
          have hlast := decodeTarget_escaped [] hseg hbytes
          simpa [decodeTarget] using hlast
      | @cons seg' text' segs texts _ _ =>
          have hslash : decodeTarget (slash :: List.intercalate [slash] (text' :: texts)) =
              (slash :: (decodeTarget (List.intercalate [slash] (text' :: texts))).1,
                (decodeTarget (List.intercalate [slash] (text' :: texts))).2) := by
            rw [decodeTarget.eq_def]
            rfl
          have hjoin : List.intercalate [slash]
              ((seg :: seg' :: segs).map (List.filter (· < 128))) = seg.filter (· < 128)
                ++ slash :: List.intercalate [slash]
                  ((seg' :: segs).map (List.filter (· < 128))) := by
            rw [List.map_cons, List.intercalate_cons_of_ne_nil (by simp), List.append_assoc,
              List.singleton_append]
          rw [List.intercalate_cons_of_ne_nil (List.cons_ne_nil _ _), List.append_assoc,
            decodeTarget_escaped _ hseg hbytes, List.singleton_append, hslash, hrest, hjoin]

theorem mem_intercalate {v : UInt8} {ls : List Bytes} :
    v ∈ List.intercalate [slash] ls → v = slash ∨ ∃ l ∈ ls, v ∈ l := by
  induction ls with
  | nil => simp
  | cons l ls ih =>
      intro h
      cases ls with
      | nil =>
          rw [List.intercalate_singleton] at h
          exact Or.inr ⟨l, List.mem_cons_self, h⟩
      | cons l' ls =>
          rw [List.intercalate_cons_of_ne_nil (List.cons_ne_nil _ _), List.append_assoc] at h
          rcases List.mem_append.1 h with h | h
          · exact Or.inr ⟨l, List.mem_cons_self, h⟩
          · rcases List.mem_cons.1 h with h | h
            · exact Or.inl h
            · exact (ih h).imp_right fun hmore =>
                hmore.imp fun _ h => ⟨List.mem_cons_of_mem l h.1, h.2⟩

theorem mem_intercalate_of_mem {v : UInt8} {l : Bytes} (hv : v ∈ l) : ∀ {ls : List Bytes},
    l ∈ ls → v ∈ List.intercalate [slash] ls := by
  intro ls
  induction ls with
  | nil => intro h; cases h
  | cons l' ls ih =>
      intro h
      cases ls with
      | nil =>
          obtain rfl := List.mem_singleton.1 h
          rwa [List.intercalate_singleton]
      | cons l'' ls =>
          rw [List.intercalate_cons_of_ne_nil (List.cons_ne_nil _ _), List.append_assoc]
          rcases List.mem_cons.1 h with rfl | h
          · exact List.mem_append_left _ hv
          · exact List.mem_append_right _ (List.mem_cons_of_mem slash (ih h))

theorem mem_foldl_push {seg : Bytes} (segs : List Bytes) : ∀ {stack : List Bytes},
    seg ∈ segs.foldl pushSegment stack → seg ∈ stack ∨ seg ∈ segs := by
  induction segs with
  | nil => intro stack h; exact Or.inl h
  | cons next segs ih =>
      intro stack h
      rcases ih h with h | h
      · unfold pushSegment at h
        split at h
        · exact Or.inl h
        · split at h
          · exact Or.inl (List.mem_of_mem_dropLast h)
          · refine (List.mem_append.1 h).imp_right fun h => ?_
            obtain rfl := List.mem_singleton.1 h
            exact List.mem_cons_self
      · exact Or.inr (List.mem_cons_of_mem next h)

/-- Cleaning makes no new bytes. -/
theorem mem_cleanTarget {v : UInt8} {d : Bytes} (h : v ∈ cleanTarget d) : v = slash ∨ v ∈ d := by
  rcases List.mem_cons.1 h with h | h
  · exact Or.inl h
  · rcases List.mem_append.1 h with h | h
    · refine (mem_intercalate h).imp_right fun hseg => ?_
      obtain ⟨seg, hseg, hv⟩ := hseg
      rcases mem_foldl_push _ hseg with h | h
      · cases h
      · rw [← @List.intercalate_splitOn _ d _ _ slash]
        exact mem_intercalate_of_mem hv h
    · split at h
      · cases h
      · exact Or.inl (List.mem_singleton.1 h)

/-- Segments that are all pushed are joined again. -/
theorem cleanTarget_segments {segs : List Bytes} (hsegs : ∀ seg ∈ segs, isPushed seg = true)
    (hslash : ∀ seg ∈ segs, slash ∉ seg) :
    cleanTarget (List.intercalate [slash] segs) = slash :: List.intercalate [slash] segs := by
  have hfold : ∀ segs stack : List Bytes, (∀ seg ∈ segs, isPushed seg = true) →
      segs.foldl pushSegment stack = stack ++ segs := by
    intro segs
    induction segs with
    | nil => intro stack _; exact (List.append_nil stack).symm
    | cons seg segs ih =>
        intro stack h
        rw [List.foldl_cons, pushSegment_of_pushed (h seg List.mem_cons_self),
          ih _ fun s hs => h s (List.mem_cons_of_mem seg hs), List.append_assoc,
          List.singleton_append]
  rcases List.eq_nil_or_concat segs with rfl | ⟨init, last, rfl⟩
  · decide
  · rw [List.concat_eq_append] at hsegs hslash ⊢
    have hsplit : (List.intercalate [slash] (init ++ [last])).splitOn slash = init ++ [last] :=
      List.splitOn_intercalate slash hslash (by simp)
    have hlast : isPushed last = true := hsegs last (by simp)
    have hstack : resolve (List.intercalate [slash] (init ++ [last])) = init ++ [last] := by
      rw [resolve, hsplit, hfold _ [] hsegs, List.nil_append]
    simp [cleanTarget, hstack, hsplit, hlast]

/-- Segments that are escaped byte by byte come out of `HandleURI` as they are if and only if
all of their bytes are ASCII. -/
theorem escaped_restored {segs texts : List Bytes} (hsegs : ∀ seg ∈ segs, PlainSegment seg)
    (hescaped : List.Forall₂ PercentEncoded segs texts) (uriquery : Bytes) :
    (handleURI (slash :: List.intercalate [slash] texts) uriquery).1
        = slash :: List.intercalate [slash] segs ↔
      ∀ seg ∈ segs, ∀ v ∈ seg, v < 128 := by
  rw [(handleURI_cleans _ uriquery).1, decodeTarget_segments hescaped hsegs]
  dsimp only
  constructor
  · intro h seg hseg v hv
    have hmem : v ∈ cleanTarget
        (List.intercalate [slash] (segs.map (List.filter (· < 128)))) := by
      rw [h]
      exact List.mem_cons_of_mem slash (mem_intercalate_of_mem hv hseg)
    have hslash : slash < 128 := by decide
    rcases mem_cleanTarget hmem with rfl | hmem
    · exact hslash
    · rcases mem_intercalate hmem with rfl | ⟨seg', hseg', hv'⟩
      · exact hslash
      · obtain ⟨seg'', -, rfl⟩ := List.mem_map.1 hseg'
        simpa using (List.mem_filter.1 hv').2
  · intro h
    have hfilter : segs.map (List.filter (· < 128)) = segs := by
      refine (List.map_congr_left fun seg hseg => ?_).trans (List.map_id segs)
      exact List.filter_eq_self.2 fun v hv => by simpa using h seg hseg v hv
    rw [hfilter]
    exact cleanTarget_segments (fun seg hseg => (hsegs seg hseg).pushed)
      fun seg hseg hmem => ((hsegs seg hseg).bytes slash hmem).2.2 rfl

theorem escaped_restored_ascii :
    (handleURI (str "/%61") []).1 = str "/a" :=
  (@escaped_restored [str "a"] [str "%61"]
    (fun seg hseg => by
      obtain rfl := List.mem_singleton.1 hseg
      exact ⟨by decide +kernel, by decide +kernel⟩)
    (.cons (.cons (by decide) (by decide +kernel) .nil) .nil) []).2 (by decide +kernel)

/-- The two bytes of an e with an acute accent are dropped. -/
theorem accent_dropped :
    PercentEncoded [195, 169] (str "%c3%A9") ∧ PlainSegment [195, 169] ∧
      (handleURI (slash :: str "%c3%A9") []).1 = [slash] := by
  refine ⟨.cons (by decide) (by decide +kernel) (.cons (by decide) (by decide +kernel) .nil),
    ⟨by decide +kernel, by decide +kernel⟩, by decide +kernel⟩

/-! ## Malformed escapes -/

def isHex (c : UInt8) : Bool := (hexDigit c).isSome

/-- The target without the percent signs that two digits do not follow, and the two
characters that do. -/
def dropMalformed : Bytes → Bytes
  | [] => []
  | c :: rest =>
      if c = 37 then
        match rest with
        | a :: b :: rest =>
            if isHex a ∧ isHex b then 37 :: a :: b :: dropMalformed rest
            else dropMalformed rest
        | _ => 37 :: rest
      else c :: dropMalformed rest

/-- The escapes up to where the target is cut. -/
def metEscapes : Bytes → List (UInt8 × UInt8)
  | [] => []
  | c :: rest =>
      if c = 37 then
        match rest with
        | a :: b :: rest => (a, b) :: metEscapes rest
        | _ => []
      else if c = 0 ∨ c = 63 ∨ c = 35 then []
      else metEscapes rest

/-- One of the digits 3 to 7, and a character between the digits and the letters, or between
the two cases. -/
def Slips (a b : UInt8) : Prop := (51 ≤ a ∧ a ≤ 55) ∧ (58 ≤ b ∧ b ≤ 64 ∨ 71 ≤ b ∧ b ≤ 96)

instance (a b : UInt8) : Decidable (Slips a b) := inferInstanceAs (Decidable (_ ∧ _))

/-- The only malformed escapes that make a byte. -/
theorem unescape_malformed {a b : UInt8} (h : ¬(isHex a = true ∧ isHex b = true)) :
    unescape a b = none ↔ ¬Slips a b := by
  have htable : ∀ i j : Fin 55, ¬(isHex (UInt8.ofNat (48 + i)) = true ∧
      isHex (UInt8.ofNat (48 + j)) = true) →
      (unescape (UInt8.ofNat (48 + i)) (UInt8.ofNat (48 + j)) = none ↔
        ¬Slips (UInt8.ofNat (48 + i)) (UInt8.ofNat (48 + j))) := by
    decide +kernel
  have hbyte : ∀ c : UInt8, 48 ≤ c.toNat → c.toNat ≤ 102 →
      ∃ i : Fin 55, UInt8.ofNat (48 + i) = c := by
    intro c hlow hhigh
    refine ⟨⟨c.toNat - 48, by omega⟩, ?_⟩
    rw [show 48 + (c.toNat - 48) = c.toNat by omega, UInt8.ofNat_toNat]
  by_cases hrange : (48 ≤ a.toNat ∧ a.toNat ≤ 102) ∧ 48 ≤ b.toNat ∧ b.toNat ≤ 102
  · obtain ⟨⟨halow, hahigh⟩, hblow, hbhigh⟩ := hrange
    obtain ⟨i, rfl⟩ := hbyte a halow hahigh
    obtain ⟨j, rfl⟩ := hbyte b hblow hbhigh
    exact htable i j h
  · have hsigned : ∀ c : UInt8, ¬(48 ≤ c.toNat ∧ c.toNat ≤ 102) →
        signed c < 48 ∨ signed c > 102 := by
      intro c hc
      have hlt := c.toNat_lt
      unfold signed
      split
      · omega
      · omega
    have hnone : unhexchar a b = none := by
      rw [unhexchar, if_pos]
      rcases not_and_or.1 hrange with ha | hb
      · rcases hsigned a ha with h | h
        · exact Or.inr (Or.inr (Or.inl h))
        · exact Or.inr (Or.inr (Or.inr h))
      · rcases hsigned b hb with h | h
        · exact Or.inl h
        · exact Or.inr (Or.inl h)
    refine iff_of_true (by rw [unescape, hnone]) fun hslips => hrange ?_
    obtain ⟨⟨halow, hahigh⟩, hb⟩ := hslips
    simp only [UInt8.le_iff_toNat_le] at halow hahigh hb
    have h51 : (51 : UInt8).toNat = 51 := rfl
    have h55 : (55 : UInt8).toNat = 55 := rfl
    have h58 : (58 : UInt8).toNat = 58 := rfl
    have h64 : (64 : UInt8).toNat = 64 := rfl
    have h71 : (71 : UInt8).toNat = 71 := rfl
    have h96 : (96 : UInt8).toNat = 96 := rfl
    omega

theorem Slips.not_hex {a b : UInt8} (h : Slips a b) : ¬(isHex a = true ∧ isHex b = true) := by
  rintro ⟨-, hb⟩
  obtain ⟨-, hgap⟩ := h
  obtain ⟨n, hn⟩ := Option.isSome_iff_exists.1 hb
  have hdigit : ∀ i : Fin 256, (58 ≤ UInt8.ofNat i ∧ UInt8.ofNat i ≤ 64
      ∨ 71 ≤ UInt8.ofNat i ∧ UInt8.ofNat i ≤ 96) → hexDigit (UInt8.ofNat i) = none := by
    decide +kernel
  have hnone := hdigit ⟨b.toNat, b.toNat_lt⟩
  simp only [UInt8.ofNat_toNat] at hnone
  rw [hnone hgap] at hn
  cases hn

section Decoding

variable {a b c v : UInt8} {rest : Bytes}

theorem decodeTarget_silent (h : unescape a b = none) :
    decodeTarget (37 :: a :: b :: rest) = decodeTarget rest := by
  rw [decodeTarget.eq_def]
  simp only [if_true, h]

theorem decodeTarget_escape (h : unescape a b = some v) :
    decodeTarget (37 :: a :: b :: rest) = (v :: (decodeTarget rest).1, (decodeTarget rest).2) := by
  rw [decodeTarget.eq_def]
  simp only [if_true, h]

/-- A byte that the target is not cut at stands for itself. -/
theorem decodeTarget_byte (hpercent : c ≠ 37) (hcut : ¬(c = 0 ∨ c = 63 ∨ c = 35)) :
    decodeTarget (c :: rest) = (c :: (decodeTarget rest).1, (decodeTarget rest).2) := by
  obtain ⟨hnul, hmore⟩ := not_or.1 hcut
  obtain ⟨hquery, hhash⟩ := not_or.1 hmore
  rw [decodeTarget.eq_def]
  dsimp only
  rw [if_neg hpercent, if_neg hnul, if_neg hquery, if_neg hhash]

theorem decodeTarget_cut (hpercent : c ≠ 37) (hcut : c = 0 ∨ c = 63 ∨ c = 35) :
    (decodeTarget (c :: rest)).1 = [] := by
  rw [decodeTarget.eq_def]
  dsimp only
  rw [if_neg hpercent]
  rcases hcut with h | h | h
  · rw [if_pos h]
  · rw [if_neg (by rw [h]; decide), if_pos h]
  · rw [if_neg (by rw [h]; decide), if_neg (by rw [h]; decide), if_pos h]

end Decoding

theorem metEscapes_cons (a b : UInt8) (rest : Bytes) :
    metEscapes (37 :: a :: b :: rest) = (a, b) :: metEscapes rest := by
  rw [metEscapes.eq_def]
  rfl

/-- What the malformed escapes add to the target is a byte for each that slips. -/
theorem decodeTarget_dropMalformed (target : Bytes) :
    (decodeTarget (dropMalformed target)).1.Sublist (decodeTarget target).1 ∧
      (decodeTarget target).1.length = (decodeTarget (dropMalformed target)).1.length
        + (metEscapes target).countP fun e => Slips e.1 e.2 := by
  fun_induction dropMalformed target with
  | case1 => exact ⟨List.Sublist.refl _, rfl⟩
  | case2 a b rest hhex ih =>
      obtain ⟨hsub, hlen⟩ := ih
      have hno : ¬Slips a b := fun h => Slips.not_hex h hhex
      rw [metEscapes_cons, List.countP_cons_of_neg (by simpa using hno)]
      cases hescape : unescape a b with
      | none =>
          rw [decodeTarget_silent hescape, decodeTarget_silent hescape]
          exact ⟨hsub, hlen⟩
      | some v =>
          rw [decodeTarget_escape hescape, decodeTarget_escape hescape]
          refine ⟨hsub.cons_cons v, ?_⟩
          rw [List.length_cons, List.length_cons, hlen]
          omega
  | case3 a b rest hhex ih =>
      obtain ⟨hsub, hlen⟩ := ih
      rw [metEscapes_cons]
      cases hescape : unescape a b with
      | none =>
          have hno := (unescape_malformed hhex).1 hescape
          rw [decodeTarget_silent hescape, List.countP_cons_of_neg (by simpa using hno)]
          exact ⟨hsub, hlen⟩
      | some v =>
          have hslips : Slips a b := by
            by_contra hno
            rw [(unescape_malformed hhex).2 hno] at hescape
            cases hescape
          rw [decodeTarget_escape hescape, List.countP_cons_of_pos (by simpa using hslips)]
          refine ⟨hsub.cons v, ?_⟩
          rw [List.length_cons, hlen]
          omega
  | case4 rest hshort =>
      have hmet : metEscapes (37 :: rest) = [] := by
        rw [metEscapes.eq_def]
        dsimp only
        rw [if_pos rfl]
        split
        · next a b rest' => exact absurd rfl (hshort a b rest')
        · rfl
      rw [hmet]
      exact ⟨List.Sublist.refl _, rfl⟩
  | case5 c rest hpercent ih =>
      have hmet : metEscapes (c :: rest)
          = if c = 0 ∨ c = 63 ∨ c = 35 then [] else metEscapes rest := by
        rw [metEscapes.eq_def]
        dsimp only
        rw [if_neg hpercent]
      obtain ⟨hsub, hlen⟩ := ih
      rw [hmet]
      by_cases hcut : c = 0 ∨ c = 63 ∨ c = 35
      · rw [if_pos hcut, decodeTarget_cut hpercent hcut, decodeTarget_cut hpercent hcut]
        exact ⟨List.Sublist.refl _, rfl⟩
      · rw [if_neg hcut, decodeTarget_byte hpercent hcut, decodeTarget_byte hpercent hcut]
        refine ⟨hsub.cons_cons c, ?_⟩
        rw [List.length_cons, List.length_cons, hlen]
        omega

/-- Malformed escapes contribute nothing, no byte and nothing else to the cleaned target, if
and only if none of those that are met slips. -/
theorem malformed_dropped (target uriquery : Bytes) :
    ((decodeTarget target).1 = (decodeTarget (dropMalformed target)).1 ∧
        (handleURI (slash :: target) uriquery).1
          = (handleURI (slash :: dropMalformed target) uriquery).1) ↔
      ∀ e ∈ metEscapes target, ¬Slips e.1 e.2 := by
  obtain ⟨hsub, hlen⟩ := decodeTarget_dropMalformed target
  have hcount : ((metEscapes target).countP fun e => Slips e.1 e.2) = 0 ↔
      ∀ e ∈ metEscapes target, ¬Slips e.1 e.2 := by
    rw [List.countP_eq_zero]
    simp
  rw [← hcount]
  constructor
  · rintro ⟨hsame, -⟩
    rw [hsame] at hlen
    omega
  · intro hzero
    have hsame := hsub.eq_of_length (by omega)
    refine ⟨hsame.symm, ?_⟩
    rw [(handleURI_cleans _ uriquery).1, (handleURI_cleans _ uriquery).1, hsame]

/-- A colon behind a 3 makes a slash. -/
theorem malformed_separates :
    (handleURI (str "/a%3:b") []).1 = str "/a/b" ∧
      (handleURI (slash :: dropMalformed (str "a%3:b")) []).1 = str "/ab" := by
  decide +kernel

end Hottpd
