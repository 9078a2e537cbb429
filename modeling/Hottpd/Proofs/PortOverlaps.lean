import Hottpd.Lib.Trace
import Hottpd.Proofs.PortText
import Hottpd.Proofs.ConfigNumbers

/-!
# Port texts with overlaps tracked

A parser that tracks overlaps records each port it looks at and passes over the ones
recorded already, so no port is returned twice. But it looks at more than it returns.
A range whose first port has been recorded is passed over as a whole. And a loop that
finds the rest of a range recorded looks at the port behind it, which is recorded then
without being returned.
-/

namespace Hottpd

open Bytes

/-! ## The words -/

/-- A token is there exactly if the call says that there are more. -/
theorem SepStream.getToken_more {s : SepStream} (h : s.getToken.1 ≠ []) :
    s.getToken.2.1 = true := by
  revert h
  rw [getToken]
  split
  · exact fun h => absurd rfl h
  · next n hn =>
      dsimp only
      intro htoken
      rw [if_neg htoken]
      refine decide_eq_true ?_
      split <;> omega

theorem SepStream.getToken_end_more {s : SepStream} (h : SepStream.Left [] s) :
    s.getToken.2.1 = false := by
  have htoken := SepStream.getToken_end h
  revert htoken
  cases h with
  | done hn =>
      rw [getToken, hn, List.drop_length]
      exact fun _ => rfl
  | last hlast hn =>
      have hlt : s.n < s.tokens.length := by omega
      have hstop : stopFrom s.sep s.n (s.tokens.drop s.n) = some s.n := by
        rw [List.drop_eq_getElem_cons hlt, List.drop_eq_nil_of_le (by omega), stopFrom,
          if_pos (Or.inr rfl)]
      rw [getToken, hstop]
      dsimp only
      intro htoken
      rw [if_pos htoken, if_pos hn, hn]
      exact decide_eq_false fun hne => hne rfl

theorem joinWords_length {ws : List Bytes} (h : ∀ w ∈ ws, IsWord w) :
    ws.length ≤ (joinWords ws).length := by
  induction ws with
  | nil => exact Nat.zero_le _
  | cons w ws ih =>
      have hpos := List.length_pos_iff.2 (h w List.mem_cons_self).ne_nil
      have hrest := ih fun w hw => h w (List.mem_cons_of_mem _ hw)
      cases ws with
      | nil => exact hpos
      | cons w' ws =>
          have hcomma : (44 :: joinWords (w' :: ws)).length = (joinWords (w' :: ws)).length + 1 :=
            List.length_cons
          rw [joinWords, List.length_append, List.length_cons, hcomma]
          omega

theorem SepStream.Left.length_le {ws : List Bytes} {s : SepStream} (h : SepStream.Left ws s)
    (hws : ∀ w ∈ ws, IsWord w) : ws.length ≤ s.tokens.length := by
  cases h with
  | word =>
      have := joinWords_length hws
      rw [List.length_append]
      omega
  | last | done => exact Nat.zero_le _

theorem PortItem.Legal.inBounds {item : PortItem} (h : item.Legal) : item.InBounds :=
  h.wellFormed.inBounds

theorem PortItem.Legal.atoi {item : PortItem} (h : item.Legal) :
    atoiInt item.text = item.first := by
  cases item with
  | one d => exact IsNumber.atoi h
  | range first last =>
      have hfirst : IsNumber first := h.1
      have hle := hfirst.le
      exact atoiInt_numeral ⟨hfirst.ne_nil, hfirst.all⟩ rfl (by omega)

theorem mem_upTo {first last v : Int} : v ∈ upTo first last ↔ first ≤ v ∧ v ≤ last := by
  rw [upTo, List.mem_map]
  constructor
  · rintro ⟨i, hi, rfl⟩
    rw [List.mem_range] at hi
    omega
  · rintro ⟨hfirst, hlast⟩
    exact ⟨(v - first).toNat, List.mem_range.2 (by omega), by omega⟩

theorem nodup_upTo (first last : Int) : (upTo first last).Nodup := by
  refine List.Pairwise.map _ ?_ List.nodup_range
  intro i j hne heq
  have hadd : first + (i : Int) = first + j := heq
  omega

theorem PortItem.Legal.ports_eq {item : PortItem} (h : item.Legal) :
    item.ports = upTo item.first item.last := by
  cases item with
  | one d => rw [ports, first, last, upTo_cons le_rfl, upTo_nil (by omega)]
  | range first last => rfl

theorem PortItem.Legal.first_le {item : PortItem} (h : item.Legal) :
    0 < item.first ∧ item.first ≤ item.last := by
  cases item with
  | one d =>
      have hpos := IsNumber.pos h
      rw [first, last]
      omega
  | range first last =>
      obtain ⟨hfirst, -, hlt⟩ := h
      have hpos := hfirst.pos
      rw [PortItem.first, PortItem.last]
      omega

/-! ## Words that are passed over -/

namespace PortParser

/-- The parser tracks overlaps and has these items left, behind the range it may be in. -/
structure Tracking (items : List PortItem) (p : PortParser) : Prop where
  tracks : p.overlapped = true
  left : SepStream.Left (items.map PortItem.text) p.sep

/-- No port of a range is left. -/
def OffRange (p : PortParser) : Prop := 0 < p.inRange → p.rangeEnd < p.inRange + 1

variable {p : PortParser}

theorem offRange_outOfRange (p : PortParser) : p.outOfRange.OffRange := by
  intro hin
  rw [PortParser.outOfRange] at hin ⊢
  dsimp only at hin ⊢
  split at hin
  · omega
  · next hneg => exact absurd hin hneg

theorem overlaps_seen {val : Int} (h : val ∈ p.overlapSet) (htracks : p.overlapped = true) :
    p.overlaps val = (true, p) := by
  rw [overlaps, if_neg (by simp [htracks]), if_pos h]

theorem overlaps_new {val : Int} (h : val ∉ p.overlapSet) (htracks : p.overlapped = true) :
    p.overlaps val = (false, { p with overlapSet := val :: p.overlapSet }) := by
  rw [overlaps, if_neg (by simp [htracks]), if_neg h]

theorem skipWords_new {item : PortItem} (hlegal : item.Legal) (htracks : p.overlapped = true)
    (h : item.first ∉ p.overlapSet) (fuel : Nat) : p.skipWords (fuel + 1) item.text =
      (some item.text, { p with overlapSet := item.first :: p.overlapSet }) := by
  rw [skipWords, hlegal.atoi, overlaps_new h htracks]
  rfl

theorem skipWords_seen {item : PortItem} (hlegal : item.Legal) (htracks : p.overlapped = true)
    (h : item.first ∈ p.overlapSet) (fuel : Nat) : p.skipWords (fuel + 1) item.text =
      if p.sep.getToken.2.1 then
        skipWords fuel p.sep.getToken.1 { p with sep := p.sep.getToken.2.2 }
      else (none, { p with sep := p.sep.getToken.2.2 }) := by
  rw [skipWords, hlegal.atoi, overlaps_seen h htracks]
  rfl

theorem Tracking.word {item : PortItem} {items : List PortItem} (h : p.Tracking (item :: items))
    (hlegal : ∀ i ∈ item :: items, i.Legal) : p.sep.getToken.1 = item.text ∧
      Tracking items { p with sep := p.sep.getToken.2.2 } := by
  obtain ⟨hword, hleft⟩ := SepStream.getToken_word h.left
    (hlegal item List.mem_cons_self).inBounds.isWord fun w hw => by
      obtain ⟨i, hi, rfl⟩ := List.mem_map.1 hw
      exact (hlegal i (List.mem_cons_of_mem _ hi)).inBounds.isWord
  exact ⟨hword, h.tracks, hleft⟩

/-- All words left are passed over. -/
theorem skipWords_none {items : List PortItem} : ∀ {item : PortItem} {p : PortParser} {fuel : Nat},
    (∀ i ∈ item :: items, i.Legal) → p.Tracking items → items.length < fuel →
    (∀ i ∈ item :: items, i.first ∈ p.overlapSet) → (p.skipWords fuel item.text).1 = none := by
  induction items with
  | nil =>
      intro item p fuel hlegal h hfuel hseen
      obtain ⟨fuel, rfl⟩ := Nat.exists_eq_succ_of_ne_zero (Nat.ne_of_gt hfuel)
      rw [skipWords_seen (hlegal item List.mem_cons_self) h.tracks
        (hseen item List.mem_cons_self), SepStream.getToken_end_more h.left]
      rfl
  | cons next items ih =>
      intro item p fuel hlegal h hfuel hseen
      obtain ⟨fuel, rfl⟩ := Nat.exists_eq_succ_of_ne_zero (Nat.ne_zero_of_lt hfuel)
      rw [List.length_cons] at hfuel
      have hnext : ∀ i ∈ next :: items, i.Legal := fun i hi => hlegal i (List.mem_cons_of_mem _ hi)
      obtain ⟨hword, htracking⟩ := h.word hnext
      have hmore : p.sep.getToken.2.1 = true := SepStream.getToken_more
        (hword ▸ (hnext next List.mem_cons_self).inBounds.isWord.ne_nil)
      rw [skipWords_seen (hlegal item List.mem_cons_self) h.tracks
        (hseen item List.mem_cons_self), hmore, if_pos rfl, hword]
      exact ih hnext htracking (by omega) fun i hi => hseen i (List.mem_cons_of_mem _ hi)

/-- The words in front of the first item that is new are passed over. -/
theorem skipWords_some {skipped : List PortItem} {item : PortItem} {items : List PortItem} :
    ∀ {x : Bytes} {p : PortParser} {fuel : Nat} {head : PortItem} {rest : List PortItem},
    skipped ++ item :: items = head :: rest → x = head.text →
    (∀ i ∈ skipped ++ item :: items, i.Legal) → p.Tracking rest → rest.length < fuel →
    (∀ i ∈ skipped, i.first ∈ p.overlapSet) → item.first ∉ p.overlapSet →
    ∃ sep, SepStream.Left (items.map PortItem.text) sep ∧ p.skipWords fuel x =
      (some item.text, { p with sep := sep, overlapSet := item.first :: p.overlapSet }) := by
  induction skipped with
  | nil =>
      intro x p fuel head rest heq hx hlegal h hfuel _ hnew
      cases heq
      obtain ⟨fuel, rfl⟩ := Nat.exists_eq_succ_of_ne_zero (Nat.ne_zero_of_lt hfuel)
      refine ⟨p.sep, h.left, ?_⟩
      rw [hx, skipWords_new (hlegal item List.mem_cons_self) h.tracks hnew]
  | cons first skipped ih =>
      intro x p fuel head rest heq hx hlegal h hfuel hseen hnew
      rw [List.cons_append] at heq
      obtain ⟨rfl, rfl⟩ := List.cons.inj heq
      obtain ⟨fuel, rfl⟩ := Nat.exists_eq_succ_of_ne_zero (Nat.ne_zero_of_lt hfuel)
      have hrest : ∀ i ∈ skipped ++ item :: items, i.Legal :=
        fun i hi => hlegal i (List.mem_cons_of_mem _ hi)
      obtain ⟨next, rest, hcons⟩ : ∃ next rest, skipped ++ item :: items = next :: rest :=
        List.exists_cons_of_ne_nil (by simp)
      rw [hcons] at h hfuel
      rw [List.length_cons] at hfuel
      have hnext : ∀ i ∈ next :: rest, i.Legal := hcons ▸ hrest
      obtain ⟨hword, htracking⟩ := h.word hnext
      have hmore : p.sep.getToken.2.1 = true := SepStream.getToken_more
        (hword ▸ (hnext next List.mem_cons_self).inBounds.isWord.ne_nil)
      rw [hx, skipWords_seen (hlegal first List.mem_cons_self) h.tracks
        (hseen first List.mem_cons_self), hmore, if_pos rfl]
      exact ih hcons hword hrest htracking (by omega)
        (fun i hi => hseen i (List.mem_cons_of_mem _ hi)) hnew

/-! ## A new word -/

theorem nextWord_of_skipWords {q : PortParser} {item : PortItem} (hlegal : item.Legal)
    (hword : p.sep.getToken.1 ≠ [])
    (hskip : skipWords (p.sep.getToken.2.2.tokens.length + 1) p.sep.getToken.1
      { p with sep := p.sep.getToken.2.2 } = (some item.text, q)) :
    p.nextWord = (item.first, item.enter q) := by
  cases item with
  | one d => exact nextWord_one_of_skipWords hlegal hword hskip
  | range first last =>
      obtain ⟨hfirst, hlast, hlt⟩ := hlegal
      rw [nextWord_range_of_skipWords hfirst hlast hword hskip, if_pos hlt]
      rfl

/-- The first item that is new, with those passed over in front of it; or none is. -/
theorem first_new (seen : List Int) (items : List PortItem) :
    (∀ i ∈ items, i.first ∈ seen) ∨ ∃ skipped item rest, items = skipped ++ item :: rest ∧
      (∀ i ∈ skipped, i.first ∈ seen) ∧ item.first ∉ seen := by
  induction items with
  | nil => exact Or.inl (List.forall_mem_nil _)
  | cons item items ih =>
      by_cases hitem : item.first ∈ seen
      · rcases ih with hall | ⟨skipped, new, rest, rfl, hskipped, hnew⟩
        · exact Or.inl (List.forall_mem_cons.2 ⟨hitem, hall⟩)
        · exact Or.inr ⟨item :: skipped, new, rest, rfl,
            List.forall_mem_cons.2 ⟨hitem, hskipped⟩, hnew⟩
      · exact Or.inr ⟨[], item, items, rfl, List.forall_mem_nil _, hitem⟩

theorem Tracking.nextWord_end {items : List PortItem} (h : p.Tracking items)
    (hlegal : ∀ i ∈ items, i.Legal) (hseen : ∀ i ∈ items, i.first ∈ p.overlapSet) :
    p.nextWord.1 = 0 := by
  rw [nextWord]
  dsimp only
  cases items with
  | nil =>
      rw [if_pos (SepStream.getToken_end h.left)]
  | cons item items =>
      obtain ⟨hword, htracking⟩ := h.word hlegal
      have hne : p.sep.getToken.1 ≠ [] :=
        hword ▸ (hlegal item List.mem_cons_self).inBounds.isWord.ne_nil
      have hlength : items.length ≤ p.sep.getToken.2.2.tokens.length := by
        have hle := htracking.left.length_le fun w hw => by
          obtain ⟨i, hi, rfl⟩ := List.mem_map.1 hw
          exact (hlegal i (List.mem_cons_of_mem _ hi)).inBounds.isWord
        rwa [List.length_map] at hle
      have hnone := skipWords_none hlegal htracking (Nat.lt_succ_of_le hlength) hseen
      rw [if_neg hne, hword]
      revert hnone
      generalize skipWords _ item.text _ = r
      obtain ⟨x, q⟩ := r
      rintro rfl
      rfl

theorem Tracking.nextWord_new {skipped items : List PortItem} {item : PortItem}
    (h : p.Tracking (skipped ++ item :: items)) (hlegal : ∀ i ∈ skipped ++ item :: items, i.Legal)
    (hseen : ∀ i ∈ skipped, i.first ∈ p.overlapSet) (hnew : item.first ∉ p.overlapSet) :
    ∃ sep, SepStream.Left (items.map PortItem.text) sep ∧ p.nextWord =
      (item.first, item.enter { p with sep := sep, overlapSet := item.first :: p.overlapSet }) := by
  obtain ⟨head, rest, hcons⟩ : ∃ head rest, skipped ++ item :: items = head :: rest :=
    List.exists_cons_of_ne_nil (by simp)
  rw [hcons] at h
  have hhead : ∀ i ∈ head :: rest, i.Legal := hcons ▸ hlegal
  obtain ⟨hword, htracking⟩ := h.word hhead
  have hlength : rest.length ≤ p.sep.getToken.2.2.tokens.length := by
    have hle := htracking.left.length_le fun w hw => by
      obtain ⟨i, hi, rfl⟩ := List.mem_map.1 hw
      exact (hhead i (List.mem_cons_of_mem _ hi)).inBounds.isWord
    rwa [List.length_map] at hle
  obtain ⟨sep, hleft, hskip⟩ := skipWords_some hcons hword hlegal htracking
    (Nat.lt_succ_of_le hlength) hseen hnew
  refine ⟨sep, hleft, ?_⟩
  exact nextWord_of_skipWords (hlegal item (by simp))
    (hword ▸ (hhead head List.mem_cons_self).inBounds.isWord.ne_nil) hskip

/-! ## Through a range -/

/-- What has been recorded when nothing of a range is new, from some port on to its end. -/
def recordBehind (seen : List Int) (last : Int) : List Int :=
  if last + 1 ∈ seen then seen else (last + 1) :: seen

theorem getToken_new (htracks : p.overlapped = true) (hpos : 0 < p.inRange)
    (hmore : p.inRange + 1 ≤ p.rangeEnd) (hnew : p.inRange + 1 ∉ p.overlapSet) :
    p.getToken = (p.inRange + 1, { p with
      inRange := p.inRange + 1
      overlapSet := (p.inRange + 1) :: p.overlapSet }) := by
  rw [getToken, if_pos hpos]
  dsimp only
  rw [if_pos hmore, overlaps_new (p := { p with inRange := p.inRange + 1 }) hnew htracks]
  rfl

theorem skipRange_seen (htracks : p.overlapped = true) (hseen : p.inRange ∈ p.overlapSet)
    (hend : p.inRange ≤ p.rangeEnd) (fuel : Nat) :
    p.skipRange (fuel + 1) = skipRange fuel { p with inRange := p.inRange + 1 } := by
  rw [skipRange, overlaps_seen hseen htracks]
  exact if_pos ⟨rfl, hend⟩

/-- A port passed over in the midst of a range: the call goes on as it would from there. -/
theorem getToken_seen (htracks : p.overlapped = true) (hpos : 0 < p.inRange)
    (hmore : p.inRange + 1 < p.rangeEnd) (hseen : p.inRange + 1 ∈ p.overlapSet) :
    p.getToken = getToken { p with inRange := p.inRange + 1 } := by
  have hfuel : (p.rangeEnd - (p.inRange + 1)).toNat + 2
      = (p.rangeEnd - (p.inRange + 1 + 1)).toNat + 2 + 1 := by omega
  rw [getToken, getToken, if_pos hpos, if_pos (show 0 < p.inRange + 1 by omega)]
  dsimp only
  rw [if_pos hmore.le, if_pos (show p.inRange + 1 + 1 ≤ p.rangeEnd by omega),
    overlaps_seen (p := { p with inRange := p.inRange + 1 }) hseen htracks]
  dsimp only
  rw [if_neg Bool.noConfusion, hfuel,
    skipRange_seen (p := { p with inRange := p.inRange + 1 }) htracks hseen hmore.le]
  dsimp only
  by_cases hnext : p.inRange + 1 + 1 ∈ p.overlapSet
  · rw [overlaps_seen (p := { p with inRange := p.inRange + 1 + 1 }) hnext htracks]
    rfl
  · rw [overlaps_new (p := { p with inRange := p.inRange + 1 + 1 }) hnext htracks, skipRange,
      overlaps_new (p := { p with inRange := p.inRange + 1 + 1 }) hnext htracks]
    exact if_pos hmore

/-- The last port of a range is passed over, and the port behind it is recorded. -/
theorem getToken_last (htracks : p.overlapped = true) (hpos : 0 < p.inRange)
    (hmore : p.inRange + 1 = p.rangeEnd) (hseen : p.rangeEnd ∈ p.overlapSet) :
    p.getToken = nextWord { p with
      inRange := p.rangeEnd + 1
      overlapSet := recordBehind p.overlapSet p.rangeEnd } := by
  have hfuel : (p.rangeEnd - p.rangeEnd).toNat + 2 = 1 + 1 := by omega
  rw [getToken, if_pos hpos]
  dsimp only
  rw [hmore, if_pos le_rfl, overlaps_seen (p := { p with inRange := p.rangeEnd }) hseen htracks]
  dsimp only
  rw [if_neg Bool.noConfusion, hfuel,
    skipRange_seen (p := { p with inRange := p.rangeEnd }) htracks hseen le_rfl]
  have hover : ¬p.rangeEnd + 1 ≤ p.rangeEnd := by omega
  dsimp only
  rw [skipRange, recordBehind]
  by_cases hnext : p.rangeEnd + 1 ∈ p.overlapSet
  · rw [overlaps_seen (p := { p with inRange := p.rangeEnd + 1 }) hnext htracks, if_pos hnext]
    simp only [hover, and_false, if_false]
  · rw [overlaps_new (p := { p with inRange := p.rangeEnd + 1 }) hnext htracks, if_neg hnext]
    simp only [hover, and_false, if_false]

/-! ## All calls -/

/-- The ports among these that are not recorded. -/
def fresh (seen ports : List Int) : List Int := ports.filter (· ∉ seen)

/-- What is recorded when a range has been gone through from behind `v` on. -/
def recordRange (seen : List Int) (v last : Int) : List Int :=
  let seen' := (fresh seen (upTo (v + 1) last)).reverse ++ seen
  if v < last ∧ last ∈ seen then recordBehind seen' last else seen'

/-- What the calls return for these items. -/
def returned (seen : List Int) : List PortItem → List Int
  | [] => []
  | item :: items =>
      if item.first ∈ seen then returned seen items
      else item.first :: (fresh (item.first :: seen) (upTo (item.first + 1) item.last)
        ++ returned (recordRange (item.first :: seen) item.first item.last) items)

/-- The result of a call, and the results of those behind it. -/
inductive ReadsFrom : Int × PortParser → List Int → Prop where
  | done (p : PortParser) : ReadsFrom (0, p) []
  | next {port : Int} {p : PortParser} {ports : List Int} (hne : port ≠ 0)
      (hrest : p.Reads ports) : ReadsFrom (port, p) (port :: ports)

theorem reads_iff {ports : List Int} : p.Reads ports ↔ ReadsFrom p.getToken ports := by
  constructor
  · intro h
    cases h with
    | done h =>
        rw [← Prod.eta p.getToken, h]
        exact .done _
    | next h hne hrest =>
        rw [← Prod.eta p.getToken, h]
        exact .next hne hrest
  · generalize hr : p.getToken = r
    intro h
    cases h with
    | done q => exact .done (by rw [hr])
    | next hne hrest => exact .next (by rw [hr]) hne (by rw [hr]; exact hrest)

theorem fresh_cons (seen : List Int) (v : Int) (ports : List Int) : fresh seen (v :: ports) =
    if v ∈ seen then fresh seen ports else v :: fresh seen ports := by
  rw [fresh, List.filter_cons]
  by_cases hv : v ∈ seen
  · rw [if_pos hv, if_neg (by simp [hv])]
    rfl
  · rw [if_neg hv, if_pos (by simp [hv])]
    rfl

/-- Recording a port in front of the others makes no difference to them. -/
theorem fresh_of_lt {seen : List Int} {v first last : Int} (h : v < first) :
    fresh (v :: seen) (upTo first last) = fresh seen (upTo first last) := by
  refine List.filter_congr fun w hw => ?_
  have hne : w ≠ v := by
    rintro rfl
    exact absurd (mem_upTo.1 hw).1 (by omega)
  simp only [List.mem_cons, hne, false_or]

theorem recordRange_end (seen : List Int) (v : Int) : recordRange seen v v = seen := by
  rw [recordRange, upTo_nil (by omega), if_neg fun h => absurd h.1 (Int.lt_irrefl v)]
  rfl

theorem recordRange_new {seen : List Int} {v last : Int} (hlt : v < last) (hnew : v + 1 ∉ seen) :
    recordRange seen v last = recordRange ((v + 1) :: seen) (v + 1) last := by
  rw [recordRange, recordRange, upTo_cons (by omega), fresh_cons, if_neg hnew,
    fresh_of_lt (Int.lt_succ _), List.reverse_cons, List.append_assoc]
  refine if_congr ?_ rfl rfl
  rw [List.mem_cons]
  constructor
  · rintro ⟨-, hlast⟩
    have hne : last ≠ v + 1 := fun heq => hnew (heq ▸ hlast)
    exact ⟨by omega, Or.inr hlast⟩
  · rintro ⟨hnext, heq | hlast⟩
    · omega
    · exact ⟨hlt, hlast⟩

theorem recordRange_seen {seen : List Int} {v last : Int} (hlt : v + 1 < last)
    (hseen : v + 1 ∈ seen) : recordRange seen v last = recordRange seen (v + 1) last := by
  rw [recordRange, recordRange, upTo_cons (by omega), fresh_cons, if_pos hseen]
  exact if_congr (and_congr_left' (iff_of_true (by omega) hlt)) rfl rfl

theorem recordRange_last {seen : List Int} {v : Int} (hseen : v + 1 ∈ seen) :
    recordRange seen v (v + 1) = recordBehind seen (v + 1) := by
  rw [recordRange, upTo_cons le_rfl, upTo_nil (by omega), fresh_cons, if_pos hseen,
    if_pos ⟨by omega, hseen⟩]
  rfl

/-- What is read from within a range on, where a new word is read as it should be. -/
theorem reads_within {items : List PortItem}
    (hitems : ∀ p : PortParser, p.Tracking items → p.OffRange →
      ReadsFrom p.nextWord (returned p.overlapSet items)) (k : Nat) :
    ∀ p : PortParser, p.Tracking items → 0 < p.inRange → p.inRange + k = p.rangeEnd →
      p.Reads (fresh p.overlapSet (upTo (p.inRange + 1) p.rangeEnd)
        ++ returned (recordRange p.overlapSet p.inRange p.rangeEnd) items) := by
  induction k with
  | zero =>
      intro p h hpos hend
      have heq : p.rangeEnd = p.inRange := by omega
      rw [heq, upTo_nil (by omega), recordRange_end, reads_iff,
        getToken_word fun _ => by omega]
      exact hitems p.outOfRange ⟨h.tracks, h.left⟩ p.offRange_outOfRange
  | succ k ih =>
      intro p h hpos hend
      by_cases hnext : p.inRange + 1 ∈ p.overlapSet
      · by_cases hlast : p.inRange + 1 = p.rangeEnd
        · have hrecorded := recordRange_last hnext
          rw [hlast] at hrecorded
          rw [hrecorded, ← hlast, upTo_cons le_rfl, upTo_nil (by omega), fresh_cons, if_pos hnext,
            hlast, reads_iff, getToken_last h.tracks hpos hlast (hlast ▸ hnext)]
          exact hitems { p with
            inRange := p.rangeEnd + 1
            overlapSet := recordBehind p.overlapSet p.rangeEnd } ⟨h.tracks, h.left⟩ fun _ => by
              dsimp only
              omega
        · rw [recordRange_seen (by omega) hnext, upTo_cons (by omega), fresh_cons, if_pos hnext,
            reads_iff, getToken_seen h.tracks hpos (by omega) hnext, ← reads_iff]
          exact ih { p with inRange := p.inRange + 1 } ⟨h.tracks, h.left⟩
            (show 0 < p.inRange + 1 by omega) (show p.inRange + 1 + k = p.rangeEnd by omega)
      · rw [recordRange_new (by omega) hnext, upTo_cons (by omega), fresh_cons, if_neg hnext,
          ← @fresh_of_lt p.overlapSet _ _ _ (Int.lt_succ (p.inRange + 1)), reads_iff,
          getToken_new h.tracks hpos (by omega) hnext, List.cons_append]
        refine .next (by omega) ?_
        exact ih { p with
          inRange := p.inRange + 1
          overlapSet := (p.inRange + 1) :: p.overlapSet } ⟨h.tracks, h.left⟩
            (show 0 < p.inRange + 1 by omega) (show p.inRange + 1 + k = p.rangeEnd by omega)

theorem returned_seen {seen : List Int} {skipped : List PortItem}
    (h : ∀ i ∈ skipped, i.first ∈ seen) (items : List PortItem) :
    returned seen (skipped ++ items) = returned seen items := by
  induction skipped with
  | nil => rfl
  | cons item skipped ih =>
      rw [List.cons_append, returned, if_pos (h item List.mem_cons_self)]
      exact ih fun i hi => h i (List.mem_cons_of_mem _ hi)

/-- By the number of items: those in front of the first new one are gone at once. -/
theorem reads_items (n : Nat) : ∀ {items : List PortItem}, items.length ≤ n →
    (∀ i ∈ items, i.Legal) → ∀ p : PortParser, p.Tracking items → p.OffRange →
      ReadsFrom p.nextWord (returned p.overlapSet items) := by
  induction n with
  | zero =>
      intro items hn hlegal p h _
      obtain rfl := List.length_eq_zero_iff.1 (Nat.le_zero.1 hn)
      rw [← Prod.eta p.nextWord, h.nextWord_end hlegal (List.forall_mem_nil _)]
      exact .done _
  | succ n ih =>
      intro items hn hlegal p h hoff
      rcases first_new p.overlapSet items with hall | ⟨skipped, item, rest, rfl, hskipped, hnew⟩
      · have hnone : returned p.overlapSet items = [] := by
          have happend := returned_seen hall []
          rwa [List.append_nil] at happend
        rw [← Prod.eta p.nextWord, h.nextWord_end hlegal hall, hnone]
        exact .done _
      · obtain ⟨sep, hleft, htoken⟩ := h.nextWord_new hlegal hskipped hnew
        have hitem : item.Legal := hlegal item (by simp)
        have hrest : ∀ q : PortParser, q.Tracking rest → q.OffRange →
            ReadsFrom q.nextWord (returned q.overlapSet rest) := by
          refine ih ?_ fun i hi => hlegal i (by simp [hi])
          rw [List.length_append, List.length_cons] at hn
          omega
        rw [returned_seen hskipped, returned, if_neg hnew, htoken]
        refine .next (by have := hitem.first_le; omega) ?_
        cases item with
        | one d =>
            rw [PortItem.first, PortItem.last, recordRange_end, upTo_nil (by omega), reads_iff,
              PortItem.enter, getToken_word (p := { p with
                sep := sep
                overlapSet := (digits d : Int) :: p.overlapSet }) hoff]
            exact hrest _ ⟨h.tracks, hleft⟩ (offRange_outOfRange _)
        | range first last =>
            obtain ⟨hfirst, -, hlt⟩ := hitem
            have hpos := hfirst.pos
            exact reads_within hrest (digits last - digits first) _ ⟨h.tracks, hleft⟩
              (show (0 : Int) < digits first by omega)
              (show (digits first : Int) + (digits last - digits first : Nat) = digits last by
                omega)

theorem reads_returned {items : List PortItem} (hlegal : ∀ i ∈ items, i.Legal) :
    (new (portText items) true).Reads (returned [] items) := by
  rw [reads_iff, getToken_word fun h => absurd h (Int.lt_irrefl 0)]
  exact reads_items items.length le_rfl hlegal _ ⟨rfl, SepStream.left_new _⟩ fun hin =>
    absurd hin (Int.lt_irrefl 0)

/-- The calls have one outcome. -/
theorem Reads.unique {ports : List Int} (h : p.Reads ports) : ∀ {ports' : List Int},
    p.Reads ports' → ports = ports' := by
  induction h with
  | done h =>
      intro ports' h'
      cases h' with
      | done => rfl
      | next h' hne => exact absurd (h'.symm.trans h) hne
  | next h hne _ ih =>
      intro ports' h'
      cases h' with
      | done h' => exact absurd (h.symm.trans h') hne
      | next h' _ hrest' => rw [ih hrest', ← h, ← h']

end PortParser

/-! ## What is lost -/

/-- The ports of the items that count: those whose first port is in none before them that
counts. -/
def counted (items : List PortItem) : List Int :=
  items.foldl (fun seen item => if item.first ∈ seen then seen else seen ++ item.ports) []

/-- If the end of a range that counts is in an item before it that counts, the port behind the
range is so too, or it is not asked for. -/
def Passed (asked : List Int) (before : List PortItem) (item : PortItem) : Prop :=
  item.first ∉ counted before → item.last ∈ counted before →
    item.last + 1 ∈ counted before ∨ item.last + 1 ∉ asked

instance (asked : List Int) (before : List PortItem) (item : PortItem) :
    Decidable (Passed asked before item) := inferInstanceAs (Decidable (_ → _ → _ ∨ _))

/-- The ports of the items that do not count are in others that do, and no port is recorded that
is still to come. -/
structure NothingLost (items : List PortItem) : Prop where
  counts : ∀ port ∈ items.flatMap PortItem.ports, port ∈ counted items
  passed : Trace.AtEach (Passed (items.flatMap PortItem.ports)) items

/-- Each port that the items name is returned once before the first zero, and no other is. -/
def ReturnsOnce (items : List PortItem) : Prop :=
  ∃ ports, (PortParser.new (portText items) true).Reads ports ∧ ports.Nodup ∧
    ∀ port, port ∈ ports ↔ port ∈ items.flatMap PortItem.ports

open PortParser

theorem counted_concat (before : List PortItem) (item : PortItem) : counted (before ++ [item]) =
    if item.first ∈ counted before then counted before else counted before ++ item.ports := by
  rw [counted, List.foldl_append]
  rfl

theorem mem_fresh {seen ports : List Int} {v : Int} :
    v ∈ fresh seen ports ↔ v ∈ ports ∧ v ∉ seen := by
  rw [fresh, List.mem_filter, decide_eq_true_iff]

theorem mem_recordBehind {seen : List Int} {last v : Int} :
    v ∈ recordBehind seen last ↔ v = last + 1 ∨ v ∈ seen := by
  rw [recordBehind]
  split
  · next hin =>
      refine (or_iff_right_of_imp ?_).symm
      rintro rfl
      exact hin
  · exact List.mem_cons

/-- What is recorded behind a range: what was before, the range, and maybe the port behind it. -/
theorem mem_recordRange {seen : List Int} {first last v : Int} (hle : first ≤ last) :
    v ∈ recordRange (first :: seen) first last ↔ v ∈ seen ∨ (first ≤ v ∧ v ≤ last) ∨
      (first < last ∧ last ∈ seen ∧ v = last + 1) := by
  have hrange : v ∈ (fresh (first :: seen) (upTo (first + 1) last)).reverse ++ first :: seen ↔
      v ∈ seen ∨ (first ≤ v ∧ v ≤ last) := by
    rw [List.mem_append, List.mem_reverse, mem_fresh, mem_upTo, List.mem_cons]
    by_cases hv : v ∈ seen
    · simp only [hv, or_true, true_or]
    · simp only [hv, or_false, false_or]
      omega
  have hmark : (first < last ∧ last ∈ first :: seen) ↔ first < last ∧ last ∈ seen := by
    refine and_congr_right fun hlt => ?_
    rw [List.mem_cons, or_iff_right (by omega)]
  rw [recordRange, if_congr hmark rfl rfl]
  split
  · next h =>
      rw [mem_recordBehind, hrange, ← and_assoc, and_iff_right h, or_comm, or_assoc]
  · next h =>
      rw [hrange, ← and_assoc]
      exact or_congr_right (or_iff_left fun hmarked => h hmarked.1).symm

theorem mem_returned_cons {seen : List Int} {item : PortItem} {items : List PortItem} {v : Int}
    (hlegal : item.Legal) (hnew : item.first ∉ seen) : v ∈ returned seen (item :: items) ↔
      (v ∈ item.ports ∧ v ∉ seen) ∨
        v ∈ returned (recordRange (item.first :: seen) item.first item.last) items := by
  have hle := hlegal.first_le
  rw [returned, if_neg hnew, List.mem_cons, List.mem_append, mem_fresh, mem_upTo, ← or_assoc,
    hlegal.ports_eq, mem_upTo, List.mem_cons]
  refine or_congr ?_ Iff.rfl
  constructor
  · rintro (rfl | ⟨hrange, hv⟩)
    · exact ⟨⟨le_rfl, hle.2⟩, hnew⟩
    · exact ⟨⟨by omega, hrange.2⟩, fun hseen => hv (Or.inr hseen)⟩
  · rintro ⟨hrange, hv⟩
    by_cases heq : v = item.first
    · exact Or.inl heq
    · exact Or.inr ⟨⟨by omega, hrange.2⟩, by simp [heq, hv]⟩

/-- What has been recorded is not returned any more. -/
theorem not_mem_returned {items : List PortItem} (hlegal : ∀ i ∈ items, i.Legal) :
    ∀ {seen : List Int} {v : Int}, v ∈ seen → v ∉ returned seen items := by
  induction items with
  | nil => exact fun _ => List.not_mem_nil
  | cons item items ih =>
      intro seen v hv hmem
      have hrest : ∀ i ∈ items, i.Legal := fun i hi => hlegal i (List.mem_cons_of_mem _ hi)
      have hitem := hlegal item List.mem_cons_self
      by_cases hfirst : item.first ∈ seen
      · rw [returned, if_pos hfirst] at hmem
        exact ih hrest hv hmem
      · rcases (mem_returned_cons hitem hfirst).1 hmem with ⟨-, hnot⟩ | hmem
        · exact hnot hv
        · exact ih hrest ((mem_recordRange hitem.first_le.2).2 (Or.inl hv)) hmem

theorem nodup_returned {items : List PortItem} (hlegal : ∀ i ∈ items, i.Legal) :
    ∀ seen : List Int, (returned seen items).Nodup := by
  induction items with
  | nil => exact fun _ => List.nodup_nil
  | cons item items ih =>
      intro seen
      have hrest : ∀ i ∈ items, i.Legal := fun i hi => hlegal i (List.mem_cons_of_mem _ hi)
      have hle := (hlegal item List.mem_cons_self).first_le
      by_cases hfirst : item.first ∈ seen
      · rw [returned, if_pos hfirst]
        exact ih hrest seen
      · rw [returned, if_neg hfirst, List.nodup_cons, List.mem_append, not_or,
          List.nodup_append]
        have hrecorded : ∀ v, item.first ≤ v ∧ v ≤ item.last →
            v ∈ recordRange (item.first :: seen) item.first item.last :=
          fun v hv => (mem_recordRange hle.2).2 (Or.inr (Or.inl hv))
        refine ⟨⟨fun hmem => ?_, not_mem_returned hrest (hrecorded _ ⟨le_rfl, hle.2⟩)⟩,
          (nodup_upTo _ _).filter _, ih hrest _, ?_⟩
        · exact (mem_fresh.1 hmem).2 List.mem_cons_self
        · rintro v hv w hmem rfl
          have hrange := mem_upTo.1 (mem_fresh.1 hv).1
          exact not_mem_returned hrest (hrecorded v ⟨by omega, hrange.2⟩) hmem

theorem returned_subset {items : List PortItem} (hlegal : ∀ i ∈ items, i.Legal) :
    ∀ {seen : List Int} {v : Int}, v ∈ returned seen items → v ∈ items.flatMap PortItem.ports := by
  induction items with
  | nil => exact fun h => h
  | cons item items ih =>
      intro seen v hmem
      have hrest : ∀ i ∈ items, i.Legal := fun i hi => hlegal i (List.mem_cons_of_mem _ hi)
      rw [List.flatMap_cons, List.mem_append]
      by_cases hfirst : item.first ∈ seen
      · rw [returned, if_pos hfirst] at hmem
        exact Or.inr (ih hrest hmem)
      · rcases (mem_returned_cons (hlegal item List.mem_cons_self) hfirst).1 hmem with h | h
        · exact Or.inl h.1
        · exact Or.inr (ih hrest h)

/-- As long as what has been recorded of the ports asked for is what the items before contain
that count, the rest loses nothing exactly if it meets the condition. -/
theorem returned_all_iff {asked : List Int} {items : List PortItem} (hlegal : ∀ i ∈ items, i.Legal)
    (hasked : ∀ v ∈ items.flatMap PortItem.ports, v ∈ asked) :
    ∀ (before : List PortItem) (seen : List Int),
      (∀ v ∈ asked, v ∈ seen ↔ v ∈ counted before) →
      ((∀ v ∈ asked, v ∈ counted before ∨ v ∈ returned seen items) ↔
        (∀ v ∈ asked, v ∈ counted (before ++ items)) ∧
          Trace.AtEachFrom (Passed asked) before items) := by
  induction items with
  | nil =>
      intro before seen _
      rw [List.append_nil, and_iff_left Trace.atEachFrom_nil]
      exact forall₂_congr fun v _ => or_iff_left List.not_mem_nil
  | cons item items ih =>
      intro before seen hseen
      have hitem := hlegal item List.mem_cons_self
      have hrest : ∀ i ∈ items, i.Legal := fun i hi => hlegal i (List.mem_cons_of_mem _ hi)
      rw [List.flatMap_cons] at hasked
      have hports : ∀ v, item.first ≤ v → v ≤ item.last → v ∈ asked := by
        intro v hlow hhigh
        refine hasked v (List.mem_append_left _ ?_)
        rw [hitem.ports_eq, mem_upTo]
        exact ⟨hlow, hhigh⟩
      have hle := hitem.first_le.2
      have hfirst := hseen item.first (hports _ le_rfl hle)
      have hlast := hseen item.last (hports _ hle le_rfl)
      have happend : before ++ item :: items = before ++ [item] ++ items := by simp
      specialize ih hrest fun v hv => hasked v (List.mem_append_right _ hv)
      rw [Trace.atEachFrom_cons, happend]
      by_cases hnew : item.first ∈ seen
      · have hcounted : counted (before ++ [item]) = counted before := by
          rw [counted_concat, if_pos (hfirst.1 hnew)]
        have hpassed : Passed asked before item := fun h => absurd (hfirst.1 hnew) h
        rw [returned, if_pos hnew, ← hcounted, and_iff_right hpassed]
        exact ih _ seen (hcounted ▸ hseen)
      · have hnot : item.first ∉ counted before := fun h => hnew (hfirst.2 h)
        have hcounted : counted (before ++ [item]) = counted before ++ item.ports := by
          rw [counted_concat, if_neg hnot]
        by_cases hpassed : Passed asked before item
        · rw [and_iff_right hpassed,
            ← ih _ (recordRange (item.first :: seen) item.first item.last) fun v hv => ?_]
          · refine forall₂_congr fun v hv => ?_
            rw [mem_returned_cons hitem hnew, hcounted, List.mem_append, hseen v hv, ← or_assoc,
              or_and_left, and_iff_left (Classical.em _)]
          · rw [mem_recordRange hle, hcounted, List.mem_append, hitem.ports_eq, mem_upTo,
              hseen v hv, ← or_assoc]
            refine or_iff_left_of_imp ?_
            rintro ⟨-, hend, rfl⟩
            exact Or.inl ((hpassed hnot (hlast.1 hend)).resolve_right fun h => h hv)
        · refine iff_of_false (fun hall => ?_) fun h => hpassed h.2.1
          rw [Passed, Classical.not_imp, Classical.not_imp, not_or, not_not] at hpassed
          obtain ⟨-, hend, hbehind, hwanted⟩ := hpassed
          -- the port behind the range is recorded, and so it is lost
          rcases hall _ hwanted with h | h
          · exact hbehind h
          · rcases (mem_returned_cons hitem hnew).1 h with ⟨hin, -⟩ | hlater
            · rw [hitem.ports_eq, mem_upTo] at hin
              omega
            · refine not_mem_returned hrest ?_ hlater
              have hne : item.first ≠ item.last := fun heq => hnot (heq ▸ hend)
              exact (mem_recordRange hle).2 (Or.inr (Or.inr ⟨by omega, hlast.2 hend, rfl⟩))

/-- No port is returned twice, and each one is returned exactly if nothing is lost. -/
theorem returnsOnce_iff {items : List PortItem} (hlegal : ∀ item ∈ items, item.Legal) :
    ReturnsOnce items ↔ NothingLost items := by
  have hall := returned_all_iff hlegal (fun _ hv => hv) [] [] fun _ _ => Iff.rfl
  have hmem : (∀ v ∈ items.flatMap PortItem.ports, v ∈ counted [] ∨ v ∈ returned [] items) ↔
      ReturnsOnce items := by
    constructor
    · intro h
      refine ⟨_, reads_returned hlegal, nodup_returned hlegal [], fun v => ?_⟩
      exact ⟨returned_subset hlegal, fun hv => (h v hv).resolve_left List.not_mem_nil⟩
    · rintro ⟨ports, hreads, -, hports⟩ v hv
      rw [← hreads.unique (reads_returned hlegal)]
      exact Or.inr ((hports v).2 hv)
  rw [← hmem, hall]
  exact ⟨fun h => ⟨h.1, h.2⟩, fun h => ⟨h.counts, h.passed⟩⟩

def overlappingRanges : List PortItem :=
  [.one (str "80"), .range (str "7") (str "9"), .range (str "5") (str "8")]

theorem returnsOnce_overlappingRanges : ReturnsOnce overlappingRanges := by
  have hnumber : ∀ d ∈ [str "80", str "7", str "9", str "5", str "8"], IsNumber d :=
    fun d hd => ⟨by revert d; decide +kernel, by revert d; decide +kernel,
      by revert d; decide +kernel, by revert d; decide +kernel⟩
  refine (returnsOnce_iff ?_).2 ⟨by decide +kernel, by decide +kernel⟩
  intro item hitem
  rw [overlappingRanges, List.mem_cons, List.mem_cons, List.mem_singleton] at hitem
  rcases hitem with rfl | rfl | rfl
  · exact hnumber _ (by decide +kernel)
  · exact ⟨hnumber _ (by decide +kernel), hnumber _ (by decide +kernel), by decide +kernel⟩
  · exact ⟨hnumber _ (by decide +kernel), hnumber _ (by decide +kernel), by decide +kernel⟩

/-- `5,5-7` is 5 only, and `6,5-6,7` is 6 and 5. -/
theorem ports_lost :
    (PortParser.new (str "5,5-7") true).Reads [5] ∧
      ¬ReturnsOnce [.one (str "5"), .range (str "5") (str "7")] ∧
      (PortParser.new (str "6,5-6,7") true).Reads [6, 5] ∧
      ¬ReturnsOnce [.one (str "6"), .range (str "5") (str "6"), .one (str "7")] := by
  have hskipped : (PortParser.new (str "5,5-7") true).Reads [5] :=
    .next (by decide +kernel) (by decide) (.done (by decide +kernel))
  have hrecorded : (PortParser.new (str "6,5-6,7") true).Reads [6, 5] :=
    .next (by decide +kernel) (by decide) (.next (by decide +kernel) (by decide)
      (.done (by decide +kernel)))
  refine ⟨hskipped, ?_, hrecorded, ?_⟩
  · rintro ⟨ports, hreads, -, hports⟩
    have hsix : (6 : Int) ∈ ports := (hports 6).2 (by decide +kernel)
    have heq : ports = [5] := hreads.unique hskipped
    rw [heq] at hsix
    exact absurd hsix (by decide)
  · rintro ⟨ports, hreads, -, hports⟩
    have hseven : (7 : Int) ∈ ports := (hports 7).2 (by decide +kernel)
    have heq : ports = [6, 5] := hreads.unique hrecorded
    rw [heq] at hseven
    exact absurd hseven (by decide)

end Hottpd
