import Hottpd.Core.Ports
import Hottpd.Core.Uri

/-!
# What a port text says

A port text is a list of numbers and ranges. `portparser` returns the ports it
names one by one, in order, and then zero. The argument follows the layers of
the parser: `sepstream` gives back the words that were joined with commas, a word
is a number or a range, and a range is counted through before the next word is
looked at.
-/

namespace Hottpd

open Bytes

/-! ## Words -/

def joinWords : List Bytes → Bytes
  | [] => []
  | [w] => w
  | w :: w' :: ws => w ++ 44 :: joinWords (w' :: ws)

/-- A word that a comma cannot break. -/
structure IsWord (w : Bytes) : Prop where
  ne_nil : w ≠ []
  no_comma : 44 ∉ w

/-- The stream has these words left. -/
inductive SepStream.Left : List Bytes → SepStream → Prop where
  | word {pre w : Bytes} {ws : List Bytes} :
      SepStream.Left (w :: ws) ⟨pre ++ joinWords (w :: ws), pre.length, pre.length, 44⟩
  | last {s : SepStream} (hlast : s.lastStartingPosition = s.tokens.length)
      (hn : s.n + 1 = s.tokens.length) : SepStream.Left [] s
  | done {s : SepStream} (hn : s.n = s.tokens.length) : SepStream.Left [] s

theorem SepStream.left_new (ws : List Bytes) :
    SepStream.Left ws (SepStream.new (joinWords ws) 44) := by
  cases ws with
  | nil => exact .done rfl
  | cons w ws => exact @SepStream.Left.word [] w ws

theorem stopFrom_comma {w : Bytes} (hw : 44 ∉ w) (more : Bytes) : ∀ n,
    stopFrom 44 n (w ++ 44 :: more) = some (n + w.length) := by
  induction w with
  | nil => intro n; simp [stopFrom]
  | cons b w ih =>
      intro n
      rw [List.mem_cons, not_or] at hw
      have hb : ¬ (b = 44 ∨ w ++ 44 :: more = []) := by
        rintro (h | h)
        · exact hw.1 h.symm
        · simp at h
      rw [List.cons_append, stopFrom, if_neg hb, ih hw.2, List.length_cons]
      congr 1
      omega

theorem stopFrom_last {w : Bytes} (hne : w ≠ []) (hw : 44 ∉ w) : ∀ n,
    stopFrom 44 n w = some (n + (w.length - 1)) := by
  induction w with
  | nil => exact absurd rfl hne
  | cons b w ih =>
      intro n
      rw [List.mem_cons, not_or] at hw
      cases w with
      | nil => simp [stopFrom]
      | cons b' w =>
          have hb : ¬ (b = 44 ∨ b' :: w = []) := by
            rintro (h | h)
            · exact hw.1 h.symm
            · cases h
          rw [stopFrom, if_neg hb, ih (by simp) hw.2]
          simp only [List.length_cons]
          congr 1
          omega

theorem dropTrailing_word {w : Bytes} (h : 44 ∉ w) : dropTrailing 44 w = w := by
  have hkeep : w.reverse.dropWhile (· == 44) = w.reverse := by
    cases hr : w.reverse with
    | nil => rfl
    | cons b rest =>
        have hb : b ∈ w := List.mem_reverse.1 (by rw [hr]; exact List.mem_cons_self)
        have hne : (b == 44) = false := beq_false_of_ne fun heq => h (heq ▸ hb)
        rw [List.dropWhile_cons, hne]
        rfl
  rw [dropTrailing, hkeep, List.reverse_reverse]

theorem joinWords_ne_nil {w : Bytes} {ws : List Bytes} (hw : IsWord w) :
    joinWords (w :: ws) ≠ [] := by
  cases ws with
  | nil => exact hw.ne_nil
  | cons w' ws => simp [joinWords]

theorem SepStream.getToken_word {w : Bytes} {ws : List Bytes} {s : SepStream}
    (h : SepStream.Left (w :: ws) s) (hw : IsWord w) (hws : ∀ w ∈ ws, IsWord w) :
    s.getToken.1 = w ∧ SepStream.Left ws s.getToken.2.2 := by
  have hpos : 0 < w.length := List.length_pos_iff.2 hw.ne_nil
  cases h with
  | @word pre =>
      cases ws with
      | nil =>
          have hstop : stopFrom 44 pre.length ((pre ++ w).drop pre.length)
              = some (pre.length + (w.length - 1)) := by
            rw [List.drop_left]
            exact stopFrom_last hw.ne_nil hw.no_comma _
          have hend : pre.length + (w.length - 1) + 1 = (pre ++ w).length := by
            rw [List.length_append]
            omega
          have htoken : SepStream.getToken ⟨pre ++ w, pre.length, pre.length, 44⟩
              = (w, true, ⟨pre ++ w, (pre ++ w).length, pre.length + (w.length - 1), 44⟩) := by
            rw [SepStream.getToken, hstop]
            dsimp only
            rw [if_pos hend, if_pos hend, hend, List.take_length, List.drop_left,
              dropTrailing_word hw.no_comma, if_neg hw.ne_nil, decide_eq_true (by omega)]
          rw [joinWords, htoken]
          exact ⟨rfl, .last rfl hend⟩
      | cons w' ws =>
          have hmore : 0 < (joinWords (w' :: ws)).length :=
            List.length_pos_iff.2 (joinWords_ne_nil (hws w' List.mem_cons_self))
          have hstop : stopFrom 44 pre.length
              ((pre ++ (w ++ 44 :: joinWords (w' :: ws))).drop pre.length)
              = some (pre.length + w.length) := by
            rw [List.drop_left]
            exact stopFrom_comma hw.no_comma _ _
          have hgo : ¬ pre.length + w.length + 1
              = (pre ++ (w ++ 44 :: joinWords (w' :: ws))).length := by
            simp only [List.length_append, List.length_cons]
            omega
          have htake : ((pre ++ (w ++ 44 :: joinWords (w' :: ws))).take
              (pre.length + w.length)).drop pre.length = w := by
            rw [← List.append_assoc, ← List.length_append, List.take_left, List.drop_left]
          have hleft := @SepStream.Left.word (pre ++ w ++ [44]) w' ws
          have hpre : pre ++ w ++ [44] ++ joinWords (w' :: ws)
              = pre ++ (w ++ 44 :: joinWords (w' :: ws)) := by simp
          have hlen : (pre ++ w ++ [44]).length = pre.length + w.length + 1 := by
            simp [Nat.add_assoc]
          rw [hpre, hlen] at hleft
          rw [SepStream.getToken, joinWords]
          dsimp only
          rw [hstop]
          dsimp only
          rw [if_neg hgo, if_neg hgo, htake, dropTrailing_word hw.no_comma, if_neg hw.ne_nil]
          exact ⟨rfl, hleft⟩

theorem SepStream.getToken_end {s : SepStream} (h : SepStream.Left [] s) : s.getToken.1 = [] := by
  cases h with
  | done hn =>
      rw [SepStream.getToken, hn, List.drop_length]
      rfl
  | last hlast hn =>
      have hlt : s.n < s.tokens.length := by omega
      have hone : s.tokens.drop s.n = [s.tokens[s.n]] := by
        rw [List.drop_eq_getElem_cons hlt, List.drop_eq_nil_of_le (by omega)]
      have hstop : stopFrom s.sep s.n [s.tokens[s.n]] = some s.n := by
        rw [stopFrom, if_pos (Or.inr rfl)]
      have htoken : dropTrailing s.sep ((s.tokens.take (s.n + 1)).drop s.lastStartingPosition)
          = [] := by
        rw [hlast, List.drop_eq_nil_of_le (List.length_take_le _ _ |>.trans (by omega))]
        rfl
      rw [SepStream.getToken, hone, hstop]
      dsimp only
      rw [if_pos hn, htoken]

/-! ## Numbers and ranges -/

structure IsNumber (d : Bytes) : Prop where
  ne_nil : d ≠ []
  all : ∀ b ∈ d, isdigit b = true
  pos : 1 ≤ digits d
  le : digits d ≤ 65535

inductive PortItem where
  | one (d : Bytes)
  | range (first last : Bytes)

def PortItem.text : PortItem → Bytes
  | .one d => d
  | .range first last => first ++ 45 :: last

/-- A port, or an ascending range of ports. -/
def PortItem.WellFormed : PortItem → Prop
  | .one d => IsNumber d
  | .range first last => IsNumber first ∧ IsNumber last ∧ digits first ≤ digits last

/-- The integers from `first` to `last`. -/
def upTo (first last : Int) : List Int :=
  (List.range (last - first + 1).toNat).map fun i : Nat => first + (i : Int)

def PortItem.ports : PortItem → List Int
  | .one d => [(digits d : Int)]
  | .range first last => upTo (digits first) (digits last)

theorem IsNumber.not_mem {d : Bytes} (h : IsNumber d) {c : UInt8} (hc : isdigit c = false) :
    c ∉ d := by
  intro hmem
  rw [h.all c hmem] at hc
  cases hc

theorem IsNumber.isWord {d : Bytes} (h : IsNumber d) : IsWord d :=
  ⟨h.ne_nil, h.not_mem (by decide)⟩

theorem IsNumber.atoi {d : Bytes} (h : IsNumber d) : atoiInt d = digits d := by
  have hle := h.le
  rw [atoiInt, strtol_digits h.ne_nil h.all, toInt]
  omega

/-- All numbers are ports, whichever way round those of a range are. -/
def PortItem.InBounds : PortItem → Prop
  | .one d => IsNumber d
  | .range first last => IsNumber first ∧ IsNumber last

/-- A range that does not ascend is the port it begins with. -/
def PortItem.expansion : PortItem → List Int
  | .one d => [(digits d : Int)]
  | .range first last =>
      if digits first < digits last then upTo (digits first) (digits last) else [(digits first : Int)]

def PortItem.first : PortItem → Int
  | .one d => digits d
  | .range first _ => digits first

def PortItem.last : PortItem → Int
  | .one d => digits d
  | .range _ last => digits last

/-- A port, or a range that ends behind where it begins. -/
def PortItem.Legal : PortItem → Prop
  | .one d => IsNumber d
  | .range first last => IsNumber first ∧ IsNumber last ∧ digits first < digits last

/-- The parser that has read the item, and goes on behind its first port. -/
def PortItem.enter (p : PortParser) : PortItem → PortParser
  | .one _ => p
  | .range first last =>
      { p with rangeBegin := digits first, rangeEnd := digits last, inRange := digits first }

theorem PortItem.InBounds.isWord {item : PortItem} (h : item.InBounds) : IsWord item.text := by
  cases item with
  | one d => exact IsNumber.isWord h
  | range first last =>
      obtain ⟨hfirst, hlast⟩ := h
      refine ⟨by simp [PortItem.text], ?_⟩
      simp only [PortItem.text, List.mem_append, List.mem_cons, not_or]
      exact ⟨hfirst.not_mem (by decide), by decide, hlast.not_mem (by decide)⟩

theorem PortItem.WellFormed.inBounds {item : PortItem} (h : item.WellFormed) : item.InBounds := by
  cases item with
  | one d => exact h
  | range first last => exact ⟨h.1, h.2.1⟩

theorem PortItem.Legal.wellFormed {item : PortItem} (h : item.Legal) : item.WellFormed := by
  cases item with
  | one d => exact h
  | range first last => exact ⟨h.1, h.2.1, h.2.2.le⟩

/-! ## The parser -/

def portText (items : List PortItem) : Bytes := joinWords (items.map PortItem.text)

/-- Calls of `GetToken` return these numbers, none of them zero, and then zero. -/
inductive PortParser.Reads : PortParser → List Int → Prop where
  | done {p : PortParser} (h : p.getToken.1 = 0) : PortParser.Reads p []
  | next {p : PortParser} {port : Int} {ports : List Int} (h : p.getToken.1 = port)
      (hne : port ≠ 0) (hrest : PortParser.Reads p.getToken.2 ports) :
      PortParser.Reads p (port :: ports)

/-- The parser counts through a range that ends at `rangeEnd`, or is in no range, and has
these items left behind it. -/
structure PortParser.Ready (items : List PortItem) (p : PortParser) : Prop where
  single : p.overlapped = false
  left : SepStream.Left (items.map PortItem.text) p.sep

theorem skipWords_single {p : PortParser} (h : p.overlapped = false) (fuel : Nat) (x : Bytes) :
    p.skipWords (fuel + 1) x = (some x, p) := by
  rw [PortParser.skipWords, PortParser.overlaps, if_pos h]
  rfl

/-- In a range the next number comes next. -/
theorem getToken_range {p : PortParser} (h : p.overlapped = false) (hpos : 0 < p.inRange)
    (hmore : p.inRange + 1 ≤ p.rangeEnd) :
    p.getToken = (p.inRange + 1, { p with inRange := p.inRange + 1 }) := by
  rw [PortParser.getToken, if_pos hpos]
  dsimp only
  rw [if_pos hmore, PortParser.overlaps, if_pos h]
  rfl

def PortParser.outOfRange (p : PortParser) : PortParser :=
  { p with inRange := if 0 < p.inRange then 0 else p.inRange }

/-- Behind a range the parser is where it is without one. -/
theorem getToken_word {p : PortParser} (h : 0 < p.inRange → p.rangeEnd < p.inRange + 1) :
    p.getToken = p.outOfRange.nextWord := by
  rw [PortParser.getToken, PortParser.outOfRange]
  split
  · next hpos =>
      dsimp only
      rw [if_neg (by have := h hpos; omega)]
  · rfl

theorem upTo_cons {first last : Int} (h : first ≤ last) :
    upTo first last = first :: upTo (first + 1) last := by
  obtain ⟨n, hn⟩ : ∃ n : Nat, last = first + n := ⟨(last - first).toNat, by omega⟩
  have hlen : (last - first + 1).toNat = n + 1 := by omega
  have hlen' : (last - (first + 1) + 1).toNat = n := by omega
  rw [upTo, upTo, hlen, hlen', List.range_succ_eq_map, List.map_cons, List.map_map]
  refine List.cons_eq_cons.2 ⟨by simp, ?_⟩
  refine List.map_congr_left fun i _ => ?_
  show first + ((i + 1 : Nat) : Int) = first + 1 + i
  omega

theorem upTo_nil {first last : Int} (h : last < first) : upTo first last = [] := by
  have hlen : (last - first + 1).toNat = 0 := by omega
  rw [upTo, hlen]
  rfl

theorem PortItem.expansion_range (first last : Bytes) :
    (PortItem.range first last).expansion = (digits first : Int) ::
      if digits first < digits last then upTo (digits first + 1) (digits last) else [] := by
  rw [PortItem.expansion]
  split
  · rw [upTo_cons (by omega)]
  · rfl

theorem PortItem.WellFormed.ports_eq {item : PortItem} (h : item.WellFormed) :
    item.ports = item.expansion := by
  cases item with
  | one d => rfl
  | range first last =>
      obtain ⟨-, -, hle⟩ := h
      rw [PortItem.expansion_range, PortItem.ports, upTo_cons (by omega)]
      split
      · rfl
      · rw [upTo_nil (by omega)]

/-- What is left to be read of a range, and then of the items behind it. -/
theorem PortParser.Ready.reads_range {items : List PortItem} {ports : List Int}
    (hitems : ∀ p : PortParser, p.Ready items → (0 < p.inRange → p.rangeEnd < p.inRange + 1) →
      p.Reads ports) (k : Nat) :
    ∀ p : PortParser, p.Ready items → 0 < p.inRange → p.inRange + k = p.rangeEnd →
      p.Reads (upTo (p.inRange + 1) p.rangeEnd ++ ports) := by
  induction k with
  | zero =>
      intro p h hpos hend
      rw [upTo_nil (by omega), List.nil_append]
      exact hitems p h fun _ => by omega
  | succ k ih =>
      intro p h hpos hend
      rw [upTo_cons (by omega), List.cons_append]
      have htoken := getToken_range h.single hpos (by omega)
      refine .next (by rw [htoken]) (by omega) ?_
      rw [htoken]
      exact ih { p with inRange := p.inRange + 1 } ⟨h.single, h.left⟩
        (show 0 < p.inRange + 1 by omega) (show p.inRange + 1 + k = p.rangeEnd by omega)

/-- The word of an item, taken apart, where `skipWords` has left it. -/
theorem nextWord_one_of_skipWords {p q : PortParser} {d : Bytes} (hd : IsNumber d)
    (hword : p.sep.getToken.1 ≠ [])
    (hskip : ({ p with sep := p.sep.getToken.2.2 } : PortParser).skipWords
      (p.sep.getToken.2.2.tokens.length + 1) p.sep.getToken.1 = (some d, q)) :
    p.nextWord = ((digits d : Int), q) := by
  rw [PortParser.nextWord]
  dsimp only
  rw [if_neg hword, hskip]
  dsimp only
  rw [rfind_eq_none (hd.not_mem (by decide))]
  dsimp only
  rw [hd.atoi]

theorem nextWord_range_of_skipWords {p q : PortParser} {first last : Bytes}
    (hfirst : IsNumber first) (hlast : IsNumber last) (hword : p.sep.getToken.1 ≠ [])
    (hskip : ({ p with sep := p.sep.getToken.2.2 } : PortParser).skipWords
      (p.sep.getToken.2.2.tokens.length + 1) p.sep.getToken.1
        = (some (first ++ 45 :: last), q)) :
    p.nextWord = ((digits first : Int), { q with
      rangeBegin := digits first
      rangeEnd := digits last
      inRange := if digits first < digits last then (digits first : Int) else q.inRange }) := by
  have hdash : rfind 45 (first ++ 45 :: last) = some first.length :=
    rfind_append_cons (hlast.not_mem (by decide))
  have hdrop : (first ++ 45 :: last).drop (first.length + 1) = last := by
    rw [← List.drop_drop, List.drop_left]
    rfl
  have hpos := hfirst.pos
  have hpos' := hlast.pos
  have hle := hfirst.le
  have hle' := hlast.le
  rw [PortParser.nextWord]
  dsimp only
  rw [if_neg hword, hskip]
  dsimp only
  rw [hdash]
  dsimp only
  rw [List.take_left, hdrop, hfirst.atoi, hlast.atoi]
  by_cases hlt : digits first < digits last
  · rw [if_pos (by omega), if_pos hlt]
  · rw [if_neg (by omega), if_neg hlt]

/-- Where no overlaps are tracked the word is the one that is read. -/
theorem skipWords_word {p : PortParser} (h : p.overlapped = false) {word : Bytes}
    (hword : p.sep.getToken.1 = word) :
    ({ p with sep := p.sep.getToken.2.2 } : PortParser).skipWords
      (p.sep.getToken.2.2.tokens.length + 1) p.sep.getToken.1
        = (some word, { p with sep := p.sep.getToken.2.2 }) := by
  rw [hword]
  exact @skipWords_single { p with sep := p.sep.getToken.2.2 } h _ word

theorem nextWord_one {p : PortParser} (h : p.overlapped = false) {d : Bytes} (hd : IsNumber d)
    (hword : p.sep.getToken.1 = d) :
    p.nextWord = ((digits d : Int), { p with sep := p.sep.getToken.2.2 }) :=
  nextWord_one_of_skipWords hd (hword ▸ hd.ne_nil) (skipWords_word h hword)

theorem nextWord_range {p : PortParser} (h : p.overlapped = false) {first last : Bytes}
    (hfirst : IsNumber first) (hlast : IsNumber last)
    (hword : p.sep.getToken.1 = first ++ 45 :: last) :
    p.nextWord = ((digits first : Int), { p with
      sep := p.sep.getToken.2.2
      rangeBegin := digits first
      rangeEnd := digits last
      inRange := if digits first < digits last then (digits first : Int) else p.inRange }) := by
  have hne : first ++ 45 :: last ≠ [] :=
    List.append_ne_nil_of_right_ne_nil _ (List.cons_ne_nil _ _)
  exact nextWord_range_of_skipWords hfirst hlast (hword ▸ hne) (skipWords_word h hword)

theorem PortParser.Ready.reads {items : List PortItem} (hwf : ∀ item ∈ items, item.InBounds) :
    ∀ p : PortParser, p.Ready items → (0 < p.inRange → p.rangeEnd < p.inRange + 1) →
      p.Reads (items.flatMap PortItem.expansion) := by
  induction items with
  | nil =>
      intro p h hrange
      refine .done ?_
      have hend : p.outOfRange.sep.getToken.1 = [] := SepStream.getToken_end h.left
      rw [getToken_word hrange, PortParser.nextWord]
      dsimp only
      rw [hend, if_pos rfl]
  | cons item items ih =>
      intro p h hrange
      have hitem := hwf item List.mem_cons_self
      have hrest : ∀ i ∈ items, i.InBounds := fun i hi => hwf i (List.mem_cons_of_mem _ hi)
      obtain ⟨hword, hleft⟩ := SepStream.getToken_word h.left hitem.isWord fun w hw => by
        obtain ⟨i, hi, rfl⟩ := List.mem_map.1 hw
        exact (hrest i hi).isWord
      have hout : ¬ 0 < (if 0 < p.inRange then 0 else p.inRange) := by split <;> omega
      cases item with
      | one d =>
          have hd : IsNumber d := hitem
          have htoken := (getToken_word hrange).trans
            (@nextWord_one p.outOfRange h.single d hd hword)
          have hpos := hd.pos
          refine .next (by rw [htoken]) (by omega) ?_
          rw [htoken]
          exact ih hrest _ ⟨h.single, hleft⟩ fun hin => absurd hin hout
      | range first last =>
          obtain ⟨hfirst, hlast⟩ := hitem
          have htoken := (getToken_word hrange).trans
            (@nextWord_range p.outOfRange h.single first last hfirst hlast hword)
          have hpos := hfirst.pos
          rw [List.flatMap_cons, PortItem.expansion_range, List.cons_append]
          refine .next (by rw [htoken]) (by omega) ?_
          rw [htoken]
          by_cases hlt : digits first < digits last
          · dsimp only
            rw [if_pos hlt, if_pos hlt]
            exact reads_range (ih hrest) (digits last - digits first) _ ⟨h.single, hleft⟩
              (show (0 : Int) < digits first by omega)
              (show (digits first : Int) + (digits last - digits first : Nat) = digits last by
                omega)
          · dsimp only
            rw [if_neg hlt, if_neg hlt, List.nil_append]
            exact ih hrest _ ⟨h.single, hleft⟩ fun hin => absurd hin hout

/-- The parser returns what the items stand for, one after the other, and then zero. -/
theorem portText_expanded {items : List PortItem} (hwf : ∀ item ∈ items, item.InBounds) :
    (PortParser.new (portText items) false).Reads (items.flatMap PortItem.expansion) :=
  PortParser.Ready.reads hwf _ ⟨rfl, SepStream.left_new _⟩ fun h => absurd h (Int.lt_irrefl 0)

theorem portText_expanded_three :
    (PortParser.new (str "80,6662-6664,9-3") false).Reads [80, 6662, 6663, 6664, 9] := by
  have hnumber : ∀ d ∈ [str "80", str "6662", str "6664", str "9", str "3"], IsNumber d :=
    fun d hd => ⟨by revert d; decide +kernel, by revert d; decide +kernel,
      by revert d; decide +kernel, by revert d; decide +kernel⟩
  exact @portText_expanded
    [.one (str "80"), .range (str "6662") (str "6664"), .range (str "9") (str "3")]
    (List.forall_mem_cons.2 ⟨hnumber _ (by decide +kernel), List.forall_mem_cons.2
      ⟨⟨hnumber _ (by decide +kernel), hnumber _ (by decide +kernel)⟩, List.forall_mem_cons.2
        ⟨⟨hnumber _ (by decide +kernel), hnumber _ (by decide +kernel)⟩, List.forall_mem_nil _⟩⟩⟩)

/-- A well-formed port text is read as the ports it names. -/
theorem portText_reads {items : List PortItem} (hwf : ∀ item ∈ items, item.WellFormed) :
    (PortParser.new (portText items) false).Reads (items.flatMap PortItem.ports) := by
  have hports : items.flatMap PortItem.ports = items.flatMap PortItem.expansion :=
    List.flatMap_congr fun item hitem => (hwf item hitem).ports_eq
  rw [hports]
  exact PortParser.Ready.reads (fun item hitem => (hwf item hitem).inBounds) _
    ⟨rfl, SepStream.left_new _⟩ fun h => absurd h (Int.lt_irrefl 0)

end Hottpd
