import Mathlib.Data.List.Lex
import Mathlib.Data.List.Basic
import Mathlib.Order.Lattice
import Mathlib.Order.Basic

/-!
# Maps with equal keys

A map that is iterated in the order of its keys and may hold a key more than
once: what is inserted goes behind all entries with its key, so those stay in
the order of their insertion. They stand side by side, and an iterator that
starts at the first of them can count its way to any other.
-/

/-- Entries from `κ` to `ν`, in the order of `key`, equal keys in the order they came in. -/
structure MultiMap {κ ι : Type} [LinearOrder ι] (key : κ → ι) (ν : Type) where
  entries : List (κ × ν)
  sorted : entries.Pairwise fun a b => key a.1 ≤ key b.1

namespace MultiMap

variable {κ ι ν : Type} [LinearOrder ι] {key : κ → ι}

theorem eq_of_entries {m₁ m₂ : MultiMap key ν} (h : m₁.entries = m₂.entries) : m₁ = m₂ := by
  cases m₁
  cases m₂
  cases h
  rfl

instance [DecidableEq κ] [DecidableEq ν] : DecidableEq (MultiMap key ν) :=
  fun m₁ m₂ => decidable_of_iff (m₁.entries = m₂.entries) ⟨eq_of_entries, fun h => h ▸ rfl⟩

def empty : MultiMap key ν := ⟨[], List.Pairwise.nil⟩

/-! ## Insertion -/

/-- Insert before the first larger key. -/
def insertEntry (key : κ → ι) (k : κ) (v : ν) : List (κ × ν) → List (κ × ν)
  | [] => [(k, v)]
  | e :: rest => if key k < key e.1 then (k, v) :: e :: rest else e :: insertEntry key k v rest

theorem mem_insertEntry {k : κ} {v : ν} {l : List (κ × ν)} {e : κ × ν}
    (h : e ∈ insertEntry key k v l) : e = (k, v) ∨ e ∈ l := by
  induction l with
  | nil => exact Or.inl (List.mem_singleton.1 h)
  | cons hd rest ih =>
      rw [insertEntry] at h
      split at h
      · exact List.mem_cons.1 h
      · rcases List.mem_cons.1 h with rfl | h
        · exact Or.inr List.mem_cons_self
        · exact (ih h).imp_right (List.mem_cons_of_mem hd)

theorem pairwise_insertEntry {k : κ} {v : ν} {l : List (κ × ν)}
    (hl : l.Pairwise fun a b => key a.1 ≤ key b.1) :
    (insertEntry key k v l).Pairwise fun a b => key a.1 ≤ key b.1 := by
  induction l with
  | nil => exact List.pairwise_singleton _ _
  | cons hd rest ih =>
      obtain ⟨hhd, hrest⟩ := List.pairwise_cons.1 hl
      rw [insertEntry]
      split
      · next hlt =>
          refine List.pairwise_cons.2 ⟨fun e he => ?_, hl⟩
          rcases List.mem_cons.1 he with rfl | he
          · exact le_of_lt hlt
          · exact (le_of_lt hlt).trans (hhd e he)
      · next hle =>
          refine List.pairwise_cons.2 ⟨fun e he => ?_, ih hrest⟩
          rcases mem_insertEntry he with rfl | he
          · exact not_lt.1 hle
          · exact hhd e he

def insert (m : MultiMap key ν) (k : κ) (v : ν) : MultiMap key ν :=
  ⟨insertEntry key k v m.entries, pairwise_insertEntry m.sorted⟩

/-! ## The entries of one key -/

/-- What is there for a key, in the order it came in. -/
def range (m : MultiMap key ν) (k : κ) : List ν :=
  (m.entries.filter fun e => key e.1 = key k).map Prod.snd

/-- `count`. -/
def count (m : MultiMap key ν) (k : κ) : Nat := (m.range k).length

@[simp] theorem range_empty (k : κ) : (empty : MultiMap key ν).range k = [] := rfl

theorem filter_insertEntry {k : κ} {v : ν} (p : κ × ν → Bool) :
    ∀ {l : List (κ × ν)}, l.Pairwise (fun a b => key a.1 ≤ key b.1) →
    (∀ e, key k < key e.1 → p e = false) →
    (insertEntry key k v l).filter p = l.filter p ++ [(k, v)].filter p := by
  intro l
  induction l with
  | nil => intro _ _; rfl
  | cons hd rest ih =>
      intro hl hp
      obtain ⟨hhd, hrest⟩ := List.pairwise_cons.1 hl
      rw [insertEntry]
      split
      · next hlt =>
          have hnone : (hd :: rest).filter p = [] := by
            rw [List.filter_eq_nil_iff]
            intro e he
            rcases List.mem_cons.1 he with rfl | he
            · simp [hp e hlt]
            · simp [hp e (lt_of_lt_of_le hlt (hhd e he))]
          rw [hnone, List.filter_cons, hnone]
          split <;> simp_all
      · rw [List.filter_cons, List.filter_cons, ih hrest hp]
        split <;> rfl

/-- What is inserted comes behind what was there for its key. -/
theorem range_insert_self (m : MultiMap key ν) {k k' : κ} (v : ν) (h : key k' = key k) :
    (m.insert k v).range k' = m.range k' ++ [v] := by
  rw [range, insert, filter_insertEntry _ m.sorted fun e he => by simp [h, (ne_of_lt he).symm],
    List.map_append, range]
  simp [h]

theorem filter_insertEntry_of_false {k : κ} {v : ν} {p : κ × ν → Bool} (hp : p (k, v) = false)
    (l : List (κ × ν)) : (insertEntry key k v l).filter p = l.filter p := by
  induction l with
  | nil => simp [insertEntry, hp]
  | cons hd rest ih =>
      rw [insertEntry]
      split
      · rw [List.filter_cons, if_neg (by simp [hp])]
      · rw [List.filter_cons, List.filter_cons, ih]

theorem range_insert_of_ne (m : MultiMap key ν) {k k' : κ} (v : ν) (h : key k' ≠ key k) :
    (m.insert k v).range k' = m.range k' := by
  rw [range, insert, filter_insertEntry_of_false (by simp [h.symm]), range]

/-- What is there for a key when one entry after the other has been inserted. -/
theorem range_foldl_insert (k : κ) (es : List (κ × ν)) : ∀ m : MultiMap key ν,
    (es.foldl (fun m e => m.insert e.1 e.2) m).range k =
      m.range k ++ (es.filter fun e => key e.1 = key k).map Prod.snd := by
  induction es with
  | nil => intro m; simp
  | cons e es ih =>
      intro m
      rw [List.foldl_cons, ih, List.filter_cons]
      by_cases h : key e.1 = key k
      · rw [range_insert_self m e.2 h.symm, if_pos (by simp [h]), List.map_cons,
          List.append_assoc]
        rfl
      · rw [range_insert_of_ne m e.2 (Ne.symm h), if_neg (by simp [h])]

/-! ## Iterators -/

/-- Where `find` stands: behind every smaller key. -/
def lower (m : MultiMap key ν) (k : κ) : Nat := m.entries.countP fun e => key e.1 < key k

/-- What an iterator shows that was at `find(k)` and went `i` steps on. -/
def entry (m : MultiMap key ν) (k : κ) (i : Nat) : Option ν :=
  (m.entries[m.lower k + i]?).map Prod.snd

theorem keys_modify (l : List (κ × ν)) (n : Nat) (f : ν → ν) :
    (l.modify n fun e => (e.1, f e.2)).map Prod.fst = l.map Prod.fst := by
  refine List.ext_getElem? fun j => ?_
  rw [List.getElem?_map, List.getElem?_map, List.getElem?_modify]
  cases l[j]? with
  | none => rfl
  | some e =>
      simp only [Option.map_some]
      split <;> rfl

/-- Assign through that iterator. -/
def modify (m : MultiMap key ν) (k : κ) (i : Nat) (f : ν → ν) : MultiMap key ν where
  entries := m.entries.modify (m.lower k + i) fun e => (e.1, f e.2)
  sorted := by
    have h : (m.entries.map Prod.fst).Pairwise fun a b => key a ≤ key b :=
      List.pairwise_map.2 m.sorted
    rw [← keys_modify m.entries (m.lower k + i) f, List.pairwise_map] at h
    exact h

/-- Smaller keys, then the key itself, then larger ones. -/
theorem entries_split (m : MultiMap key ν) (k : κ) :
    m.entries = m.entries.filter (fun e => key e.1 < key k) ++
      (m.entries.filter (fun e => key e.1 = key k) ++
        m.entries.filter (fun e => key k < key e.1)) := by
  have h := m.sorted
  generalize m.entries = l at h ⊢
  induction l with
  | nil => rfl
  | cons e rest ih =>
      obtain ⟨hle, hrest⟩ := List.pairwise_cons.1 h
      have hbehind : ∀ p : κ × ν → Bool, (∀ e', key e.1 ≤ key e'.1 → p e' = false) →
          rest.filter p = [] := by
        intro p hp
        rw [List.filter_eq_nil_iff]
        intro e' he'
        simp [hp e' (hle e' he')]
      rcases lt_trichotomy (key e.1) (key k) with hlt | heq | hgt
      · rw [List.filter_cons, if_pos (by simp [hlt]), List.filter_cons,
          if_neg (by simp [ne_of_lt hlt]), List.filter_cons, if_neg (by simp [le_of_lt hlt]),
          List.cons_append, ← ih hrest]
      · have hsmaller := hbehind (fun e' => key e'.1 < key k) fun e' he' => by
          simpa [← heq] using he'
        rw [hsmaller] at ih
        rw [List.filter_cons, if_neg (by simp [heq]), hsmaller, List.filter_cons,
          if_pos (by simp [heq]), List.filter_cons, if_neg (by simp [heq]), List.nil_append,
          List.cons_append]
        rw [List.nil_append] at ih
        rw [← ih hrest]
      · have hsmaller := hbehind (fun e' => key e'.1 < key k) fun e' he' => by
          simpa using le_of_lt (lt_of_lt_of_le hgt he')
        have hsame := hbehind (fun e' => key e'.1 = key k) fun e' he' => by
          simpa using ne_of_gt (lt_of_lt_of_le hgt he')
        rw [hsmaller, hsame] at ih
        rw [List.filter_cons, if_neg (by simp [le_of_lt hgt]), hsmaller, List.filter_cons,
          if_neg (by simp [ne_of_gt hgt]), hsame, List.filter_cons, if_pos (by simp [hgt])]
        rw [List.nil_append, List.nil_append] at ih ⊢
        rw [← ih hrest]

theorem lower_eq (m : MultiMap key ν) (k : κ) :
    m.lower k = (m.entries.filter fun e => key e.1 < key k).length :=
  List.countP_eq_length_filter

/-- As long as there are entries of the key, the iterator goes through them. -/
theorem entry_eq {m : MultiMap key ν} {k : κ} {i : Nat} (h : i < m.count k) :
    m.entry k i = (m.range k)[i]? := by
  have hlen : i < (m.entries.filter fun e => key e.1 = key k).length := by
    rwa [count, range, List.length_map] at h
  have hsplit := congrArg (fun l => l[m.lower k + i]?) (m.entries_split k)
  rw [lower_eq, List.getElem?_append_right (Nat.le_add_right _ _), Nat.add_sub_cancel_left,
    List.getElem?_append_left hlen, ← lower_eq] at hsplit
  rw [entry, range, List.getElem?_map, hsplit]

theorem countP_keys (l : List (κ × ν)) (p : κ → Bool) :
    l.countP (fun e => p e.1) = (l.map Prod.fst).countP p := by
  rw [List.countP_map]
  rfl

theorem count_eq (m : MultiMap key ν) (k : κ) :
    m.count k = (m.entries.map Prod.fst).countP fun k' => key k' = key k := by
  rw [← countP_keys _ fun k' => decide (key k' = key k), count, range, List.length_map,
    List.countP_eq_length_filter]

@[simp] theorem count_modify (m : MultiMap key ν) (k k' : κ) (i : Nat) (f : ν → ν) :
    (m.modify k i f).count k' = m.count k' := by
  rw [count_eq, count_eq, modify, keys_modify]

@[simp] theorem lower_modify (m : MultiMap key ν) (k k' : κ) (i : Nat) (f : ν → ν) :
    (m.modify k i f).lower k' = m.lower k' := by
  rw [lower, lower, countP_keys _ fun k'' => decide (key k'' < key k'),
    countP_keys _ fun k'' => decide (key k'' < key k'), modify, keys_modify]

/-- What was assigned is there. -/
theorem entry_modify_self (m : MultiMap key ν) (k : κ) (i : Nat) (f : ν → ν) :
    (m.modify k i f).entry k i = (m.entry k i).map f := by
  rw [entry, lower_modify, modify, entry, List.getElem?_modify_eq]
  cases m.entries[m.lower k + i]? <;> rfl

end MultiMap
