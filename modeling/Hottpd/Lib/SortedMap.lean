import Mathlib.Data.List.Lex
import Mathlib.Order.Lattice
import Mathlib.Order.Basic

/-!
# Maps kept in key order

A map that is iterated in the order of its keys, where two keys are one key
as soon as the order cannot tell them apart: the order is read off
`key : κ → ι`, and the spelling of the first insertion stays. Being in order
is part of the type, so no operation can hand back an unsorted map and
lookup never needs the fact restated.
-/

namespace SortedMap

variable {κ ι ν : Type} [LinearOrder ι] {key : κ → ι}

/-- Overwrite the value of an equal key, or insert before the first larger. -/
def insertEntry (key : κ → ι) (k : κ) (v : ν) : List (κ × ν) → List (κ × ν)
  | [] => [(k, v)]
  | (k', v') :: rest =>
      if key k < key k' then (k, v) :: (k', v') :: rest
      else if key k' < key k then (k', v') :: insertEntry key k v rest
      else (k', v) :: rest

theorem key_mem_insertEntry {k : κ} {v : ν} {l : List (κ × ν)} {e : κ × ν}
    (he : e ∈ insertEntry key k v l) :
    key e.1 = key k ∨ ∃ e' ∈ l, key e'.1 = key e.1 := by
  induction l with
  | nil =>
      simp only [insertEntry, List.mem_singleton] at he
      exact Or.inl (by rw [he])
  | cons hd rest ih =>
      obtain ⟨k', v'⟩ := hd
      simp only [insertEntry] at he
      split at he
      · rcases List.mem_cons.1 he with rfl | hm
        · exact Or.inl rfl
        · exact Or.inr ⟨e, hm, rfl⟩
      · split at he
        · rcases List.mem_cons.1 he with rfl | hm
          · exact Or.inr ⟨_, List.mem_cons_self, rfl⟩
          · rcases ih hm with h | ⟨e', hm', h⟩
            · exact Or.inl h
            · exact Or.inr ⟨e', List.mem_cons_of_mem _ hm', h⟩
        · rcases List.mem_cons.1 he with rfl | hm
          · exact Or.inr ⟨_, List.mem_cons_self, rfl⟩
          · exact Or.inr ⟨e, List.mem_cons_of_mem _ hm, rfl⟩

/-- An entry was there, or has the value put in, under the new key or one that was there. -/
theorem mem_insertEntry {k : κ} {v : ν} {l : List (κ × ν)} {e : κ × ν}
    (he : e ∈ insertEntry key k v l) :
    e ∈ l ∨ (e.2 = v ∧ (e.1 = k ∨ ∃ e' ∈ l, e'.1 = e.1)) := by
  induction l with
  | nil =>
      rw [insertEntry, List.mem_singleton] at he
      exact Or.inr (by rw [he]; exact ⟨rfl, Or.inl rfl⟩)
  | cons hd rest ih =>
      obtain ⟨k', v'⟩ := hd
      simp only [insertEntry] at he
      split at he
      · rcases List.mem_cons.1 he with rfl | hm
        · exact Or.inr ⟨rfl, Or.inl rfl⟩
        · exact Or.inl hm
      · split at he
        · rcases List.mem_cons.1 he with rfl | hm
          · exact Or.inl List.mem_cons_self
          · rcases ih hm with hm | ⟨hv, hk | ⟨e', hm', hk⟩⟩
            · exact Or.inl (List.mem_cons_of_mem _ hm)
            · exact Or.inr ⟨hv, Or.inl hk⟩
            · exact Or.inr ⟨hv, Or.inr ⟨e', List.mem_cons_of_mem _ hm', hk⟩⟩
        · rcases List.mem_cons.1 he with rfl | hm
          · exact Or.inr ⟨rfl, Or.inr ⟨_, List.mem_cons_self, rfl⟩⟩
          · exact Or.inl (List.mem_cons_of_mem _ hm)

theorem pairwise_insertEntry {k : κ} {v : ν} {l : List (κ × ν)}
    (hl : l.Pairwise fun a b => key a.1 < key b.1) :
    (insertEntry key k v l).Pairwise fun a b => key a.1 < key b.1 := by
  induction l with
  | nil => simp [insertEntry]
  | cons hd rest ih =>
      obtain ⟨k', v'⟩ := hd
      obtain ⟨hhd, hrest⟩ := List.pairwise_cons.1 hl
      simp only [insertEntry]
      split
      · next hlt =>
          refine List.pairwise_cons.2 ⟨fun e he => ?_, hl⟩
          rcases List.mem_cons.1 he with rfl | hm
          · exact hlt
          · exact lt_trans hlt (hhd e hm)
      · split
        · next hlt =>
            refine List.pairwise_cons.2 ⟨fun e he => ?_, ih hrest⟩
            rcases key_mem_insertEntry he with h | ⟨e', hm, h⟩
            · exact h ▸ hlt
            · exact h ▸ hhd e' hm
        · exact List.pairwise_cons.2 ⟨hhd, hrest⟩

end SortedMap

/-- A finite map from `κ` to `ν`, in the order of `key`. -/
structure SortedMap {κ ι : Type} [LinearOrder ι] (key : κ → ι) (ν : Type) where
  entries : List (κ × ν)
  sorted : entries.Pairwise fun a b => key a.1 < key b.1

namespace SortedMap

variable {κ ι ν : Type} [LinearOrder ι] {key : κ → ι}

instance [DecidableEq κ] [DecidableEq ν] : DecidableEq (SortedMap key ν) :=
  fun m₁ m₂ => decidable_of_iff (m₁.entries = m₂.entries)
    ⟨fun h => by cases m₁; cases m₂; simp_all, fun h => h ▸ rfl⟩

def empty : SortedMap key ν := ⟨[], List.Pairwise.nil⟩

def insert (m : SortedMap key ν) (k : κ) (v : ν) : SortedMap key ν :=
  ⟨insertEntry key k v m.entries, pairwise_insertEntry m.sorted⟩

def erase (m : SortedMap key ν) (k : κ) : SortedMap key ν :=
  ⟨m.entries.filter fun e => key e.1 ≠ key k, m.sorted.filter _⟩

def lookup (m : SortedMap key ν) (k : κ) : Option ν :=
  (m.entries.find? fun e => key e.1 = key k).map Prod.snd

@[simp] theorem lookup_empty (k : κ) :
    (empty : SortedMap key ν).lookup k = none := rfl

theorem lookup_insert_self (m : SortedMap key ν) {k k' : κ} (v : ν)
    (h : key k' = key k) : (m.insert k v).lookup k' = some v := by
  simp only [lookup, insert, h]
  induction m.entries with
  | nil => simp [insertEntry]
  | cons hd rest ih =>
      obtain ⟨k₁, v₁⟩ := hd
      simp only [insertEntry]
      split
      · simp
      · split
        · next hlt => simpa [ne_of_lt hlt] using ih
        · next hge hle => simp [le_antisymm (not_lt.1 hge) (not_lt.1 hle)]

theorem lookup_insert_of_ne (m : SortedMap key ν) {k k' : κ} (v : ν)
    (h : key k' ≠ key k) : (m.insert k v).lookup k' = m.lookup k' := by
  simp only [lookup, insert]
  induction m.entries with
  | nil => simp [insertEntry, h.symm]
  | cons hd rest ih =>
      obtain ⟨k₁, v₁⟩ := hd
      simp only [insertEntry]
      split
      · simp [List.find?_cons, h.symm]
      · split
        · simp only [List.find?_cons]
          split
          · rfl
          · exact ih
        · next hge hle =>
            have heq : key k₁ = key k := le_antisymm (not_lt.1 hge) (not_lt.1 hle)
            simp [heq, h.symm]

/-- An entry is found under its key. -/
theorem lookup_of_mem {m : SortedMap key ν} {e : κ × ν} (h : e ∈ m.entries) :
    m.lookup e.1 = some e.2 := by
  obtain ⟨before, behind, hsplit⟩ := List.append_of_mem h
  have hlt : ∀ e' ∈ before, key e'.1 < key e.1 := by
    have hsorted := m.sorted
    rw [hsplit, List.pairwise_append] at hsorted
    exact fun e' he' => hsorted.2.2 e' he' e List.mem_cons_self
  have hnone : before.find? (fun e' => key e'.1 = key e.1) = none := by
    rw [List.find?_eq_none]
    intro e' he'
    simp [ne_of_lt (hlt e' he')]
  simp [lookup, hsplit, List.find?_append, hnone]

theorem lookup_erase_self (m : SortedMap key ν) {k k' : κ} (h : key k' = key k) :
    (m.erase k).lookup k' = none := by
  simp only [lookup, erase, List.find?_filter, Option.map_eq_none_iff, List.find?_eq_none]
  intro e _
  simp [h]

theorem lookup_erase_of_ne (m : SortedMap key ν) {k k' : κ}
    (h : key k' ≠ key k) : (m.erase k).lookup k' = m.lookup k' := by
  simp only [lookup, erase, List.find?_filter]
  congr 2
  funext e
  by_cases he : key e.1 = key k' <;> simp [he, h]

/-! ## The entries behind an operation -/

theorem mem_erase {m : SortedMap key ν} {k : κ} {e : κ × ν} :
    e ∈ (m.erase k).entries ↔ e ∈ m.entries ∧ key e.1 ≠ key k := by
  rw [erase, List.mem_filter, decide_eq_true_eq]

theorem perm_insert {m : SortedMap key ν} {k : κ} (v : ν) (h : m.lookup k = none) :
    (m.insert k v).entries.Perm ((k, v) :: m.entries) := by
  have hnone : ∀ e ∈ m.entries, key e.1 ≠ key k := by
    rw [lookup, Option.map_eq_none_iff, List.find?_eq_none] at h
    exact fun e he => by simpa using h e he
  show (insertEntry key k v m.entries).Perm _
  generalize m.entries = l at hnone
  clear h
  induction l with
  | nil => exact .refl _
  | cons hd rest ih =>
      obtain ⟨k', v'⟩ := hd
      rw [insertEntry]
      split
      · exact .refl _
      · next hge =>
          have hne : key k' ≠ key k := hnone (k', v') List.mem_cons_self
          rw [if_pos (lt_of_le_of_ne (not_lt.1 hge) hne)]
          exact ((ih fun e he => hnone e (List.mem_cons_of_mem _ he)).cons _).trans (.swap _ _ _)

theorem perm_erase {m : SortedMap key ν} {e : κ × ν} (h : e ∈ m.entries) :
    m.entries.Perm (e :: (m.erase e.1).entries) := by
  obtain ⟨before, behind, hsplit⟩ := List.append_of_mem h
  have hsorted := m.sorted
  rw [hsplit, List.pairwise_append, List.pairwise_cons] at hsorted
  obtain ⟨-, ⟨hbehind, -⟩, hbefore⟩ := hsorted
  have herase : (m.erase e.1).entries = before ++ behind := by
    show m.entries.filter (fun e' => key e'.1 ≠ key e.1) = _
    rw [hsplit, List.filter_append, List.filter_cons_of_neg (by simp), List.filter_eq_self.2,
      List.filter_eq_self.2]
    · exact fun e' he' => by simpa using (ne_of_lt (hbehind e' he')).symm
    · exact fun e' he' => by simpa using ne_of_lt (hbefore e' he' e List.mem_cons_self)
  rw [herase, hsplit]
  exact List.perm_middle

/-- The entry that a look-up finds. -/
theorem mem_of_lookup {m : SortedMap key ν} {k : κ} {v : ν} (h : m.lookup k = some v) :
    ∃ k', key k' = key k ∧ (k', v) ∈ m.entries := by
  obtain ⟨e, he, rfl⟩ := Option.map_eq_some_iff.1 h
  have hkey := List.find?_some he
  exact ⟨e.1, of_decide_eq_true hkey, List.mem_of_find?_eq_some he⟩

/-! ## Filling a map -/

/-- What is behind all that is there goes to the end. -/
theorem insertEntry_behind {k : κ} (v : ν) {l : List (κ × ν)} (h : ∀ e ∈ l, key e.1 < key k) :
    insertEntry key k v l = l ++ [(k, v)] := by
  induction l with
  | nil => rfl
  | cons hd rest ih =>
      obtain ⟨k', v'⟩ := hd
      have hlt : key k' < key k := h _ List.mem_cons_self
      rw [insertEntry, if_neg (not_lt_of_gt hlt), if_pos hlt,
        ih fun e he => h e (List.mem_cons_of_mem _ he)]
      rfl

theorem eq_of_entries {m₁ m₂ : SortedMap key ν} (h : m₁.entries = m₂.entries) : m₁ = m₂ := by
  cases m₁
  cases m₂
  cases h
  rfl

theorem foldl_insert_sorted (rest : List (κ × ν)) : ∀ m : SortedMap key ν,
    (m.entries ++ rest).Pairwise (fun a b => key a.1 < key b.1) →
    (rest.foldl (fun m e => m.insert e.1 e.2) m).entries = m.entries ++ rest := by
  induction rest with
  | nil => intro m _; exact (List.append_nil _).symm
  | cons e rest ih =>
      intro m hsorted
      have hbehind : (m.insert e.1 e.2).entries = m.entries ++ [e] :=
        insertEntry_behind e.2 fun e' he' =>
          (List.pairwise_append.1 hsorted).2.2 e' he' e List.mem_cons_self
      have hsame : (m.insert e.1 e.2).entries ++ rest = m.entries ++ e :: rest := by
        rw [hbehind, List.append_assoc]
        rfl
      rw [List.foldl_cons, ih _ (by rw [hsame]; exact hsorted), hsame]

/-- The entries, inserted one by one, make up the map again. -/
theorem foldl_insert_entries (m : SortedMap key ν) :
    m.entries.foldl (fun m e => m.insert e.1 e.2) empty = m :=
  eq_of_entries (foldl_insert_sorted m.entries empty m.sorted)

theorem lookup_foldl_insert_of_ne {k : κ} (es : List (κ × ν)) : ∀ m : SortedMap key ν,
    (∀ e ∈ es, key e.1 ≠ key k) →
    (es.foldl (fun m e => m.insert e.1 e.2) m).lookup k = m.lookup k := by
  induction es with
  | nil => intro m _; rfl
  | cons e es ih =>
      intro m h
      rw [List.foldl_cons, ih _ fun e' he' => h e' (List.mem_cons_of_mem e he'),
        lookup_insert_of_ne m e.2 (h e List.mem_cons_self).symm]

/-- Of the entries with one key the last stays. -/
theorem lookup_foldl_insert (m : SortedMap key ν) {before after : List (κ × ν)} {e : κ × ν}
    (h : ∀ e' ∈ after, key e'.1 ≠ key e.1) :
    ((before ++ e :: after).foldl (fun m e => m.insert e.1 e.2) m).lookup e.1 = some e.2 := by
  rw [List.foldl_append, List.foldl_cons, lookup_foldl_insert_of_ne after _ h,
    lookup_insert_self _ e.2 rfl]

end SortedMap
