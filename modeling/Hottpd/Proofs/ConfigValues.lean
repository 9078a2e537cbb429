import Hottpd.Core.ConfigReader

/-!
# Looking a value up

`ConfValue` strips the line feeds of a value where it is stored, and then goes on
to the next item with that name instead of returning what it has just stripped.
So the first look-up of such a value answers with a later one, with the default or
with nothing, and the second one with the value. Every other value is found the
first time, and a look-up that found it changes nothing.
-/

namespace Hottpd

open Bytes

/-! ## The items of one section -/

/-- What a section has for a variable. -/
def valuesOf (var : Bytes) (items : KeyValList) : List Bytes :=
  (items.filter fun item => item.1 = var).map Prod.snd

theorem valuesOf_cons_self (var v : Bytes) (items : KeyValList) :
    valuesOf var ((var, v) :: items) = v :: valuesOf var items := by
  simp [valuesOf]

theorem valuesOf_cons_of_ne {var k : Bytes} (h : k ≠ var) (v : Bytes) (items : KeyValList) :
    valuesOf var ((k, v) :: items) = valuesOf var items := by
  simp [valuesOf, h]

theorem linefeed_not_mem_strip (value : Bytes) : 10 ∉ stripLinefeeds value := by
  intro h
  obtain ⟨b, -, hb⟩ := List.mem_map.1 h
  split at hb
  · cases hb
  · next hne => exact hne hb

theorem strip_eq_self {value : Bytes} (h : 10 ∉ value) : stripLinefeeds value = value := by
  have hsame : value.map (fun b => if b = 10 then 32 else b) = value.map id := by
    refine List.map_congr_left fun b hb => ?_
    have hne : b ≠ 10 := by
      rintro rfl
      exact h hb
    rw [if_neg hne]
    rfl
  rw [stripLinefeeds, hsame, List.map_id]

/-- The loop stops at the first value without a line feed. -/
theorem findValue_fst (var : Bytes) (items : KeyValList) :
    (findValue var false items).1 = (valuesOf var items).find? fun v => 10 ∉ v := by
  induction items with
  | nil => rfl
  | cons item rest ih =>
      obtain ⟨k, v⟩ := item
      rw [findValue]
      by_cases hk : k = var
      · subst hk
        rw [if_pos rfl, valuesOf_cons_self, List.find?_cons]
        by_cases hv : 10 ∈ v
        · rw [if_pos ⟨rfl, hv⟩]
          simpa [hv] using ih
        · rw [if_neg fun h => hv h.2]
          simp [hv]
      · rw [if_neg hk, valuesOf_cons_of_ne hk]
        exact ih

/-- Behind a look-up the first value has no line feed. -/
theorem findValue_snd (var : Bytes) (items : KeyValList) :
    (valuesOf var (findValue var false items).2).head?
      = (valuesOf var items).head?.map stripLinefeeds := by
  induction items with
  | nil => rfl
  | cons item rest ih =>
      obtain ⟨k, v⟩ := item
      rw [findValue]
      by_cases hk : k = var
      · subst hk
        rw [if_pos rfl, valuesOf_cons_self]
        by_cases hv : 10 ∈ v
        · rw [if_pos ⟨rfl, hv⟩]
          dsimp only
          rw [valuesOf_cons_self]
          rfl
        · rw [if_neg fun h => hv h.2]
          dsimp only
          rw [valuesOf_cons_self, List.head?_cons, Option.map_some, strip_eq_self hv]
      · rw [if_neg hk, valuesOf_cons_of_ne hk, valuesOf_cons_of_ne hk]
        exact ih

/-! ## The section -/

/-- The section of that index among those of the tag. -/
def sectionAt (target : ConfigDataHash) (tag : Bytes) (index : Int) : Option KeyValList :=
  if 0 ≤ index then (target.range tag)[index.toNat]? else none

section Lookup

variable {target : ConfigDataHash} {tag : Bytes} {index : Int}

theorem sectionAt_some {items : KeyValList} (h : sectionAt target tag index = some items) :
    (0 ≤ index ∧ index.toNat < target.count tag) ∧ target.entry tag index.toNat = some items := by
  rw [sectionAt] at h
  split at h
  · next hindex =>
      have hlt : index.toNat < target.count tag := (List.getElem?_eq_some_iff.1 h).1
      exact ⟨⟨hindex, hlt⟩, by rw [MultiMap.entry_eq hlt, h]⟩
  · cases h

theorem sectionAt_none (h : sectionAt target tag index = none) :
    ¬(0 ≤ index ∧ index.toNat < target.count tag) := by
  rintro ⟨hindex, hlt⟩
  rw [sectionAt, if_pos hindex, List.getElem?_eq_none_iff] at h
  rw [MultiMap.count] at hlt
  omega

theorem sectionAt_modify {items : KeyValList} (h : sectionAt target tag index = some items)
    (items' : KeyValList) :
    sectionAt (target.modify tag index.toNat fun _ => items') tag index = some items' := by
  obtain ⟨⟨hindex, hlt⟩, hentry⟩ := sectionAt_some h
  have hlt' : index.toNat < (target.modify tag index.toNat fun _ => items').count tag := by
    rwa [MultiMap.count_modify]
  rw [sectionAt, if_pos hindex, ← MultiMap.entry_eq hlt', MultiMap.entry_modify_self, hentry]
  rfl

theorem confValue_present {items : KeyValList} (h : sectionAt target tag index = some items)
    (var default_value : Bytes) :
    confValue target tag var default_value index false =
      ((findValue var false items).1.or (defaultValue default_value),
        target.modify tag index.toNat fun _ => (findValue var false items).2) := by
  obtain ⟨hindex, hentry⟩ := sectionAt_some h
  rw [confValue, if_pos hindex, hentry]
  dsimp only
  cases (findValue var false items).1 with
  | none => rfl
  | some value => rfl

theorem confValue_absent (h : sectionAt target tag index = none) (var default_value : Bytes)
    (allowLinefeeds : Bool) :
    confValue target tag var default_value index allowLinefeeds =
      (if index = 0 then defaultValue default_value else none, target) := by
  rw [confValue, if_neg (sectionAt_none h)]
  split <;> rfl

end Lookup

/-! ## What is promised -/

/-- The first value with its line feeds as spaces, otherwise the default. -/
def dueOf (var default_value : Bytes) (items : KeyValList) : Option Bytes :=
  match valuesOf var items with
  | [] => defaultValue default_value
  | first :: _ => some (stripLinefeeds first)

/-- What a look-up is to answer. -/
def dueValue (target : ConfigDataHash) (tag var default_value : Bytes) (index : Int) :
    Option Bytes :=
  match sectionAt target tag index with
  | some items => dueOf var default_value items
  | none => if index = 0 then defaultValue default_value else none

/-- If the first value has a line feed, what comes in its place is the same without it. -/
def FoundAtOnce (var default_value : Bytes) (items : KeyValList) : Prop :=
  ∀ first rest, valuesOf var items = first :: rest → 10 ∈ first →
    (rest.find? fun v => 10 ∉ v).or (defaultValue default_value) = some (stripLinefeeds first)

theorem findValue_due (var default_value : Bytes) (items : KeyValList) :
    (findValue var false items).1.or (defaultValue default_value)
      = dueOf var default_value items ↔ FoundAtOnce var default_value items := by
  rw [findValue_fst, dueOf, FoundAtOnce]
  cases valuesOf var items with
  | nil => simp
  | cons first rest =>
      by_cases hfirst : 10 ∈ first
      · simp [hfirst]
      · simp [hfirst, strip_eq_self hfirst]

/-- The second look-up finds what was promised, whatever the first one answered. -/
theorem findValue_again (var default_value : Bytes) (items : KeyValList) :
    (findValue var false (findValue var false items).2).1.or (defaultValue default_value)
      = dueOf var default_value items := by
  have hhead := findValue_snd var items
  rw [findValue_fst, dueOf]
  cases hvalues : valuesOf var items with
  | nil =>
      rw [hvalues] at hhead
      have hnone : valuesOf var (findValue var false items).2 = [] :=
        List.head?_eq_none_iff.1 hhead
      rw [hnone]
      rfl
  | cons first rest =>
      rw [hvalues] at hhead
      obtain ⟨rest', hrest'⟩ := List.head?_eq_some_iff.1 hhead
      rw [hrest', List.find?_cons_of_pos (by simpa using linefeed_not_mem_strip first)]
      rfl

/-- A look-up answers as promised, and again when it is repeated, just where the first value
of the variable, if there is one, has no line feed or what comes in its place is the same. -/
theorem confValue_exact (target : ConfigDataHash) (tag var default_value : Bytes) (index : Int) :
    let first := confValue target tag var default_value index false
    let second := confValue first.2 tag var default_value index false
    (first.1 = dueValue target tag var default_value index ∧ second.1 = first.1) ↔
      ∀ items, sectionAt target tag index = some items → FoundAtOnce var default_value items := by
  dsimp only
  rw [dueValue]
  cases hsection : sectionAt target tag index with
  | none =>
      rw [confValue_absent hsection, confValue_absent hsection]
      simp
  | some items =>
      rw [confValue_present hsection, confValue_present (sectionAt_modify hsection _)]
      dsimp only
      rw [findValue_again]
      constructor
      · rintro ⟨hfirst, -⟩ items' hitems
        obtain rfl := Option.some.inj hitems
        exact (findValue_due var default_value items).1 hfirst
      · intro h
        have hfirst := (findValue_due var default_value items).2 (h items rfl)
        exact ⟨hfirst, hfirst.symm⟩

/-- One section, with a value of two lines. -/
def twoLines : ConfigDataHash := MultiMap.empty.insert (str "s") [(str "k", str "a\nb")]

/-- The first look-up answers with the default, the second one with the value. -/
theorem confValue_forgets :
    ¬∀ (target : ConfigDataHash) (tag var default_value : Bytes) (index : Int),
      let first := confValue target tag var default_value index false
      let second := confValue first.2 tag var default_value index false
      first.1 = dueValue target tag var default_value index ∧ second.1 = first.1 := by
  intro h
  have hfirst := (h twoLines (str "s") (str "k") (str "d") 0).1
  revert hfirst
  decide

end Hottpd
