import Mathlib.Data.List.Infix

/-!
# Glob patterns

A pattern is a list of letters, of places for one letter and of places for any
run of letters. A matcher that meets a run need not remember the runs before it:
where the pattern from an earlier run on has a match further behind, the pattern
from the last run on has one too, since that run takes whatever lies between.
-/

/-- An item of a pattern. -/
inductive GlobItem (α : Type) where
  | lit (a : α)
  /-- Exactly one letter. -/
  | one
  /-- Any run of letters, the empty one too. -/
  | many
deriving DecidableEq

inductive Glob {α : Type} : List (GlobItem α) → List α → Prop where
  | nil : Glob [] []
  | lit {p : List (GlobItem α)} {s : List α} (a : α) (h : Glob p s) : Glob (.lit a :: p) (a :: s)
  | one {p : List (GlobItem α)} {s : List α} (a : α) (h : Glob p s) : Glob (.one :: p) (a :: s)
  | many {p : List (GlobItem α)} {s : List α} (run : List α) (h : Glob p s) :
      Glob (.many :: p) (run ++ s)

namespace Glob

variable {α : Type} {p : List (GlobItem α)} {s : List α} {a b : α}

theorem nil_iff : Glob [] s ↔ s = [] := by
  constructor
  · intro h
    cases h
    rfl
  · rintro rfl
    exact .nil

theorem lit_iff : Glob (.lit a :: p) (b :: s) ↔ a = b ∧ Glob p s := by
  constructor
  · intro h
    cases h with
    | lit _ h => exact ⟨rfl, h⟩
  · rintro ⟨rfl, h⟩
    exact .lit a h

theorem one_iff : Glob (.one :: p) (a :: s) ↔ Glob p s := by
  constructor
  · intro h
    cases h with
    | one _ h => exact h
  · exact .one a

theorem not_lit_nil : ¬Glob (.lit a :: p) [] := nofun

theorem not_one_nil : ¬Glob (.one :: p) ([] : List α) := nofun

/-- A run takes what comes before some end of the string. -/
theorem many_iff : Glob (.many :: p) s ↔ ∃ t, t <:+ s ∧ Glob p t := by
  constructor
  · intro h
    cases h with
    | many run h => exact ⟨_, List.suffix_append run _, h⟩
  · rintro ⟨t, ⟨run, rfl⟩, h⟩
    exact .many run h

theorem many_nil_iff : Glob (.many :: p) [] ↔ Glob p [] := by
  rw [many_iff]
  constructor
  · rintro ⟨t, ht, h⟩
    rwa [List.suffix_nil.1 ht] at h
  · exact fun h => ⟨[], List.suffix_refl [], h⟩

/-- A run is empty, or takes one letter more. -/
theorem many_cons_iff : Glob (.many :: p) (a :: s) ↔ Glob p (a :: s) ∨ Glob (.many :: p) s := by
  rw [many_iff, many_iff]
  constructor
  · rintro ⟨t, ht, h⟩
    rcases List.suffix_cons_iff.1 ht with rfl | ht
    · exact Or.inl h
    · exact Or.inr ⟨t, ht, h⟩
  · rintro (h | ⟨t, ht, h⟩)
    · exact ⟨a :: s, List.suffix_refl _, h⟩
    · exact ⟨t, ht.trans (List.suffix_cons a s), h⟩

theorem many_suffix {t : List α} (ht : t <:+ s) (h : Glob (.many :: p) t) :
    Glob (.many :: p) s := by
  obtain ⟨u, hu, h⟩ := many_iff.1 h
  exact many_iff.2 ⟨u, hu.trans ht, h⟩

/-- Nothing but runs is left. -/
theorem nil_right_iff : Glob p [] ↔ ∀ i ∈ p, i = .many := by
  induction p with
  | nil => exact iff_of_true .nil (by simp)
  | cons i p ih =>
      rw [List.forall_mem_cons]
      cases i with
      | lit a => exact iff_of_false not_lit_nil (by simp)
      | one => exact iff_of_false not_one_nil (by simp)
      | many => rw [many_nil_iff, ih, eq_self, true_and]

/-! ## Going back to the last run -/

/-- Behind a run with the pattern `mp` after it, of which some has been matched so that `wild`
is left for `s`: a match of `mp` further on, in `cp`, has one of `wild` in it. -/
def Retraces (mp : List (GlobItem α)) (cp : List α) (wild : List (GlobItem α)) (s : List α) :
    Prop :=
  ∀ t, t <:+ cp → Glob mp t → ∃ t', t' <:+ s ∧ Glob wild t'

theorem Retraces.refl : Retraces p s p s := fun t ht h => ⟨t, ht, h⟩

/-- A run is met. -/
theorem Retraces.start : Retraces p s p (a :: s) :=
  fun t ht h => ⟨t, ht.trans (List.suffix_cons a s), h⟩

/-- The string is tried one letter further on. -/
theorem Retraces.again : Retraces p s.tail p s :=
  fun t ht h => ⟨t, ht.trans (List.tail_suffix s), h⟩

theorem suffix_of_cons_suffix_cons {t : List α} (h : b :: t <:+ a :: s) : t <:+ s := by
  rcases List.suffix_cons_iff.1 h with heq | h
  · obtain ⟨-, rfl⟩ := List.cons.inj heq
    exact List.suffix_refl t
  · exact (List.suffix_cons b t).trans h

/-- A letter is matched. -/
theorem Retraces.next {mp wild : List (GlobItem α)} {cp : List α} {i : GlobItem α}
    (h : Retraces mp cp (i :: wild) (a :: s)) (hi : i ≠ .many) : Retraces mp cp wild s := by
  intro t ht hglob
  obtain ⟨t', ht', hwild⟩ := h t ht hglob
  cases hwild with
  | lit b hwild => exact ⟨_, suffix_of_cons_suffix_cons ht', hwild⟩
  | one b hwild => exact ⟨_, suffix_of_cons_suffix_cons ht', hwild⟩
  | many => exact absurd rfl hi

/-- The next run makes the run before it superfluous. -/
theorem Retraces.exchange {mp wild : List (GlobItem α)} {cp : List α}
    (h : Retraces mp cp (.many :: wild) s) :
    Glob (.many :: wild) s ∨ Glob (.many :: mp) cp ↔ Glob (.many :: wild) s := by
  refine or_iff_left_of_imp fun hmp => ?_
  obtain ⟨t, ht, hglob⟩ := many_iff.1 hmp
  obtain ⟨t', ht', hwild⟩ := h t ht hglob
  exact many_suffix ht' hwild

/-- So does the end of the string. -/
theorem Retraces.ends {mp wild : List (GlobItem α)} {cp : List α} (h : Retraces mp cp wild []) :
    Glob wild [] ∨ Glob (.many :: mp) cp ↔ Glob wild [] := by
  refine or_iff_left_of_imp fun hmp => ?_
  obtain ⟨t, ht, hglob⟩ := many_iff.1 hmp
  obtain ⟨t', ht', hwild⟩ := h t ht hglob
  rwa [List.suffix_nil.1 ht'] at hwild

end Glob
