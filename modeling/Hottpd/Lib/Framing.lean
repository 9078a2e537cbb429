import Mathlib.Data.List.Infix

/-!
# Frames in a stream

A writer puts frames into a stream one after the other, and a reader that has got
the front of it takes as many off as are there. A frame does not say where it stands,
so the reader has to see from the frame alone where it ends, and that it has not
ended yet. Then what is read is what was written, however much of it has come.
-/

namespace Framing

variable {α β : Type}

/-- How a frame is written, and what a reader makes of what it has got: a frame and the rest, or
that it has to wait. -/
structure Codec (α β : Type) where
  encode : α → List β
  next : List β → Option (α × List β)

variable {c : Codec α β} {P : α → Prop} {as : List α} {s : List β}

namespace Codec

/-- The frames in `P` are told from what follows them and from their beginnings. -/
structure Delimits (c : Codec α β) (P : α → Prop) : Prop where
  nil : c.next [] = none
  nonempty : ∀ {a}, P a → c.encode a ≠ []
  whole : ∀ {a}, P a → ∀ rest, c.next (c.encode a ++ rest) = some (a, rest)
  part : ∀ {a front}, P a → front <+: c.encode a → front ≠ c.encode a → c.next front = none

def readFuel (c : Codec α β) : Nat → List β → List α × List β
  | 0, s => ([], s)
  | fuel + 1, s =>
      match c.next s with
      | none => ([], s)
      | some (a, rest) => (a :: (readFuel c fuel rest).1, (readFuel c fuel rest).2)

/-- The frames that are there, and the rest. -/
def readAll (c : Codec α β) (s : List β) : List α × List β := c.readFuel s.length s

/-- What has been read of the front `s` of a stream: these frames as a whole, and of the one
behind them a part. -/
structure Arrived (c : Codec α β) (as : List α) (s : List β) (read : List α × List β) : Prop where
  written : s = read.1.flatMap c.encode ++ read.2
  part : ∃ later, as = read.1 ++ later ∧
    ((later = [] ∧ read.2 = []) ∨
      ∃ a, later.head? = some a ∧ read.2 <+: c.encode a ∧ read.2 ≠ c.encode a)

theorem Arrived.cons {read : List α × List β} (h : c.Arrived as s read) (a : α) :
    c.Arrived (a :: as) (c.encode a ++ s) (a :: read.1, read.2) := by
  obtain ⟨hwritten, later, rfl, hpart⟩ := h
  refine ⟨?_, later, rfl, hpart⟩
  rw [List.flatMap_cons, List.append_assoc, ← hwritten]

/-- The first frame has not come as a whole. -/
theorem Arrived.waits {a : α} (hfront : s <+: c.encode a) (hne : s ≠ c.encode a) :
    c.Arrived (a :: as) s ([], s) :=
  ⟨rfl, a :: as, rfl, Or.inr ⟨a, rfl, hfront, hne⟩⟩

theorem Delimits.arrived_nil (h : c.Delimits P) (has : ∀ a ∈ as, P a) :
    c.Arrived as [] ([], []) := by
  cases as with
  | nil => exact ⟨rfl, [], rfl, Or.inl ⟨rfl, rfl⟩⟩
  | cons a as => exact .waits List.nil_prefix (h.nonempty (has a List.mem_cons_self)).symm

theorem Delimits.readFuel (h : c.Delimits P) (fuel : Nat) : ∀ {s : List β} {as : List α},
    s.length ≤ fuel → (∀ a ∈ as, P a) → s <+: as.flatMap c.encode →
    c.Arrived as s (c.readFuel fuel s) := by
  induction fuel with
  | zero =>
      intro s as hfuel has _
      obtain rfl : s = [] := List.eq_nil_of_length_eq_zero (by omega)
      exact h.arrived_nil has
  | succ fuel ih =>
      intro s as hfuel has hpre
      cases as with
      | nil =>
          obtain rfl : s = [] := List.prefix_nil.1 hpre
          rw [Codec.readFuel, h.nil]
          exact h.arrived_nil has
      | cons a as =>
          have ha : P a := has a List.mem_cons_self
          rw [List.flatMap_cons] at hpre
          by_cases hwhole : c.encode a <+: s
          · -- the frame is there, and the rest is read in the same way
            obtain ⟨rest, rfl⟩ := hwhole
            have hshort := List.length_pos_iff.2 (h.nonempty ha)
            rw [List.length_append] at hfuel
            have hrest := @ih rest as (by omega)
              (fun a' ha' => has a' (List.mem_cons_of_mem a ha'))
              ((List.prefix_append_right_inj _).1 hpre)
            rw [Codec.readFuel, h.whole ha]
            exact hrest.cons a
          · have hfront : s <+: c.encode a :=
              (List.prefix_or_prefix_of_prefix hpre (List.prefix_append _ _)).resolve_right hwhole
            have hne : s ≠ c.encode a := by
              rintro rfl
              exact hwhole List.prefix_rfl
            rw [Codec.readFuel, h.part ha hfront hne]
            exact .waits hfront hne

/-- A reader that has got the front of a stream reads the frames that are there. -/
theorem Delimits.readAll (h : c.Delimits P) (has : ∀ a ∈ as, P a)
    (hpre : s <+: as.flatMap c.encode) : c.Arrived as s (c.readAll s) :=
  h.readFuel s.length (Nat.le_refl _) has hpre

/-- One that has got all of it reads all of them. -/
theorem Arrived.all {read : List α × List β} (h : c.Arrived as (as.flatMap c.encode) read) :
    read = (as, []) := by
  obtain ⟨done, part⟩ := read
  obtain ⟨hwritten, later, rfl, hpart⟩ := h
  rw [List.flatMap_append, List.append_cancel_left_eq] at hwritten
  rcases hpart with ⟨rfl, hnil⟩ | ⟨a, hhead, hfront, hne⟩
  · rw [List.append_nil]
    exact Prod.ext rfl hnil
  · obtain ⟨more, rfl⟩ := List.head?_eq_some_iff.1 hhead
    rw [List.flatMap_cons] at hwritten
    have hwhole : c.encode a <+: part := ⟨_, hwritten⟩
    exact absurd (hfront.eq_of_length_le hwhole.length_le) hne

end Codec

end Framing
