import Mathlib.Logic.Relation

/-!
# Invariants of transition systems

The two rules the safety proofs over runs are made of. The plain rule: what
one step preserves, every run preserves. The guarded rule: where a step
preserves the invariant only under a condition on the history so far, and
the condition is inherited by every earlier state, a run whose last state
meets the condition preserves it too.

A driver that answers each event by a number of steps is covered by
`foldl_steps`: its runs are runs of the step relation.
-/

namespace Transition

open Relation

variable {S E : Type} {R : S → S → Prop}

theorem invariant {I : S → Prop} (hstep : ∀ {s s'}, R s s' → I s → I s')
    {s s' : S} (h : ReflTransGen R s s') (hs : I s) : I s' := by
  induction h with
  | refl => exact hs
  | tail _ hlast ih => exact hstep hlast ih

theorem guarded_invariant {I G : S → Prop}
    (hback : ∀ {s s'}, R s s' → G s' → G s)
    (hstep : ∀ {s s'}, R s s' → G s' → I s → I s')
    {s s' : S} (h : ReflTransGen R s s') (hG : G s') (hs : I s) : I s' := by
  induction h with
  | refl => exact hs
  | tail _ hlast ih => exact hstep hlast hG (ih (hback hlast hG))

theorem foldl_steps {f : S → E → S} (hf : ∀ s e, ReflTransGen R s (f s e))
    (evs : List E) (s : S) : ReflTransGen R s (evs.foldl f s) := by
  induction evs generalizing s with
  | nil => exact .refl
  | cons e evs ih => exact (hf s e).trans (ih (f s e))

end Transition
