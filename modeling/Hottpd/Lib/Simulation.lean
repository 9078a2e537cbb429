import Hottpd.Lib.Runs

/-!
# Two machines under the same calls

A machine answers each call. The machine that says what the answers should be
is run beside the one that is looked at, and the answers of both are kept.

The rule is that of a forward simulation: related machines that are given a call
under the condition answer the same and are related again. Where a call outside
of the condition makes the difference visible, the condition is exact.
-/

namespace Simulation

open Runs

variable {S T C A : Type}

structure Machine (S C A : Type) where
  start : S
  step : C → S → A × S

/-- A machine, the one it is compared with, and what both have answered. -/
structure Compared (S T A : Type) where
  machine : S
  model : T
  answers : List A
  expected : List A

namespace Compared

variable (M : Machine S C A) (N : Machine T C A)

def start : Compared S T A := ⟨M.start, N.start, [], []⟩

def step (p : Compared S T A) (c : C) : Option (Compared S T A) :=
  some {
    machine := (M.step c p.machine).2
    model := (N.step c p.model).2
    answers := p.answers ++ [(M.step c p.machine).1]
    expected := p.expected ++ [(N.step c p.model).1] }

/-- The answers are the same, and so is what can be seen. -/
structure Agree (V : S → T → Prop) (p : Compared S T A) : Prop where
  answers : p.answers = p.expected
  view : V p.machine p.model

variable {M N}

/-- A simulation under a condition, which is exact. -/
theorem agree_iff {R V : S → T → Prop} {G : S → T → C → Prop} (start : R M.start N.start)
    (sound : ∀ {s t}, R s t → V s t)
    (keep : ∀ {s t c}, R s t → G s t c →
      (M.step c s).1 = (N.step c t).1 ∧ R (M.step c s).2 (N.step c t).2)
    (breaks : ∀ {s t c}, R s t → ¬G s t c → (M.step c s).1 ≠ (N.step c t).1) (calls : List C) :
    Throughout (step M N) (Compared.start M N) calls (Agree V) ↔
      EachStep (step M N) (Compared.start M N) calls fun p c => G p.machine p.model c := by
  refine throughout_iff (I := Agree R) ⟨rfl, start⟩ (fun h => ⟨h.answers, sound h.view⟩)
    (fun {p c p'} h hc hs => ?_) (fun {p c} h hc => ?_) calls
  · cases hs
    obtain ⟨hanswer, hview⟩ := keep h.view hc
    exact ⟨show _ ++ _ = _ ++ _ by rw [h.answers, hanswer], hview⟩
  · refine ⟨_, rfl, fun hagree => ?_⟩
    have hanswers : p.answers ++ _ = p.expected ++ _ := hagree.answers
    rw [h.answers] at hanswers
    exact breaks h.view hc (List.singleton_inj.1 (List.append_cancel_left hanswers))

/-- A simulation without a condition. -/
theorem agree {R V : S → T → Prop} (start : R M.start N.start)
    (sound : ∀ {s t}, R s t → V s t)
    (keep : ∀ {s t c}, R s t →
      (M.step c s).1 = (N.step c t).1 ∧ R (M.step c s).2 (N.step c t).2) (calls : List C) :
    Throughout (step M N) (Compared.start M N) calls (Agree V) :=
  (agree_iff (G := fun _ _ _ => True) start sound (fun h _ => keep h)
    (fun _ h => absurd trivial h) calls).2 fun _ _ _ _ _ => trivial

end Compared

end Simulation
