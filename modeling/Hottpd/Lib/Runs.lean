import Mathlib.Data.List.Infix

/-!
# Runs of a partial step function

A system that takes events one by one, where `step` answers `none` to an event
that cannot come. A run over a list of events reaches the states behind its
beginnings, so a property of every state reached is one of every beginning, and
a condition on every step is one on every beginning and the event behind it.

The rule is for systems that keep their promise only where they are used in a
certain way: with an invariant that carries the promise, is kept by the steps
that meet the condition, and is such that any other step breaks the promise at
once, the condition on the steps is exact.
-/

namespace Runs

variable {S E : Type}

def run (step : S → E → Option S) (s₀ : S) (es : List E) : Option S := es.foldlM step s₀

/-- `P` holds of every state the run reaches. -/
def Throughout (step : S → E → Option S) (s₀ : S) (es : List E) (P : S → Prop) : Prop :=
  ∀ past s, past <+: es → run step s₀ past = some s → P s

/-- `G` holds of every step of the run: of its event and the state before it. -/
def EachStep (step : S → E → Option S) (s₀ : S) (es : List E) (G : S → E → Prop) : Prop :=
  ∀ past e s, past ++ [e] <+: es → run step s₀ past = some s → G s e

variable {step : S → E → Option S} {s₀ : S} {P I : S → Prop} {G : S → E → Prop}

@[simp] theorem run_nil : run step s₀ [] = some s₀ := rfl

@[simp] theorem run_singleton {e : E} : run step s₀ [e] = step s₀ e := by
  simp [run]

theorem run_cons {e : E} {es : List E} :
    run step s₀ (e :: es) = (step s₀ e).bind fun s => run step s es := rfl

theorem run_concat {es : List E} {e : E} :
    run step s₀ (es ++ [e]) = (run step s₀ es).bind fun s => step s e := by
  simp [run, List.foldlM_append]

theorem run_append {past es : List E} :
    run step s₀ (past ++ es) = (run step s₀ past).bind fun s => run step s es := by
  simp [run, List.foldlM_append]

/-- The plain rule, where the invariant may speak of the events so far. -/
theorem history_invariant {I : List E → S → Prop} {es : List E} {s : S}
    (h : run step s₀ es = some s) (start : I [] s₀)
    (keep : ∀ {past s e s'}, I past s → step s e = some s' → I (past ++ [e]) s') : I es s := by
  induction es using List.reverseRecOn generalizing s with
  | nil =>
      cases h
      exact start
  | append_singleton es e ih =>
      rw [run_concat] at h
      obtain ⟨s', hs', hstep⟩ := Option.bind_eq_some_iff.1 h
      exact keep (ih hs') hstep

/-- Where each step puts on the books what its event brings and nothing else changes them, what
is on them is what was and what the events have brought. -/
theorem run_ledger {α : Type} {books : S → List α} {brings : E → List α} {es : List E} {s : S}
    (h : run step s₀ es = some s)
    (keep : ∀ {s e s'}, step s e = some s' → (books s').Perm (books s ++ brings e)) :
    (books s).Perm (books s₀ ++ es.flatMap brings) := by
  refine history_invariant (I := fun past s => (books s).Perm (books s₀ ++ past.flatMap brings))
    h ?_ ?_
  · rw [List.flatMap_nil, List.append_nil]
  · intro past s e s' ih hstep
    rw [List.flatMap_append, List.flatMap_singleton, ← List.append_assoc]
    exact (keep hstep).trans (ih.append_right _)

theorem eachStep_nil : EachStep step s₀ [] G := by
  intro past e s hpre
  have h := hpre.length_le
  rw [List.length_append] at h
  exact absurd h (by simp)

theorem eachStep_cons_iff {e : E} {es : List E} :
    EachStep step s₀ (e :: es) G ↔
      G s₀ e ∧ ∀ s₁, step s₀ e = some s₁ → EachStep step s₁ es G := by
  constructor
  · intro h
    refine ⟨h [] e s₀ (List.prefix_append [e] es) rfl, fun s₁ hs₁ past e' s hpre hrun => ?_⟩
    refine h (e :: past) e' s (List.cons_prefix_cons.2 ⟨rfl, hpre⟩) ?_
    rw [run_cons, hs₁]
    exact hrun
  · rintro ⟨hG, hes⟩
    intro past e' s hpre hrun
    cases past with
    | nil =>
        cases hrun
        rw [List.nil_append, List.cons_prefix_cons] at hpre
        rw [hpre.1]
        exact hG
    | cons e₀ past =>
        rw [List.cons_append, List.cons_prefix_cons] at hpre
        obtain ⟨rfl, hpre⟩ := hpre
        rw [run_cons] at hrun
        obtain ⟨s₁, hs₁, hrun⟩ := Option.bind_eq_some_iff.1 hrun
        exact hes s₁ hs₁ past e' s hpre hrun

theorem eachStep_cons {e : E} {es : List E} {s₁ : S} (h : step s₀ e = some s₁) (hG : G s₀ e)
    (hes : EachStep step s₁ es G) : EachStep step s₀ (e :: es) G :=
  eachStep_cons_iff.2 ⟨hG, fun _ hs => Option.some.inj (h.symm.trans hs) ▸ hes⟩

/-- A condition that can be tested can be tested along a run. -/
instance decidableEachStep [∀ s e, Decidable (G s e)] :
    ∀ (s₀ : S) (es : List E), Decidable (EachStep step s₀ es G)
  | _, [] => isTrue eachStep_nil
  | s₀, e :: es =>
      match h : step s₀ e with
      | none => decidable_of_iff (G s₀ e) (by simp [eachStep_cons_iff, h])
      | some s₁ =>
          have := decidableEachStep s₁ es
          decidable_of_iff (G s₀ e ∧ EachStep step s₁ es G) (by simp [eachStep_cons_iff, h])

/-- What the steps that meet the condition keep, the run keeps. The condition may lean on
what has been kept so far. -/
theorem throughout_of_keep {es : List E} (start : I s₀)
    (meets : ∀ {past e s}, past ++ [e] <+: es → run step s₀ past = some s → I s → G s e)
    (keep : ∀ {s e s'}, I s → G s e → step s e = some s' → I s') :
    Throughout step s₀ es I := by
  intro past
  induction past using List.reverseRecOn with
  | nil =>
      intro s _ hrun
      cases hrun
      exact start
  | append_singleton past e ih =>
      intro s' hpre hrun
      rw [run_concat] at hrun
      obtain ⟨s, hs, hstep⟩ := Option.bind_eq_some_iff.1 hrun
      have hI : I s := ih s ((List.prefix_append past [e]).trans hpre) hs
      exact keep hI (meets hpre hs hI) hstep

/-- In a run that comes to its end each event has met the condition somewhere. -/
theorem EachStep.mem {es : List E} {s : S} {e : E} (h : EachStep step s₀ es G)
    (hrun : run step s₀ es = some s) (he : e ∈ es) : ∃ s, G s e := by
  obtain ⟨past, behind, rfl⟩ := List.append_of_mem he
  rw [run_append] at hrun
  obtain ⟨s', hs', -⟩ := Option.bind_eq_some_iff.1 hrun
  refine ⟨s', h past e s' ?_ hs'⟩
  exact ⟨behind, by rw [List.append_assoc, List.singleton_append]⟩

theorem EachStep.invariant {es : List E} (h : EachStep step s₀ es G) (start : I s₀)
    (keep : ∀ {s e s'}, I s → G s e → step s e = some s' → I s') :
    Throughout step s₀ es I :=
  throughout_of_keep start (fun hpre hrun _ => h _ _ _ hpre hrun) keep

/-- The condition is exact where a step that does not meet it breaks the promise. -/
theorem throughout_iff (start : I s₀) (sound : ∀ {s}, I s → P s)
    (keep : ∀ {s e s'}, I s → G s e → step s e = some s' → I s')
    (breaks : ∀ {s e}, I s → ¬G s e → ∃ s', step s e = some s' ∧ ¬P s') (es : List E) :
    Throughout step s₀ es P ↔ EachStep step s₀ es G := by
  constructor
  · intro h
    have meets : ∀ {past e s}, past ++ [e] <+: es → run step s₀ past = some s → I s → G s e := by
      intro past e s hpre hrun hI
      by_contra hG
      obtain ⟨s', hstep, hbad⟩ := breaks hI hG
      refine hbad (h (past ++ [e]) s' hpre ?_)
      rw [run_concat, hrun, Option.bind_some, hstep]
    have holds : Throughout step s₀ es I := throughout_of_keep start meets keep
    intro past e s hpre hrun
    exact meets hpre hrun (holds past s ((List.prefix_append past [e]).trans hpre) hrun)
  · exact fun h past s hpre hrun => sound (h.invariant start keep past s hpre hrun)

end Runs
