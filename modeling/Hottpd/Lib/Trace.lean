/-!
# Properties of a trace given its past

`AtEach P l` says that `P` holds of each event of `l` and the events before
it. Extending a trace leaves the past of its events alone, so the property
is checked on what is new, with the old trace in front.
-/

namespace Trace

variable {α : Type}

/-- `AtEach` for the rest of a trace whose beginning is `past`. -/
def AtEachFrom (P : List α → α → Prop) (past : List α) : List α → Prop
  | [] => True
  | e :: rest => P past e ∧ AtEachFrom P (past ++ [e]) rest

def AtEach (P : List α → α → Prop) (l : List α) : Prop := AtEachFrom P [] l

variable {P Q : List α → α → Prop}

@[simp] theorem atEachFrom_nil {past : List α} : AtEachFrom P past [] := trivial

@[simp] theorem atEachFrom_cons {past : List α} {e : α} {rest : List α} :
    AtEachFrom P past (e :: rest) ↔ P past e ∧ AtEachFrom P (past ++ [e]) rest :=
  Iff.rfl

theorem atEachFrom_append {past l l' : List α} :
    AtEachFrom P past (l ++ l') ↔ AtEachFrom P past l ∧ AtEachFrom P (past ++ l) l' := by
  induction l generalizing past with
  | nil => simp
  | cons e l ih => simp [ih, and_assoc]

theorem atEach_nil : AtEach P [] := trivial

theorem AtEach.append {l l' : List α} (h : AtEach P l) (h' : AtEachFrom P l l') :
    AtEach P (l ++ l') :=
  atEachFrom_append.2 ⟨h, by simpa using h'⟩

theorem AtEach.of_append {l l' : List α} (h : AtEach P (l ++ l')) : AtEach P l :=
  (atEachFrom_append.1 h).1

theorem AtEach.append_right {l l' : List α} (h : AtEach P (l ++ l')) : AtEachFrom P l l' := by
  simpa using (atEachFrom_append.1 h).2

/-- Events of which `P` holds whatever came before. -/
theorem atEachFrom_of_forall {past l : List α} (h : ∀ e ∈ l, ∀ past, P past e) :
    AtEachFrom P past l := by
  induction l generalizing past with
  | nil => trivial
  | cons e l ih =>
      refine ⟨h e List.mem_cons_self past, ih fun e' he' => h e' (List.mem_cons_of_mem e he')⟩

/-- Events that leave what is kept of a trace as it is. -/
theorem foldl_quiet {β : Type} {step : β → α → β} {b : β} {l : List α}
    (h : ∀ e ∈ l, step b e = b) : l.foldl step b = b := by
  induction l with
  | nil => rfl
  | cons e l ih =>
      rw [List.foldl_cons, h e List.mem_cons_self]
      exact ih fun e' he' => h e' (List.mem_cons_of_mem e he')

/-- What `AtEach` is about: every event and everything before it. -/
theorem atEach_iff {l : List α} :
    AtEach P l ↔ ∀ past e rest, l = past ++ e :: rest → P past e := by
  constructor
  · rintro h past e rest rfl
    have := (atEachFrom_append.1 h).2
    simpa using this.1
  · intro h
    suffices ∀ past rest, l = past ++ rest → AtEachFrom P past rest from this [] l rfl
    intro past rest
    induction rest generalizing past with
    | nil => intro _; trivial
    | cons e rest ih =>
        intro hl
        exact ⟨h past e rest hl, ih (past ++ [e]) (by simp [hl])⟩

theorem AtEach.mono {l : List α} (h : AtEach P l) (himp : ∀ past e, P past e → Q past e) :
    AtEach Q l := by
  rw [atEach_iff] at h ⊢
  exact fun past e rest hl => himp past e (h past e rest hl)

theorem AtEach.iff_of_imp {R : List α → α → Prop} {l : List α} (h : AtEach R l)
    (himp : ∀ past e, R past e → (P past e ↔ Q past e)) : AtEach P l ↔ AtEach Q l := by
  simp only [atEach_iff] at h ⊢
  exact ⟨fun hP past e rest hl => (himp past e (h past e rest hl)).1 (hP past e rest hl),
    fun hQ past e rest hl => (himp past e (h past e rest hl)).2 (hQ past e rest hl)⟩

theorem atEach_const {p : α → Prop} {l : List α} :
    AtEach (fun _ e => p e) l ↔ ∀ e ∈ l, p e := by
  rw [atEach_iff]
  constructor
  · intro h e he
    obtain ⟨past, rest, hl⟩ := List.append_of_mem he
    exact h past e rest hl
  · rintro h past e rest rfl
    exact h e (by simp)

instance instDecidableAtEachFrom [∀ past e, Decidable (P past e)] :
    (past l : List α) → Decidable (AtEachFrom P past l)
  | _, [] => isTrue trivial
  | past, e :: rest =>
      @instDecidableAnd _ _ _ (instDecidableAtEachFrom (past ++ [e]) rest)

instance [∀ past e, Decidable (P past e)] : DecidablePred (AtEach P) :=
  fun l => inferInstanceAs (Decidable (AtEachFrom P [] l))

end Trace
