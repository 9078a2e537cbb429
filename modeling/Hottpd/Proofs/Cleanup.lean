import Mathlib.Tactic.Ring
import Hottpd.Proofs.Unloading

/-!
# Three tries

`Cleanup` unloads all modules, and does so three times. A module stays while its
interface is used, so it outlives a try only behind a user that was there when the
try began. Behind the third try it is the end of a chain of three users, or
a static module is somewhere up the chain.

The number stored with an interface is at most that of the users among the loaded
modules: this is kept by every unload, and by every load unless the constructor has
used an interface and then throws, which leaves a user that is no module.
-/

namespace Hottpd

open Bytes Runs

variable {env : Loader} {code : Nat → ModuleCode}

namespace ModuleManager

variable {m m' : ModuleManager} {mod : Nat}

/-! ## Constructors and destructors -/

/-- What neither a constructor nor a destructor touches. -/
structure Framed (m m' : ModuleManager) : Prop where
  modules : m'.modules = m.modules
  handlers : m'.eventHandlers = m.eventHandlers
  next : m'.next = m.next

theorem Framed.refl (m : ModuleManager) : Framed m m := ⟨rfl, rfl, rfl⟩

theorem Framed.trans {m'' : ModuleManager} (h : Framed m m') (h' : Framed m' m'') :
    Framed m m'' :=
  ⟨h'.modules.trans h.modules, h'.handlers.trans h.handlers, h'.next.trans h.next⟩

theorem Framed.loaded (h : Framed m m') : m'.loaded = m.loaded := by
  rw [ModuleManager.loaded, h.modules, ModuleManager.loaded]

/-- A loop that changes the interfaces only. -/
theorem framed_foldl {f : ModuleManager → Bytes → ModuleManager}
    (hf : ∀ m name, Framed m (f m name)) (names : List Bytes) :
    ∀ m, Framed m (names.foldl f m) := by
  induction names with
  | nil => exact Framed.refl
  | cons name names ih => exact fun m => (hf m name).trans (ih (f m name))

/-- An interface with another number: what its users do. -/
def recount (d : Int) (s : ModuleManager) (name : Bytes) : ModuleManager :=
  match s.interfaces.lookup name with
  | none => s
  | some i => { s with interfaces := s.interfaces.insert name { i with count := i.count + d } }

theorem framed_recount (d : Int) (m : ModuleManager) (name : Bytes) :
    Framed m (m.recount d name) := by
  unfold recount
  split
  · exact Framed.refl m
  · exact ⟨rfl, rfl, rfl⟩

theorem framed_publish (mod : Nat) (m : ModuleManager) (name : Bytes) :
    Framed m (m.publishInterface name mod).2 := by
  unfold publishInterface
  split
  · exact ⟨rfl, rfl, rfl⟩
  · exact ⟨rfl, rfl, rfl⟩

theorem framed_unpublish (mod : Nat) (m : ModuleManager) (name : Bytes) :
    Framed m (m.unpublishInterface name mod).2 := by
  unfold unpublishInterface
  split
  · exact Framed.refl m
  · split
    · dsimp only
      split
      · exact ⟨rfl, rfl, rfl⟩
      · exact ⟨rfl, rfl, rfl⟩
    · exact Framed.refl m

theorem framed_install (code : Nat → ModuleCode) (mod : Nat) (m : ModuleManager) :
    Framed m (m.install code mod) :=
  (framed_foldl (framed_recount 1) _ m).trans (framed_foldl (framed_publish mod) _ _)

theorem framed_destroy (code : Nat → ModuleCode) (mod : Nat) (m : ModuleManager) :
    Framed m (m.destroy code mod) :=
  (framed_foldl (framed_recount (-1)) _ m).trans (framed_foldl (framed_unpublish mod) _ _)

/-! ## What becomes of an interface -/

theorem lookup_recount (d : Int) (m : ModuleManager) (name name' : Bytes) :
    (m.recount d name).interfaces.lookup name' = (m.interfaces.lookup name').map fun i =>
      if name' = name then { i with count := i.count + d } else i := by
  unfold recount
  by_cases hname : name' = name
  · subst hname
    cases hi : m.interfaces.lookup name' with
    | none => exact hi
    | some i =>
        rw [Option.map_some, if_pos rfl]
        exact SortedMap.lookup_insert_self _ _ rfl
  · simp only [if_neg hname, Option.map_id']
    split
    · rfl
    · exact SortedMap.lookup_insert_of_ne _ _ fun hkey => hname (nameKey_inj hkey)

theorem lookup_recounts (d : Int) (name : Bytes) (names : List Bytes) : ∀ m : ModuleManager,
    (names.foldl (recount d) m).interfaces.lookup name
      = (m.interfaces.lookup name).map fun i =>
          { i with count := i.count + names.count name * d } := by
  induction names with
  | nil =>
      intro m
      simp
  | cons name' names ih =>
      intro m
      rw [List.foldl_cons, ih, lookup_recount, Option.map_map]
      congr 1
      funext i
      by_cases hname : name = name'
      · subst hname
        simp only [Function.comp, if_true, List.count_cons_self, Interface.mk.injEq, and_true]
        push_cast
        ring
      · simp only [Function.comp, if_neg hname, List.count_cons_of_ne (Ne.symm hname)]

theorem lookup_publish (m : ModuleManager) (mod : Nat) (name name' : Bytes) :
    (m.publishInterface name mod).2.interfaces.lookup name' =
      if name' = name then
        some ⟨((m.interfaces.lookup name').map Interface.count).getD 0,
          ((m.interfaces.lookup name').map Interface.mods).getD [] ++ [mod]⟩
      else m.interfaces.lookup name' := by
  unfold publishInterface
  by_cases hname : name' = name
  · subst hname
    rw [if_pos rfl]
    cases hi : m.interfaces.lookup name' with
    | none => exact SortedMap.lookup_insert_self _ _ rfl
    | some i => exact SortedMap.lookup_insert_self _ _ rfl
  · rw [if_neg hname]
    split
    · exact SortedMap.lookup_insert_of_ne _ _ fun hkey => hname (nameKey_inj hkey)
    · exact SortedMap.lookup_insert_of_ne _ _ fun hkey => hname (nameKey_inj hkey)

theorem lookup_publishes (mod : Nat) (name : Bytes) (names : List Bytes) : ∀ m : ModuleManager,
    (names.foldl (fun s name => (s.publishInterface name mod).2) m).interfaces.lookup name =
      if name ∈ names then
        some ⟨((m.interfaces.lookup name).map Interface.count).getD 0,
          ((m.interfaces.lookup name).map Interface.mods).getD []
            ++ List.replicate (names.count name) mod⟩
      else m.interfaces.lookup name := by
  induction names with
  | nil => exact fun _ => rfl
  | cons name' names ih =>
      intro m
      rw [List.foldl_cons, ih, lookup_publish]
      by_cases hname : name = name'
      · subst hname
        rw [if_pos rfl, if_pos List.mem_cons_self, List.count_cons_self]
        by_cases hmem : name ∈ names
        · simp [hmem, List.replicate_succ]
        · simp [hmem, List.count_eq_zero_of_not_mem hmem]
      · rw [if_neg hname, List.count_cons_of_ne (Ne.symm hname)]
        simp [hname]

theorem lookup_unpublish {m : ModuleManager} {mod : Nat} {name name' : Bytes} {i' : Interface}
    (h : (m.unpublishInterface name mod).2.interfaces.lookup name' = some i') :
    ∃ i, m.interfaces.lookup name' = some i ∧ i'.count = i.count ∧
      i'.mods = if name' = name then i.mods.erase mod else i.mods := by
  unfold unpublishInterface at h
  by_cases hname : name' = name
  · subst hname
    simp only [if_true]
    split at h
    · next hnone =>
        rw [hnone] at h
        cases h
    · next i hi =>
        split at h
        · dsimp only at h
          split at h
          · rw [SortedMap.lookup_erase_self _ rfl] at h
            cases h
          · rw [SortedMap.lookup_insert_self _ _ rfl] at h
            cases h
            exact ⟨i, hi, rfl, rfl⟩
        · next hmem =>
            rw [hi] at h
            cases h
            exact ⟨i', hi, rfl, (List.erase_of_not_mem hmem).symm⟩
  · have hkey : nameKey name' ≠ nameKey name := fun hkey => hname (nameKey_inj hkey)
    have hsame : m.interfaces.lookup name' = some i' := by
      split at h
      · exact h
      · split at h
        · dsimp only at h
          split at h
          · rwa [SortedMap.lookup_erase_of_ne _ hkey] at h
          · rwa [SortedMap.lookup_insert_of_ne _ _ hkey] at h
        · exact h
    exact ⟨i', hsame, rfl, (if_neg hname).symm⟩

theorem lookup_unpublishes {mod : Nat} {name : Bytes} {i' : Interface} (names : List Bytes) :
    ∀ m : ModuleManager,
    (names.foldl (fun s name => (s.unpublishInterface name mod).2) m).interfaces.lookup name
      = some i' →
    ∃ i, m.interfaces.lookup name = some i ∧ i'.count = i.count ∧
      ∀ mod',
        i'.mods.count mod' = i.mods.count mod' - if mod' = mod then names.count name else 0 := by
  induction names with
  | nil => exact fun m h => ⟨i', h, rfl, fun mod' => by simp⟩
  | cons name' names ih =>
      intro m h
      obtain ⟨i₁, h₁, hcount₁, hmods₁⟩ := ih _ h
      obtain ⟨i, hi, hcount, hmods⟩ := lookup_unpublish h₁
      refine ⟨i, hi, hcount₁.trans hcount, fun mod' => ?_⟩
      rw [hmods₁, hmods]
      by_cases hname : name = name'
      · subst hname
        rw [if_pos rfl, List.count_cons_self]
        by_cases hmod : mod' = mod
        · subst hmod
          rw [if_pos rfl, if_pos rfl, List.count_erase_self]
          omega
        · rw [if_neg hmod, if_neg hmod, List.count_erase_of_ne hmod]
      · rw [if_neg hname, List.count_cons_of_ne (Ne.symm hname)]

/-! ## The numbers count users -/

/-- The users of an interface among these modules. -/
def users (code : Nat → ModuleCode) (live : List Nat) (name : Bytes) : Nat :=
  (live.map fun user => (code user).uses.count name).sum

/-- What is known of the interfaces, with these modules for users. -/
structure Counted (code : Nat → ModuleCode) (live : List Nat) (m : ModuleManager) : Prop where
  count : ∀ name i, m.interfaces.lookup name = some i → i.count ≤ users code live name
  known : ∀ name i, m.interfaces.lookup name = some i → ∀ mod ∈ i.mods, mod < m.next
  published : ∀ name i, m.interfaces.lookup name = some i → ∀ mod,
    i.mods.count mod ≤ (code mod).implements.count name

structure Serving (code : Nat → ModuleCode) (m : ModuleManager) : Prop where
  allocated : Allocated m
  counted : Counted code m.loaded m

/-- The condition on a load: a constructor that makes no module has used no interface. -/
def InOrder (env : Loader) (code : Nat → ModuleCode) (m : ModuleManager) : Shift → Prop
  | .load filename file => m.callsInit env filename file = true → file.init ≠ .module →
      ∀ name ∈ (code m.next).uses, m.interfaces.lookup name = none
  | .unload _ => True

instance : ∀ (m : ModuleManager) (shift : Shift), Decidable (InOrder env code m shift)
  | m, .load filename file => inferInstanceAs (Decidable (
      m.callsInit env filename file = true → file.init ≠ .module →
        ∀ name ∈ (code m.next).uses, m.interfaces.lookup name = none))
  | _, .unload _ => inferInstanceAs (Decidable True)

/-- The ways a `Load` ends, as far as modules and interfaces go: without a constructor, behind one
that fails, and with a module. -/
theorem load_modules (hintro : Introduces env) (filename : Bytes) (file : ModuleFile)
    (m : ModuleManager) : (m.load env filename file).2.interfaces = m.interfaces ∧
      ((m.callsInit env filename file = false ∧
          (m.load env filename file).2.modules = m.modules ∧
          (m.load env filename file).2.next = m.next) ∨
        (m.callsInit env filename file = true ∧
          (m.load env filename file).2.next = m.next + 1 ∧
          ((m.load env filename file).1 = false ∧
              (m.load env filename file).2.modules = m.modules ∨
            (m.load env filename file).1 = true ∧
              (m.load env filename file).2.loaded.Perm (m.next :: m.loaded)))) := by
  rcases load_cases env filename file m with ⟨hnot, error, heq⟩ | ⟨hreach, heq⟩
  · rw [heq]
    refine ⟨rfl, Or.inl ⟨?_, rfl, rfl⟩⟩
    exact Bool.eq_false_iff.2 fun hcalls => hnot (callsInit_iff.1 hcalls)
  have hcalls : m.callsInit env filename file = true := callsInit_iff.2 hreach
  obtain ⟨hmodules, hinterfaces, hnext⟩ :=
    construct_rest m.next file.calls { m with next := m.next + 1 }
  rw [heq]
  generalize construct m.next file.calls { m with next := m.next + 1 } = built
    at hmodules hinterfaces hnext
  cases hdone : (initialised env filename file m.next built).1 with
  | false =>
      obtain ⟨error, ⟨-, heq'⟩ | ⟨-, heq'⟩⟩ := initialised_cases hdone
      · rw [heq']
        exact ⟨hinterfaces, Or.inr ⟨hcalls, hnext, Or.inl ⟨rfl, hmodules⟩⟩⟩
      · rw [heq']
        exact ⟨hinterfaces, Or.inr ⟨hcalls, hnext, Or.inl ⟨rfl, hmodules⟩⟩⟩
  | true =>
      obtain ⟨v, -, heq'⟩ := initialised_done hdone
      rw [heq']
      refine ⟨?_, Or.inr ⟨hcalls, ?_, Or.inr ⟨rfl, ?_⟩⟩⟩
      · rw [hintro.interfaces]
        exact hinterfaces
      · rw [hintro.next]
        exact hnext
      · rw [ModuleManager.loaded, hintro.modules, hmodules]
        exact loaded_insert (l := ⟨m.next, v⟩) hreach.2.2.1

theorem users_perm {live live' : List Nat} (h : live.Perm live') (name : Bytes) :
    users code live name = users code live' name :=
  (h.map _).sum_nat

theorem users_cons (live : List Nat) (name : Bytes) :
    users code (mod :: live) name = (code mod).uses.count name + users code live name := rfl

/-- An interface behind a constructor. -/
theorem lookup_install (m : ModuleManager) (mod : Nat) (name : Bytes) :
    (m.install code mod).interfaces.lookup name =
      if name ∈ (code mod).implements then
        some ⟨((m.interfaces.lookup name).map fun i =>
            i.count + ((code mod).uses.count name : Int)).getD 0,
          ((m.interfaces.lookup name).map Interface.mods).getD []
            ++ List.replicate ((code mod).implements.count name) mod⟩
      else (m.interfaces.lookup name).map fun i =>
        { i with count := i.count + (code mod).uses.count name } := by
  show ((code mod).implements.foldl _ ((code mod).uses.foldl (recount 1) m)).interfaces.lookup name
    = _
  rw [lookup_publishes, lookup_recounts, Option.map_map, Option.map_map]
  simp only [mul_one, Function.comp_def]

theorem install_cases {m : ModuleManager} {mod : Nat} {name : Bytes} {i' : Interface}
    (h : (m.install code mod).interfaces.lookup name = some i') :
    (m.interfaces.lookup name = none ∧ i'.count = 0 ∧
        i'.mods = List.replicate ((code mod).implements.count name) mod) ∨
      ∃ i, m.interfaces.lookup name = some i ∧
        i'.count = i.count + (code mod).uses.count name ∧
        i'.mods = i.mods ++ List.replicate ((code mod).implements.count name) mod := by
  rw [lookup_install] at h
  cases hold : m.interfaces.lookup name with
  | none =>
      rw [hold] at h
      split at h
      · cases h
        exact Or.inl ⟨rfl, rfl, rfl⟩
      · cases h
  | some i =>
      rw [hold] at h
      refine Or.inr ⟨i, rfl, ?_⟩
      split at h
      · cases h
        exact ⟨rfl, rfl⟩
      · next hnot =>
          cases h
          rw [List.count_eq_zero_of_not_mem hnot, List.replicate_zero, List.append_nil]
          exact ⟨rfl, rfl⟩

/-- An interface behind a destructor, if it is still there. -/
theorem lookup_destroy {m : ModuleManager} {mod : Nat} {name : Bytes} {i' : Interface}
    (h : (m.destroy code mod).interfaces.lookup name = some i') :
    ∃ i, m.interfaces.lookup name = some i ∧ i'.count = i.count - (code mod).uses.count name ∧
      ∀ mod', i'.mods.count mod' =
        i.mods.count mod' - if mod' = mod then (code mod).implements.count name else 0 := by
  obtain ⟨i₁, h₁, hcount₁, hmods₁⟩ := lookup_unpublishes (code mod).implements _ h
  have h₁' : ((code mod).uses.foldl (recount (-1)) m).interfaces.lookup name = some i₁ := h₁
  rw [lookup_recounts] at h₁'
  obtain ⟨i, hi, rfl⟩ := Option.map_eq_some_iff.1 h₁'
  refine ⟨i, hi, ?_, hmods₁⟩
  rw [hcount₁]
  show i.count + (code mod).uses.count name * -1 = _
  omega

section Counting

variable {live live' : List Nat}

theorem Counted.kept (h : Counted code live m) (hinterfaces : m'.interfaces = m.interfaces)
    (hnext : m.next ≤ m'.next) : Counted code live m' := by
  refine ⟨fun name i hi => ?_, fun name i hi mod hmod => ?_, fun name i hi => ?_⟩
  · rw [hinterfaces] at hi
    exact h.count name i hi
  · rw [hinterfaces] at hi
    exact Nat.lt_of_lt_of_le (h.known name i hi mod hmod) hnext
  · rw [hinterfaces] at hi
    exact h.published name i hi

theorem Counted.of_perm (h : Counted code live m) (hperm : live.Perm live') :
    Counted code live' m :=
  ⟨fun name i hi => users_perm hperm name ▸ h.count name i hi, h.known, h.published⟩

/-- A constructor, of an object that is on no list. -/
theorem Counted.install (h : Counted code live m) (hmod : mod < m.next)
    (hfresh : ∀ name i, m.interfaces.lookup name = some i → mod ∉ i.mods)
    (husers : ∀ name i, m.interfaces.lookup name = some i →
      i.count + (code mod).uses.count name ≤ users code live' name) :
    Counted code live' (m.install code mod) := by
  refine ⟨fun name i hi => ?_, fun name i hi mod' hmod' => ?_, fun name i hi mod' => ?_⟩
  · rcases install_cases hi with ⟨-, hcount, -⟩ | ⟨i₀, hold, hcount, -⟩
    · rw [hcount]
      exact Int.natCast_nonneg _
    · rw [hcount]
      exact husers name i₀ hold
  · rw [(framed_install code mod m).next]
    rcases install_cases hi with ⟨-, -, hmods⟩ | ⟨i₀, hold, -, hmods⟩
    · rw [hmods] at hmod'
      rw [List.eq_of_mem_replicate hmod']
      exact hmod
    · rw [hmods] at hmod'
      rcases List.mem_append.1 hmod' with hmod' | hmod'
      · exact h.known name i₀ hold mod' hmod'
      · rw [List.eq_of_mem_replicate hmod']
        exact hmod
  · rcases install_cases hi with ⟨-, -, hmods⟩ | ⟨i₀, hold, -, hmods⟩
    · rw [hmods, List.count_replicate]
      split
      · next heq => rw [eq_of_beq heq]
      · exact Nat.zero_le _
    · rw [hmods, List.count_append, List.count_replicate]
      split
      · next heq =>
          rw [eq_of_beq heq] at hfresh ⊢
          rw [List.count_eq_zero_of_not_mem (hfresh name i₀ hold), Nat.zero_add]
      · exact h.published name i₀ hold mod'

/-- A destructor, of an object that is no user any more. -/
theorem Counted.destroy (h : Counted code (mod :: live) m) :
    Counted code live (m.destroy code mod) := by
  refine ⟨fun name i hi => ?_, fun name i hi mod' hmod' => ?_, fun name i hi mod' => ?_⟩
  · obtain ⟨i₀, hold, hcount, -⟩ := lookup_destroy hi
    have hbefore := h.count name i₀ hold
    rw [users_cons] at hbefore
    omega
  · obtain ⟨i₀, hold, -, hcount⟩ := lookup_destroy hi
    rw [(framed_destroy code mod m).next]
    have hpos := List.count_pos_iff.2 hmod'
    rw [hcount] at hpos
    exact h.known name i₀ hold mod' (List.count_pos_iff.1 (by omega))
  · obtain ⟨i₀, hold, -, hcount⟩ := lookup_destroy hi
    rw [hcount]
    exact Nat.le_trans (Nat.sub_le _ _) (h.published name i₀ hold mod')

end Counting

/-- What neither constructor nor destructor of a module runs in. -/
theorem Serving.same (h : Serving code m) (hmodules : m'.modules = m.modules)
    (hnext : m.next ≤ m'.next) (hcounted : Counted code m.loaded m') : Serving code m' := by
  have hloaded : m'.loaded = m.loaded := by
    rw [ModuleManager.loaded, hmodules, ModuleManager.loaded]
  refine ⟨⟨?_, fun mod hmod => ?_⟩, ?_⟩
  · rw [hloaded]
    exact h.allocated.distinct
  · rw [hloaded] at hmod
    exact Nat.lt_of_lt_of_le (h.allocated.below mod hmod) hnext
  · rw [hloaded]
    exact hcounted

/-! ## Coming and going -/

theorem bring_eq (m : ModuleManager) (filename : Bytes) (file : ModuleFile) :
    m.bring env code filename file =
      if m.callsInit env filename file then
        if (m.load env filename file).1 = false ∧ file.init = .module then
          ((m.load env filename file).2.install code m.next).destroy code m.next
        else (m.load env filename file).2.install code m.next
      else (m.load env filename file).2 := rfl

/-- The next object has not published anything, nor is it a user. -/
theorem Counted.next_fresh {live : List Nat} (h : Counted code live m) :
    ∀ name i, m.interfaces.lookup name = some i → m.next ∉ i.mods := fun name i hi hmem =>
  Nat.lt_irrefl _ (h.known name i hi _ hmem)

theorem Serving.bring (h : Serving code m) (hintro : Introduces env) {filename : Bytes}
    {file : ModuleFile} (horder : m.InOrder env code (.load filename file)) :
    Serving code (m.bring env code filename file) := by
  obtain ⟨hinterfaces, ⟨hcalls, hmodules, hnext⟩ | ⟨hcalls, hnext, hends⟩⟩ :=
    load_modules hintro filename file m
  · have hle := Nat.le_of_eq hnext.symm
    rw [bring_eq, hcalls]
    exact h.same hmodules hle (h.counted.kept hinterfaces hle)
  have hle : m.next ≤ (m.load env filename file).2.next := by omega
  have hbuilt := h.counted.kept hinterfaces hle
  have hfresh : ∀ name i, (m.load env filename file).2.interfaces.lookup name = some i →
      m.next ∉ i.mods := by
    rw [hinterfaces]
    exact h.counted.next_fresh
  have huser : ∀ name i, (m.load env filename file).2.interfaces.lookup name = some i →
      i.count + (code m.next).uses.count name ≤ users code (m.next :: m.loaded) name := by
    intro name i hi
    have hcount := hbuilt.count name i hi
    rw [users_cons]
    omega
  rcases hends with ⟨hdone, hmodules⟩ | ⟨hdone, hloaded⟩
  all_goals rw [bring_eq, hcalls, if_pos rfl, hdone]
  · by_cases hinit : file.init = .module
    · rw [if_pos ⟨rfl, hinit⟩]
      have hframed := (framed_install code m.next (m.load env filename file).2).trans
        (framed_destroy code m.next _)
      refine h.same (hframed.modules.trans hmodules) (hframed.next ▸ hle) ?_
      exact (hbuilt.install (by omega) hfresh huser).destroy
    · rw [if_neg fun hends => hinit hends.2]
      have hframed := framed_install code m.next (m.load env filename file).2
      refine h.same (hframed.modules.trans hmodules) (hframed.next ▸ hle) ?_
      refine hbuilt.install (by omega) hfresh fun name i hi => ?_
      -- it has used none of those there are
      have hnone : (code m.next).uses.count name = 0 := by
        refine List.count_eq_zero_of_not_mem fun hmem => ?_
        rw [hinterfaces, horder hcalls hinit name hmem] at hi
        cases hi
      have hcount := hbuilt.count name i hi
      omega
  · rw [if_neg fun hends => Bool.noConfusion hends.1]
    have hframed := framed_install code m.next (m.load env filename file).2
    refine ⟨h.allocated.insert ?_ (hframed.next.trans hnext), ?_⟩
    · rw [hframed.loaded]
      exact hloaded
    · rw [hframed.loaded]
      exact (hbuilt.install (by omega) hfresh huser).of_perm hloaded.symm

/-- An unload that is refused, or one that the destructor follows. -/
theorem delete_cases (code : Nat → ModuleCode) (m : ModuleManager) (filename : Bytes) :
    ((m.unload filename).1 = false ∧ m.delete code filename = (m.unload filename).2) ∨
      ∃ l, m.modules.lookup filename = some l ∧
        (m.unload filename).2.modules = m.modules.erase filename ∧
        (m.unload filename).2.next = m.next ∧
        m.delete code filename = (m.unload filename).2.destroy code l.module := by
  unfold delete
  cases hdone : (m.unload filename).1 with
  | false =>
      refine Or.inl ⟨rfl, ?_⟩
      dsimp only
      rw [hdone]
      split
      · rfl
      · rfl
  | true =>
      obtain ⟨l, hl, heq⟩ := unload_done hdone
      refine Or.inr ⟨l, hl, ?_, ?_, ?_⟩
      · rw [heq]
      · rw [heq]
        rfl
      · rw [find, hl]
        dsimp only [Option.map_some]
        rw [hdone, if_pos rfl]

theorem Serving.delete (h : Serving code m) (filename : Bytes) :
    Serving code (m.delete code filename) := by
  rcases delete_cases code m filename with ⟨hrefused, heq⟩ | ⟨l, hl, hmodules, hnext, heq⟩
  · obtain ⟨-, hmodules, hinterfaces, hnext⟩ := unload_refused hrefused
    have hle := Nat.le_of_eq hnext.symm
    rw [heq]
    exact h.same hmodules hle (h.counted.kept hinterfaces hle)
  · have hloaded := loaded_erase hl
    rw [← hmodules] at hloaded
    have hframed := framed_destroy code l.module (m.unload filename).2
    have hcounted := (h.counted.of_perm hloaded).kept (unload_interfaces m filename)
      (Nat.le_of_eq hnext.symm)
    rw [heq]
    refine ⟨⟨?_, fun mod hmod => ?_⟩, ?_⟩
    · rw [hframed.loaded]
      exact (List.nodup_cons.1 (hloaded.nodup_iff.1 h.allocated.distinct)).2
    · rw [hframed.loaded] at hmod
      rw [hframed.next, hnext]
      exact h.allocated.below mod (hloaded.mem_iff.2 (List.mem_cons_of_mem _ hmod))
    · rw [hframed.loaded]
      exact hcounted.destroy

theorem Serving.shift (h : Serving code m) (hintro : Introduces env) {shift : Shift}
    (horder : m.InOrder env code shift) (hstep : m.shift env code shift = some m') :
    Serving code m' := by
  cases shift with
  | load filename file =>
      cases hstep
      exact h.bring hintro horder
  | unload filename =>
      cases hstep
      exact h.delete filename

/-! ## One try -/

theorem delete_entries (m : ModuleManager) (filename : Bytes) :
    ∀ e ∈ (m.delete code filename).modules.entries, e ∈ m.modules.entries := by
  intro e he
  rcases delete_cases code m filename with ⟨hrefused, heq⟩ | ⟨l, -, hmodules, -, heq⟩
  · rw [heq, (unload_refused hrefused).2.1] at he
    exact he
  · rw [heq, (framed_destroy _ _ _).modules, hmodules] at he
    exact (SortedMap.mem_erase.1 he).1

theorem deletes_entries (code : Nat → ModuleCode) (names : List Bytes) : ∀ m : ModuleManager,
    ∀ e ∈ (names.foldl (delete code) m).modules.entries, e ∈ m.modules.entries := by
  induction names with
  | nil => exact fun _ _ he => he
  | cons name names ih => exact fun m e he => delete_entries m name e (ih _ e he)

/-- What keeps a module: that it is static, or a user of it. -/
def Kept (code : Nat → ModuleCode) (m : ModuleManager) (l : Loaded) : Prop :=
  l.version.isStatic = true ∨
    ∃ user ∈ m.loaded, ∃ name ∈ (code l.module).implements, name ∈ (code user).uses

theorem Kept.mono {l : Loaded} (h : Kept code m' l)
    (hsub : ∀ e ∈ m'.modules.entries, e ∈ m.modules.entries) : Kept code m l := by
  rcases h with hstatic | ⟨user, huser, name, himplements, huses⟩
  · exact Or.inl hstatic
  · obtain ⟨e, he, rfl⟩ := List.mem_map.1 huser
    exact Or.inr ⟨e.2.module, List.mem_map_of_mem (hsub e he), name, himplements, huses⟩

theorem user_of_users {live : List Nat} {name : Bytes} (h : users code live name ≠ 0) :
    ∃ user ∈ live, name ∈ (code user).uses := by
  by_contra hnone
  refine h (List.sum_eq_zero_iff_forall_eq_nat.2 fun n hn => ?_)
  obtain ⟨user, huser, rfl⟩ := List.mem_map.1 hn
  exact List.count_eq_zero_of_not_mem fun huses => hnone ⟨user, huser, huses⟩

/-- An unload is refused with a reason. -/
theorem unload_kept (h : Serving code m) {filename : Bytes} {l : Loaded}
    (hl : m.modules.lookup filename = some l) (hrefused : (m.unload filename).1 = false) :
    Kept code m l := by
  unfold unload at hrefused
  rw [hl] at hrefused
  dsimp only at hrefused
  split at hrefused
  · next hstatic => exact Or.inl hstatic
  · split at hrefused
    · next hcount =>
        refine Or.inr ?_
        unfold getInterfaceInstanceCount at hcount
        cases hfirst : m.interfaces.entries.find? (fun e => l.module ∈ e.2.mods) with
        | none =>
            rw [hfirst] at hcount
            cases hcount
        | some e =>
            rw [hfirst] at hcount
            have hlookup := SortedMap.lookup_of_mem (List.mem_of_find?_eq_some hfirst)
            have hlisted : l.module ∈ e.2.mods := by simpa using List.find?_some hfirst
            have hpublished := h.counted.published e.1 e.2 hlookup l.module
            have himplements : e.1 ∈ (code l.module).implements :=
              List.count_pos_iff.1 (Nat.lt_of_lt_of_le (List.count_pos_iff.2 hlisted) hpublished)
            have husers := h.counted.count e.1 e.2 hlookup
            dsimp only at hcount
            obtain ⟨user, huser, huses⟩ := @user_of_users code m.loaded e.1 (by omega)
            exact ⟨user, huser, e.1, himplements, huses⟩
    · cases hrefused

theorem delete_kept (h : Serving code m) {filename : Bytes} {l : Loaded}
    (hl : (m.delete code filename).modules.lookup filename = some l) : Kept code m l := by
  rcases delete_cases code m filename with ⟨hrefused, heq⟩ | ⟨l', -, hmodules, -, heq⟩
  · rw [heq, (unload_refused hrefused).2.1] at hl
    exact unload_kept h hl hrefused
  · rw [heq, (framed_destroy _ _ _).modules, hmodules, SortedMap.lookup_erase_self _ rfl] at hl
    cases hl

/-- A module is found among more modules. -/
theorem lookup_mono {filename : Bytes} {l : Loaded}
    (hsub : ∀ e ∈ m'.modules.entries, e ∈ m.modules.entries)
    (hl : m'.modules.lookup filename = some l) : m.modules.lookup filename = some l := by
  obtain ⟨name, hname, hmem⟩ := SortedMap.mem_of_lookup hl
  have hfound := SortedMap.lookup_of_mem (hsub _ hmem)
  rwa [nameKey_inj hname] at hfound

/-- Behind a try, the modules it came to are kept by what there was when it began. -/
theorem deletes_kept (names : List Bytes) : ∀ m : ModuleManager, Serving code m →
    Serving code (names.foldl (delete code) m) ∧
      ∀ name ∈ names, ∀ l, (names.foldl (delete code) m).modules.lookup name = some l →
        Kept code m l := by
  induction names with
  | nil => exact fun m h => ⟨h, fun name hname => by cases hname⟩
  | cons name names ih =>
      intro m h
      obtain ⟨hserving, hkept⟩ := ih (m.delete code name) (h.delete name)
      refine ⟨hserving, fun name' hname' l hl => ?_⟩
      rcases List.mem_cons.1 hname' with rfl | hname'
      · exact delete_kept h (lookup_mono (deletes_entries code names _) hl)
      · exact (hkept name' hname' l hl).mono (delete_entries m name)

/-- The end of a chain of so many users, unless there is a static module up the chain. -/
inductive HeldUp (code : Nat → ModuleCode) (m : ModuleManager) : Nat → Nat → Prop
  | loaded {mod : Nat} (h : mod ∈ m.loaded) : HeldUp code m 0 mod
  | static {n : Nat} {e : Bytes × Loaded} (he : e ∈ m.modules.entries)
      (hstatic : e.2.version.isStatic = true) : HeldUp code m n e.2.module
  | used {n mod user : Nat} {name : Bytes} (h : mod ∈ m.loaded)
      (himplements : name ∈ (code mod).implements) (huses : name ∈ (code user).uses)
      (huser : HeldUp code m n user) : HeldUp code m (n + 1) mod

/-- Each try comes one user further. -/
theorem tries_heldUp (h : Serving code m) (n : Nat) :
    Serving code ((unloadEach code)^[n] m) ∧
      (∀ e ∈ ((unloadEach code)^[n] m).modules.entries, e ∈ m.modules.entries) ∧
      ∀ mod ∈ ((unloadEach code)^[n] m).loaded, HeldUp code m n mod := by
  induction n with
  | zero => exact ⟨h, fun _ he => he, fun _ hmod => .loaded hmod⟩
  | succ n ih =>
      obtain ⟨hserving, hsub, hheld⟩ := ih
      rw [Function.iterate_succ_apply']
      generalize (unloadEach code)^[n] m = m₁ at hserving hsub hheld
      have hsub₁ := deletes_entries code m₁.getAllModuleNames m₁
      obtain ⟨hserving', hkept⟩ := deletes_kept m₁.getAllModuleNames m₁ hserving
      refine ⟨hserving', fun e he => hsub e (hsub₁ e he), fun mod hmod => ?_⟩
      obtain ⟨e, he, rfl⟩ := List.mem_map.1 hmod
      have hstart := hsub e (hsub₁ e he)
      rcases hkept e.1 (List.mem_map_of_mem (hsub₁ e he)) e.2 (SortedMap.lookup_of_mem he) with
        hstatic | ⟨user, huser, name, himplements, huses⟩
      · exact .static hstart hstatic
      · exact .used (List.mem_map_of_mem hstart) himplements huses (hheld user huser)

end ModuleManager

open ModuleManager in
/-- In every run of loads and unloads where a constructor that throws has used no interface: what
`Cleanup` leaves is static or the end of a chain of three users, unless one of these is
static. -/
theorem cleanup_unloads (env : Loader) (code : Nat → ModuleCode) (hintro : Introduces env)
    (shifts : List Shift) (m : ModuleManager)
    (hrun : Runs.run (ModuleManager.shift env code) ModuleManager.new shifts = some m)
    (horder : EachStep (ModuleManager.shift env code) ModuleManager.new shifts
      (ModuleManager.InOrder env code)) :
    ∀ mod ∈ (m.cleanup code).loaded, ModuleManager.HeldUp code m 3 mod := by
  have hstart : Serving code ModuleManager.new := by
    refine ⟨⟨List.nodup_nil, fun mod hmod => ?_⟩, fun name i hi => ?_, fun name i hi => ?_,
      fun name i hi => ?_⟩
    · cases hmod
    · cases hi
    · cases hi
    · cases hi
  have hserving := horder.invariant hstart (fun h hcall hs => h.shift hintro hcall hs) shifts m
    (List.prefix_refl _) hrun
  exact (tries_heldUp hserving 3).2.2

/-- Each module implements an interface, and uses that of the module before. -/
def inLine : Nat → ModuleCode
  | 0 => ⟨[], [str "i0"]⟩
  | n + 1 => ⟨[str "i" ++ ofNat n], [str "i" ++ ofNat (n + 1)]⟩

/-- Loads of so many modules, with names in the order of loading. -/
def lineOf (n : Nat) : List Shift :=
  (List.range n).map fun i => .load (str "m_" ++ ofNat i ++ str ".so") plainFile

def lineOfFour : ModuleManager :=
  (Runs.run (ModuleManager.shift plainLoader inLine) ModuleManager.new (lineOf 4)).get
    (by decide +kernel)

theorem cleanup_unloads_line : ModuleManager.HeldUp inLine lineOfFour 3 0 :=
  cleanup_unloads plainLoader inLine introduces_plain (lineOf 4) lineOfFour
    (Option.some_get _).symm (by decide +kernel) 0 (by decide +kernel)

/-- Three tries take away a line of three, and leave the first of four. -/
example :
    ((Runs.run (ModuleManager.shift plainLoader inLine) ModuleManager.new (lineOf 3)).map
        fun m => (m.cleanup inLine).loaded) = some [] ∧
      ((Runs.run (ModuleManager.shift plainLoader inLine) ModuleManager.new (lineOf 4)).map
        fun m => (m.cleanup inLine).loaded) = some [0] := by
  decide +kernel

end Hottpd
