import Hottpd.Core.Unloading
import Hottpd.Proofs.Loading
import Hottpd.Proofs.Interfaces
import Hottpd.Proofs.Priority

/-!
# Nobody calls a module that is gone

Lists of handlers and features hold pointers to modules. Over a run of the
manager's calls they point to loaded modules exactly if no constructor throws
behind a call of `Attach` or `PublishFeature`, and if every destructor unpublishes
what its module has published: `Load` and `Unload` see to the rest.

`Cleanup` unloads all modules three times over. A module stays while its
interface is used, so a try comes one step further along the chain of users of
users: three tries unload what is at most two steps from a module nobody uses.
-/

namespace Hottpd

open Bytes Runs

variable {env : Loader} {s s' : Managed}

/-! ## What `Load` and `Unload` do -/

namespace ModuleManager

variable {filename : Bytes} {file : ModuleFile} {m m' : ModuleManager} {mod : Nat}

/-- What a constructor does not touch. -/
theorem construct_rest (mod : Nat) (calls : List HandlerCall) : ∀ m : ModuleManager,
    (construct mod calls m).modules = m.modules ∧
      (construct mod calls m).interfaces = m.interfaces ∧
      (construct mod calls m).next = m.next := by
  induction calls with
  | nil => exact fun _ => ⟨rfl, rfl, rfl⟩
  | cons call calls ih =>
      intro m
      cases call with
      | attach i => exact ih (m.attach i mod)
      | detach i => exact ih (m.detach i mod)

theorem initialised_done (h : (initialised env filename file mod m).1 = true) :
    ∃ v, file.init = .module ∧ initialised env filename file mod m =
      (true, env.introduce { m with
        modules := m.modules.insert filename ⟨mod, v⟩
        modCount := m.modCount + 1 }) := by
  unfold initialised at h ⊢
  cases hinit : file.init with
  | threw reason =>
      rw [hinit] at h
      cases h
  | null =>
      rw [hinit] at h
      cases h
  | module =>
      rw [hinit] at h
      cases hversion : file.version with
      | error reason =>
          rw [hversion] at h
          cases h
      | ok v =>
          rw [hversion] at h
          dsimp only at h ⊢
          by_cases hapi : v.api ≠ env.apiVersion
          · rw [if_pos hapi] at h
            cases h
          · rw [if_neg hapi]
            exact ⟨v, rfl, rfl⟩

/-- The ways a load ends: with the lists as they were, with an object left on one of them, or
with a module. -/
inductive LoadEnds (env : Loader) (filename : Bytes) (file : ModuleFile) (m : ModuleManager) :
    ModuleManager → Prop
  | refused {m' : ModuleManager} (hdone : (load env filename file m).1 = false)
      (hnot : ¬(Reaches env filename file m ∧ Abandons file))
      (hhandlers : m'.eventHandlers = m.eventHandlers) (hmodules : m'.modules = m.modules)
      (hnext : m.next ≤ m'.next) : LoadEnds env filename file m m'
  | abandoned {m' : ModuleManager} {i : Implementation}
      (hdone : (load env filename file m).1 = false)
      (hyes : Reaches env filename file m ∧ Abandons file)
      (hlisted : m.next ∈ (m'.eventHandlers i).mods) (hmodules : m'.modules = m.modules) :
      LoadEnds env filename file m m'
  | loaded {base : ModuleManager} {v : Version} (hdone : (load env filename file m).1 = true)
      (hinit : file.init = .module)
      (hnew : m.modules.lookup filename = none)
      (hhandlers : ∀ i, ∀ h ∈ (base.eventHandlers i).mods,
        h ∈ (m.eventHandlers i).mods ∨ h = m.next)
      (hmodules : base.modules = m.modules.insert filename ⟨m.next, v⟩)
      (hnext : base.next = m.next + 1) : LoadEnds env filename file m (env.introduce base)

theorem load_ends (env : Loader) (filename : Bytes) (file : ModuleFile) (m : ModuleManager)
    (hfresh : Unlisted m.next m) : LoadEnds env filename file m (load env filename file m).2 := by
  rcases load_cases env filename file m with ⟨hnot, error, heq⟩ | ⟨hreach, heq⟩
  · rw [heq]
    exact .refused (by rw [heq]; rfl) (fun h => hnot h.1) rfl rfl (Nat.le_refl _)
  have happended : Appended m.next (held file.calls) m
      (construct m.next file.calls { m with next := m.next + 1 }) := by
    have h := construct_appended (s := { m with next := m.next + 1 }) hfresh file.calls
    exact ⟨h.mods, h.modules, h.modCount⟩
  obtain ⟨-, -, hnext⟩ :=
    construct_rest m.next file.calls { m with next := m.next + 1 }
  generalize construct m.next file.calls { m with next := m.next + 1 } = built
    at happended hnext heq
  rw [heq]
  cases hdone : (initialised env filename file m.next built).1 with
  | false =>
      have hfailed : (load env filename file m).1 = false := by
        rw [heq]
        exact hdone
      obtain ⟨error, ⟨hinit, heq'⟩ | ⟨hinit, heq'⟩⟩ := initialised_cases hdone
      · rw [heq']
        by_cases hon : ∃ i, held file.calls i = true
        · obtain ⟨i, hi⟩ := hon
          refine .abandoned (i := i) hfailed ⟨hreach, hinit, i, hi⟩ ?_ happended.modules
          show m.next ∈ (built.eventHandlers i).mods
          rw [happended.mods, if_pos hi]
          exact List.mem_append_right _ (List.mem_singleton_self _)
        · have hoff : ∀ i, held file.calls i = false := fun i =>
            Bool.eq_false_iff.2 fun hi => hon ⟨i, hi⟩
          have hrest := happended.restored_iff.2 hoff
          exact .refused hfailed (fun h => hon h.2.2) hrest.eventHandlers hrest.modules
            (Nat.le_of_lt (hnext ▸ Nat.lt_succ_self m.next))
      · rw [heq']
        have hrest := happended.detachAll hfresh
        exact .refused hfailed (fun h => h.2.1 hinit) hrest.eventHandlers hrest.modules
          (Nat.le_of_lt (hnext ▸ Nat.lt_succ_self m.next))
  | true =>
      have hloads : (load env filename file m).1 = true := by
        rw [heq]
        exact hdone
      obtain ⟨v, hinit, heq'⟩ := initialised_done hdone
      rw [heq']
      refine .loaded (v := v) hloads hinit hreach.2.2.1 (fun i h hh => ?_) ?_ hnext
      · rw [show ({ built with
            modules := built.modules.insert filename ⟨m.next, v⟩
            modCount := built.modCount + 1 } : ModuleManager).eventHandlers i
            = built.eventHandlers i from rfl, happended.mods] at hh
        rcases List.mem_append.1 hh with hh | hh
        · exact Or.inl hh
        · split at hh
          · exact Or.inr (List.mem_singleton.1 hh)
          · cases hh
      · dsimp only
        rw [happended.modules]

theorem unload_refused (h : (m.unload filename).1 = false) :
    (m.unload filename).2.eventHandlers = m.eventHandlers ∧
      (m.unload filename).2.modules = m.modules ∧
      (m.unload filename).2.interfaces = m.interfaces ∧
      (m.unload filename).2.next = m.next := by
  unfold unload at h ⊢
  split
  · exact ⟨rfl, rfl, rfl, rfl⟩
  · next l hl =>
      rw [hl] at h
      dsimp only at h ⊢
      split
      · exact ⟨rfl, rfl, rfl, rfl⟩
      · next hstatic =>
          rw [if_neg hstatic] at h
          split
          · exact ⟨rfl, rfl, rfl, rfl⟩
          · next hcount =>
              rw [if_neg hcount] at h
              cases h

theorem unload_done (h : (m.unload filename).1 = true) :
    ∃ l, m.modules.lookup filename = some l ∧ (m.unload filename).2 =
      { m.detachAll (some l.module) with
        modules := m.modules.erase filename
        modCount := m.modCount - 1 } := by
  unfold unload at h ⊢
  split
  · next hnone =>
      rw [hnone] at h
      cases h
  · next l hl =>
      rw [hl] at h
      dsimp only at h ⊢
      split
      · next hstatic =>
          rw [if_pos hstatic] at h
          cases h
      · next hstatic =>
          rw [if_neg hstatic] at h
          split
          · next hcount =>
              rw [if_pos hcount] at h
              cases h
          · exact ⟨l, hl, rfl⟩

/-- The modules behind an `Unload`: one is gone. -/
theorem loaded_erase {l : Loaded} (hl : m.modules.lookup filename = some l) :
    m.loaded.Perm (l.module :: ((m.modules.erase filename).entries.map fun e => e.2.module)) := by
  obtain ⟨name, hname, hmem⟩ := SortedMap.mem_of_lookup hl
  have hperm := (SortedMap.perm_erase hmem).map fun e => e.2.module
  rw [nameKey_inj hname] at hperm
  exact hperm

theorem loaded_insert {l : Loaded} (hnew : m.modules.lookup filename = none) :
    ((m.modules.insert filename l).entries.map fun e => e.2.module).Perm (l.module :: m.loaded) :=
  (SortedMap.perm_insert l hnew).map fun e => e.2.module

end ModuleManager

/-! ## No pointer to a module that is gone -/

/-- What modules do when one is introduced to them: some put themselves on lists. -/
structure Introduces (env : Loader) : Prop where
  modules : ∀ m, (env.introduce m).modules = m.modules
  interfaces : ∀ m, (env.introduce m).interfaces = m.interfaces
  next : ∀ m, (env.introduce m).next = m.next
  listed : ∀ m i, ∀ h ∈ ((env.introduce m).eventHandlers i).mods,
    h ∈ (m.eventHandlers i).mods ∨ h ∈ m.loaded

/-- Handlers and features are those of loaded modules. -/
structure Alive (s : Managed) : Prop where
  handlers : ∀ i, ∀ mod ∈ (s.manager.eventHandlers i).mods, mod ∈ s.manager.loaded
  features : ∀ name mod, findFeature name s.features = some mod → mod ∈ s.manager.loaded

/-- A module is one object, which has been allocated. -/
structure Allocated (m : ModuleManager) : Prop where
  distinct : m.loaded.Nodup
  below : ∀ mod ∈ m.loaded, mod < m.next

/-- The condition on a call: a constructor does not throw with the object on a list, or with a
feature it has published, and a destructor unpublishes what its module has published. -/
def Managed.TidiesUp (env : Loader) (s : Managed) : ManagerCall → Prop
  | .load filename file calls unpublishes =>
      ¬(ModuleManager.Reaches env filename file s.manager ∧ ModuleManager.Abandons file) ∧
        (ModuleManager.Reaches env filename file s.manager →
          (s.manager.load env filename file).1 = false →
          ∀ name, findFeature name (constructFeatures s.manager.next calls s.features)
              = some s.manager.next →
            file.init = .module ∧ name ∈ unpublishes)
  | .unload filename unpublishes => (s.manager.unload filename).1 = true →
      ∀ mod, s.manager.find filename = some mod →
      ∀ name, findFeature name s.features = some mod → name ∈ unpublishes
  | .attach _ _ | .detach _ _ | .setPriority _ _ _ _ | .publishFeature _ _
  | .unpublishFeature _ => True

theorem Allocated.unlisted {m : ModuleManager} (h : Allocated m)
    (hhandlers : ∀ i, ∀ mod ∈ (m.eventHandlers i).mods, mod ∈ m.loaded) :
    ModuleManager.Unlisted m.next m := fun i hmem =>
  Nat.lt_irrefl _ (h.below _ (hhandlers i _ hmem))

theorem Allocated.insert {m m' : ModuleManager} (h : Allocated m)
    (hloaded : m'.loaded.Perm (m.next :: m.loaded))
    (hnext : m'.next = m.next + 1) : Allocated m' := by
  constructor
  · rw [hloaded.nodup_iff, List.nodup_cons]
    exact ⟨fun hmem => Nat.lt_irrefl _ (h.below _ hmem), h.distinct⟩
  · intro mod hmod
    rw [hloaded.mem_iff, List.mem_cons] at hmod
    rw [hnext]
    rcases hmod with rfl | hmod
    · exact Nat.lt_succ_self _
    · exact Nat.lt_succ_of_lt (h.below mod hmod)

/-- A call that leaves the modules, and the features to them. -/
theorem Alive.same (h : Alive s) (hbooks : Allocated s.manager) {m : ModuleManager}
    {features : Features} (hhandlers : m.eventHandlers = s.manager.eventHandlers)
    (hmodules : m.modules = s.manager.modules) (hnext : s.manager.next ≤ m.next)
    (hfeatures : ∀ name mod, findFeature name features = some mod → mod ∈ s.manager.loaded) :
    Alive ⟨m, features⟩ ∧ Allocated m := by
  have hloaded : m.loaded = s.manager.loaded := by
    rw [ModuleManager.loaded, hmodules, ModuleManager.loaded]
  refine ⟨⟨fun i mod hmod => ?_, fun name mod hmod => ?_⟩, ?_, fun mod hmod => ?_⟩
  · show mod ∈ m.loaded
    rw [hloaded]
    refine h.handlers i mod ?_
    rw [← hhandlers]
    exact hmod
  · show mod ∈ m.loaded
    rw [hloaded]
    exact hfeatures name mod hmod
  · rw [hloaded]
    exact hbooks.distinct
  · rw [hloaded] at hmod
    exact Nat.lt_of_lt_of_le (hbooks.below mod hmod) hnext

/-! ## Features -/

theorem findFeature_publish {name name' : Bytes} {mod : Nat} {features : Features} :
    findFeature name' (publishFeature name mod features).2
      = if name' = name then some ((findFeature name features).getD mod)
        else findFeature name' features := by
  unfold publishFeature findFeature
  by_cases hname : name' = name
  · subst hname
    rw [if_pos rfl]
    cases hold : features.lookup name' with
    | none => exact SortedMap.lookup_insert_self _ _ rfl
    | some old => exact hold
  · rw [if_neg hname]
    split
    · exact SortedMap.lookup_insert_of_ne _ _ fun hkey => hname (nameKey_inj hkey)
    · rfl

theorem findFeature_unpublish {name name' : Bytes} {features : Features} :
    findFeature name' (unpublishFeature name features).2
      = if name' = name then none else findFeature name' features := by
  unfold unpublishFeature findFeature
  split
  · next hnone =>
      split
      · next hname =>
          rw [hname]
          exact Option.isNone_iff_eq_none.1 hnone
      · rfl
  · split
    · next hname =>
        rw [hname]
        exact SortedMap.lookup_erase_self _ rfl
    · next hname =>
        exact SortedMap.lookup_erase_of_ne _ fun hkey => hname (nameKey_inj hkey)

theorem findFeature_destroy {name : Bytes} (names : List Bytes) : ∀ features : Features,
    findFeature name (destroyFeatures names features)
      = if name ∈ names then none else findFeature name features := by
  induction names with
  | nil => exact fun _ => rfl
  | cons name' names ih =>
      intro features
      rw [destroyFeatures, List.foldl_cons, ← destroyFeatures, ih, findFeature_unpublish]
      by_cases hname : name = name'
      · simp [hname]
      · simp [hname]

/-- A constructor publishes for its object, and takes back. -/
theorem constructFeatures_cases {name : Bytes} {mod mod' : Nat} (calls : List FeatureCall) :
    ∀ features : Features, findFeature name (constructFeatures mod calls features) = some mod' →
      mod' = mod ∨ findFeature name features = some mod' := by
  induction calls with
  | nil => exact fun _ h => Or.inr h
  | cons call calls ih =>
      intro features h
      rcases ih _ h with hmod | h
      · exact Or.inl hmod
      cases call with
      | publish name' =>
          rw [findFeature_publish] at h
          split at h
          · next hname =>
              subst hname
              cases hold : findFeature name features with
              | none =>
                  rw [hold] at h
                  cases h
                  exact Or.inl rfl
              | some old =>
                  rw [hold] at h
                  exact Or.inr h
          · exact Or.inr h
      | unpublish name' =>
          rw [findFeature_unpublish] at h
          split at h
          · cases h
          · exact Or.inr h

/-! ## `Load` and `Unload` -/

namespace ModuleManager

theorem callsInit_iff {filename : Bytes} {file : ModuleFile} {m : ModuleManager} :
    m.callsInit env filename file = true ↔ Reaches env filename file m := by
  rw [callsInit, Reaches]
  simp [and_assoc]

end ModuleManager

/-- The features behind a `Load`. -/
def Managed.loadFeatures (env : Loader) (s : Managed) (filename : Bytes) (file : ModuleFile)
    (calls : List FeatureCall) (unpublishes : List Bytes) : Features :=
  let features :=
    if s.manager.callsInit env filename file then
      constructFeatures s.manager.next calls s.features
    else s.features
  if s.manager.callsInit env filename file ∧ (s.manager.load env filename file).1 = false ∧
      file.init = .module then
    destroyFeatures unpublishes features
  else features

theorem load_step (s : Managed) (filename : Bytes) (file : ModuleFile) (calls : List FeatureCall)
    (unpublishes : List Bytes) :
    s.step env (.load filename file calls unpublishes) = some
      ⟨(s.manager.load env filename file).2,
        s.loadFeatures env filename file calls unpublishes⟩ := rfl

section Load

variable {filename : Bytes} {file : ModuleFile} {calls : List FeatureCall}
  {unpublishes : List Bytes}

/-- A feature behind a `Load` was there before, or is one of the new object's that its destructor
has not unpublished. -/
theorem loadFeatures_cases {name : Bytes} {mod : Nat}
    (h : findFeature name (s.loadFeatures env filename file calls unpublishes) = some mod) :
    findFeature name s.features = some mod ∨
      ModuleManager.Reaches env filename file s.manager ∧ mod = s.manager.next ∧
        findFeature name (constructFeatures s.manager.next calls s.features) = some mod ∧
        ((s.manager.load env filename file).1 = false → file.init = .module →
          name ∉ unpublishes) := by
  unfold Managed.loadFeatures at h
  by_cases hcalls : s.manager.callsInit env filename file = true
  · have hreach := ModuleManager.callsInit_iff.1 hcalls
    simp only [hcalls, if_true, true_and] at h
    split at h
    · rw [findFeature_destroy] at h
      split at h
      · cases h
      · next hkept =>
          rcases constructFeatures_cases calls s.features h with hmod | hold
          · exact Or.inr ⟨hreach, hmod, h, fun _ _ => hkept⟩
          · exact Or.inl hold
    · next hstays =>
        rcases constructFeatures_cases calls s.features h with hmod | hold
        · exact Or.inr ⟨hreach, hmod, h, fun hdone hinit => absurd ⟨hdone, hinit⟩ hstays⟩
        · exact Or.inl hold
  · simp only [hcalls, if_false, false_and, Bool.false_eq_true] at h
    exact Or.inl h

/-- A feature that is left behind a `Load` that fails. -/
theorem loadFeatures_left {name : Bytes}
    (hreach : ModuleManager.Reaches env filename file s.manager)
    (hfeature : findFeature name (constructFeatures s.manager.next calls s.features)
      = some s.manager.next)
    (hleft : ¬(file.init = .module ∧ name ∈ unpublishes)) :
    findFeature name (s.loadFeatures env filename file calls unpublishes)
      = some s.manager.next := by
  unfold Managed.loadFeatures
  simp only [ModuleManager.callsInit_iff.2 hreach, if_true, true_and]
  split
  · next hends =>
      rw [findFeature_destroy, if_neg fun hname => hleft ⟨hends.2, hname⟩]
      exact hfeature
  · exact hfeature

theorem Alive.load (h : Alive s) (hbooks : Allocated s.manager) (hintro : Introduces env)
    (htidy : s.TidiesUp env (.load filename file calls unpublishes))
    (hstep : s.step env (.load filename file calls unpublishes) = some s') :
    Alive s' ∧ Allocated s'.manager := by
  rw [load_step, Option.some.injEq] at hstep
  subst hstep
  obtain ⟨hlists, hfeatures⟩ := htidy
  have hends := ModuleManager.load_ends env filename file s.manager (hbooks.unlisted h.handlers)
  have hfound := @loadFeatures_cases env s filename file calls unpublishes
  generalize s.loadFeatures env filename file calls unpublishes = features at hfound
  generalize (s.manager.load env filename file).2 = m' at hends
  cases hends with
  | refused hdone _ hhandlers hmodules hnext =>
      refine h.same hbooks hhandlers hmodules hnext fun name mod hmod => ?_
      rcases hfound hmod with hold | ⟨hreach, rfl, hnew, hkept⟩
      · exact h.features name mod hold
      · obtain ⟨hinit, hname⟩ := hfeatures hreach hdone name hnew
        exact absurd hname (hkept hdone hinit)
  | abandoned _ hyes _ _ => exact absurd hyes hlists
  | @loaded base v _ _ hnew hhandlers hmodules hnext =>
      have hbase : base.loaded.Perm (s.manager.next :: s.manager.loaded) := by
        rw [ModuleManager.loaded, hmodules]
        exact ModuleManager.loaded_insert (l := ⟨s.manager.next, v⟩) hnew
      have hloaded : (env.introduce base).loaded = base.loaded := by
        rw [ModuleManager.loaded, hintro.modules, ModuleManager.loaded]
      refine ⟨⟨fun i mod hmod => ?_, fun name mod hmod => ?_⟩, hbooks.insert ?_ ?_⟩
      · show mod ∈ (env.introduce base).loaded
        rw [hloaded]
        rcases hintro.listed base i mod hmod with hmod | hmod
        · rw [hbase.mem_iff, List.mem_cons]
          rcases hhandlers i mod hmod with hmod | hmod
          · exact Or.inr (h.handlers i mod hmod)
          · exact Or.inl hmod
        · exact hmod
      · show mod ∈ (env.introduce base).loaded
        rw [hloaded, hbase.mem_iff, List.mem_cons]
        rcases hfound hmod with hold | ⟨-, hmod, -⟩
        · exact Or.inr (h.features name mod hold)
        · exact Or.inl hmod
      · show (env.introduce base).loaded.Perm _
        rw [hloaded]
        exact hbase
      · show (env.introduce base).next = _
        rw [hintro.next, hnext]

end Load

/-- The modules and the handlers behind an `Unload` that succeeds. -/
theorem unloaded {m : ModuleManager} {filename : Bytes} (hbooks : Allocated m)
    (hdone : (m.unload filename).1 = true) :
    ∃ gone, m.find filename = some gone ∧
      (∀ mod, mod ∈ (m.unload filename).2.loaded ↔ mod ∈ m.loaded ∧ mod ≠ gone) ∧
      (∀ i mod, mod ∈ ((m.unload filename).2.eventHandlers i).mods →
        mod ∈ (m.eventHandlers i).mods ∧ mod ≠ gone) ∧
      Allocated (m.unload filename).2 := by
  obtain ⟨l, hl, heq⟩ := ModuleManager.unload_done hdone
  have hperm := ModuleManager.loaded_erase hl
  have hdistinct := hperm.nodup_iff.1 hbooks.distinct
  rw [List.nodup_cons] at hdistinct
  rw [heq]
  refine ⟨l.module, by rw [ModuleManager.find, hl]; rfl, fun mod => ?_, fun i mod hmod => ?_,
    hdistinct.2, fun mod hmod => ?_⟩
  · show mod ∈ (m.modules.erase filename).entries.map _ ↔ _
    rw [hperm.mem_iff, List.mem_cons]
    constructor
    · intro hmem
      exact ⟨Or.inr hmem, fun hgone => hdistinct.1 (hgone ▸ hmem)⟩
    · rintro ⟨rfl | hmem, hne⟩
      · exact absurd rfl hne
      · exact hmem
  · have herase : mod ∈ (m.eventHandlers i).mods.erase l.module := hmod
    rw [(m.eventHandlers i).nodup.mem_erase_iff] at herase
    exact ⟨herase.2, herase.1⟩
  · exact hbooks.below mod (hperm.mem_iff.2 (List.mem_cons_of_mem _ hmod))

theorem unload_step (filename : Bytes) (unpublishes : List Bytes) (s : Managed) :
    s.step env (.unload filename unpublishes) = some {
      manager := (s.manager.unload filename).2
      features :=
        if (s.manager.unload filename).1 then destroyFeatures unpublishes s.features
        else s.features } := rfl

theorem Alive.unload (h : Alive s) (hbooks : Allocated s.manager) {filename : Bytes}
    {unpublishes : List Bytes} (htidy : s.TidiesUp env (.unload filename unpublishes))
    (hstep : s.step env (.unload filename unpublishes) = some s') :
    Alive s' ∧ Allocated s'.manager := by
  rw [unload_step, Option.some.injEq] at hstep
  subst hstep
  cases hdone : (s.manager.unload filename).1 with
  | false =>
      obtain ⟨hhandlers, hmodules, -, hnext⟩ := ModuleManager.unload_refused hdone
      exact h.same hbooks hhandlers hmodules (Nat.le_of_eq hnext.symm) h.features
  | true =>
      obtain ⟨gone, hgone, hloaded, hhandlers, hbooks'⟩ := unloaded hbooks hdone
      refine ⟨⟨fun i mod hmod => ?_, fun name mod hmod => ?_⟩, hbooks'⟩
      · obtain ⟨hmod, hne⟩ := hhandlers i mod hmod
        exact (hloaded mod).2 ⟨h.handlers i mod hmod, hne⟩
      · rw [if_pos rfl, findFeature_destroy] at hmod
        split at hmod
        · cases hmod
        · next hkept =>
            refine (hloaded mod).2 ⟨h.features name mod hmod, ?_⟩
            rintro rfl
            exact hkept (htidy hdone mod hgone name hmod)

/-! ## The other calls -/

/-- A call that changes one list, to handlers it had and a loaded module. -/
theorem Alive.relist (h : Alive s) {i : Implementation} {l : IntModuleList Nat}
    (hlist : ∀ mod ∈ l.mods, mod ∈ (s.manager.eventHandlers i).mods ∨ mod ∈ s.manager.loaded) :
    Alive { s with manager := { s.manager with
      eventHandlers := Function.update s.manager.eventHandlers i l } } := by
  refine ⟨fun j mod hmod => ?_, h.features⟩
  by_cases hj : j = i
  · subst hj
    simp only [Function.update_self] at hmod
    rcases hlist mod hmod with hmod | hmod
    · exact h.handlers j mod hmod
    · exact hmod
  · simp only [Function.update_of_ne hj] at hmod
    exact h.handlers j mod hmod

theorem Alive.step (h : Alive s) (hbooks : Allocated s.manager) (hintro : Introduces env)
    {call : ManagerCall} (htidy : s.TidiesUp env call) (hstep : s.step env call = some s') :
    Alive s' ∧ Allocated s'.manager := by
  cases call with
  | load filename file calls unpublishes => exact h.load hbooks hintro htidy hstep
  | unload filename unpublishes => exact h.unload hbooks htidy hstep
  | attach i mod =>
      obtain ⟨hloaded, hstep⟩ := Option.ite_none_right_eq_some.1 hstep
      cases hstep
      refine ⟨h.relist fun mod' hmod => ?_, hbooks.distinct, hbooks.below⟩
      by_cases hmem : mod ∈ (s.manager.eventHandlers i).mods
      · rw [IntModuleList.attach_of_mem hmem] at hmod
        exact Or.inl hmod
      · rw [IntModuleList.mods_attach hmem, List.mem_append, List.mem_singleton] at hmod
        refine hmod.imp_right fun heq => ?_
        rw [heq]
        exact hloaded
  | detach i mod =>
      obtain ⟨-, hstep⟩ := Option.ite_none_right_eq_some.1 hstep
      cases hstep
      refine ⟨h.relist fun mod' hmod => Or.inl ?_, hbooks.distinct, hbooks.below⟩
      rw [IntModuleList.mods_detach] at hmod
      exact List.mem_of_mem_erase hmod
  | setPriority mod i p modules =>
      obtain ⟨-, hstep⟩ := Option.ite_none_right_eq_some.1 hstep
      cases hstep
      refine ⟨h.relist fun mod' hmod => Or.inl ?_, hbooks.distinct, hbooks.below⟩
      exact (setPriority_perm mod p modules _).mem_iff.1 hmod
  | publishFeature name mod =>
      obtain ⟨hloaded, hstep⟩ := Option.ite_none_right_eq_some.1 hstep
      cases hstep
      refine ⟨⟨h.handlers, fun name' mod' hmod => ?_⟩, hbooks⟩
      rw [findFeature_publish] at hmod
      split at hmod
      · cases hold : findFeature name s.features with
        | none =>
            rw [hold, Option.getD_none, Option.some.injEq] at hmod
            exact hmod ▸ hloaded
        | some old =>
            rw [hold, Option.getD_some, Option.some.injEq] at hmod
            exact hmod ▸ h.features name old hold
      · exact h.features name' mod' hmod
  | unpublishFeature name =>
      cases hstep
      refine ⟨⟨h.handlers, fun name' mod hmod => ?_⟩, hbooks⟩
      rw [findFeature_unpublish] at hmod
      split at hmod
      · cases hmod
      · exact h.features name' mod hmod

/-- A call that does not meet the condition leaves a pointer to a module that is gone. -/
theorem Alive.breaks (h : Alive s) (hbooks : Allocated s.manager) {call : ManagerCall}
    (htidy : ¬s.TidiesUp env call) : ∃ s', s.step env call = some s' ∧ ¬Alive s' := by
  cases call with
  | attach _ _ | detach _ _ | setPriority _ _ _ _ | publishFeature _ _ | unpublishFeature _ =>
      exact absurd trivial htidy
  | load filename file calls unpublishes =>
      refine ⟨_, load_step s filename file calls unpublishes, fun halive => ?_⟩
      have hends := ModuleManager.load_ends env filename file s.manager
        (hbooks.unlisted h.handlers)
      obtain ⟨hhandlers, hfeatures⟩ := halive
      dsimp only at hhandlers hfeatures
      rcases not_and_or.1 htidy with hlists | hleft
      · -- the object is on a list
        generalize (s.manager.load env filename file).2 = m' at hends hhandlers
        cases hends with
        | refused _ hnot _ _ _ => exact hlists hnot
        | loaded _ hinit _ _ _ _ => exact hlists fun hyes => hyes.2.1 hinit
        | @abandoned _ i _ _ hlisted hmodules =>
            have hmem := hhandlers i _ hlisted
            rw [ModuleManager.loaded, hmodules] at hmem
            exact Nat.lt_irrefl _ (hbooks.below _ hmem)
      · -- or a feature is its
        obtain ⟨hreach, hleft⟩ := Classical.not_imp.1 hleft
        obtain ⟨hdone, hleft⟩ := Classical.not_imp.1 hleft
        obtain ⟨name, hleft⟩ := not_forall.1 hleft
        obtain ⟨hfeature, hleft⟩ := Classical.not_imp.1 hleft
        have hmem := hfeatures name _ (loadFeatures_left hreach hfeature hleft)
        generalize (s.manager.load env filename file).2 = m' at hends hmem
        cases hends with
        | refused _ _ _ hmodules _ | abandoned _ _ _ hmodules =>
            rw [ModuleManager.loaded, hmodules] at hmem
            exact Nat.lt_irrefl _ (hbooks.below _ hmem)
        | loaded hloads _ _ _ _ _ => exact absurd (hdone.symm.trans hloads) (by decide)
  | unload filename unpublishes =>
      obtain ⟨hdone, hleft⟩ := Classical.not_imp.1 htidy
      rw [not_forall] at hleft
      obtain ⟨mod, hleft⟩ := hleft
      obtain ⟨hmod, hleft⟩ := Classical.not_imp.1 hleft
      rw [not_forall] at hleft
      obtain ⟨name, hleft⟩ := hleft
      obtain ⟨hfeature, hkept⟩ := Classical.not_imp.1 hleft
      obtain ⟨gone, hgone, hloaded, -, -⟩ := unloaded hbooks hdone
      refine ⟨_, unload_step filename unpublishes s, fun halive => ?_⟩
      have hfound : findFeature name (if (s.manager.unload filename).1 then
          destroyFeatures unpublishes s.features else s.features) = some mod := by
        rw [if_pos hdone, findFeature_destroy, if_neg hkept]
        exact hfeature
      have hmem := halive.features name mod hfound
      rw [hmod, Option.some.injEq] at hgone
      exact ((hloaded mod).1 hmem).2 hgone

/-- In every run of calls of the manager, with modules that put only themselves on lists when
one is introduced to them: handlers and features are throughout those of loaded modules exactly
if no constructor throws with its object on a list or with a feature it has published, and every
destructor unpublishes what its module has published. -/
theorem modules_alive (env : Loader) (hintro : Introduces env) (calls : List ManagerCall) :
    Throughout (Managed.step env) Managed.new calls Alive ↔
      EachStep (Managed.step env) Managed.new calls (Managed.TidiesUp env) := by
  refine throughout_iff (I := fun s : Managed => Alive s ∧ Allocated s.manager) ?_ And.left ?_ ?_
    calls
  · refine ⟨⟨fun i mod hmod => ?_, fun name mod hmod => ?_⟩, List.nodup_nil, fun mod hmod => ?_⟩
    · cases hmod
    · cases hmod
    · cases hmod
  · rintro s call s' ⟨halive, hbooks⟩ htidy hstep
    exact halive.step hbooks hintro htidy hstep
  · rintro s call ⟨halive, hbooks⟩ htidy
    exact halive.breaks hbooks htidy

theorem introduces_plain : Introduces plainLoader where
  modules _ := rfl
  interfaces _ := rfl
  next _ := rfl
  listed _ _ _ hmod := Or.inl hmod

/-- A module that comes up. -/
def plainFile : ModuleFile :=
  { throwing with calls := [], init := .module }

theorem modules_alive_unpublished :
    Throughout (Managed.step plainLoader) Managed.new
      [.load (str "m_a.so") plainFile [] [str "f"], .attach .onEvent 0, .publishFeature (str "f") 0,
        .unload (str "m_a.so") [str "f"]] Alive := by
  have hload : Managed.new.TidiesUp plainLoader (.load (str "m_a.so") plainFile [] [str "f"]) :=
    ⟨fun h => h.2.1 rfl, fun _ _ _ hname => by cases hname⟩
  refine (modules_alive plainLoader introduces_plain _).2 (eachStep_cons rfl hload
    (eachStep_cons rfl trivial (eachStep_cons rfl trivial (eachStep_cons rfl ?_ eachStep_nil))))
  intro _ mod _ name hname
  by_cases h : name = str "f"
  · rw [h]
    exact List.mem_singleton_self _
  · have hnone : findFeature name ((SortedMap.empty : Features).insert (str "f") 0) = none :=
      SortedMap.lookup_insert_of_ne _ _ fun hkey => h (nameKey_inj hkey)
    exact absurd (hnone.symm.trans hname) (by simp)

end Hottpd
