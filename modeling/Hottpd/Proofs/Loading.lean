import Hottpd.Core.ModuleManager

/-!
# A failed load

Of the ways out of `Load` only those behind the constructor find the lists
changed, and then only at their ends: the new object is the last of the lists it
attached itself to. Taking it off them restores them. That needs the pointer to
the object, and there is none when the constructor throws.
-/

namespace Hottpd

open Bytes

namespace ModuleManager

variable {env : Loader} {filename : Bytes} {file : ModuleFile} {s : ModuleManager}

/-- What a failed load leaves alone. -/
structure Restored (s s' : ModuleManager) : Prop where
  eventHandlers : s'.eventHandlers = s.eventHandlers
  modules : s'.modules = s.modules
  modCount : s'.modCount = s.modCount

/-- The lists an object is on after these calls. -/
def held (calls : List HandlerCall) : Implementation → Bool :=
  calls.foldl (fun held call =>
    match call with
    | .attach i => Function.update held i true
    | .detach i => Function.update held i false) fun _ => false

/-- The lists of `s`, with the new object at the end of some. -/
structure Appended (mod : Nat) (on : Implementation → Bool) (s s' : ModuleManager) : Prop where
  mods : ∀ i, (s'.eventHandlers i).mods = (s.eventHandlers i).mods ++ if on i then [mod] else []
  modules : s'.modules = s.modules
  modCount : s'.modCount = s.modCount

variable {mod : Nat} {on : Implementation → Bool} {s' : ModuleManager}

/-- A new object is in none of the lists. -/
def Unlisted (mod : Nat) (s : ModuleManager) : Prop := ∀ i, mod ∉ (s.eventHandlers i).mods

theorem Appended.attach (h : Appended mod on s s') (hfresh : Unlisted mod s) (i : Implementation) :
    Appended mod (Function.update on i true) s (s'.attach i mod) := by
  refine { h with mods := fun j => ?_ }
  by_cases hj : j = i
  · subst hj
    have hmods := h.mods j
    simp only [ModuleManager.attach, Function.update_self]
    cases hon : on j with
    | true =>
        rw [hon, if_pos rfl] at hmods
        have hmem : mod ∈ (s'.eventHandlers j).mods :=
          hmods ▸ List.mem_append_right _ List.mem_cons_self
        rw [IntModuleList.attach_of_mem hmem, hmods, if_pos trivial]
    | false =>
        rw [hon, if_neg (by decide), List.append_nil] at hmods
        rw [IntModuleList.mods_attach (hmods ▸ hfresh j), hmods, if_pos trivial]
  · simp only [ModuleManager.attach, Function.update_of_ne hj]
    exact h.mods j

/-- Taking the new object off a list that has it last, or not at all. -/
theorem Appended.erase (h : Appended mod on s s') (hfresh : Unlisted mod s) (i : Implementation) :
    (s'.eventHandlers i).mods.erase mod = (s.eventHandlers i).mods := by
  rw [h.mods, List.erase_append_right _ (hfresh i)]
  cases on i <;> simp

theorem Appended.detach (h : Appended mod on s s') (hfresh : Unlisted mod s) (i : Implementation) :
    Appended mod (Function.update on i false) s (s'.detach i mod) := by
  refine { h with mods := fun j => ?_ }
  by_cases hj : j = i
  · subst hj
    simp only [ModuleManager.detach, Function.update_self, IntModuleList.mods_detach]
    rw [h.erase hfresh, if_neg (by decide), List.append_nil]
  · simp only [ModuleManager.detach, Function.update_of_ne hj]
    exact h.mods j

/-- What the constructor leaves. -/
theorem construct_appended (hfresh : Unlisted mod s) (calls : List HandlerCall) :
    Appended mod (held calls) s (construct mod calls s) := by
  suffices ∀ on s', Appended mod on s s' →
      Appended mod (calls.foldl _ on) s (construct mod calls s') from
    this _ s ⟨fun i => by simp, rfl, rfl⟩
  induction calls with
  | nil => intro on s' h; exact h
  | cons call calls ih =>
      intro on s' h
      cases call with
      | attach i => exact ih _ _ (h.attach hfresh i)
      | detach i => exact ih _ _ (h.detach hfresh i)

/-- `DetachAll` undoes the calls. -/
theorem Appended.detachAll (h : Appended mod on s s') (hfresh : Unlisted mod s) :
    Restored s (s'.detachAll (some mod)) := by
  refine ⟨funext fun i => IntModuleList.ext_mods ?_, h.modules, h.modCount⟩
  exact h.erase hfresh i

/-- Without it they are undone if there are none. -/
theorem Appended.restored_iff (h : Appended mod on s s') :
    Restored s s' ↔ ∀ i, on i = false := by
  constructor
  · intro hrest i
    have hmods := h.mods i
    rw [hrest.eventHandlers] at hmods
    cases hon : on i with
    | false => rfl
    | true =>
        rw [hon, if_pos rfl] at hmods
        have hlength := congrArg List.length hmods
        rw [List.length_append, List.length_singleton] at hlength
        omega
  · intro hoff
    refine ⟨funext fun i => IntModuleList.ext_mods ?_, h.modules, h.modCount⟩
    rw [h.mods, hoff, if_neg (by decide), List.append_nil]

/-- The message is not one of those. -/
theorem restored_refuse {error : Bytes} : Restored s (s'.refuse error).2 ↔ Restored s s' :=
  ⟨fun h => ⟨h.eventHandlers, h.modules, h.modCount⟩,
    fun h => ⟨h.eventHandlers, h.modules, h.modCount⟩⟩

theorem Restored.refl (s : ModuleManager) : Restored s s := ⟨rfl, rfl, rfl⟩

/-! ## The ways out -/

/-- The loader comes to calling `init_module`. -/
def Reaches (env : Loader) (filename : Bytes) (file : ModuleFile) (s : ModuleManager) : Prop :=
  env.dirValid (modfile env filename) = true ∧ env.fileExists (modfile env filename) = true ∧
    s.modules.lookup filename = none ∧ openError env filename file = none ∧ file.symbol = true

theorem load_cases (env : Loader) (filename : Bytes) (file : ModuleFile) (s : ModuleManager) :
    (¬Reaches env filename file s ∧ ∃ error, load env filename file s = s.refuse error) ∨
      (Reaches env filename file s ∧ load env filename file s =
        initialised env filename file s.next
          (construct s.next file.calls { s with next := s.next + 1 })) := by
  unfold load Reaches
  split
  · next hdir => exact Or.inl ⟨fun h => (Bool.eq_false_iff.1 hdir) h.1, _, rfl⟩
  · next hdir =>
      split
      · next hexists => exact Or.inl ⟨fun h => (Bool.eq_false_iff.1 hexists) h.2.1, _, rfl⟩
      · next hexists =>
          split
          · next hloaded =>
              refine Or.inl ⟨fun h => ?_, _, rfl⟩
              rw [h.2.2.1] at hloaded
              cases hloaded
          · next hloaded =>
              dsimp only
              split
              · next error hopen =>
                  refine Or.inl ⟨fun h => ?_, _, rfl⟩
                  rw [h.2.2.2.1] at hopen
                  cases hopen
              · next hopen =>
                  split
                  · next hsymbol =>
                      exact Or.inl ⟨fun h => (Bool.eq_false_iff.1 hsymbol) h.2.2.2.2, _, rfl⟩
                  · next hsymbol =>
                      exact Or.inr ⟨⟨Bool.not_eq_false _ ▸ hdir, Bool.not_eq_false _ ▸ hexists,
                        Option.not_isSome_iff_eq_none.1 hloaded, hopen,
                        Bool.not_eq_false _ ▸ hsymbol⟩, rfl⟩

theorem initialised_cases (hfail : (initialised env filename file mod s').1 = false) :
    ∃ error, (file.init ≠ .module ∧
        initialised env filename file mod s' = s'.refuse error) ∨
      (file.init = .module ∧
        initialised env filename file mod s' = (s'.detachAll (some mod)).refuse error) := by
  unfold initialised at hfail ⊢
  cases hinit : file.init with
  | threw reason => exact ⟨_, Or.inl ⟨InitResult.noConfusion, rfl⟩⟩
  | null => exact ⟨_, Or.inl ⟨InitResult.noConfusion, rfl⟩⟩
  | module =>
      rw [hinit] at hfail
      dsimp only at hfail ⊢
      cases hversion : file.version with
      | error reason => exact ⟨_, Or.inr ⟨rfl, rfl⟩⟩
      | ok v =>
          rw [hversion] at hfail
          dsimp only at hfail ⊢
          split
          · exact ⟨_, Or.inr ⟨rfl, rfl⟩⟩
          · next hapi =>
              rw [if_neg hapi] at hfail
              cases hfail

/-- `init_module` hands over no module, and the object it made is on a list. -/
def Abandons (file : ModuleFile) : Prop :=
  file.init ≠ .module ∧ ∃ i, held file.calls i = true

end ModuleManager

open ModuleManager in
/-- A load that returns false leaves the handlers, the modules and their number as they were
if and only if it is not the constructor that failed, with the object on some list. -/
theorem load_restores (env : Loader) (filename : Bytes) (file : ModuleFile) (s : ModuleManager)
    (hfresh : Unlisted s.next s) (hfail : (load env filename file s).1 = false) :
    Restored s (load env filename file s).2 ↔
      ¬(Reaches env filename file s ∧ Abandons file) := by
  rcases load_cases env filename file s with ⟨hnot, error, heq⟩ | ⟨hreach, heq⟩
  · rw [heq, iff_true_left (restored_refuse.2 (Restored.refl s))]
    exact fun h => hnot h.1
  · have happended : Appended s.next (held file.calls) s
        (construct s.next file.calls { s with next := s.next + 1 }) := by
      have h := construct_appended (s := { s with next := s.next + 1 }) hfresh file.calls
      exact ⟨h.mods, h.modules, h.modCount⟩
    rw [heq] at hfail ⊢
    obtain ⟨error, ⟨hinit, heq'⟩ | ⟨hinit, heq'⟩⟩ := initialised_cases hfail
    · rw [heq', restored_refuse, happended.restored_iff]
      simp [hreach, Abandons, hinit]
    · rw [heq', iff_true_left (restored_refuse.2 (happended.detachAll hfresh))]
      exact fun h => h.2.1 hinit

/-- A loader that finds every file, with our version 10000. -/
def plainLoader : Loader where
  dirValid _ := true
  fileExists _ := true
  modPath := str "/modules"
  maxbuf := 514
  apiVersion := 10000
  introduce s := s

/-- A module whose constructor throws behind its call of `Attach`. -/
def throwing : ModuleFile where
  dlerror := none
  symbol := true
  calls := [.attach .onPreRequest]
  init := .threw (str "no memory")
  version := .ok ⟨10000, false⟩

theorem new_unlisted (mod : Nat) : ModuleManager.Unlisted mod ModuleManager.new := by
  intro i hmem
  cases hmem

open ModuleManager in
theorem load_restores_oldVersion :
    Restored new (load plainLoader (str "m_a.so")
      { throwing with init := .module, version := .ok ⟨9999, false⟩ } new).2 :=
  (load_restores _ _ _ _ (new_unlisted 0) (by decide +kernel)).2 fun h => h.2.1 rfl

open ModuleManager in
/-- The handler of the object that was never finished stays. -/
theorem load_leaves_handler :
    (load plainLoader (str "m_a.so") throwing new).1 = false ∧
      ¬Restored new (load plainLoader (str "m_a.so") throwing new).2 := by
  refine ⟨by decide +kernel, fun h => ?_⟩
  have hmods : ((load plainLoader (str "m_a.so") throwing new).2.eventHandlers .onPreRequest).mods
      = [0] := by decide +kernel
  rw [h.eventHandlers] at hmods
  cases hmods

end Hottpd
