import Hottpd.Core.ModuleManager

/-!
# What keeps a module loaded

As long as no interface goes while it is used, the number stored with each
interface is the number of its users. `Unload` looks at one interface of the
module only, the first by name, so it is right where the first is used if any is.
-/

namespace Hottpd

open Bytes Runs

theorem nameKey_inj {name name' : Bytes} (h : nameKey name = nameKey name') : name = name' :=
  List.map_injective_iff.2 (fun _ _ => UInt8.toNat_inj.1) h

/-- The module is listed under the interface. -/
def ModuleManager.Implements (s : ModuleManager) (name : Bytes) (mod : Nat) : Prop :=
  ∃ i, s.interfaces.lookup name = some i ∧ mod ∈ i.mods

/-- What is promised of a call: a module that is unloaded has no users. -/
def Users.Unused (s : Users) (call : InterfaceCall) : Prop :=
  ∀ filename m, call = .unload filename → (s.manager.unload filename).1 = true →
    s.manager.modules.lookup filename = some m →
    ∀ name, s.manager.Implements name m.module → s.outstanding name = 0

/-- The condition on a call: the last module of an interface goes when nobody uses it, and a
module is only unloaded with users if the first of its interfaces has some. -/
def Users.Careful (s : Users) : InterfaceCall → Prop
  | .unpublish name mod => ∀ count, s.manager.interfaces.lookup name = some ⟨count, [mod]⟩ →
      s.outstanding name = 0
  | .unload filename => ∀ m, s.manager.modules.lookup filename = some m →
      m.version.isStatic = false →
      ∀ e, s.manager.interfaces.entries.find? (fun e => m.module ∈ e.2.mods) = some e →
      s.outstanding e.1 = 0 → ∀ name, s.manager.Implements name m.module → s.outstanding name = 0
  | _ => True

/-! ## The numbers -/

/-- The numbers stored are those of the users. -/
structure Counted (interfaces : SortedMap nameKey Interface) (outstanding : Bytes → Nat) :
    Prop where
  count : ∀ name i, interfaces.lookup name = some i → i.count = outstanding name
  none : ∀ name, interfaces.lookup name = none → outstanding name = 0

section Counting

variable {interfaces : SortedMap nameKey Interface} {outstanding : Bytes → Nat}

/-- An interface is stored anew with the right number. -/
theorem Counted.insert (h : Counted interfaces outstanding) (name : Bytes) {i : Interface}
    {n : Nat} (hcount : i.count = n) :
    Counted (interfaces.insert name i) (Function.update outstanding name n) := by
  constructor
  · intro name' i' hi'
    by_cases hname : name' = name
    · subst hname
      rw [SortedMap.lookup_insert_self _ _ rfl] at hi'
      cases hi'
      rw [Function.update_self]
      exact hcount
    · rw [SortedMap.lookup_insert_of_ne _ _ fun hkey => hname (nameKey_inj hkey)] at hi'
      rw [Function.update_of_ne hname]
      exact h.count name' i' hi'
  · intro name' hnone
    by_cases hname : name' = name
    · subst hname
      rw [SortedMap.lookup_insert_self _ _ rfl] at hnone
      cases hnone
    · rw [SortedMap.lookup_insert_of_ne _ _ fun hkey => hname (nameKey_inj hkey)] at hnone
      rw [Function.update_of_ne hname]
      exact h.none name' hnone

/-- It may be stored with other modules. -/
theorem Counted.relist (h : Counted interfaces outstanding) {name : Bytes} {i : Interface}
    (hcount : i.count = outstanding name) : Counted (interfaces.insert name i) outstanding := by
  have hins := h.insert name hcount
  rwa [Function.update_eq_self] at hins

/-- An interface that nobody uses is removed. -/
theorem Counted.erase (h : Counted interfaces outstanding) {name : Bytes}
    (hunused : outstanding name = 0) : Counted (interfaces.erase name) outstanding := by
  constructor
  · intro name' i' hi'
    by_cases hname : name' = name
    · subst hname
      rw [SortedMap.lookup_erase_self _ rfl] at hi'
      cases hi'
    · rw [SortedMap.lookup_erase_of_ne _ fun hkey => hname (nameKey_inj hkey)] at hi'
      exact h.count name' i' hi'
  · intro name' hnone
    by_cases hname : name' = name
    · subst hname
      exact hunused
    · rw [SortedMap.lookup_erase_of_ne _ fun hkey => hname (nameKey_inj hkey)] at hnone
      exact h.none name' hnone

end Counting

/-! ## Runs -/

/-- `Unload` does not touch the interfaces. -/
theorem ModuleManager.unload_interfaces (m : ModuleManager) (filename : Bytes) :
    (m.unload filename).2.interfaces = m.interfaces := by
  unfold ModuleManager.unload
  split
  · rfl
  · split
    · rfl
    · dsimp only
      split
      · rfl
      · rfl

variable {s : Users}

def Users.Counted (s : Users) : Prop := Hottpd.Counted s.manager.interfaces s.outstanding

theorem Users.Counted.step (h : s.Counted) {call : InterfaceCall} {s' : Users}
    (hcareful : s.Careful call) (hs : s.step call = some s') : s'.Counted := by
  unfold Users.Counted at h ⊢
  cases call with
  | publish name mod =>
      cases hs
      unfold ModuleManager.publishInterface
      split
      · next hnone => exact h.relist (congrArg Int.ofNat (h.none name hnone)).symm
      · next i hi =>
          exact h.relist (i := { i with mods := i.mods ++ [mod] }) (h.count name i hi)
  | unpublish name mod =>
      cases hs
      unfold ModuleManager.unpublishInterface
      split
      · exact h
      · next i hi =>
          split
          · next hmem =>
              dsimp only
              split
              · next hlast =>
                  have hmods : i.mods = [mod] := by
                    rcases List.erase_eq_nil_iff.1 hlast with hnil | hone
                    · rw [hnil] at hmem
                      cases hmem
                    · exact hone
                  exact h.erase (hcareful i.count (by rw [hi, ← hmods]))
              · exact h.relist (i := { i with mods := i.mods.erase mod }) (h.count name i hi)
          · exact h
  | use name =>
      cases hs
      unfold ModuleManager.useInterface
      cases hi : s.manager.interfaces.lookup name with
      | none => exact h
      | some i => exact h.insert name (by rw [h.count name i hi]; rfl)
  | done name =>
      rw [Users.step] at hs
      split at hs
      · cases hs
      · next hused =>
          cases hs
          unfold ModuleManager.doneWithInterface
          cases hi : s.manager.interfaces.lookup name with
          | none => exact absurd (h.none name hi) hused
          | some i =>
              refine h.insert name ?_
              show i.count - 1 = _
              rw [h.count name i hi]
              omega
  | unload filename =>
      cases hs
      show Hottpd.Counted (s.manager.unload filename).2.interfaces s.outstanding
      rw [ModuleManager.unload_interfaces]
      exact h

/-- `Unload` succeeds only where the number of the module's first interface allows it. -/
theorem ModuleManager.unload_first {m : ModuleManager} {filename : Bytes} {l : Loaded}
    (hl : m.modules.lookup filename = some l) (hunload : (m.unload filename).1 = true)
    {e : Bytes × Interface}
    (he : m.interfaces.entries.find? (fun e => l.module ∈ e.2.mods) = some e) :
    l.version.isStatic = false ∧ e.2.count ≤ 0 := by
  unfold ModuleManager.unload at hunload
  rw [hl] at hunload
  dsimp only at hunload
  split at hunload
  · cases hunload
  · next hstatic =>
      split at hunload
      · cases hunload
      · next hcount =>
          rw [ModuleManager.getInterfaceInstanceCount, he] at hcount
          exact ⟨Bool.eq_false_iff.2 hstatic, Int.not_lt.1 hcount⟩

theorem Users.Counted.unused (h : s.Counted) {call : InterfaceCall} (hcareful : s.Careful call) :
    s.Unused call := by
  rintro filename l rfl hunload hl name ⟨i, hi, hmem⟩
  have hentry : ∃ e ∈ s.manager.interfaces.entries, l.module ∈ e.2.mods := by
    obtain ⟨e, he, rfl⟩ := Option.map_eq_some_iff.1 hi
    exact ⟨e, List.mem_of_find?_eq_some he, hmem⟩
  cases hfind : s.manager.interfaces.entries.find? fun e => l.module ∈ e.2.mods with
  | none =>
      obtain ⟨e, he, hlisted⟩ := hentry
      exact absurd (decide_eq_true hlisted) (List.find?_eq_none.1 hfind e he)
  | some e =>
      obtain ⟨hstatic, hle⟩ := ModuleManager.unload_first hl hunload hfind
      have hcount := h.count e.1 e.2 (SortedMap.lookup_of_mem (List.mem_of_find?_eq_some hfind))
      exact hcareful l hl hstatic e hfind (by omega) name ⟨i, hi, hmem⟩

/-- In every run whose calls meet the condition a module is unloaded only when no user of any
of its interfaces is left. -/
theorem unload_unused (s : ModuleManager) (calls : List InterfaceCall)
    (hcareful : EachStep Users.step (Users.start s) calls Users.Careful) :
    EachStep Users.step (Users.start s) calls Users.Unused := by
  have hstart : (Users.start s).Counted := by
    refine ⟨fun name i hi => ?_, fun _ _ => rfl⟩
    cases hi
  have hcounted := hcareful.invariant hstart fun h hcall hs => h.step hcall hs
  intro past call s' hpre hrun
  have h : s'.Counted := hcounted past s' ((List.prefix_append past [call]).trans hpre) hrun
  exact h.unused (hcareful past call s' hpre hrun)

/-- A manager with one module. -/
def oneModule : ModuleManager :=
  { ModuleManager.new with
    modules := SortedMap.empty.insert (str "m_a.so") ⟨0, ⟨10000, false⟩⟩
    modCount := 1
    next := 1 }

/-- A user comes and goes, and the module behind it. -/
theorem unload_unused_done :
    EachStep Users.step (Users.start oneModule)
      [.publish (str "a") 0, .use (str "a"), .done (str "a"), .unload (str "m_a.so")]
      Users.Unused := by
  refine unload_unused oneModule _ (eachStep_cons rfl trivial (eachStep_cons rfl trivial
    (eachStep_cons rfl trivial (eachStep_cons rfl ?_ eachStep_nil))))
  intro m _ _ e _ _ name _
  by_cases hname : name = str "a"
  · subst hname
    rfl
  · show Function.update (Function.update (fun _ => 0) (str "a") 1) (str "a") _ name = 0
    rw [Function.update_of_ne hname, Function.update_of_ne hname]

/-- A module is unloaded while its second interface is used, and while one is used that it
left and came back to. -/
theorem unload_used :
    ¬EachStep Users.step (Users.start oneModule)
        [.publish (str "a") 0, .publish (str "b") 0, .use (str "b"), .unload (str "m_a.so")]
        Users.Unused ∧
      ¬EachStep Users.step (Users.start oneModule)
        [.publish (str "a") 0, .use (str "a"), .unpublish (str "a") 0, .publish (str "a") 0,
          .unload (str "m_a.so")]
        Users.Unused := by
  constructor
  · intro h
    have hunused := h [.publish (str "a") 0, .publish (str "b") 0, .use (str "b")] _ _
      ⟨[], rfl⟩ rfl _ _ rfl (by decide +kernel) rfl (str "b") ⟨_, rfl, by decide +kernel⟩
    exact absurd hunused (by decide +kernel)
  · intro h
    have hunused := h [.publish (str "a") 0, .use (str "a"), .unpublish (str "a") 0,
      .publish (str "a") 0] _ _ ⟨[], rfl⟩ rfl _ _ rfl (by decide +kernel) rfl (str "a")
      ⟨_, rfl, by decide +kernel⟩
    exact absurd hunused (by decide +kernel)

end Hottpd
