import Hottpd.Core.ModuleManager

/-!
# Priorities: `ModuleManager::SetPriority`

A module asks for a place in one list of handlers. The place is looked for first,
and then the module changes places with whoever is there.
-/

namespace Hottpd

inductive PriorityState where
  | dontCare
  | first
  | last
  | before
  | after
deriving DecidableEq

section SetPriority

variable {α : Type} [DecidableEq α]

/-- The two loops over the handlers and the array: the position found so far and whether to swap.
`guard x swapPos` is what the two priorities differ in. -/
def seekPos (guard : Nat → Nat → Bool) (modules : List (Option α)) (handlers : List (α × Nat))
    (start : Nat × Bool) : Nat × Bool :=
  handlers.foldl (fun found h =>
    modules.foldl (fun found m =>
      if m = some h.1 ∧ guard h.2 found.1 = true then (h.2, true) else found) found) start

/-- `std::swap` of two elements. -/
def swapAt (l : List α) (i j : Nat) : List α :=
  match l[i]?, l[j]? with
  | some a, some b => (l.set i b).set j a
  | _, _ => l

omit [DecidableEq α] in
theorem swapAt_perm (l : List α) (i j : Nat) : (swapAt l i j).Perm l := by
  rw [swapAt]
  split
  · next a b ha hb =>
      obtain ⟨hi, rfl⟩ := List.getElem?_eq_some_iff.1 ha
      obtain ⟨hj, rfl⟩ := List.getElem?_eq_some_iff.1 hb
      exact List.set_set_perm hi hj
  · exact List.Perm.refl l

/-- Where the module is to go and whether it is to go there at all. -/
def targetPos (s : PriorityState) (modules : List (Option α)) (handlers : List α)
    (source : Nat) : Nat × Bool :=
  match s with
  -- `swap_pos` is not set, and not used
  | .dontCare => (0, false)
  | .first => (0, true)
  | .last => (if handlers = [] then 0 else handlers.length - 1, true)
  | .after =>
      seekPos (fun x swapPos => swapPos ≤ x ∧ source ≤ swapPos) modules handlers.zipIdx (0, false)
  | .before =>
      seekPos (fun x swapPos => x ≤ swapPos ∧ swapPos ≤ source) modules handlers.zipIdx
        (handlers.length - 1, false)

namespace IntModuleList

/-- `SetPriority` on one of the lists; a NULL in the array is `none`. -/
def setPriority (mod : α) (s : PriorityState) (modules : List (Option α))
    (l : IntModuleList α) : Bool × IntModuleList α :=
  match l.mods.idxOf? mod with
  | none => (false, l)
  | some source =>
      let (swapPos, swap) := targetPos s modules l.mods source
      if swap = true ∧ swapPos ≠ source then
        (true, ⟨swapAt l.mods swapPos source, (swapAt_perm _ _ _).nodup_iff.2 l.nodup⟩)
      else (true, l)

end IntModuleList

end SetPriority

namespace ModuleManager

def setPriority (mod : Nat) (i : Implementation) (s : PriorityState) (modules : List (Option Nat))
    (m : ModuleManager) : Bool × ModuleManager :=
  let (found, l) := (m.eventHandlers i).setPriority mod s modules
  (found, { m with eventHandlers := Function.update m.eventHandlers i l })

end ModuleManager

end Hottpd
