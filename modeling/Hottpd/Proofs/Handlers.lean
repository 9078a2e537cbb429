import Mathlib.Data.List.Nodup
import Mathlib.Data.List.TakeWhile
import Hottpd.Core.ModuleManager

/-!
# Who is called

The loop of the macros goes through the handlers in their order as long as none
of them leaves. One that leaves while it is called draws those behind it up by a
place, and the loop, which had saved the place behind it, misses the next one; it
runs behind the end where there is no next one. A handler whose answer ends the
loop may leave.
-/

namespace Hottpd

section Dispatching

variable {α : Type} [DecidableEq α] {stops : Int → Bool} {react : α → Reaction}

/-- The answer ends the loop. -/
def Reaction.ends (stops : Int → Bool) (r : Reaction) : Bool := r.answer.any stops

/-- What is promised of a dispatch over a list: it ends, within the vector, and a handler
that is attached throughout and comes before the first answer that ends the loop, or gives
it, is called once. -/
def Whole (stops : Int → Bool) (react : α → Reaction) (l : IntModuleList α)
    (d : Option (Dispatch α)) : Prop :=
  ∃ out, d = some out ∧ out.pastEnd = false ∧
    ∀ before mod behind, l.mods = before ++ mod :: behind → mod ∈ out.handlers →
      (∀ m ∈ before, (react m).ends stops = false) → out.calls.count mod = 1

/-- A turn for a handler that does not end the loop. -/
theorem dispatchFrom_goes {fuel i : Nat} {handlers calls : List α} {mod : α}
    (hmod : handlers[i]? = some mod) (hgoes : (react mod).ends stops = false) :
    dispatchFrom stops react (fuel + 1) i handlers calls =
      dispatchFrom stops react fuel (i + 1)
        (if (react mod).leaves then handlers.erase mod else handlers) (calls ++ [mod]) := by
  rw [dispatchFrom, hmod]
  dsimp only
  unfold Reaction.ends at hgoes
  split
  · rfl
  · next res hres =>
      rw [hres, Option.any_some] at hgoes
      rw [if_neg (by rw [hgoes]; decide)]

/-- A turn for a handler that ends it. -/
theorem dispatchFrom_ends (fuel : Nat) {i : Nat} {handlers : List α} (calls : List α) {mod : α}
    (hmod : handlers[i]? = some mod) (hends : (react mod).ends stops = true) :
    ∃ res, dispatchFrom stops react (fuel + 1) i handlers calls =
      some ⟨calls ++ [mod], if (react mod).leaves then handlers.erase mod else handlers, res,
        false⟩ := by
  rw [dispatchFrom, hmod]
  dsimp only
  unfold Reaction.ends at hends
  split
  · next hres =>
      rw [hres] at hends
      cases hends
  · next res hres =>
      rw [hres, Option.any_some] at hends
      rw [if_pos hends]
      exact ⟨res, rfl⟩

theorem dispatchFrom_end {fuel i : Nat} {handlers calls : List α} (hnone : handlers[i]? = none) :
    dispatchFrom stops react (fuel + 1) i handlers calls =
      some ⟨calls, handlers, 0, i ≠ handlers.length⟩ := by
  rw [dispatchFrom, hnone]

/-- Handlers that stay and do not end the loop are called in their order. -/
theorem dispatchFrom_walk {behind : List α} : ∀ {before seen calls : List α} {fuel : Nat},
    (∀ m ∈ before, (react m).ends stops = false ∧ (react m).leaves = false) →
    dispatchFrom stops react (before.length + fuel) seen.length (seen ++ before ++ behind) calls =
      dispatchFrom stops react fuel (seen ++ before).length (seen ++ before ++ behind)
        (calls ++ before) := by
  intro before
  induction before with
  | nil => intro seen calls fuel _; simp
  | cons m before ih =>
      intro seen calls fuel hstay
      obtain ⟨hgoes, hstays⟩ := hstay m List.mem_cons_self
      have hat : (seen ++ m :: before ++ behind)[seen.length]? = some m := by simp
      have hfuel : (m :: before).length + fuel = (before.length + fuel) + 1 := by
        rw [List.length_cons]
        omega
      have hlist : seen ++ m :: before = (seen ++ [m]) ++ before := by simp
      rw [hfuel, dispatchFrom_goes hat hgoes, if_neg (by rw [hstays]; decide), hlist]
      have hnext := @ih (seen ++ [m]) (calls ++ [m]) fuel
        fun m' hm' => hstay m' (List.mem_cons_of_mem m hm')
      rw [List.length_append, List.length_singleton] at hnext
      rw [hnext]
      simp

/-- What the loop has passed stays in the vector and is not called again. -/
theorem dispatchFrom_passed {seen : List α} : ∀ {fuel i : Nat} {handlers calls : List α}
    {out : Dispatch α}, handlers.Nodup → seen <+: handlers → seen.length ≤ i →
    dispatchFrom stops react fuel i handlers calls = some out →
    ∀ m ∈ seen, m ∈ out.handlers ∧ out.calls.count m = calls.count m := by
  intro fuel
  induction fuel with
  | zero => intro i handlers calls out _ _ _ hout; cases hout
  | succ fuel ih =>
      intro i handlers calls out hnodup hseen hi hout m hm
      cases hat : handlers[i]? with
      | none =>
          rw [dispatchFrom_end hat] at hout
          cases hout
          exact ⟨hseen.subset hm, rfl⟩
      | some mod =>
          obtain ⟨rest, rfl⟩ := hseen
          have hmod : mod ∉ seen := by
            rw [List.getElem?_append_right hi] at hat
            exact fun h => (List.nodup_append.1 hnodup).2.2 mod h mod (List.mem_of_getElem? hat) rfl
          have hseen' : seen <+: if (react mod).leaves then (seen ++ rest).erase mod
              else seen ++ rest := by
            split
            · rw [List.erase_append_right _ hmod]
              exact List.prefix_append seen _
            · exact List.prefix_append seen rest
          have hcount : (calls ++ [mod]).count m = calls.count m := by
            have hne : mod ≠ m := fun h => hmod (h ▸ hm)
            rw [List.count_append, List.count_singleton]
            simp [hne]
          have hnodup' : (if (react mod).leaves then (seen ++ rest).erase mod
              else seen ++ rest).Nodup := by
            split
            · exact hnodup.erase mod
            · exact hnodup
          cases hends : (react mod).ends stops with
          | true =>
              obtain ⟨res, heq⟩ := dispatchFrom_ends fuel calls hat hends
              rw [heq] at hout
              cases hout
              exact ⟨hseen'.subset hm, hcount⟩
          | false =>
              rw [dispatchFrom_goes hat hends] at hout
              rw [← hcount]
              exact ih hnodup' hseen' (by omega) hout m hm

/-- The handlers before the first answer that ends the loop. -/
def reached (stops : Int → Bool) (react : α → Reaction) (mods : List α) : List α :=
  mods.takeWhile fun m => !(react m).ends stops

omit [DecidableEq α] in
theorem goes_of_mem_reached {mods : List α} {m : α} (hm : m ∈ reached stops react mods) :
    (react m).ends stops = false := by
  have h := List.mem_takeWhile_imp hm
  simpa using h

/-- The walk up to a handler, from the beginning. -/
theorem dispatch_walk {l : IntModuleList α} {before behind : List α}
    (hsplit : l.mods = before ++ behind)
    (hstay : ∀ m ∈ before, (react m).ends stops = false ∧ (react m).leaves = false) :
    dispatch stops react l =
      dispatchFrom stops react (behind.length + 1) before.length (before ++ behind) before := by
  have hwalk := @dispatchFrom_walk _ _ stops react behind before [] [] (behind.length + 1) hstay
  rw [dispatch, hsplit]
  simpa [Nat.add_assoc] using hwalk

/-- Where a handler leaves that does not end the loop, the dispatch is not whole. -/
theorem not_whole_of_leaves {l : IntModuleList α} {before behind : List α} {mod : α}
    (hsplit : l.mods = before ++ mod :: behind)
    (hstay : ∀ m ∈ before, (react m).ends stops = false ∧ (react m).leaves = false)
    (hgoes : (react mod).ends stops = false) (hleaves : (react mod).leaves = true) :
    ¬Whole stops react l (dispatch stops react l) := by
  rintro ⟨out, hout, hwithin, honce⟩
  have hnodup : (before ++ mod :: behind).Nodup := hsplit ▸ l.nodup
  have hnot : mod ∉ before := fun h =>
    (List.nodup_append.1 hnodup).2.2 mod h mod List.mem_cons_self rfl
  have hat : (before ++ mod :: behind)[before.length]? = some mod := by simp
  have herase : (before ++ mod :: behind).erase mod = before ++ behind := by
    rw [List.erase_append_right _ hnot, List.erase_cons_head]
  rw [dispatch_walk hsplit hstay, dispatchFrom_goes hat hgoes, if_pos hleaves, herase] at hout
  cases behind with
  | nil =>
      -- the saved place is behind the new end
      have hnone : (before ++ ([] : List α))[before.length + 1]? = none := by simp
      rw [List.length_cons, dispatchFrom_end hnone] at hout
      cases hout
      simp at hwithin
  | cons next behind =>
      have hnodup' : (before ++ next :: behind).Nodup := herase ▸ hnodup.erase mod
      have hseen : before ++ [next] <+: before ++ next :: behind := ⟨behind, by simp⟩
      have hnext : next ∈ before ++ [next] := List.mem_append_right _ List.mem_cons_self
      obtain ⟨hstill, hcount⟩ := dispatchFrom_passed hnodup' hseen (by simp) hout next hnext
      have hmissed : next ∉ before ++ [mod] := by
        rw [List.mem_append, List.mem_singleton]
        rintro (h | h)
        · exact (List.nodup_append.1 hnodup').2.2 next h next List.mem_cons_self rfl
        · subst h
          exact (List.nodup_cons.1 (List.nodup_append.1 hnodup).2.1).1 List.mem_cons_self
      have hcalled := honce (before ++ [mod]) next behind (by rw [hsplit]; simp) hstill ?_
      · rw [hcount, List.count_eq_zero_of_not_mem hmissed] at hcalled
        cases hcalled
      · intro m hm
        rcases List.mem_append.1 hm with hm | hm
        · exact (hstay m hm).1
        · rw [List.mem_singleton.1 hm]
          exact hgoes

/-- Where all that are reached stay, each of them is called, and then the one that ends the
loop. -/
theorem whole_of_stay {l : IntModuleList α}
    (hstay : ∀ mod ∈ reached stops react l.mods, (react mod).leaves = false) :
    Whole stops react l (dispatch stops react l) := by
  have hsplit : l.mods = reached stops react l.mods
      ++ l.mods.dropWhile fun m => !(react m).ends stops := List.takeWhile_append_dropWhile.symm
  have hwalk := @dispatch_walk _ _ stops react l _ _ hsplit
    fun m hm => ⟨goes_of_mem_reached hm, hstay m hm⟩
  -- a handler behind others that do not end the loop is one of those reached, or the next
  have hcalled : ∀ before mod behind, l.mods = before ++ mod :: behind →
      (∀ m ∈ before, (react m).ends stops = false) →
      mod ∈ reached stops react l.mods ∨
        (l.mods.dropWhile fun m => !(react m).ends stops).head? = some mod := by
    intro before mod behind hl hbefore
    have hgo : ∀ m ∈ before, (!(react m).ends stops) = true := fun m hm => by
      rw [hbefore m hm]
      rfl
    rw [reached, hl, List.takeWhile_append_of_pos hgo, List.dropWhile_append_of_pos hgo]
    cases hends : (react mod).ends stops with
    | true => exact Or.inr (by rw [List.dropWhile_cons, hends]; rfl)
    | false =>
        refine Or.inl (List.mem_append_right _ ?_)
        rw [List.takeWhile_cons, hends]
        exact List.mem_cons_self
  cases hdrop : l.mods.dropWhile fun m => !(react m).ends stops with
  | nil =>
      rw [hdrop] at hsplit hwalk hcalled
      have hnone : (reached stops react l.mods ++ [])[(reached stops react l.mods).length]?
          = none := by
        simp
      refine ⟨_, hwalk.trans (dispatchFrom_end hnone), by simp, fun before mod behind hl _ hb => ?_⟩
      rcases hcalled before mod behind hl hb with hmem | hmem
      · have hnodup : (reached stops react l.mods).Nodup :=
          l.nodup.sublist (List.takeWhile_sublist _)
        exact List.nodup_iff_count_eq_one.1 hnodup mod hmem
      · cases hmem
  | cons last rest =>
      rw [hdrop] at hsplit hwalk hcalled
      have hlast : (react last).ends stops = true := by
        have h := List.head?_dropWhile_not (fun m => !(react m).ends stops) l.mods
        rw [hdrop] at h
        simpa using h
      have hat : (reached stops react l.mods ++ last :: rest)[(reached stops react l.mods).length]?
          = some last := by simp
      obtain ⟨res, hends⟩ := dispatchFrom_ends (last :: rest).length
        (reached stops react l.mods) hat hlast
      refine ⟨_, hwalk.trans hends, rfl, fun before mod behind hl _ hb => ?_⟩
      have hcalls : (reached stops react l.mods ++ [last]).Nodup := by
        have hprefix : reached stops react l.mods ++ [last] <+: l.mods := ⟨rest, by
          rw [List.append_assoc, List.singleton_append]
          exact hsplit.symm⟩
        exact l.nodup.sublist hprefix.sublist
      refine List.nodup_iff_count_eq_one.1 hcalls mod ?_
      rcases hcalled before mod behind hl hb with hmem | hmem
      · exact List.mem_append_left _ hmem
      · obtain rfl : last = mod := Option.some.inj hmem
        exact List.mem_append_right _ List.mem_cons_self

/-- The condition is exact: none of those reached leaves. -/
theorem whole_iff (l : IntModuleList α) :
    Whole stops react l (dispatch stops react l) ↔
      ∀ mod ∈ reached stops react l.mods, (react mod).leaves = false := by
  refine ⟨fun hwhole mod hmod => ?_, whole_of_stay⟩
  cases hfind : (reached stops react l.mods).find? fun m => (react m).leaves with
  | none => simpa using List.find?_eq_none.1 hfind mod hmod
  | some first =>
      -- the first that leaves is missed by the next
      obtain ⟨hleaves, before, behind, hsplit, hbefore⟩ := List.find?_eq_some_iff_append.1 hfind
      have hmem : ∀ m ∈ before ++ [first], m ∈ reached stops react l.mods := by
        intro m hm
        rw [hsplit]
        rcases List.mem_append.1 hm with hm | hm
        · exact List.mem_append_left _ hm
        · rw [List.mem_singleton.1 hm]
          exact List.mem_append_right _ List.mem_cons_self
      have hl : l.mods = before ++ first :: (behind
          ++ l.mods.dropWhile fun m => !(react m).ends stops) := by
        rw [← List.cons_append, ← List.append_assoc, ← hsplit]
        exact List.takeWhile_append_dropWhile.symm
      refine absurd hwhole (not_whole_of_leaves hl (fun m hm => ⟨?_, ?_⟩) ?_ hleaves)
      · exact goes_of_mem_reached (hmem m (List.mem_append_left _ hm))
      · simpa using hbefore m hm
      · exact goes_of_mem_reached (hmem first (List.mem_append_right _ List.mem_cons_self))

omit [DecidableEq α] in
/-- Where no answer ends the loop, all are reached. -/
theorem reached_all (mods : List α) : reached (fun _ => false) react mods = mods := by
  refine List.takeWhile_eq_self_iff.2 fun m _ => ?_
  cases h : (react m).answer with
  | none => simp [Reaction.ends, h]
  | some res => simp [Reaction.ends, h]

end Dispatching

/-- A dispatch calls every handler that stays, once, and stays within the vector, if and only
if none leaves while it is called; where an answer ends the loop, none before it. -/
theorem dispatch_whole {α : Type} [DecidableEq α] (react : α → Reaction) (l : IntModuleList α) :
    (Whole (fun _ => false) react l (l.foreachMod react) ↔
      ∀ mod ∈ l.mods, (react mod).leaves = false) ∧
    (Whole (fun _ => false) react l (l.foreachModI react) ↔
      ∀ mod ∈ l.mods, (react mod).leaves = false) ∧
    (Whole (fun res => res ≠ 0) react l (l.foreachResult react) ↔
      ∀ mod ∈ reached (fun res => res ≠ 0) react l.mods, (react mod).leaves = false) := by
  refine ⟨?_, ?_, whole_iff l⟩
  · rw [IntModuleList.foreachMod, whole_iff, reached_all]
  · rw [IntModuleList.foreachModI, whole_iff, reached_all]

/-- The handler of these that has this number takes itself off the list. -/
def leaver (n : Nat) (mod : Nat) : Reaction := ⟨mod = n, some 0⟩

/-- With two handlers: the first to leave has the second missed, and when the second leaves
the loop runs on behind the end. -/
theorem dispatch_missed :
    ¬Whole (fun _ => false) (leaver 0) ⟨[0, 1], by decide⟩
        (IntModuleList.foreachMod (leaver 0) ⟨[0, 1], by decide⟩) ∧
      ¬Whole (fun res => res ≠ 0) (leaver 1) ⟨[0, 1], by decide⟩
        (IntModuleList.foreachResult (leaver 1) ⟨[0, 1], by decide⟩) := by
  constructor
  · rintro ⟨out, hout, -, honce⟩
    have hrun : IntModuleList.foreachMod (leaver 0) ⟨[0, 1], by decide⟩
        = some ⟨[0], [1], 0, false⟩ := by decide
    obtain rfl := Option.some.inj (hrun.symm.trans hout)
    exact absurd (honce [0] 1 [] rfl (by decide) (by decide)) (by decide)
  · rintro ⟨out, hout, hwithin, -⟩
    have hrun : IntModuleList.foreachResult (leaver 1) ⟨[0, 1], by decide⟩
        = some ⟨[0, 1], [0], 0, true⟩ := by decide
    obtain rfl := Option.some.inj (hrun.symm.trans hout)
    exact absurd hwithin (by decide)

end Hottpd
