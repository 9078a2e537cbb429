import Hottpd.Core.Priority

/-!
# Who goes before whom

The guards of the two loops compare the position found so far with the module's own.
At the start that position is an end of the list, so unless the module is at that
very end no handler is ever found and nothing is swapped. From there, the place
found is the outermost of those asked for, and to change places with who is there
is enough.
-/

namespace Hottpd

variable {α : Type} [DecidableEq α]

/-! ## The loops -/

section Loops

variable {guard : Nat → Nat → Bool} {modules : List (Option α)}

/-- The loop over the array finds a handler that it names, once. -/
theorem seekPos_cons (h : α) (x : Nat) (rest : List (α × Nat)) (start : Nat × Bool) :
    seekPos guard modules ((h, x) :: rest) start = seekPos guard modules rest
      (if some h ∈ modules ∧ guard x start.1 = true then (x, true) else start) := by
  have hkeep : ∀ ms : List (Option α), ms.foldl (fun found m =>
      if m = some h ∧ guard x found.1 = true then (x, true) else found) (x, true)
      = (x, true) := by
    intro ms
    induction ms with
    | nil => rfl
    | cons m ms ih =>
        rw [List.foldl_cons, ite_self]
        exact ih
  have hinner : ∀ ms : List (Option α), ms.foldl (fun found m =>
      if m = some h ∧ guard x found.1 = true then (x, true) else found) start
      = if some h ∈ ms ∧ guard x start.1 = true then (x, true) else start := by
    intro ms
    induction ms with
    | nil => rw [if_neg fun hmem => List.not_mem_nil hmem.1]; rfl
    | cons m ms ih =>
        rw [List.foldl_cons]
        by_cases hm : m = some h ∧ guard x start.1 = true
        · rw [if_pos hm, hkeep, if_pos ⟨hm.1 ▸ List.mem_cons_self, hm.2⟩]
        · rw [if_neg hm, ih]
          refine if_congr ?_ rfl rfl
          rw [List.mem_cons]
          constructor
          · exact fun hmem => ⟨Or.inr hmem.1, hmem.2⟩
          · rintro ⟨heq | hmem, hguard⟩
            · exact absurd ⟨heq.symm, hguard⟩ hm
            · exact ⟨hmem, hguard⟩
  exact congrArg (seekPos guard modules rest) (hinner modules)

/-- Nothing is found where the guard stands against it. -/
theorem seekPos_never {handlers : List (α × Nat)} {start : Nat × Bool}
    (h : ∀ e ∈ handlers, guard e.2 start.1 = false) :
    seekPos guard modules handlers start = start := by
  induction handlers with
  | nil => rfl
  | cons e rest ih =>
      obtain ⟨hd, x⟩ := e
      have hx : guard x start.1 = false := h _ List.mem_cons_self
      rw [seekPos_cons, if_neg (by simp [hx])]
      exact ih fun e he => h e (List.mem_cons_of_mem _ he)

/-- A place that the array names, and how it lies to the others. -/
structure Outermost (modules : List (Option α)) (handlers : List α) (r : Nat → Nat → Prop)
    (i : Nat) (h : α) : Prop where
  at_index : handlers[i]? = some h
  named : some h ∈ modules
  outer : ∀ j h', handlers[j]? = some h' → some h' ∈ modules → r j i

omit [DecidableEq α] in
/-- A handler in front moves the place by one. -/
theorem Outermost.behind {l : List α} {r : Nat → Nat → Prop} {i : Nat} {h h₀ : α}
    (hout : Outermost modules l r i h) (hr : ∀ j i, r j i → r (j + 1) (i + 1))
    (hzero : some h₀ ∈ modules → r 0 (i + 1)) : Outermost modules (h₀ :: l) r (i + 1) h := by
  refine ⟨hout.at_index, hout.named, ?_⟩
  intro j h' hj hmem
  cases j with
  | zero =>
      cases hj
      exact hzero hmem
  | succ j => exact hr j i (hout.outer j h' hj hmem)

/-- Where each handler is let through, the last one named is found. -/
theorem seekPos_last (hguard : ∀ x p, p ≤ x → guard x p = true) (l : List α) :
    ∀ (k : Nat) (start : Nat × Bool), start.1 ≤ k →
    ((∀ h ∈ l, some h ∉ modules) ∧ seekPos guard modules (l.zipIdx k) start = start) ∨
      ∃ i h, Outermost modules l (· ≤ ·) i h ∧
        seekPos guard modules (l.zipIdx k) start = (k + i, true) := by
  induction l with
  | nil => intro k start _; exact Or.inl ⟨by simp, rfl⟩
  | cons h l ih =>
      intro k start hk
      have hsucc : ∀ j i : Nat, j ≤ i → j + 1 ≤ i + 1 := fun _ _ => Nat.succ_le_succ
      rw [List.zipIdx_cons, seekPos_cons]
      by_cases hnamed : some h ∈ modules
      · rw [if_pos ⟨hnamed, hguard k start.1 hk⟩]
        rcases ih (k + 1) (k, true) (Nat.le_succ k) with ⟨hnone, heq⟩ | ⟨i, h', hout, heq⟩
        · refine Or.inr ⟨0, h, ⟨rfl, hnamed, ?_⟩, heq⟩
          intro j h' hj hmem
          cases j with
          | zero => exact Nat.le_refl 0
          | succ j => exact absurd hmem (hnone h' (List.mem_of_getElem? hj))
        · refine Or.inr ⟨i + 1, h', hout.behind hsucc fun _ => Nat.zero_le _, ?_⟩
          rw [heq, Nat.add_assoc, Nat.add_comm 1 i]
      · rw [if_neg fun hboth => hnamed hboth.1]
        rcases ih (k + 1) start (Nat.le_succ_of_le hk) with ⟨hnone, heq⟩ | ⟨i, h', hout, heq⟩
        · exact Or.inl ⟨List.forall_mem_cons.2 ⟨hnamed, hnone⟩, heq⟩
        · refine Or.inr ⟨i + 1, h', hout.behind hsucc fun _ => Nat.zero_le _, ?_⟩
          rw [heq, Nat.add_assoc, Nat.add_comm 1 i]

/-- Where nothing is let through behind the one that was found, the first one named is. -/
theorem seekPos_first {source : Nat} (hopen : ∀ x ≤ source, guard x source = true)
    (hclosed : ∀ x p, p < x → guard x p = false) (l : List α) :
    ∀ (k : Nat) (swap : Bool), k + l.length ≤ source + 1 →
    ((∀ h ∈ l, some h ∉ modules) ∧
      seekPos guard modules (l.zipIdx k) (source, swap) = (source, swap)) ∨
      ∃ i h, Outermost modules l (fun j i => i ≤ j) i h ∧
        seekPos guard modules (l.zipIdx k) (source, swap) = (k + i, true) := by
  induction l with
  | nil => intro k swap _; exact Or.inl ⟨by simp, rfl⟩
  | cons h l ih =>
      intro k swap hlen
      rw [List.length_cons] at hlen
      rw [List.zipIdx_cons, seekPos_cons]
      by_cases hnamed : some h ∈ modules
      · rw [if_pos ⟨hnamed, hopen k (by omega)⟩, seekPos_never]
        · exact Or.inr ⟨0, h, ⟨rfl, hnamed, fun j _ _ _ => Nat.zero_le j⟩, rfl⟩
        · intro e he
          exact hclosed e.2 k (List.le_snd_of_mem_zipIdx he)
      · rw [if_neg fun hboth => hnamed hboth.1]
        rcases ih (k + 1) swap (by omega) with ⟨hnone, heq⟩ | ⟨i, h', hout, heq⟩
        · exact Or.inl ⟨List.forall_mem_cons.2 ⟨hnamed, hnone⟩, heq⟩
        · refine Or.inr ⟨i + 1, h', hout.behind (fun _ _ => Nat.succ_le_succ) ?_, ?_⟩
          · exact fun hmem => absurd hmem hnamed
          · rw [heq, Nat.add_assoc, Nat.add_comm 1 i]

end Loops

/-! ## The swap -/

/-- How the place of a handler that the array names lies to the module's. -/
def PriorityState.Asks (s : PriorityState) (other own : Nat) : Prop :=
  match s with
  | .before => own < other
  | .after => other < own
  | _ => True

/-- The module stands before, or after, each handler that the array names. -/
def Placed (s : PriorityState) (mod : α) (modules : List (Option α)) (l : List α) : Prop :=
  ∀ i j h, l[i]? = some h → some h ∈ modules → l[j]? = some mod → s.Asks i j

/-- The end of the list that the search starts from is the module's own. -/
def AtStart (s : PriorityState) (mod : α) (l : List α) : Prop :=
  match s with
  | .before => l.getLast? = some mod
  | .after => l.head? = some mod
  | _ => False

omit [DecidableEq α] in
theorem getElem?_swapAt {l : List α} {i j : Nat} {a b : α} (hi : l[i]? = some a)
    (hj : l[j]? = some b) (k : Nat) :
    (swapAt l i j)[k]? = if k = j then some a else if k = i then some b else l[k]? := by
  obtain ⟨hilt, -⟩ := List.getElem?_eq_some_iff.1 hi
  obtain ⟨hjlt, -⟩ := List.getElem?_eq_some_iff.1 hj
  simp only [swapAt, hi, hj, List.getElem?_set, List.length_set]
  by_cases hkj : k = j
  · rw [if_pos hkj.symm, if_pos hjlt, if_pos hkj]
  · rw [if_neg (Ne.symm hkj), if_neg hkj]
    by_cases hki : k = i
    · rw [if_pos hki.symm, if_pos hilt, if_pos hki]
    · rw [if_neg (Ne.symm hki), if_neg hki]

omit [DecidableEq α] in
/-- In exchange for the outermost place the module is beyond them all: who was there is now
at the module's old place, and every other one was further in. -/
theorem placed_swapAt {s : PriorityState} {mod : α} {modules : List (Option α)} {l : List α}
    {r : Nat → Nat → Prop} {i source : Nat} {h : α} (hnodup : l.Nodup)
    (hother : some mod ∉ modules) (hsource : l[source]? = some mod)
    (hout : Outermost modules l r i h) (hasks : ∀ j, r j i → j ≠ i → s.Asks j i)
    (hself : s.Asks source i) : Placed s mod modules (swapAt l i source) := by
  intro a b h' ha hnamed hb
  have hne : i ≠ source := by
    rintro rfl
    have hmod : h = mod := Option.some.inj (hout.at_index.symm.trans hsource)
    exact hother (hmod ▸ hout.named)
  have hown : (swapAt l i source)[i]? = some mod := by
    rw [getElem?_swapAt hout.at_index hsource, if_neg hne, if_pos rfl]
  have hbi : b = i := by
    have hlt : b < (swapAt l i source).length := (List.getElem?_eq_some_iff.1 hb).1
    refine (List.getElem?_inj hlt ((swapAt_perm l i source).nodup_iff.2 hnodup)).1 ?_
    rw [hb, hown]
  subst hbi
  rw [getElem?_swapAt hout.at_index hsource] at ha
  split at ha
  · next heq => exact heq ▸ hself
  · split at ha
    · cases ha
      exact absurd hnamed hother
    · next hne' => exact hasks a (hout.outer a h' ha hnamed) hne'

/-! ## `SetPriority` -/

section SetPriority

variable {mod : α} {s : PriorityState} {modules : List (Option α)}

theorem mods_setPriority {l : IntModuleList α} {source : Nat}
    (hsource : l.mods.idxOf? mod = some source) :
    (l.setPriority mod s modules).2.mods =
      if (targetPos s modules l.mods source).2 = true ∧
          (targetPos s modules l.mods source).1 ≠ source then
        swapAt l.mods (targetPos s modules l.mods source).1 source
      else l.mods := by
  simp only [IntModuleList.setPriority, hsource]
  split <;> rfl

theorem setPriority_perm (mod : α) (s : PriorityState) (modules : List (Option α))
    (l : IntModuleList α) : (l.setPriority mod s modules).2.mods.Perm l.mods := by
  cases hsource : l.mods.idxOf? mod with
  | none => simp only [IntModuleList.setPriority, hsource, List.Perm.refl]
  | some source =>
      rw [mods_setPriority hsource]
      split
      · exact swapAt_perm _ _ _
      · exact List.Perm.refl _

theorem mods_setPriority_of_unswapped {l : IntModuleList α} {source : Nat}
    (hsource : l.mods.idxOf? mod = some source)
    (h : (targetPos s modules l.mods source).2 = false) :
    (l.setPriority mod s modules).2.mods = l.mods := by
  rw [mods_setPriority hsource, if_neg fun hswap => by simp [h] at hswap]

theorem exists_idxOf? {l : List α} (h : mod ∈ l) :
    ∃ source, l.idxOf? mod = some source ∧ l[source]? = some mod := by
  cases hsource : l.idxOf? mod with
  | none => exact absurd h (List.idxOf?_eq_none_iff.1 hsource)
  | some source =>
      obtain ⟨hlt, hget, -⟩ := List.idxOf?_eq_some_iff.1 hsource
      exact ⟨source, rfl, List.getElem?_eq_some_iff.2 ⟨hlt, hget⟩⟩

/-- From the other end, or from the middle, the guard lets no handler through. -/
theorem mods_setPriority_of_not_atStart {l : IntModuleList α} (hs : s = .before ∨ s = .after)
    (hmod : mod ∈ l.mods) (hstart : ¬AtStart s mod l.mods) :
    (l.setPriority mod s modules).2.mods = l.mods := by
  obtain ⟨source, hsource, hget⟩ := exists_idxOf? hmod
  have hlt : source < l.mods.length := (List.getElem?_eq_some_iff.1 hget).1
  refine mods_setPriority_of_unswapped hsource ?_
  rcases hs with rfl | rfl
  · have hne : source ≠ l.mods.length - 1 := by
      rintro rfl
      exact hstart (List.getLast?_eq_getElem?.trans hget)
    have hclosed : ∀ e ∈ l.mods.zipIdx,
        (decide (e.2 ≤ l.mods.length - 1 ∧ l.mods.length - 1 ≤ source)) = false := by
      intro e _
      exact decide_eq_false fun hguard => hne (by omega)
    exact congrArg Prod.snd (seekPos_never hclosed)
  · have hne : source ≠ 0 := by
      rintro rfl
      exact hstart (List.head?_eq_getElem?.trans hget)
    have hclosed : ∀ e ∈ l.mods.zipIdx, (decide (0 ≤ e.2 ∧ source ≤ 0)) = false := by
      intro e _
      exact decide_eq_false fun hguard => hne (by omega)
    exact congrArg Prod.snd (seekPos_never hclosed)

omit [DecidableEq α] in
/-- Where nobody is named every place will do. -/
theorem placed_of_none {l : List α} (h : ∀ h ∈ l, some h ∉ modules) :
    Placed s mod modules l :=
  fun _ _ h' ha hnamed _ => absurd hnamed (h h' (List.mem_of_getElem? ha))

/-- A place found that is not the module's own is swapped with it. -/
theorem mods_setPriority_of_found {l : IntModuleList α} {source i : Nat}
    (hsource : l.mods.idxOf? mod = some source)
    (h : targetPos s modules l.mods source = (i, true)) (hne : i ≠ source) :
    (l.setPriority mod s modules).2.mods = swapAt l.mods i source := by
  rw [mods_setPriority hsource, h, if_pos ⟨rfl, hne⟩]

omit [DecidableEq α] in
/-- The place found is not the module's own, which the array does not name. -/
theorem Outermost.ne_source {l : List α} {r : Nat → Nat → Prop} {i source : Nat} {h : α}
    (hout : Outermost modules l r i h) (hother : some mod ∉ modules)
    (hget : l[source]? = some mod) : i ≠ source := by
  rintro rfl
  have hself : h = mod := Option.some.inj (hout.at_index.symm.trans hget)
  exact hother (hself ▸ hout.named)

theorem placed_setPriority_of_last {l : IntModuleList α} (hmod : mod ∈ l.mods)
    (hother : some mod ∉ modules) (hlast : l.mods.getLast? = some mod) :
    Placed .before mod modules (l.setPriority mod .before modules).2.mods := by
  obtain ⟨source, hsource, hget⟩ := exists_idxOf? hmod
  have hlt : source < l.mods.length := (List.getElem?_eq_some_iff.1 hget).1
  have hend : l.mods.length - 1 = source := by
    refine ((List.getElem?_inj hlt l.nodup).1 ?_).symm
    rw [hget, ← List.getLast?_eq_getElem?, hlast]
  have htarget : targetPos .before modules l.mods source = seekPos
      (fun x swapPos => x ≤ swapPos ∧ swapPos ≤ source) modules l.mods.zipIdx
      (source, false) := by
    rw [← hend]
    rfl
  have hopen : ∀ x ≤ source, decide (x ≤ source ∧ source ≤ source) = true :=
    fun x hx => decide_eq_true ⟨hx, Nat.le_refl source⟩
  have hclosed : ∀ x p, p < x → decide (x ≤ p ∧ p ≤ source) = false :=
    fun x p hp => decide_eq_false fun hguard => Nat.not_le_of_lt hp hguard.1
  rcases seekPos_first hopen hclosed l.mods 0 false (by omega) with
    ⟨hnone, heq⟩ | ⟨i, h, hout, heq⟩
  · rw [mods_setPriority_of_unswapped hsource (congrArg Prod.snd (htarget.trans heq))]
    exact placed_of_none hnone
  · have hne : i ≠ source := hout.ne_source hother hget
    have hi : i < l.mods.length := (List.getElem?_eq_some_iff.1 hout.at_index).1
    rw [Nat.zero_add] at heq
    rw [mods_setPriority_of_found hsource (htarget.trans heq) hne]
    refine placed_swapAt l.nodup hother hget hout ?_ ?_
    · exact fun j hle hji => Nat.lt_of_le_of_ne hle (Ne.symm hji)
    · exact Nat.lt_of_le_of_ne (hend ▸ Nat.le_sub_one_of_lt hi) hne

theorem placed_setPriority_of_first {l : IntModuleList α} (hmod : mod ∈ l.mods)
    (hother : some mod ∉ modules) (hfirst : l.mods.head? = some mod) :
    Placed .after mod modules (l.setPriority mod .after modules).2.mods := by
  obtain ⟨source, hsource, hget⟩ := exists_idxOf? hmod
  have hlt : source < l.mods.length := (List.getElem?_eq_some_iff.1 hget).1
  have hzero : source = 0 := by
    refine (List.getElem?_inj hlt l.nodup).1 ?_
    rw [hget, ← List.head?_eq_getElem?, hfirst]
  subst hzero
  have htarget : targetPos .after modules l.mods 0 = seekPos
      (fun x swapPos => swapPos ≤ x ∧ 0 ≤ swapPos) modules l.mods.zipIdx (0, false) := rfl
  have hopen : ∀ x p, p ≤ x → decide (p ≤ x ∧ 0 ≤ p) = true :=
    fun x p hp => decide_eq_true ⟨hp, Nat.zero_le p⟩
  rcases seekPos_last hopen l.mods 0 (0, false) (Nat.le_refl 0) with
    ⟨hnone, heq⟩ | ⟨i, h, hout, heq⟩
  · rw [mods_setPriority_of_unswapped hsource (congrArg Prod.snd (htarget.trans heq))]
    exact placed_of_none hnone
  · have hne : i ≠ 0 := hout.ne_source hother hget
    rw [Nat.zero_add] at heq
    rw [mods_setPriority_of_found hsource (htarget.trans heq) hne]
    refine placed_swapAt l.nodup hother hget hout ?_ ?_
    · exact fun j hle hji => Nat.lt_of_le_of_ne hle hji
    · exact Nat.pos_of_ne_zero hne

end SetPriority

namespace ModuleManager

/-- The list of the event stays a permutation of what it was, and the module stands where it
asked to, exactly if it stood there already or stood first (last) of all. -/
theorem setPriority_placed (m : ModuleManager) (mod : Nat) (i : Implementation)
    (s : PriorityState) (modules : List (Option Nat)) (hs : s = .before ∨ s = .after)
    (hmod : mod ∈ (m.eventHandlers i).mods) (hother : some mod ∉ modules) :
    (((m.setPriority mod i s modules).2.eventHandlers i).mods.Perm (m.eventHandlers i).mods ∧
        Placed s mod modules ((m.setPriority mod i s modules).2.eventHandlers i).mods) ↔
      (Placed s mod modules (m.eventHandlers i).mods ∨ AtStart s mod (m.eventHandlers i).mods) := by
  have hlist : (m.setPriority mod i s modules).2.eventHandlers i =
      ((m.eventHandlers i).setPriority mod s modules).2 := Function.update_self ..
  rw [hlist, and_iff_right (setPriority_perm mod s modules (m.eventHandlers i))]
  by_cases hstart : AtStart s mod (m.eventHandlers i).mods
  · refine iff_of_true ?_ (Or.inr hstart)
    rcases hs with rfl | rfl
    · exact placed_setPriority_of_last hmod hother hstart
    · exact placed_setPriority_of_first hmod hother hstart
  · rw [mods_setPriority_of_not_atStart hs hmod hstart, or_iff_left hstart]

def threeHandlers : ModuleManager :=
  { ModuleManager.new with eventHandlers := fun _ => ⟨[1, 2, 3], by decide⟩ }

/-- The first of three changes places with the last. -/
theorem first_goes_last :
    ((threeHandlers.setPriority 1 .onRequest .after [none, some 3, some 2]).2.eventHandlers
        .onRequest).mods = [3, 2, 1] ∧
      Placed .after 1 [none, some 3, some 2] ((threeHandlers.setPriority 1 .onRequest .after
        [none, some 3, some 2]).2.eventHandlers .onRequest).mods :=
  ⟨by decide, ((threeHandlers.setPriority_placed 1 .onRequest .after [none, some 3, some 2]
    (Or.inr rfl) (by decide) (by decide)).2 (Or.inr (by exact rfl))).2⟩

/-- The middle one asks to come after the last, and stays where it is. -/
theorem middle_stays :
    2 ∈ (threeHandlers.eventHandlers .onRequest).mods ∧ some 2 ∉ [some 3] ∧
      ¬Placed .after 2 [some 3]
        ((threeHandlers.setPriority 2 .onRequest .after [some 3]).2.eventHandlers
          .onRequest).mods := by
  refine ⟨by decide, by decide, ?_⟩
  intro hplaced
  have hstays : ((threeHandlers.setPriority 2 .onRequest .after [some 3]).2.eventHandlers
      .onRequest).mods = [1, 2, 3] := by decide
  rw [hstays] at hplaced
  have hlt : 2 < 1 := hplaced 2 1 3 rfl (by decide) rfl
  exact absurd hlt (by decide)

end ModuleManager

end Hottpd
