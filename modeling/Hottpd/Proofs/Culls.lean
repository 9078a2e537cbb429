import Hottpd.Core.Culls
import Mathlib.Data.List.Nodup

/-!
# Every connection is destroyed once

The three containers are tied to the flags: a connection is on the cull list
while it is quitting, and in `local_connections` while it exists. `Delete` and
`Add` keep the ties and never touch the front of the cull list, so the modules'
calls of `Delete` in the middle of `Apply` do not disturb it.

`Apply` ends because only connections that exist are put on the list: each turn
of its loop destroys one, and nothing that runs inside it makes one.
-/

namespace Hottpd

variable {l : Limits} {s s' : Server}

/-! ## The invariant -/

def Server.IsQuitting (s : Server) (c : Nat) : Prop :=
  ∃ o, s.objects c = some o ∧ o.quitting = true

/-- The containers agree with the objects. -/
structure Sound (l : Limits) (s : Server) : Prop where
  cull : ∀ c, c ∈ s.cullList ↔ s.IsQuitting c
  cull_nodup : s.cullList.Nodup
  locals : ∀ c, c ∈ s.localConnections ↔ (s.objects c).isSome
  locals_nodup : s.localConnections.Nodup
  known : ∀ c, c < s.next ↔ (s.objects c).isSome ∨ c ∈ s.destroyed
  gone : ∀ c ∈ s.destroyed, s.objects c = none
  destroyed_nodup : s.destroyed.Nodup
  limit : s.localConnections.length ≤ l.softLimit

/-- The modules that have been called for a connection `Apply` is at. -/
def Pc.hasCalled (m c : Nat) : Pc → Prop
  | .handlers c' m' => c = c' ∧ m < m'
  | .inHandler c' m' => c = c' ∧ m ≤ m'
  | _ => False

/-- The place in `Apply` is one of its loop for the first connection on the cull list. -/
def Pc.Fits (l : Limits) (cullList : List Nat) : Pc → Prop
  | .handlers c m => cullList.head? = some c ∧ m ≤ l.modules
  | .inHandler c m => cullList.head? = some c ∧ m < l.modules
  | _ => True

/-- The calls made are one of each module for each connection destroyed, and those of the loop
`Apply` is in. -/
structure Calling (l : Limits) (s : Server) : Prop where
  fits : s.pc.Fits l s.cullList
  once : ∀ call, s.calls.count call ≤ 1
  called : ∀ m c, (m, c) ∈ s.calls ↔ m < l.modules ∧ (c ∈ s.destroyed ∨ s.pc.hasCalled m c)

theorem Sound.new : Sound l Server.new := by
  constructor <;> simp [Server.new, Server.IsQuitting]

theorem Calling.new : Calling l Server.new := by
  constructor <;> simp [Server.new, Pc.Fits, Pc.hasCalled]

/-- Nothing of the containers depends on the place. -/
theorem Sound.at (h : Sound l s) (pc : Pc) : Sound l { s with pc := pc } :=
  ⟨h.cull, h.cull_nodup, h.locals, h.locals_nodup, h.known, h.gone, h.destroyed_nodup, h.limit⟩

/-- Nor of the calls made. -/
theorem Sound.calling (h : Sound l s) (pc : Pc) (calls : List (Nat × Nat)) :
    Sound l { s with pc := pc, calls := calls } :=
  ⟨h.cull, h.cull_nodup, h.locals, h.locals_nodup, h.known, h.gone, h.destroyed_nodup, h.limit⟩

/-! ## What does not disturb `Apply` -/

/-- Nothing is destroyed or called, and what is added to the cull list goes to its end. -/
structure Still (s s' : Server) : Prop where
  pc : s'.pc = s.pc
  calls : s'.calls = s.calls
  destroyed : s'.destroyed = s.destroyed
  cull : s.cullList <+: s'.cullList

theorem Still.refl (s : Server) : Still s s := ⟨rfl, rfl, rfl, List.prefix_refl _⟩

theorem Still.trans {s'' : Server} (h : Still s s') (h' : Still s' s'') : Still s s'' :=
  ⟨h'.pc.trans h.pc, h'.calls.trans h.calls, h'.destroyed.trans h.destroyed,
    h.cull.trans h'.cull⟩

theorem Pc.Fits.prefix {pc : Pc} {cullList cullList' : List Nat} (h : pc.Fits l cullList)
    (hcull : cullList <+: cullList') : pc.Fits l cullList' := by
  obtain ⟨t, rfl⟩ := hcull
  cases pc with
  | idle | accepting | culling => trivial
  | handlers c m | inHandler c m =>
      refine ⟨?_, h.2⟩
      rw [List.head?_append, h.1]
      rfl

theorem Calling.still (h : Calling l s) (hstill : Still s s') : Calling l s' := by
  obtain ⟨hpc, hcalls, hdestroyed, hcull⟩ := hstill
  refine ⟨?_, ?_, ?_⟩
  · rw [hpc]
    exact h.fits.prefix hcull
  · rw [hcalls]
    exact h.once
  · rw [hpc, hcalls, hdestroyed]
    exact h.called

/-- Outside the loop over the modules the place does not matter. -/
theorem Calling.outside (h : Calling l s) {pc : Pc} (hnow : ∀ m c, ¬s.pc.hasCalled m c)
    (hnext : ∀ m c, ¬pc.hasCalled m c) (hfits : pc.Fits l s.cullList) :
    Calling l { s with pc := pc } := by
  refine ⟨hfits, h.once, fun m c => ?_⟩
  rw [h.called]
  simp only [hnow, hnext]

/-! ## The operations -/

theorem deleteClient_eq {c : Nat} {o : Client} (hc : s.objects c = some o) :
    deleteClient c s = { s with
      cullList := if o.quitting then s.cullList else s.cullList ++ [c]
      objects := Function.update s.objects c
        (some { o with quitting := true, state := .finished }) } := by
  rw [deleteClient, Server.addItem, hc]
  dsimp only
  by_cases hq : o.quitting = true
  · rw [if_pos hq, if_pos hq, Server.modify, hc]
    rfl
  · rw [if_neg hq, if_neg hq]
    simp [Server.modify, hc]

theorem still_delete {c : Nat} (hlive : (s.objects c).isSome) : Still s (deleteClient c s) := by
  obtain ⟨o, hc⟩ := Option.isSome_iff_exists.1 hlive
  rw [deleteClient_eq hc]
  refine ⟨rfl, rfl, rfl, ?_⟩
  show s.cullList <+: if o.quitting then s.cullList else s.cullList ++ [c]
  split
  · exact List.prefix_refl _
  · exact List.prefix_append _ _

/-- Writing to an object that exists leaves the set of objects as it was. -/
theorem isSome_update {c : Nat} {o : Client} (hlive : (s.objects c).isSome) (d : Nat) :
    (Function.update s.objects c (some o) d).isSome = (s.objects d).isSome := by
  by_cases hd : d = c
  · subst hd
    rw [Function.update_self, hlive]
    rfl
  · rw [Function.update_of_ne hd]

theorem Sound.gone_update (h : Sound l s) {c : Nat} {o : Client} (hlive : (s.objects c).isSome) :
    ∀ d ∈ s.destroyed, Function.update s.objects c (some o) d = none := by
  intro d hd
  have hne : d ≠ c := by
    rintro rfl
    rw [h.gone d hd] at hlive
    cases hlive
  rw [Function.update_of_ne hne]
  exact h.gone d hd

theorem Sound.delete (h : Sound l s) {c : Nat} (hlive : (s.objects c).isSome) :
    Sound l (deleteClient c s) := by
  obtain ⟨o, hc⟩ := Option.isSome_iff_exists.1 hlive
  rw [deleteClient_eq hc]
  have hquits : ∀ d, Server.IsQuitting { s with
      objects := Function.update s.objects c
        (some { o with quitting := true, state := .finished }) } d ↔ d = c ∨ s.IsQuitting d := by
    intro d
    rw [Server.IsQuitting]
    by_cases hd : d = c
    · subst hd
      simp
    · simp [hd, Server.IsQuitting]
  refine ⟨fun d => ?_, ?_, fun d => ?_, h.locals_nodup, fun d => ?_, h.gone_update hlive,
    h.destroyed_nodup, h.limit⟩
  · refine Iff.trans ?_ (hquits d).symm
    rw [← h.cull]
    show d ∈ (if o.quitting then s.cullList else s.cullList ++ [c]) ↔ _
    split
    · next hq =>
        have hmem : c ∈ s.cullList := (h.cull c).2 ⟨o, hc, hq⟩
        constructor
        · exact Or.inr
        · rintro (rfl | hd)
          · exact hmem
          · exact hd
    · rw [List.mem_append, List.mem_singleton, or_comm]
  · show (if o.quitting then s.cullList else s.cullList ++ [c]).Nodup
    split
    · exact h.cull_nodup
    · next hq =>
        refine List.nodup_append.2 ⟨h.cull_nodup, List.nodup_singleton c, fun a ha b hb => ?_⟩
        rw [List.mem_singleton.1 hb]
        rintro rfl
        obtain ⟨o', ho', hq'⟩ := (h.cull a).1 ha
        rw [hc, Option.some.injEq] at ho'
        exact hq (ho' ▸ hq')
  · show d ∈ s.localConnections ↔ (Function.update s.objects c _ d).isSome = true
    rw [isSome_update hlive, h.locals]
  · show d < s.next ↔ (Function.update s.objects c _ d).isSome = true ∨ _
    rw [isSome_update hlive, h.known]

/-- What neither starts nor ends a connection and does not make it quit. -/
theorem Sound.modify (h : Sound l s) {c : Nat} {f : Client → Client}
    (hf : ∀ o, (f o).quitting = o.quitting) (hlive : (s.objects c).isSome) :
    Sound l (s.modify c f) := by
  obtain ⟨o, hc⟩ := Option.isSome_iff_exists.1 hlive
  have hobjects : s.modify c f = { s with
      objects := Function.update s.objects c (some (f o)) } := by
    rw [Server.modify, hc]
    rfl
  rw [hobjects]
  refine ⟨fun d => ?_, h.cull_nodup, fun d => ?_, h.locals_nodup, fun d => ?_,
    h.gone_update hlive, h.destroyed_nodup, h.limit⟩
  · rw [h.cull]
    by_cases hd : d = c
    · subst hd
      simp [Server.IsQuitting, hc, hf]
    · simp [Server.IsQuitting, hd]
  · show d ∈ s.localConnections ↔ (Function.update s.objects c _ d).isSome = true
    rw [isSome_update hlive, h.locals]
  · show d < s.next ↔ (Function.update s.objects c _ d).isSome = true ∨ _
    rw [isSome_update hlive, h.known]

theorem Sound.fresh (h : Sound l s) : s.objects s.next = none := by
  by_contra hlive
  have hlt := (h.known s.next).2 (Or.inl (Option.isSome_iff_ne_none.2 hlive))
  omega

theorem addClient_sound (h : Sound l s) (time : Int) (watched : Bool)
    (hroom : s.localConnections.length + 1 ≤ l.softLimit) :
    Sound l (addClient time watched s) ∧ Still s (addClient time watched s) := by
  have hfresh := h.fresh
  have hnot : s.next ∉ s.localConnections := by
    rw [h.locals, hfresh]
    exact Bool.false_ne_true
  have hadded : Sound l { s with
      objects := Function.update s.objects s.next (some (Client.new time))
      next := s.next + 1
      localConnections := s.localConnections ++ [s.next] } := by
    refine ⟨fun d => ?_, h.cull_nodup, fun d => ?_, ?_, fun d => ?_, fun d hd => ?_,
      h.destroyed_nodup, ?_⟩
    · rw [h.cull]
      by_cases hd : d = s.next
      · subst hd
        simp [Server.IsQuitting, hfresh, Client.new]
      · simp [Server.IsQuitting, hd]
    · show d ∈ s.localConnections ++ [s.next] ↔ _
      rw [List.mem_append, h.locals, List.mem_singleton]
      by_cases hd : d = s.next
      · subst hd
        simp
      · simp [hd]
    · show (s.localConnections ++ [s.next]).Nodup
      refine List.nodup_append.2 ⟨h.locals_nodup, List.nodup_singleton _, fun a ha b hb => ?_⟩
      rw [List.mem_singleton.1 hb]
      rintro rfl
      exact hnot ha
    · show d < s.next + 1 ↔ _
      by_cases hd : d = s.next
      · subst hd
        simp
      · have hknown := h.known d
        simp only [Function.update_of_ne hd]
        rw [← hknown]
        omega
    · have hne : d ≠ s.next := by
        rintro rfl
        have hlt := (h.known s.next).2 (Or.inr hd)
        omega
      show Function.update s.objects s.next _ d = none
      rw [Function.update_of_ne hne]
      exact h.gone d hd
    · show (s.localConnections ++ [s.next]).length ≤ _
      rw [List.length_append]
      exact hroom
  have hstill : Still s { s with
      objects := Function.update s.objects s.next (some (Client.new time))
      next := s.next + 1
      localConnections := s.localConnections ++ [s.next] } :=
    ⟨rfl, rfl, rfl, List.prefix_refl _⟩
  rw [addClient]
  split
  · exact ⟨hadded, hstill⟩
  · have hlive : (Function.update s.objects s.next (some (Client.new time)) s.next).isSome := by
      rw [Function.update_self]
      rfl
    exact ⟨hadded.delete hlive, hstill.trans (still_delete hlive)⟩

theorem timeOut_sound (h : Sound l s) (time : Int) (c : Nat) :
    Sound l (timeOut l time s c) ∧ Still s (timeOut l time s c) := by
  cases hc : s.objects c with
  | none =>
      rw [timeOut, hc]
      exact ⟨h, Still.refl s⟩
  | some o =>
      have hlive : (s.objects c).isSome := by rw [hc]; rfl
      rw [timeOut, hc]
      dsimp only
      split
      · exact ⟨h.delete hlive, still_delete hlive⟩
      split
      · exact ⟨h.delete hlive, still_delete hlive⟩
      · exact ⟨h, Still.refl s⟩

theorem timeOuts_sound (time : Int) (cs : List Nat) : ∀ {s : Server}, Sound l s →
    Sound l (cs.foldl (timeOut l time) s) ∧ Still s (cs.foldl (timeOut l time) s) := by
  induction cs with
  | nil => exact fun h => ⟨h, Still.refl _⟩
  | cons c cs ih =>
      intro s h
      obtain ⟨hsound, hstill⟩ := timeOut_sound h time c
      obtain ⟨hsound', hstill'⟩ := ih hsound
      exact ⟨hsound', hstill.trans hstill'⟩

/-- The first connection on the cull list leaves all three containers. -/
theorem Sound.destroyFirst (h : Sound l s) {c : Nat} (hc : s.cullList.head? = some c) :
    Sound l (destroyFirst c s) := by
  obtain ⟨rest, hlist⟩ := List.head?_eq_some_iff.1 hc
  have hnodup := h.cull_nodup
  rw [hlist, List.nodup_cons] at hnodup
  obtain ⟨o, ho, hq⟩ := (h.cull c).1 (hlist ▸ List.mem_cons_self)
  have hlive : (s.objects c).isSome := by rw [ho]; rfl
  have hnew : c ∉ s.destroyed := fun hmem => by
    rw [h.gone c hmem] at hlive
    cases hlive
  refine ⟨fun d => ?_, ?_, fun d => ?_, h.locals_nodup.erase c, fun d => ?_, fun d hd => ?_, ?_, ?_⟩
  · show d ∈ s.cullList.tail ↔ _
    rw [hlist, List.tail_cons]
    by_cases hd : d = c
    · subst hd
      simp [Server.IsQuitting, Hottpd.destroyFirst, hnodup.1]
    · have hcull := h.cull d
      rw [hlist, List.mem_cons] at hcull
      simp only [hd, false_or] at hcull
      simp [Server.IsQuitting, Hottpd.destroyFirst, hd, hcull]
  · show s.cullList.tail.Nodup
    rw [hlist]
    exact hnodup.2
  · show d ∈ s.localConnections.erase c ↔ _
    rw [h.locals_nodup.mem_erase_iff, h.locals]
    by_cases hd : d = c
    · subst hd
      simp [Hottpd.destroyFirst]
    · simp [Hottpd.destroyFirst, hd]
  · show d < s.next ↔ _ ∨ d ∈ s.destroyed ++ [c]
    rw [h.known, List.mem_append, List.mem_singleton]
    by_cases hd : d = c
    · subst hd
      simp [hlive]
    · simp [Hottpd.destroyFirst, hd]
  · show Function.update s.objects c none d = none
    by_cases hdc : d = c
    · rw [hdc, Function.update_self]
    · rw [Function.update_of_ne hdc]
      rcases List.mem_append.1 hd with hold | hone
      · exact h.gone d hold
      · exact absurd (List.mem_singleton.1 hone) hdc
  · show (s.destroyed ++ [c]).Nodup
    refine List.nodup_append.2 ⟨h.destroyed_nodup, List.nodup_singleton c, fun a ha b hb => ?_⟩
    rw [List.mem_singleton.1 hb]
    rintro rfl
    exact hnew ha
  · exact Nat.le_trans (List.length_erase_le) h.limit

/-! ## Steps -/

/-- What a step of `Apply` does. -/
inductive Applies (l : Limits) (s : Server) : Server → Prop
  | returns (hpc : s.pc = .culling) (hlist : s.cullList = []) : Applies l s { s with pc := .idle }
  | first {c : Nat} (hpc : s.pc = .culling) (hlist : s.cullList.head? = some c) :
      Applies l s { s with pc := .handlers c 0 }
  | calls {c m : Nat} (hpc : s.pc = .handlers c m) (hm : m < l.modules) :
      Applies l s { s with pc := .inHandler c m, calls := s.calls ++ [(m, c)] }
  | destroys {c m : Nat} (hpc : s.pc = .handlers c m) (hm : l.modules ≤ m) :
      Applies l s { destroyFirst c s with pc := .culling }
  | called {c m : Nat} (hpc : s.pc = .inHandler c m) :
      Applies l s { s with pc := .handlers c (m + 1) }

theorem applyNext_cases (h : applyNext l s = some s') : Applies l s s' := by
  rw [applyNext] at h
  cases hpc : s.pc with
  | idle | accepting =>
      rw [hpc] at h
      cases h
  | culling =>
      rw [hpc] at h
      dsimp only at h
      split at h
      · next hlist =>
          cases h
          exact .returns hpc hlist
      · next c rest hlist =>
          cases h
          refine .first hpc ?_
          rw [hlist]
          rfl
  | handlers c m =>
      rw [hpc] at h
      dsimp only at h
      by_cases hm : m < l.modules
      · rw [if_pos hm] at h
        cases h
        exact .calls hpc hm
      · rw [if_neg hm] at h
        cases h
        exact .destroys hpc (Nat.le_of_not_lt hm)
  | inHandler c m =>
      rw [hpc] at h
      cases h
      exact .called hpc

/-- What every step keeps. -/
structure Invariant (l : Limits) (s : Server) : Prop where
  sound : Sound l s
  calling : Calling l s

theorem Invariant.new : Invariant l Server.new := ⟨.new, .new⟩

theorem Invariant.still (h : Invariant l s) (hs : Sound l s' ∧ Still s s') : Invariant l s' :=
  ⟨hs.1, h.calling.still hs.2⟩

/-- Between places outside the loop over the modules. -/
theorem Invariant.outside (h : Invariant l s) {pc : Pc} (hnow : ∀ m c, ¬s.pc.hasCalled m c)
    (hnext : ∀ m c, ¬pc.hasCalled m c) (hfits : pc.Fits l s.cullList) :
    Invariant l { s with pc := pc } :=
  ⟨h.sound.at pc, h.calling.outside hnow hnext hfits⟩

theorem Invariant.acceptTurn (h : Invariant l s) (hpc : s.pc = .accepting) (time : Int)
    (a : Accepted) : Invariant l (acceptTurn l time a s) := by
  have hnow : ∀ m c, ¬s.pc.hasCalled m c := fun m c => by rw [hpc]; exact id
  have hidle : ∀ {s : Server}, Invariant l s → (∀ m c, ¬s.pc.hasCalled m c) →
      Invariant l { s with pc := .idle } :=
    fun h hnow => h.outside hnow (fun _ _ => id) trivial
  rw [Hottpd.acceptTurn]
  split
  · exact hidle h hnow
  split
  · exact hidle h hnow
  · next hroom _ =>
      rw [not_or] at hroom
      have hadded : ∀ {s' : Server}, (s' = s ∨ s' = addClient time a.watched s) →
          Invariant l s' ∧ s'.pc = s.pc := by
        rintro s' (rfl | rfl)
        · exact ⟨h, rfl⟩
        · have hs := addClient_sound h.sound time a.watched (by omega)
          exact ⟨h.still hs, hs.2.pc⟩
      obtain ⟨hinv, hsame⟩ := @hadded
        (if -1 < a.nfd ∧ a.named then addClient time a.watched s else s)
        (by split <;> simp)
      dsimp only
      generalize (if -1 < a.nfd ∧ a.named then addClient time a.watched s else s) = s' at hinv hsame
      split
      · exact hinv
      · exact hidle hinv (hsame ▸ hnow)

theorem Invariant.applies (h : Invariant l s) (hs : Applies l s s') : Invariant l s' := by
  cases hs with
  | returns hpc hlist =>
      exact h.outside (fun m c => by rw [hpc]; exact id) (fun _ _ => id) trivial
  | first hpc hlist =>
      refine h.outside (fun m c => by rw [hpc]; exact id) (fun m c hm => ?_) ⟨hlist, Nat.zero_le _⟩
      exact absurd hm.2 (Nat.not_lt_zero m)
  | @calls c m hpc hm =>
      have hfits := h.calling.fits
      rw [hpc] at hfits
      refine ⟨h.sound.calling _ _, ⟨hfits.1, hm⟩, fun call => ?_, fun m' c' => ?_⟩
      · rw [List.count_append]
        by_cases hcall : call = (m, c)
        · -- `c` is alive, and the modules from `m` on have not been called for it
          have hnot : (m, c) ∉ s.calls := by
            rw [h.calling.called, hpc]
            rintro ⟨-, hgone | ⟨-, hlt⟩⟩
            · obtain ⟨o, ho, -⟩ := (h.sound.cull c).1 (List.mem_of_head? hfits.1)
              rw [h.sound.gone c hgone] at ho
              cases ho
            · omega
          rw [hcall, List.count_eq_zero_of_not_mem hnot]
          simp
        · have hzero : [(m, c)].count call = 0 := List.count_eq_zero_of_not_mem (by simp [hcall])
          rw [hzero]
          exact h.calling.once call
      · show (m', c') ∈ s.calls ++ [(m, c)] ↔ _
        rw [List.mem_append, h.calling.called, hpc, List.mem_singleton, Prod.mk.injEq]
        simp only [Pc.hasCalled]
        constructor
        · rintro (⟨hlt, hgone | ⟨rfl, hlt'⟩⟩ | ⟨rfl, rfl⟩)
          · exact ⟨hlt, Or.inl hgone⟩
          · exact ⟨hlt, Or.inr ⟨rfl, by omega⟩⟩
          · exact ⟨hm, Or.inr ⟨rfl, Nat.le_refl _⟩⟩
        · rintro ⟨hlt, hgone | ⟨rfl, hle⟩⟩
          · exact Or.inl ⟨hlt, Or.inl hgone⟩
          · rcases Nat.lt_or_eq_of_le hle with hlt' | rfl
            · exact Or.inl ⟨hlt, Or.inr ⟨rfl, hlt'⟩⟩
            · exact Or.inr ⟨rfl, rfl⟩
  | @destroys c m hpc hm =>
      have hfits := h.calling.fits
      rw [hpc] at hfits
      refine ⟨(h.sound.destroyFirst hfits.1).at _, trivial, h.calling.once, fun m' c' => ?_⟩
      show (m', c') ∈ s.calls ↔ m' < l.modules ∧ (c' ∈ s.destroyed ++ [c] ∨ False)
      rw [h.calling.called, hpc, List.mem_append, List.mem_singleton]
      simp only [Pc.hasCalled, or_false]
      constructor
      · rintro ⟨hlt, hgone | ⟨rfl, -⟩⟩
        · exact ⟨hlt, Or.inl hgone⟩
        · exact ⟨hlt, Or.inr rfl⟩
      · rintro ⟨hlt, hgone | rfl⟩
        · exact ⟨hlt, Or.inl hgone⟩
        · exact ⟨hlt, Or.inr ⟨rfl, by omega⟩⟩
  | @called c m hpc =>
      have hfits := h.calling.fits
      rw [hpc] at hfits
      refine ⟨h.sound.at _, ⟨hfits.1, hfits.2⟩, h.calling.once, fun m' c' => ?_⟩
      rw [h.calling.called, hpc]
      simp only [Pc.hasCalled, Nat.lt_succ_iff]

theorem Invariant.step (h : Invariant l s) {e : Happening} (hs : s.step l e = some s') :
    Invariant l s' := by
  cases e with
  | readable =>
      obtain ⟨hpc, hs⟩ := Option.ite_none_right_eq_some.1 hs
      cases hs
      exact h.outside (fun m c => by rw [hpc]; exact id) (fun _ _ => id) trivial
  | accept time a =>
      obtain ⟨hpc, hs⟩ := Option.ite_none_right_eq_some.1 hs
      cases hs
      exact h.acceptTurn hpc time a
  | timeOuts time =>
      obtain ⟨-, hs⟩ := Option.ite_none_right_eq_some.1 hs
      cases hs
      exact h.still (timeOuts_sound time _ h.sound)
  | socketEvent time c =>
      obtain ⟨⟨-, hlive⟩, hs⟩ := Option.ite_none_right_eq_some.1 hs
      cases hs
      exact h.still ⟨h.sound.modify (fun _ => rfl) hlive, rfl, rfl, rfl, List.prefix_refl _⟩
  | delete c =>
      obtain ⟨⟨-, hlive⟩, hs⟩ := Option.ite_none_right_eq_some.1 hs
      cases hs
      exact h.still ⟨h.sound.delete hlive, still_delete hlive⟩
  | apply =>
      obtain ⟨hpc, hs⟩ := Option.ite_none_right_eq_some.1 hs
      cases hs
      exact h.outside (fun m c => by rw [hpc]; exact id) (fun _ _ => id) trivial
  | applyNext => exact h.applies (applyNext_cases hs)

theorem Invariant.run (hs : List Happening) (h : Invariant l s) (hrun : s.run l hs = some s') :
    Invariant l s' :=
  Runs.history_invariant (I := fun _ s => Invariant l s) hrun h fun h hstep => h.step hstep

/-! ## `Apply` ends -/

def Pc.inApply : Pc → Bool
  | .idle | .accepting => false
  | .culling | .handlers _ _ | .inHandler _ _ => true

/-- A bound for the steps that are left of `Apply`: all connections may still be given up. -/
def Server.remaining (l : Limits) (s : Server) : Nat :=
  let total := s.localConnections.length * (2 * l.modules + 2)
  match s.pc with
  | .idle | .accepting => 0
  | .culling => total + 1
  | .handlers _ m => total - 2 * m
  | .inHandler _ m => total - (2 * m + 1)

/-- At a connection the steps for its modules are still in the bound. -/
theorem Invariant.room (h : Invariant l s) {c : Nat} (hc : s.cullList.head? = some c) :
    c ∈ s.localConnections ∧
      s.localConnections.length * (2 * l.modules + 2)
        = (s.localConnections.erase c).length * (2 * l.modules + 2) + (2 * l.modules + 2) := by
  obtain ⟨o, ho, -⟩ := (h.sound.cull c).1 (List.mem_of_head? hc)
  have hmem : c ∈ s.localConnections := by
    rw [h.sound.locals, ho]
    rfl
  have hlen := List.length_erase_add_one hmem
  refine ⟨hmem, ?_⟩
  rw [← hlen, Nat.succ_mul]

theorem Invariant.remaining_pos (h : Invariant l s) (hpc : s.pc.inApply = true) :
    0 < s.remaining l := by
  have hfits := h.calling.fits
  rw [Server.remaining]
  cases hat : s.pc with
  | idle | accepting =>
      rw [hat] at hpc
      cases hpc
  | culling => exact Nat.succ_pos _
  | handlers c m =>
      rw [hat] at hfits
      have hroom := (h.room hfits.1).2
      have hm := hfits.2
      dsimp only
      omega
  | inHandler c m =>
      rw [hat] at hfits
      have hroom := (h.room hfits.1).2
      have hm := hfits.2
      dsimp only
      omega

theorem Invariant.remaining_lt (h : Invariant l s) (hs : Applies l s s') :
    s'.remaining l < s.remaining l := by
  have hfits := h.calling.fits
  cases hs with
  | returns hpc _ =>
      rw [Server.remaining, Server.remaining, hpc]
      exact Nat.succ_pos _
  | first hpc _ =>
      rw [Server.remaining, Server.remaining, hpc]
      exact Nat.lt_succ_self _
  | calls hpc hm =>
      rw [hpc] at hfits
      have hroom := (h.room hfits.1).2
      rw [Server.remaining, Server.remaining, hpc]
      dsimp only
      omega
  | @destroys c m hpc hm =>
      rw [hpc] at hfits
      have hroom := (h.room hfits.1).2
      have hle := hfits.2
      rw [Server.remaining, Server.remaining, hpc]
      show (s.localConnections.erase c).length * (2 * l.modules + 2) + 1 < _
      dsimp only
      omega
  | called hpc =>
      rw [hpc] at hfits
      have hroom := (h.room hfits.1).2
      have hm := hfits.2
      rw [Server.remaining, Server.remaining, hpc]
      dsimp only
      omega

/-- A connection that has been given up. -/
def Server.GivenUp (s : Server) (c : Nat) : Prop := s.IsQuitting c ∨ c ∈ s.destroyed

theorem deleteClient_givenUp {c d : Nat} (hlive : (s.objects c).isSome) (hd : s.GivenUp d) :
    (deleteClient c s).GivenUp d := by
  obtain ⟨o, hc⟩ := Option.isSome_iff_exists.1 hlive
  rw [deleteClient_eq hc]
  refine hd.imp_left ?_
  rintro ⟨o', ho', hq⟩
  by_cases hdc : d = c
  · subst hdc
    exact ⟨_, Function.update_self .., rfl⟩
  · exact ⟨o', (Function.update_of_ne hdc ..).trans ho', hq⟩

theorem Applies.givenUp (hs : Applies l s s') {d : Nat} (hd : s.GivenUp d) : s'.GivenUp d := by
  cases hs with
  | returns | first | calls | called => exact hd
  | @destroys c m =>
      by_cases hdc : d = c
      · exact Or.inr (hdc ▸ List.mem_append_right _ List.mem_cons_self)
      · refine hd.imp ?_ (List.mem_append_left _)
        rintro ⟨o, ho, hq⟩
        exact ⟨o, (Function.update_of_ne hdc ..).trans ho, hq⟩

theorem remaining_delete {c : Nat} (hlive : (s.objects c).isSome) :
    (deleteClient c s).remaining l = s.remaining l := by
  obtain ⟨o, hc⟩ := Option.isSome_iff_exists.1 hlive
  rw [deleteClient_eq hc]
  rfl

/-- A step out of `Apply` is its return. -/
theorem Applies.idle (hs : Applies l s s') (hout : ¬s'.pc.inApply = true) : s'.pc = .idle := by
  cases hs with
  | returns => rfl
  | first | calls | destroys | called => exact absurd rfl hout

/-- Where `Apply` returns nothing is quitting. -/
theorem Invariant.returns (h : Invariant l s) (hs : Applies l s s') (hpc : s'.pc = .idle) (c : Nat) :
    ¬s'.IsQuitting c := by
  cases hs with
  | returns _ hlist =>
      intro hq
      have hmem := (h.sound.cull c).2 hq
      rw [hlist] at hmem
      cases hmem
  | first | calls | destroys | called => cases hpc

/-- `Apply` has returned: nothing is quitting, and what was given up is destroyed. -/
structure Returned (s s' : Server) : Prop where
  pc : s'.pc = .idle
  quitting : ∀ c, ¬s'.IsQuitting c
  destroyed : ∀ c, s.GivenUp c → c ∈ s'.destroyed

/-- Whatever is given up meanwhile, `Apply` returns within the bound. -/
theorem Invariant.apply_returns : ∀ (hs : List Happening) {s : Server}, Invariant l s →
    s.pc.inApply = true → s.run l hs = some s' → s.remaining l ≤ hs.count .applyNext →
    ∃ before s'', before <+: hs ∧ s.run l before = some s'' ∧ Returned s s''
  | [], s, h, hpc, _, hcount => by
      have hpos := h.remaining_pos hpc
      rw [List.count_nil] at hcount
      omega
  | e :: hs, s, h, hpc, hrun, hcount => by
      rw [Server.run, Runs.run_cons] at hrun
      cases hstep : s.step l e with
      | none =>
          rw [hstep] at hrun
          cases hrun
      | some t =>
          rw [hstep] at hrun
          -- behind a step inside `Apply` with enough of the run
          have hrest : t.pc.inApply = true → t.remaining l ≤ hs.count .applyNext →
              (∀ c, s.GivenUp c → t.GivenUp c) →
              ∃ before s'', before <+: e :: hs ∧ s.run l before = some s'' ∧ Returned s s'' := by
            intro hin hle hgiven
            obtain ⟨before, s'', hprefix, hbefore, hreturned⟩ :=
              Invariant.apply_returns hs (h.step hstep) hin hrun hle
            refine ⟨e :: before, s'', List.cons_prefix_cons.2 ⟨rfl, hprefix⟩, ?_,
              hreturned.pc, hreturned.quitting, fun c hc => hreturned.destroyed c (hgiven c hc)⟩
            rw [Server.run, Runs.run_cons, hstep]
            exact hbefore
          cases e with
          | readable | accept | timeOuts | socketEvent | apply =>
              -- not in `Apply`
              cases hat : s.pc <;> simp [Server.step, hat, Pc.inApply] at hstep hpc
          | delete c =>
              obtain ⟨⟨-, hlive⟩, hs⟩ := Option.ite_none_right_eq_some.1 hstep
              cases hs
              have hstill := still_delete hlive
              refine hrest (hstill.pc ▸ hpc) ?_ fun d hd => deleteClient_givenUp hlive hd
              rw [remaining_delete hlive]
              simpa using hcount
          | applyNext =>
              have happlies := applyNext_cases hstep
              have hlt := h.remaining_lt happlies
              rw [List.count_cons_self] at hcount
              by_cases hin : t.pc.inApply = true
              · exact hrest hin (by omega) fun d hd => happlies.givenUp hd
              · have hidle := happlies.idle hin
                refine ⟨[.applyNext], t, List.cons_prefix_cons.2 ⟨rfl, List.nil_prefix⟩, ?_,
                  hidle, h.returns happlies hidle, fun c hc => ?_⟩
                · rw [Server.run, Runs.run_cons, hstep]
                  rfl
                · exact (happlies.givenUp hc).resolve_left (h.returns happlies hidle c)

/-! ## Every run -/

/-- Behind any accepts, `Delete`s and steps of `Apply`, from the core or from the modules it
calls: the cull list holds the connections that are quitting, each once; each connection made is
in `local_connections` once until it is destroyed, is destroyed at most once, and each module has
been called for it once by then and never again; `local_connections` is within the limit; and
`Apply`, once in progress, returns with nothing quitting and all that was given up destroyed. -/
theorem connections_culled (l : Limits) (hs : List Happening) (s : Server)
    (hrun : Server.new.run l hs = some s) :
    (∀ c, c ∈ s.cullList ↔ s.IsQuitting c) ∧ s.cullList.Nodup ∧
    (∀ c, (s.objects c).isSome ↔ c < s.next ∧ c ∉ s.destroyed) ∧
    (∀ c < s.next, s.localConnections.count c = if c ∈ s.destroyed then 0 else 1) ∧
    s.destroyed.Nodup ∧
    (∀ call, s.calls.count call ≤ 1) ∧
    (∀ c ∈ s.destroyed, ∀ m < l.modules, s.calls.count (m, c) = 1) ∧
    s.localConnections.length ≤ l.softLimit ∧
    (s.pc.inApply = true → ∀ hs' s', s.run l hs' = some s' →
      s.remaining l ≤ hs'.count .applyNext →
      ∃ before s'', before <+: hs' ∧ s.run l before = some s'' ∧ Returned s s'') := by
  have h := Invariant.new.run hs hrun
  have hlive : ∀ c, (s.objects c).isSome ↔ c < s.next ∧ c ∉ s.destroyed := by
    intro c
    rw [h.sound.known]
    constructor
    · intro hlive
      refine ⟨Or.inl hlive, fun hgone => ?_⟩
      rw [h.sound.gone c hgone] at hlive
      cases hlive
    · rintro ⟨hlive | hgone, hnot⟩
      · exact hlive
      · exact absurd hgone hnot
  refine ⟨h.sound.cull, h.sound.cull_nodup, hlive, fun c hc => ?_, h.sound.destroyed_nodup,
    h.calling.once, fun c hc m hm => ?_, h.sound.limit, fun hpc hs' s' => h.apply_returns hs' hpc⟩
  · split
    · next hgone =>
        refine List.count_eq_zero_of_not_mem fun hmem => ?_
        exact ((hlive c).1 ((h.sound.locals c).1 hmem)).2 hgone
    · next hnot =>
        refine List.count_eq_one_of_mem h.sound.locals_nodup ?_
        exact (h.sound.locals c).2 ((hlive c).2 ⟨hc, hnot⟩)
  · have hmem : (m, c) ∈ s.calls := (h.calling.called m c).2 ⟨hm, Or.inl hc⟩
    exact Nat.le_antisymm (h.calling.once _) (List.count_pos_iff.2 hmem)

/-- Two connections, the first given up twice and the second by the module that is told of the
first; a third is not accepted. -/
theorem connections_culled_fromHandler :
    ∃ s, Server.run ⟨2, 1024, 1024, true, 60, 10, 1⟩
        ([.readable, .accept 0 ⟨5, true, true⟩, .accept 0 ⟨6, true, true⟩,
          .accept 0 ⟨7, true, true⟩, .delete 0, .delete 0, .apply, .applyNext, .applyNext,
          .delete 1, .delete 0] ++ List.replicate 7 .applyNext) Server.new = some s ∧
      s.destroyed = [0, 1] ∧ s.calls = [(0, 0), (0, 1)] ∧ s.cullList.Nodup ∧
      (∀ c, c ∈ s.cullList ↔ s.IsQuitting c) := by
  have h := connections_culled ⟨2, 1024, 1024, true, 60, 10, 1⟩
    ([.readable, .accept 0 ⟨5, true, true⟩, .accept 0 ⟨6, true, true⟩,
      .accept 0 ⟨7, true, true⟩, .delete 0, .delete 0, .apply, .applyNext, .applyNext,
      .delete 1, .delete 0] ++ List.replicate 7 .applyNext) _ rfl
  exact ⟨_, rfl, rfl, rfl, h.2.1, h.1⟩

end Hottpd
