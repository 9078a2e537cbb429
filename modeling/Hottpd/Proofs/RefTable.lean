import Hottpd.Core.RefTable
import Hottpd.Proofs.Engines

/-!
# The bound on descriptors

All the checks let `MAX_DESCRIPTORS` itself through, and nothing else that is no index of
the array. Up to there the engines on the array do what the engines of `Core/Engines` do,
whose table has no end.
-/

namespace Hottpd

variable {maxDescriptors : Nat}

/-- An index of the array. -/
def ValidIndex (maxDescriptors : Nat) (fd : Int) : Prop := 0 ≤ fd ∧ fd < maxDescriptors

/-- What the checks let through is an index or the number behind the last one. -/
theorem validIndex_of_inRange {fd : Int} (h : inRange maxDescriptors fd = true)
    (hne : fd ≠ maxDescriptors) : ValidIndex maxDescriptors fd := by
  rw [inRange_iff] at h
  exact ⟨h.1, by omega⟩

namespace RefTable

variable {ref : RefTable maxDescriptors} {fd : Int}

/-- The table without an end. -/
def view (ref : RefTable maxDescriptors) (fd : Int) : Option Handler := (ref.entry fd).join

theorem entry_of_valid (h : ValidIndex maxDescriptors fd) : ref.entry fd = some (ref.view fd) := by
  have hlt : fd.toNat < ref.entries.length := by
    rw [ref.length_eq]
    have := h.2
    have := h.1
    omega
  have hentry : ref.entry fd = some ref.entries[fd.toNat] := by
    rw [entry, if_neg (by have := h.1; omega), List.getElem?_eq_getElem hlt]
  rw [view, hentry]
  rfl

theorem entry_max : ref.entry maxDescriptors = none := by
  rw [entry, if_neg (by omega), List.getElem?_eq_none]
  rw [ref.length_eq]
  omega

theorem assign_of_valid (h : ValidIndex maxDescriptors fd) (eh : Option Handler) :
    ∃ ref', ref.assign fd eh = some ref' ∧ ref'.view = Function.update ref.view fd eh := by
  obtain ⟨hpos, hlt⟩ := h
  refine ⟨_, if_neg (by omega), ?_⟩
  funext fd'
  rw [view, entry]
  by_cases hneg : fd' < 0
  · rw [if_pos hneg, Function.update_of_ne (by omega), view, entry, if_pos hneg]
  · rw [if_neg hneg, List.getElem?_set]
    by_cases heq : fd' = fd
    · rw [heq, if_pos rfl, if_pos (by rw [ref.length_eq]; omega), Function.update_self]
      rfl
    · rw [if_neg (by omega), Function.update_of_ne heq, view, entry, if_neg hneg]

end RefTable

/-! ## The engines -/

def SelectTable.view (writeable : Int → Bool) (e : SelectTable maxDescriptors) : SelectEngine :=
  ⟨e.ref.view, e.currentSetSize, e.fds, writeable⟩

def EPollTable.view (e : EPollTable maxDescriptors) : EPollEngine :=
  ⟨e.ref.view, e.currentSetSize, e.kernel⟩

theorem SelectTable.addFd_view {eh : Handler} (hne : eh.fd ≠ maxDescriptors) (fdSetsize : Int)
    (writeable : Int → Bool) (e : SelectTable maxDescriptors) :
    ∃ r, e.addFd fdSetsize eh = some r ∧
      (e.view writeable).addFd maxDescriptors fdSetsize eh = (r.1, r.2.view writeable) := by
  rw [addFd, SelectEngine.addFd, SelectEngine.getRemainingFds]
  by_cases hrange : inRange maxDescriptors eh.fd = false
  · rw [if_pos hrange, if_pos hrange]
    exact ⟨_, rfl, rfl⟩
  · have hvalid := validIndex_of_inRange (Bool.not_eq_false _ ▸ hrange) hne
    obtain ⟨ref', hassign, hview⟩ := @RefTable.assign_of_valid _ e.ref _ hvalid (some eh)
    rw [if_neg hrange, if_neg hrange, RefTable.entry_of_valid hvalid, Option.bind_some, hassign]
    by_cases hroom : fdSetsize - e.currentSetSize ≤ 1
    · exact ⟨_, if_pos hroom, if_pos hroom⟩
    · by_cases howner : (e.ref.view eh.fd).isSome = true
      · exact ⟨_, (if_neg hroom).trans (if_pos howner), (if_neg hroom).trans (if_pos howner)⟩
      · refine ⟨_, (if_neg hroom).trans (if_neg howner),
          ((if_neg hroom).trans (if_neg howner)).trans ?_⟩
        dsimp only [view]
        rw [← hview]

theorem SelectTable.delFd_view {eh : Handler} (hne : eh.fd ≠ maxDescriptors) (force : Bool)
    (writeable : Int → Bool) (e : SelectTable maxDescriptors) :
    ∃ r, e.delFd eh force = some r ∧
      (e.view writeable).delFd maxDescriptors eh force = (r.1, r.2.view writeable) := by
  rw [delFd, SelectEngine.delFd]
  by_cases hrange : inRange maxDescriptors eh.fd = false
  · rw [if_pos hrange, if_pos hrange]
    exact ⟨_, rfl, rfl⟩
  · have hvalid := validIndex_of_inRange (Bool.not_eq_false _ ▸ hrange) hne
    obtain ⟨ref', hassign, hview⟩ := @RefTable.assign_of_valid _ e.ref _ hvalid none
    rw [if_neg hrange, if_neg hrange, hassign]
    dsimp only [view]
    rw [← hview]
    exact ⟨_, rfl, rfl⟩

theorem EPollTable.addFd_view {eh : Handler} (hne : eh.fd ≠ maxDescriptors)
    (e : EPollTable maxDescriptors) :
    ∃ r, e.addFd eh = some r ∧ e.view.addFd maxDescriptors eh = (r.1, r.2.view) := by
  rw [addFd, EPollEngine.addFd, EPollEngine.getRemainingFds]
  by_cases hrange : inRange maxDescriptors eh.fd = false
  · rw [if_pos hrange, if_pos hrange]
    exact ⟨_, rfl, rfl⟩
  · have hvalid := validIndex_of_inRange (Bool.not_eq_false _ ▸ hrange) hne
    obtain ⟨ref', hassign, hview⟩ := @RefTable.assign_of_valid _ e.ref _ hvalid (some eh)
    rw [if_neg hrange, if_neg hrange, RefTable.entry_of_valid hvalid, Option.bind_some, hassign]
    by_cases hroom : maxDescriptors - e.currentSetSize ≤ 1
    · exact ⟨_, if_pos hroom, if_pos hroom⟩
    · by_cases howner : (e.ref.view eh.fd).isSome = true
      · exact ⟨_, (if_neg hroom).trans (if_pos howner), (if_neg hroom).trans (if_pos howner)⟩
      · by_cases hkernel : (e.kernel eh.fd).isSome = true
        · exact ⟨_, (if_neg hroom).trans ((if_neg howner).trans (if_pos hkernel)),
            (if_neg hroom).trans ((if_neg howner).trans (if_pos hkernel))⟩
        · refine ⟨_, (if_neg hroom).trans ((if_neg howner).trans (if_neg hkernel)),
            ((if_neg hroom).trans ((if_neg howner).trans (if_neg hkernel))).trans ?_⟩
          dsimp only [view]
          rw [← hview]

theorem EPollTable.delFd_view {eh : Handler} (hne : eh.fd ≠ maxDescriptors) (force : Bool)
    (e : EPollTable maxDescriptors) :
    ∃ r, e.delFd eh force = some r ∧ e.view.delFd maxDescriptors eh force = (r.1, r.2.view) := by
  rw [delFd, EPollEngine.delFd]
  by_cases hrange : inRange maxDescriptors eh.fd = false
  · rw [if_pos hrange, if_pos hrange]
    exact ⟨_, rfl, rfl⟩
  · have hvalid := validIndex_of_inRange (Bool.not_eq_false _ ▸ hrange) hne
    obtain ⟨ref', hassign, hview⟩ := @RefTable.assign_of_valid _ e.ref _ hvalid none
    rw [if_neg hrange, if_neg hrange, hassign]
    by_cases hkernel : e.kernel eh.fd = none ∧ force = false
    · exact ⟨_, if_pos hkernel, if_pos hkernel⟩
    · refine ⟨_, if_neg hkernel, (if_neg hkernel).trans ?_⟩
      dsimp only [view]
      rw [← hview]

/-! ## The checks -/

/-- What a check lets through is an index of the array, and no operation behind one leaves the
array, whatever else there is in the engine. -/
structure ChecksHold (maxDescriptors : Nat) (eh : Handler) : Prop where
  checked : inRange maxDescriptors eh.fd = true → ValidIndex maxDescriptors eh.fd
  boundsCheckFd : SocketEngine.boundsCheckFd maxDescriptors (some eh) = true →
    ValidIndex maxDescriptors eh.fd
  hasFd : ∀ ref : RefTable maxDescriptors, (ref.hasFd eh.fd).isSome
  getRef : ∀ ref : RefTable maxDescriptors, (ref.getRef eh.fd).isSome
  select : ∀ (fdSetsize : Int) (force : Bool) (e : SelectTable maxDescriptors),
    (e.addFd fdSetsize eh).isSome ∧ (e.delFd eh force).isSome
  epoll : ∀ (force : Bool) (e : EPollTable maxDescriptors),
    (e.addFd eh).isSome ∧ (e.delFd eh force).isSome

theorem boundsCheckFd_eq (eh : Handler) :
    SocketEngine.boundsCheckFd maxDescriptors (some eh) = inRange maxDescriptors eh.fd := by
  rw [SocketEngine.boundsCheckFd, inRange]
  split
  · next h => rw [decide_eq_false (not_not.2 h)]
  · next h => rw [decide_eq_true h]

/-- The checks hold for every descriptor but `MAX_DESCRIPTORS`. -/
theorem checksHold_iff (maxDescriptors : Nat) (eh : Handler) :
    ChecksHold maxDescriptors eh ↔ eh.fd ≠ maxDescriptors := by
  constructor
  · intro h heq
    have hrange : inRange maxDescriptors eh.fd = true := inRange_iff.2 (by omega)
    have hlt := (h.checked hrange).2
    omega
  · intro hne
    have hchecked : inRange maxDescriptors eh.fd = true → ValidIndex maxDescriptors eh.fd :=
      fun hrange => validIndex_of_inRange hrange hne
    have hentry : ∀ ref : RefTable maxDescriptors, inRange maxDescriptors eh.fd ≠ false →
        ref.entry eh.fd = some (ref.view eh.fd) :=
      fun ref hrange => RefTable.entry_of_valid (hchecked (Bool.not_eq_false _ ▸ hrange))
    refine ⟨hchecked, fun h => hchecked (boundsCheckFd_eq eh ▸ h), fun ref => ?_, fun ref => ?_,
      fun fdSetsize force e => ?_, fun force e => ?_⟩
    · rw [RefTable.hasFd]
      split
      · rfl
      · next hrange => rw [hentry ref hrange]; rfl
    · rw [RefTable.getRef]
      split
      · rfl
      · next hrange => rw [hentry ref hrange]; rfl
    · obtain ⟨r, hadd, -⟩ := SelectTable.addFd_view hne fdSetsize (fun _ => false) e
      obtain ⟨r', hdel, -⟩ := SelectTable.delFd_view hne force (fun _ => false) e
      rw [hadd, hdel]
      exact ⟨rfl, rfl⟩
    · obtain ⟨r, hadd, -⟩ := EPollTable.addFd_view hne e
      obtain ⟨r', hdel, -⟩ := EPollTable.delFd_view hne force e
      rw [hadd, hdel]
      exact ⟨rfl, rfl⟩

/-- Descriptor 1024 of 1024 passes, and each operation goes to the entry behind the last one. -/
theorem last_descriptor_passes :
    inRange 1024 1024 = true ∧ SocketEngine.boundsCheckFd 1024 (some ⟨0, 1024, true⟩) = true ∧
      (RefTable.empty : RefTable 1024).hasFd 1024 = none ∧
      (RefTable.empty : RefTable 1024).getRef 1024 = none ∧
      (⟨RefTable.empty, 0, SortedMap.empty⟩ : SelectTable 1024).addFd 1024 ⟨0, 1024, true⟩ = none ∧
      (⟨RefTable.empty, 0, SortedMap.empty⟩ : SelectTable 1024).delFd ⟨0, 1024, true⟩ false = none ∧
      (⟨RefTable.empty, 0, fun _ => none⟩ : EPollTable 1024).addFd ⟨0, 1024, true⟩ = none ∧
      (⟨RefTable.empty, 0, fun _ => some ⟨true, false⟩⟩ : EPollTable 1024).delFd ⟨0, 1024, true⟩
        false = none ∧
      ¬ChecksHold 1024 ⟨0, 1024, true⟩ := by
  refine ⟨by decide, by decide, ?_, ?_, ?_, by decide, ?_, by decide, ?_⟩
  · rw [RefTable.hasFd, if_neg (by decide)]
    exact congrArg (Option.map Option.isSome) RefTable.entry_max
  · rw [RefTable.getRef, if_neg (by decide)]
    exact RefTable.entry_max
  · rw [SelectTable.addFd, if_neg (by decide), if_neg (by decide)]
    exact congrArg (Option.bind · _) RefTable.entry_max
  · rw [EPollTable.addFd, if_neg (by decide), if_neg (by decide)]
    exact congrArg (Option.bind · _) RefTable.entry_max
  · exact fun h => absurd (h.checked (by decide)).2 (Int.lt_irrefl 1024)

end Hottpd
