import Hottpd.Core.Registry
import Hottpd.Proofs.Engines

/-!
# Four engines and one registry

Each engine counts its handlers, and the count is that of its table. With that all
four register as the registry does. The epoll and kqueue engines ask the kernel whether
a descriptor can be removed, and answer as the registry does. The other two remove what
is not there, and say that they did.
-/

namespace Hottpd

open Runs Simulation

variable {maxDescriptors : Nat}

/-- What is seen of an engine: its table, and the number of handlers in it. -/
def Shows (ref : Int → Option Handler) (size : Int) (r : Registry maxDescriptors) : Prop :=
  ref = r.table ∧ size = r.count

namespace Registry

variable {r : Registry maxDescriptors} {eh : Handler}

/-- The tests that `AddFd` of every engine begins with. -/
theorem addFd_tests {α : Type} {ref : Int → Option Handler} {size : Int} (h : Shows ref size r)
    (eh : Handler) (refused done : α) :
    (if inRange maxDescriptors eh.fd = false then refused
      else if maxDescriptors - size ≤ 1 then refused
      else if (ref eh.fd).isSome then refused
      else done) = if r.Free eh then done else refused := by
  obtain ⟨href, hsize⟩ := h
  rw [href, hsize]
  by_cases hfree : r.Free eh
  · obtain ⟨hin, hroom, hnone⟩ := hfree
    rw [if_neg (by rw [hin]; decide), if_neg (by omega), if_neg (by rw [hnone]; decide),
      if_pos ⟨hin, hroom, hnone⟩]
  · rw [if_neg hfree]
    split
    · rfl
    · next hin =>
        split
        · rfl
        · next hroom =>
            split
            · rfl
            · next hnone =>
                refine absurd ⟨Bool.not_eq_false _ ▸ hin, ?_, ?_⟩ hfree
                · omega
                · exact Option.not_isSome_iff_eq_none.1 hnone

theorem register_of_free (h : r.Free eh) : (r.register eh).1 = true ∧
    (r.register eh).2.table = Function.update r.table eh.fd (some eh) := by
  unfold register
  rw [dif_pos h]
  exact ⟨rfl, rfl⟩

theorem register_of_not_free (h : ¬r.Free eh) : r.register eh = (false, r) := dif_neg h

theorem remove_of_taken (h : r.Taken eh.fd) : (r.remove eh).1 = true ∧
    (r.remove eh).2.table = Function.update r.table eh.fd none := by
  unfold remove
  rw [if_pos h]
  exact ⟨rfl, rfl⟩

theorem remove_of_not_taken (h : ¬r.Taken eh.fd) : r.remove eh = (false, r) := if_neg h

/-- What is taken is in range. -/
theorem Taken.inRange {fd : Int} (h : r.Taken fd) : inRange maxDescriptors fd = true := by
  obtain ⟨owner, howner⟩ := Option.isSome_iff_exists.1 h
  exact (r.own fd owner howner).2

theorem count_register (h : r.Free eh) : (r.register eh).2.count = r.count + 1 := by
  obtain ⟨-, htable⟩ := register_of_free h
  obtain ⟨rest, hold, hnew⟩ := refCount_split r.table
    (Function.update r.table eh.fd (some eh)) h.1 fun fd hfd => Function.update_of_ne hfd _ _
  rw [h.2.2, if_neg (by decide)] at hold
  rw [Function.update_self, Option.isSome_some, if_pos rfl] at hnew
  rw [count, htable, hnew, count, hold]

theorem count_remove (h : r.Taken eh.fd) : (r.remove eh).2.count + 1 = r.count := by
  obtain ⟨-, htable⟩ := remove_of_taken h
  obtain ⟨rest, hold, hnew⟩ := refCount_split r.table
    (Function.update r.table eh.fd none) h.inRange fun fd hfd => Function.update_of_ne hfd _ _
  rw [if_pos (show (r.table eh.fd).isSome = true from h)] at hold
  rw [Function.update_self, if_neg (by decide)] at hnew
  rw [count, htable, hnew, count, hold]

/-- A handler that is registered shows. -/
theorem shows_register {ref : Int → Option Handler} {size : Int} (h : Shows ref size r)
    (hfree : r.Free eh) :
    Shows (Function.update ref eh.fd (some eh)) (size + 1) (r.register eh).2 := by
  refine ⟨?_, ?_⟩
  · rw [(register_of_free hfree).2, h.1]
  · rw [count_register hfree, h.2]
    rfl

theorem shows_remove {ref : Int → Option Handler} {size : Int} (h : Shows ref size r)
    (htaken : r.Taken eh.fd) :
    Shows (Function.update ref eh.fd none) (size - 1) (r.remove eh).2 := by
  refine ⟨?_, ?_⟩
  · rw [(remove_of_taken htaken).2, h.1]
  · have hcount := count_remove htaken
    rw [h.2]
    omega

theorem shows_empty : Shows (fun _ => none) 0 (empty : Registry maxDescriptors) := by
  refine ⟨rfl, ?_⟩
  have hzero : (empty : Registry maxDescriptors).count = 0 :=
    List.countP_eq_zero.2 fun fd _ h => by cases h
  rw [hzero]
  rfl

end Registry

/-- The condition on a call for an engine that does not ask: only what is registered, or out of
range, is removed. -/
def Removes (r : Registry maxDescriptors) : EngineCall → Prop
  | .addFd _ => True
  | .delFd eh => inRange maxDescriptors eh.fd = true → r.Taken eh.fd

/-! ## What each engine does -/

section Steps

variable {r : Registry maxDescriptors}

/-- A handler is registered, or the engine is as it was. -/
theorem answers_register {E : Type} {K : E → Registry maxDescriptors → Prop} {e done : E}
    {eh : Handler} (h : K e r) (hdone : r.Free eh → K done (r.register eh).2) :
    (if r.Free eh then (true, done) else (false, e)).1 = (r.register eh).1 ∧
      K (if r.Free eh then (true, done) else (false, e)).2 (r.register eh).2 := by
  by_cases hfree : r.Free eh
  · rw [if_pos hfree]
    exact ⟨(Registry.register_of_free hfree).1.symm, hdone hfree⟩
  · rw [if_neg hfree, Registry.register_of_not_free hfree]
    exact ⟨rfl, h⟩

theorem answers_remove {E : Type} {K : E → Registry maxDescriptors → Prop} {e done : E}
    {eh : Handler} (h : K e r) (hdone : r.Taken eh.fd → K done (r.remove eh).2) :
    (if r.Taken eh.fd then (true, done) else (false, e)).1 = (r.remove eh).1 ∧
      K (if r.Taken eh.fd then (true, done) else (false, e)).2 (r.remove eh).2 := by
  by_cases htaken : r.Taken eh.fd
  · rw [if_pos htaken]
    exact ⟨(Registry.remove_of_taken htaken).1.symm, hdone htaken⟩
  · rw [if_neg htaken, Registry.remove_of_not_taken htaken]
    exact ⟨rfl, h⟩

theorem SelectEngine.addFd_eq {e : SelectEngine} (h : Shows e.ref e.currentSetSize r)
    (eh : Handler) : e.addFd maxDescriptors maxDescriptors eh =
      if r.Free eh then
        (true, { e with
          fds := e.fds.insert eh.fd eh.fd
          ref := Function.update e.ref eh.fd (some eh)
          currentSetSize := e.currentSetSize + 1 })
      else (false, e) :=
  Registry.addFd_tests h eh _ _

theorem PortsEngine.addFd_eq {e : PortsEngine} (h : Shows e.ref e.currentSetSize r)
    (eh : Handler) : e.addFd maxDescriptors eh =
      if r.Free eh then
        (true, {
          ref := Function.update e.ref eh.fd (some eh)
          kernel := Function.update e.kernel eh.fd (some ⟨eh.readable, !eh.readable⟩)
          currentSetSize := e.currentSetSize + 1 })
      else (false, e) :=
  Registry.addFd_tests h eh _ _

theorem KQueueEngine.addFd_eq {e : KQueueEngine} (h : Shows e.ref e.currentSetSize r)
    (eh : Handler) : e.addFd maxDescriptors eh =
      if r.Free eh then
        (true, {
          kernel := setNote eh.fd eh.filter (some false) e.kernel
          ref := Function.update e.ref eh.fd (some eh)
          currentSetSize := e.currentSetSize + 1 })
      else (false, e) :=
  Registry.addFd_tests h eh _ _

/-- The kernel's list is the table. -/
theorem EPollEngine.addFd_eq {e : EPollEngine} (h : Shows e.ref e.currentSetSize r)
    (hkernel : ∀ fd, (e.kernel fd).isSome = (e.ref fd).isSome) (eh : Handler) :
    e.addFd maxDescriptors eh =
      if r.Free eh then
        (true, {
          kernel := Function.update e.kernel eh.fd (some eh.mask)
          ref := Function.update e.ref eh.fd (some eh)
          currentSetSize := e.currentSetSize + 1 })
      else (false, e) := by
  refine (Registry.addFd_tests h eh _ _).trans ?_
  split
  · next hfree =>
      have hnone : (e.kernel eh.fd).isSome = false := by
        rw [hkernel, h.1, hfree.2.2]
        rfl
      rw [hnone]
      rfl
  · rfl

/-- A removal by an engine that tells from its list whether there is something to remove. -/
theorem removal_eq {E : Type} {e done : E} {eh : Handler} {listed : Prop} [Decidable listed]
    (hlisted : listed ↔ ¬r.Taken eh.fd) :
    (if inRange maxDescriptors eh.fd = false then (false, e)
      else if listed then (false, e)
      else (true, done)) = if r.Taken eh.fd then (true, done) else (false, e) := by
  by_cases htaken : r.Taken eh.fd
  · rw [if_neg (by rw [htaken.inRange]; decide), if_neg fun h => hlisted.1 h htaken,
      if_pos htaken]
  · rw [if_neg htaken, if_pos (hlisted.2 htaken)]
    split
    · rfl
    · rfl

/-- A removal by an engine that does not, where there is. -/
theorem removal_eq_of_removes {E : Type} {e done : E} {eh : Handler}
    (h : Removes r (.delFd eh)) :
    (if inRange maxDescriptors eh.fd = false then (false, e) else (true, done))
      = if r.Taken eh.fd then (true, done) else (false, e) := by
  by_cases htaken : r.Taken eh.fd
  · rw [if_neg (by rw [htaken.inRange]; decide), if_pos htaken]
  · rw [if_neg htaken, if_pos (Bool.eq_false_iff.2 fun hin => htaken (h hin))]

/-- The kernel's list is the table. -/
def EPollEngine.Keeps (e : EPollEngine) (r : Registry maxDescriptors) : Prop :=
  Shows e.ref e.currentSetSize r ∧ ∀ fd, (e.kernel fd).isSome = (e.ref fd).isSome

theorem EPollEngine.Keeps.addFd {e : EPollEngine} (h : e.Keeps r) (eh : Handler) :
    (e.addFd maxDescriptors eh).1 = (r.register eh).1 ∧
      (e.addFd maxDescriptors eh).2.Keeps (r.register eh).2 := by
  obtain ⟨hshows, hkernel⟩ := h
  rw [EPollEngine.addFd_eq hshows hkernel]
  refine answers_register (K := EPollEngine.Keeps) ⟨hshows, hkernel⟩ fun hfree =>
    ⟨Registry.shows_register hshows hfree, fun fd => ?_⟩
  by_cases hfd : fd = eh.fd
  · subst hfd
    simp
  · simp [Function.update_of_ne hfd, hkernel]

theorem EPollEngine.Keeps.delFd {e : EPollEngine} (h : e.Keeps r) (eh : Handler) :
    (e.delFd maxDescriptors eh false).1 = (r.remove eh).1 ∧
      (e.delFd maxDescriptors eh false).2.Keeps (r.remove eh).2 := by
  obtain ⟨hshows, hkernel⟩ := h
  have hlisted : (e.kernel eh.fd = none ∧ false = false) ↔ ¬r.Taken eh.fd := by
    rw [Registry.Taken, ← hshows.1, ← hkernel, Option.not_isSome_iff_eq_none]
    exact and_iff_left rfl
  rw [EPollEngine.delFd, removal_eq hlisted]
  refine answers_remove (K := EPollEngine.Keeps) ⟨hshows, hkernel⟩ fun htaken =>
    ⟨Registry.shows_remove hshows htaken, fun fd => ?_⟩
  by_cases hfd : fd = eh.fd
  · subst hfd
    simp
  · simp [Function.update_of_ne hfd, hkernel]

/-- There is a note for each handler, and for nobody else. -/
def KQueueEngine.Keeps (e : KQueueEngine) (r : Registry maxDescriptors) : Prop :=
  Shows e.ref e.currentSetSize r ∧
    ∀ fd, (e.ref fd).isSome = true ↔ ¬(e.kernel fd .write = none ∧ e.kernel fd .read = none)

theorem KQueueEngine.Keeps.addFd {e : KQueueEngine} (h : e.Keeps r) (eh : Handler) :
    (e.addFd maxDescriptors eh).1 = (r.register eh).1 ∧
      (e.addFd maxDescriptors eh).2.Keeps (r.register eh).2 := by
  obtain ⟨hshows, hnoted⟩ := h
  rw [KQueueEngine.addFd_eq hshows]
  refine answers_register (K := KQueueEngine.Keeps) ⟨hshows, hnoted⟩ fun hfree =>
    ⟨Registry.shows_register hshows hfree, fun fd => ?_⟩
  by_cases hfd : fd = eh.fd
  · subst hfd
    cases hfilter : eh.filter with
    | read => simp [setNote]
    | write => simp [setNote]
  · simp [setNote, Function.update_of_ne hfd, hnoted fd]

theorem KQueueEngine.Keeps.delFd {e : KQueueEngine} (h : e.Keeps r) (eh : Handler) :
    (e.delFd maxDescriptors eh false).1 = (r.remove eh).1 ∧
      (e.delFd maxDescriptors eh false).2.Keeps (r.remove eh).2 := by
  obtain ⟨hshows, hnoted⟩ := h
  have hlisted : (e.kernel eh.fd .write = none ∧ e.kernel eh.fd .read = none ∧ false = false) ↔
      ¬r.Taken eh.fd := by
    rw [Registry.Taken, ← hshows.1, hnoted, Classical.not_not, and_iff_left rfl]
  rw [KQueueEngine.delFd, removal_eq hlisted]
  refine answers_remove (K := KQueueEngine.Keeps) ⟨hshows, hnoted⟩ fun htaken =>
    ⟨Registry.shows_remove hshows htaken, fun fd => ?_⟩
  by_cases hfd : fd = eh.fd
  · subst hfd
    simp [setNote]
  · simp [setNote, Function.update_of_ne hfd, hnoted fd]

/-- The select engine, while nothing is removed that is not there. -/
def SelectEngine.Keeps (e : SelectEngine) (r : Registry maxDescriptors) : Prop :=
  Shows e.ref e.currentSetSize r

theorem SelectEngine.Keeps.addFd {e : SelectEngine} (h : e.Keeps r) (eh : Handler) :
    (e.addFd maxDescriptors maxDescriptors eh).1 = (r.register eh).1 ∧
      (e.addFd maxDescriptors maxDescriptors eh).2.Keeps (r.register eh).2 := by
  rw [SelectEngine.addFd_eq h]
  exact answers_register (K := SelectEngine.Keeps) h fun hfree => Registry.shows_register h hfree

theorem SelectEngine.Keeps.delFd {e : SelectEngine} (h : e.Keeps r) {eh : Handler}
    (hremoves : Removes r (.delFd eh)) :
    (e.delFd maxDescriptors eh false).1 = (r.remove eh).1 ∧
      (e.delFd maxDescriptors eh false).2.Keeps (r.remove eh).2 := by
  rw [SelectEngine.delFd, removal_eq_of_removes hremoves]
  exact answers_remove (K := SelectEngine.Keeps) h fun htaken => Registry.shows_remove h htaken

def PortsEngine.Keeps (e : PortsEngine) (r : Registry maxDescriptors) : Prop :=
  Shows e.ref e.currentSetSize r

theorem PortsEngine.Keeps.addFd {e : PortsEngine} (h : e.Keeps r) (eh : Handler) :
    (e.addFd maxDescriptors eh).1 = (r.register eh).1 ∧
      (e.addFd maxDescriptors eh).2.Keeps (r.register eh).2 := by
  rw [PortsEngine.addFd_eq h]
  exact answers_register (K := PortsEngine.Keeps) h fun hfree => Registry.shows_register h hfree

theorem PortsEngine.Keeps.delFd {e : PortsEngine} (h : e.Keeps r) {eh : Handler}
    (hremoves : Removes r (.delFd eh)) :
    (e.delFd maxDescriptors eh false).1 = (r.remove eh).1 ∧
      (e.delFd maxDescriptors eh false).2.Keeps (r.remove eh).2 := by
  rw [PortsEngine.delFd, removal_eq_of_removes hremoves]
  exact answers_remove (K := PortsEngine.Keeps) h fun htaken => Registry.shows_remove h htaken

end Steps

/-! ## Runs -/

end Hottpd
