import Hottpd.Core.Engines

/-!
# The tables of the socket engines

`AddFd` writes all three tables of the select engine, and only for a descriptor
that has no handler, so as long as descriptors are only added the tables are in
step. `DelFd` is where they part: it leaves an entry in `fds` behind, and the
flag. It is also where the two engines part, since only the kernel notices that
there is nothing to remove.
-/

namespace Hottpd

open Runs

/-! ## The select engine's three tables -/

/-- What is promised of the tables, and of the dispatches they have served for. -/
structure Dispatcher.InStep (d : Dispatcher) : Prop where
  keys : ∀ fd, (d.engine.fds.lookup fd).isSome ↔ (d.engine.ref fd).isSome
  self : ∀ fd v, d.engine.fds.lookup fd = some v → v = fd
  unflagged : ∀ fd owner, (fd, owner) ∈ d.former → d.engine.ref fd = none →
    d.engine.writeable fd = false
  called : d.crashed = false
  fresh : ∀ delivery ∈ d.delivered, delivery.stale = false

/-- Nothing is removed that could be registered. -/
def Dispatcher.Keeping (maxDescriptors : Nat) : EngineEvent → Prop
  | .delFd eh _ => inRange maxDescriptors eh.fd = false
  | _ => True

/-- The tables in step with nothing ever removed. -/
structure Dispatcher.Growing (d : Dispatcher) : Prop where
  keys : ∀ fd, (d.engine.fds.lookup fd).isSome ↔ (d.engine.ref fd).isSome
  self : ∀ fd v, d.engine.fds.lookup fd = some v → v = fd
  former : d.former = []
  called : d.crashed = false
  fresh : ∀ delivery ∈ d.delivered, delivery.stale = false

theorem Dispatcher.Growing.inStep {d : Dispatcher} (h : d.Growing) : d.InStep :=
  { h with unflagged := fun _ _ howner => by rw [h.former] at howner; cases howner }

variable {maxDescriptors : Nat} {fdSetsize : Int} {d : Dispatcher}

theorem Dispatcher.Growing.addFd (h : d.Growing) (eh : Handler) :
    (d.addFd maxDescriptors fdSetsize eh).Growing := by
  unfold Dispatcher.addFd SelectEngine.addFd
  split
  · exact h
  · split
    · exact h
    · split
      · exact h
      · refine { h with keys := fun fd => ?_, self := fun fd v hv => ?_ }
        · show ((d.engine.fds.insert eh.fd eh.fd).lookup fd).isSome ↔
            (Function.update d.engine.ref eh.fd (some eh) fd).isSome
          by_cases hfd : fd = eh.fd
          · subst hfd
            rw [SortedMap.lookup_insert_self _ _ rfl, Function.update_self]
            exact Iff.rfl
          · rw [SortedMap.lookup_insert_of_ne _ _ hfd, Function.update_of_ne hfd]
            exact h.keys fd
        · change (d.engine.fds.insert eh.fd eh.fd).lookup fd = some v at hv
          by_cases hfd : fd = eh.fd
          · subst hfd
            rw [SortedMap.lookup_insert_self _ _ rfl] at hv
            exact (Option.some.inj hv).symm
          · rw [SortedMap.lookup_insert_of_ne _ _ hfd] at hv
            exact h.self fd v hv

/-- Every entry of the list has a handler, so the sets are filled without a crash. -/
theorem Dispatcher.Growing.handled (h : d.Growing) {a : Int × Int}
    (ha : a ∈ d.engine.fds.entries) : (d.engine.ref a.2).isSome := by
  have hlookup : d.engine.fds.lookup a.1 = some a.2 := SortedMap.lookup_of_mem ha
  rw [h.self _ _ hlookup]
  exact (h.keys a.1).1 (by rw [hlookup]; rfl)

theorem Dispatcher.Growing.poll (h : d.Growing) (ready : Ready) : (d.poll ready).Growing := by
  unfold Dispatcher.poll
  split
  · next hany =>
      obtain ⟨a, ha, hnone⟩ := List.any_eq_true.1 hany
      have hsome := h.handled ha
      rw [Option.isNone_iff_eq_none.1 hnone] at hsome
      cases hsome
  · exact { h with }

theorem Dispatcher.Growing.not_stale (h : d.Growing) (eh : Handler) : d.isStale eh = false := by
  unfold Dispatcher.isStale
  cases d.asker eh.fd with
  | none => rfl
  | some owner => simp [h.former]

theorem Dispatcher.Growing.deliver (h : d.Growing) (eh : Handler) : (d.deliver eh).Growing := by
  have hfresh : ∀ event stale, stale = false →
      ∀ delivery ∈ d.delivered ++ [(⟨eh, event, stale⟩ : Delivery)], delivery.stale = false := by
    intro event stale hstale delivery hmem
    rcases List.mem_append.1 hmem with hmem | hmem
    · exact h.fresh delivery hmem
    · rw [List.mem_singleton.1 hmem]
      exact hstale
  unfold Dispatcher.deliver
  split
  · exact { h with fresh := hfresh .error false rfl }
  · split
    · exact { h with fresh := hfresh .write _ (h.not_stale eh) }
    · exact { h with fresh := hfresh _ false rfl }

theorem Dispatcher.Growing.step (h : d.Growing) {e : EngineEvent} {d' : Dispatcher}
    (he : Dispatcher.Keeping maxDescriptors e) (hs : d.step maxDescriptors fdSetsize e = some d') :
    d'.Growing := by
  unfold Dispatcher.step at hs
  rw [if_neg (by rw [h.called]; decide)] at hs
  cases e with
  | addFd eh =>
      cases hs
      exact h.addFd eh
  | delFd eh force =>
      cases hs
      have hout : inRange maxDescriptors eh.fd = false := he
      rw [Dispatcher.delFd, SelectEngine.delFd, if_pos hout, if_neg (by rw [hout]; decide)]
      exact h
  | wantWrite eh =>
      cases hs
      exact { h with }
  | poll ready =>
      dsimp only at hs
      split at hs
      · cases hs
        exact h.poll ready
      · cases hs
  | call =>
      dsimp only at hs
      split at hs
      · cases hs
      · cases hs
        exact { h with }
      · next eh rest _ =>
          cases hs
          have hrest : ({ d with ev := rest } : Dispatcher).Growing := { h with }
          exact hrest.deliver eh

/-- Removing a descriptor leaves a key of `fds` without a handler. -/
theorem Dispatcher.Growing.delFd_breaks (h : d.Growing) {e : EngineEvent}
    (he : ¬Dispatcher.Keeping maxDescriptors e) :
    ∃ d', d.step maxDescriptors fdSetsize e = some d' ∧ ¬d'.InStep := by
  cases e with
  | delFd eh force =>
      have hin : ¬inRange maxDescriptors eh.fd = false := he
      have hcalled : ¬d.crashed = true := by rw [h.called]; decide
      refine ⟨d.delFd maxDescriptors eh force, if_neg hcalled, fun hstep => ?_⟩
      have hkey := (hstep.keys eh.fd).1
      rw [Dispatcher.delFd, SelectEngine.delFd, if_neg hin] at hkey
      dsimp only at hkey
      rw [SortedMap.lookup_insert_self _ _ rfl, Function.update_self] at hkey
      exact absurd (hkey rfl) (by decide)
  | addFd eh => exact absurd trivial he
  | wantWrite eh => exact absurd trivial he
  | poll ready => exact absurd trivial he
  | call => exact absurd trivial he

/-- The select engine's tables are in step, and its dispatches sound, in every state reached
if and only if no descriptor it can hold is ever removed. -/
theorem select_inStep (maxDescriptors : Nat) (fdSetsize : Int) (es : List EngineEvent) :
    Throughout (Dispatcher.step maxDescriptors fdSetsize) Dispatcher.new es Dispatcher.InStep ↔
      EachStep (Dispatcher.step maxDescriptors fdSetsize) Dispatcher.new es
        fun _ e => Dispatcher.Keeping maxDescriptors e := by
  have hnew : Dispatcher.new.Growing := by
    refine ⟨fun fd => Iff.rfl, fun fd v hv => ?_, rfl, rfl, fun delivery hd => ?_⟩
    · cases hv
    · cases hd
  exact throughout_iff hnew (fun h => h.inStep) (fun h he hs => h.step he hs)
    (fun h he => h.delFd_breaks he) es

/-- Nothing is ready. -/
def Ready.nothing : Ready := ⟨fun _ => false, fun _ => false, fun _ => false⟩

/-- A connection that comes and goes, with no other descriptor about. -/
def comesAndGoes : List EngineEvent :=
  [.addFd ⟨0, 5, true⟩, .delFd ⟨0, 5, true⟩ false, .poll .nothing]

/-- A connection that goes before it could write, and another on its descriptor. -/
def reusedDescriptor : List EngineEvent :=
  [.addFd ⟨0, 5, true⟩, .wantWrite ⟨0, 5, true⟩, .delFd ⟨0, 5, true⟩ false,
    .addFd ⟨1, 5, true⟩, .poll { Ready.nothing with rfdset := fun _ => true }, .call]

/-- The first is polled through NULL, the second is told to write for the other. -/
theorem leftovers_dispatched :
    ¬Throughout (Dispatcher.step 1024 1024) Dispatcher.new comesAndGoes Dispatcher.InStep ∧
      ¬Throughout (Dispatcher.step 1024 1024) Dispatcher.new reusedDescriptor
        Dispatcher.InStep := by
  constructor
  · intro h
    have hrun : (Runs.run (Dispatcher.step 1024 1024) Dispatcher.new comesAndGoes).map
        Dispatcher.crashed = some true := by decide +kernel
    obtain ⟨d, hd, hcrashed⟩ := Option.map_eq_some_iff.1 hrun
    have hcalled := (h _ d (List.prefix_refl _) hd).called
    rw [hcrashed] at hcalled
    cases hcalled
  · intro h
    have hrun : (Runs.run (Dispatcher.step 1024 1024) Dispatcher.new reusedDescriptor).map
        Dispatcher.delivered = some [⟨⟨1, 5, true⟩, .write, true⟩] := by decide +kernel
    obtain ⟨d, hd, hdelivered⟩ := Option.map_eq_some_iff.1 hrun
    have hfresh := (h _ d (List.prefix_refl _) hd).fresh
    rw [hdelivered] at hfresh
    exact absurd (hfresh _ List.mem_cons_self) (by decide)

/-! ## The two engines -/

/-- What is promised of the two engines under the same calls. -/
structure Engines.Agree (maxDescriptors : Nat) (s : Engines) : Prop where
  results : s.selectResults = s.epollResults
  ref : s.select.ref = s.epoll.ref
  size : s.select.currentSetSize = s.epoll.currentSetSize
  counted : s.select.currentSetSize = refCount maxDescriptors s.select.ref

/-- A call of `DelFd` finds the descriptor in the table, or is out of range. -/
def Engines.Registered (maxDescriptors : Nat) (s : Engines) : EngineCall → Prop
  | .addFd _ => True
  | .delFd eh => inRange maxDescriptors eh.fd = true → (s.select.ref eh.fd).isSome

/-- Agreement, and that the kernel's list is the table. -/
structure Engines.Coupled (maxDescriptors : Nat) (s : Engines) : Prop
    extends Engines.Agree maxDescriptors s where
  kernel : ∀ fd, (s.epoll.kernel fd).isSome = (s.epoll.ref fd).isSome

theorem inRange_iff {fd : Int} :
    inRange maxDescriptors fd = true ↔ 0 ≤ fd ∧ fd ≤ maxDescriptors := by
  simp [inRange]

/-- A descriptor in range is one of the places that are counted. -/
theorem refCount_split (ref ref' : Int → Option Handler) {fd : Int}
    (hin : inRange maxDescriptors fd = true) (hsame : ∀ fd', fd' ≠ fd → ref' fd' = ref fd') :
    ∃ rest, refCount maxDescriptors ref = rest + (if (ref fd).isSome then 1 else 0) ∧
      refCount maxDescriptors ref' = rest + (if (ref' fd).isSome then 1 else 0) := by
  obtain ⟨hlow, hhigh⟩ := inRange_iff.1 hin
  obtain ⟨n, rfl⟩ := Int.eq_ofNat_of_zero_le hlow
  have hn : n ∈ List.range (maxDescriptors + 1) := List.mem_range.2 (by omega)
  obtain ⟨before, behind, hsplit⟩ := List.append_of_mem hn
  have hnodup : (before ++ n :: behind).Nodup := hsplit ▸ List.nodup_range
  have hsame' : ∀ l : List Nat, n ∉ l →
      l.countP (fun fd : Nat => (ref' fd).isSome) = l.countP fun fd : Nat => (ref fd).isSome := by
    intro l hl
    refine List.countP_congr fun m hm => ?_
    have hne : (m : Int) ≠ n := by
      intro h
      obtain rfl := Int.ofNat_inj.1 h
      exact hl hm
    rw [hsame m hne]
  rw [List.perm_middle.nodup_iff, List.nodup_cons, List.mem_append, not_or] at hnodup
  refine ⟨(before ++ behind).countP fun fd : Nat => (ref fd).isSome, ?_, ?_⟩
  · rw [refCount, hsplit, List.countP_append, List.countP_cons, List.countP_append]
    omega
  · rw [refCount, hsplit, List.countP_append, List.countP_cons, hsame' _ hnodup.1.1,
      hsame' _ hnodup.1.2, List.countP_append]
    omega

variable {s : Engines}

theorem Engines.Coupled.addFd (h : s.Coupled maxDescriptors) (eh : Handler) :
    (s.record (s.select.addFd maxDescriptors maxDescriptors eh)
      (s.epoll.addFd maxDescriptors eh)).Coupled maxDescriptors := by
  have hrefuse : (s.record (false, s.select) (false, s.epoll)).Coupled maxDescriptors :=
    { h with results := show _ ++ _ = _ ++ _ by rw [h.results] }
  unfold SelectEngine.addFd EPollEngine.addFd SelectEngine.getRemainingFds
    EPollEngine.getRemainingFds
  rw [← h.size, ← h.ref]
  split
  · exact hrefuse
  · next hin =>
      split
      · exact hrefuse
      · split
        · exact hrefuse
        · next hfree =>
            have hin' : inRange maxDescriptors eh.fd = true := Bool.not_eq_false _ ▸ hin
            have hkernel : ¬(s.epoll.kernel eh.fd).isSome = true := by
              rw [h.kernel, ← h.ref]
              exact hfree
            rw [if_neg hkernel]
            obtain ⟨rest, hold, hnew⟩ := refCount_split s.select.ref
              (Function.update s.select.ref eh.fd (some eh)) hin'
              fun fd hfd => Function.update_of_ne hfd _ _
            rw [if_neg hfree] at hold
            rw [Function.update_self, Option.isSome_some, if_pos rfl] at hnew
            constructor
            · constructor
              · show _ ++ [true] = _ ++ [true]
                rw [h.results]
              · rfl
              · rfl
              · show s.select.currentSetSize + 1 = _
                rw [h.counted, hold]
                show _ = ((refCount maxDescriptors
                  (Function.update s.select.ref eh.fd (some eh)) : Nat) : Int)
                rw [hnew]
                omega
            · intro fd
              show (Function.update s.epoll.kernel eh.fd (some eh.mask) fd).isSome
                = (Function.update s.select.ref eh.fd (some eh) fd).isSome
              by_cases hfd : fd = eh.fd
              · subst hfd
                rw [Function.update_self, Function.update_self]
                rfl
              · rw [Function.update_of_ne hfd, Function.update_of_ne hfd, h.kernel, h.ref]

theorem Engines.Coupled.delFd (h : s.Coupled maxDescriptors) {eh : Handler}
    (hreg : s.Registered maxDescriptors (.delFd eh)) :
    (s.record (s.select.delFd maxDescriptors eh false)
      (s.epoll.delFd maxDescriptors eh false)).Coupled maxDescriptors := by
  unfold SelectEngine.delFd EPollEngine.delFd
  split
  · exact { h with results := show _ ++ _ = _ ++ _ by rw [h.results] }
  · next hin =>
      have hin' : inRange maxDescriptors eh.fd = true := Bool.not_eq_false _ ▸ hin
      have hsome : (s.select.ref eh.fd).isSome = true := hreg hin'
      have hkernel : ¬(s.epoll.kernel eh.fd = none ∧ false = false) := by
        rintro ⟨hnone, -⟩
        have hk := h.kernel eh.fd
        rw [hnone, ← h.ref, hsome] at hk
        cases hk
      rw [if_neg hkernel]
      obtain ⟨rest, hold, hnew⟩ := refCount_split s.select.ref
        (Function.update s.select.ref eh.fd none) hin'
        fun fd hfd => Function.update_of_ne hfd _ _
      rw [if_pos hsome] at hold
      rw [Function.update_self, if_neg (by decide)] at hnew
      constructor
      · constructor
        · show _ ++ [true] = _ ++ [true]
          rw [h.results]
        · show Function.update s.select.ref eh.fd none = Function.update s.epoll.ref eh.fd none
          rw [h.ref]
        · show s.select.currentSetSize - 1 = s.epoll.currentSetSize - 1
          rw [h.size]
        · show s.select.currentSetSize - 1 = ((refCount maxDescriptors
            (Function.update s.select.ref eh.fd none) : Nat) : Int)
          rw [h.counted, hold, hnew]
          omega
      · intro fd
        show (Function.update s.epoll.kernel eh.fd none fd).isSome
          = (Function.update s.epoll.ref eh.fd none fd).isSome
        by_cases hfd : fd = eh.fd
        · subst hfd
          rw [Function.update_self, Function.update_self]
          rfl
        · rw [Function.update_of_ne hfd, Function.update_of_ne hfd, h.kernel]

/-- Of a descriptor that is not there the select engine says that it removed it. -/
theorem Engines.Coupled.delFd_breaks (h : s.Coupled maxDescriptors) {call : EngineCall}
    (hreg : ¬s.Registered maxDescriptors call) :
    ∃ s', s.step maxDescriptors call = some s' ∧ ¬s'.Agree maxDescriptors := by
  cases call with
  | addFd eh => exact absurd trivial hreg
  | delFd eh =>
      obtain ⟨hin, hnone⟩ := Classical.not_imp.1 hreg
      have hout : ¬inRange maxDescriptors eh.fd = false := by rw [hin]; decide
      have hkernel : s.epoll.kernel eh.fd = none := by
        have hk := h.kernel eh.fd
        rw [← h.ref] at hk
        exact Option.not_isSome_iff_eq_none.1 fun hsome => hnone (hk ▸ hsome)
      refine ⟨_, rfl, fun hagree => ?_⟩
      have hresults := hagree.results
      simp only [Engines.record, SelectEngine.delFd, EPollEngine.delFd, if_neg hout] at hresults
      rw [if_pos ⟨hkernel, trivial⟩, h.results] at hresults
      exact absurd (List.append_cancel_left hresults) (by simp)

/-- The engines agree in every state reached, and count right, if and only if nothing is
removed that is not there. -/
theorem engines_agree (maxDescriptors : Nat) (calls : List EngineCall) :
    Throughout (Engines.step maxDescriptors) Engines.new calls (Engines.Agree maxDescriptors) ↔
      EachStep (Engines.step maxDescriptors) Engines.new calls
        (Engines.Registered maxDescriptors) := by
  have hnew : Engines.new.Coupled maxDescriptors := by
    refine ⟨⟨rfl, rfl, rfl, ?_⟩, fun fd => rfl⟩
    have hzero : refCount maxDescriptors Engines.new.select.ref = 0 :=
      List.countP_eq_zero.2 fun fd _ h => by cases h
    rw [hzero]
    rfl
  refine throughout_iff hnew (fun h => h.toAgree) (fun {s call s'} h hcall hs => ?_)
    (fun h hreg => h.delFd_breaks hreg) calls
  cases call with
  | addFd eh =>
      cases hs
      exact h.addFd eh
  | delFd eh =>
      cases hs
      exact h.delFd hcall

/-- A connection that was never added is removed. -/
theorem never_added :
    ¬Throughout (Engines.step 1024) Engines.new [.delFd ⟨0, 5, true⟩] (Engines.Agree 1024) := by
  intro h
  have hagree := h _ _ (List.prefix_refl _) rfl
  exact absurd hagree.results (by decide)

end Hottpd
