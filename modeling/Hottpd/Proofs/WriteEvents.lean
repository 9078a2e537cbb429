import Hottpd.Core.KernelQueues

/-!
# Waiting for a write event

`WantWrite` is to bring about the handler's next write event. A kqueue has a note of its own
for it, which survives what else is reported for the descriptor. A port has one association,
and the loop of `DispatchEvents` replaces it with one for reading before it calls the handler.
So a handler that asks while a read event of its descriptor is still to be worked off asks in
vain.

Both engines may be left watching a descriptor without a handler: `WantWrite` does not look at
the table, and the kqueue engine goes back to reading before it looks.
-/

namespace Hottpd

open Runs

variable {maxDescriptors : Nat}

/-- A call is an answer to its own handler only. -/
theorem Dispatching.deliver_wants {E R : Type} {d : Dispatching E R} {eh : Handler}
    {event : EventType} {fd fd' : Int} (hne : fd' ≠ fd) :
    (d.deliver eh fd event).wants fd' = d.wants fd' := by
  unfold Dispatching.deliver
  dsimp only
  split
  · rfl
  · exact Function.update_of_ne hne _ _

/-! ## The ports engine -/

/-- Every handler is watched for or about to be called, nothing else is watched or called, and
who waits to write is watched for that, or what comes next for it is a write event. -/
structure PortsServed (d : Dispatching PortsEngine PortEvent) : Prop where
  watched : ∀ fd, (d.engine.ref fd).isSome = true →
    (d.engine.kernel fd).isSome = true ∨ ∃ ev ∈ d.events, ev.object = fd
  owned : ∀ fd, (d.engine.kernel fd).isSome = true → (d.engine.ref fd).isSome = true
  promised : ∀ fd, (d.engine.ref fd).isSome = true → d.wants fd = true →
    (∀ ev ∈ d.events, ev.object = fd → ev.events.rdnorm = false) ∧
      (d.engine.kernel fd = some ⟨false, true⟩ ∨ ∃ ev ∈ d.events, ev.object = fd)
  called : ∀ fd eh event, d.called = some (fd, eh, event) → d.engine.ref fd = some eh

/-- The condition on a step: only a registered handler asks for a write event, and not while a
read event of its descriptor is to be worked off. -/
def PortsTimely (d : Dispatching PortsEngine PortEvent) : QueueEvent PortEvent → Prop
  | .wantWrite eh => (d.engine.ref eh.fd).isSome = true ∧
      ∀ ev ∈ d.events, ev.object = eh.fd → ev.events.rdnorm = false
  | .addFd _ | .delFd _ _ | .poll _ | .call => True

variable {d d' : Dispatching PortsEngine PortEvent}

/-- A call that is refused. -/
theorem PortsServed.refused (h : PortsServed d) (fd : Int) :
    PortsServed (d.registered fd (false, d.engine)) :=
  ⟨h.watched, h.owned, h.promised, fun _ _ _ hcalled => by cases hcalled⟩

theorem PortsServed.addFd (h : PortsServed d) (eh : Handler) :
    PortsServed (d.registered eh.fd (d.engine.addFd maxDescriptors eh)) := by
  unfold PortsEngine.addFd
  split
  · exact h.refused eh.fd
  · split
    · exact h.refused eh.fd
    · split
      · exact h.refused eh.fd
      · refine ⟨fun fd hfd => ?_, fun fd hfd => ?_, fun fd hfd hwants => ?_,
          fun _ _ _ hcalled => by cases hcalled⟩
        · by_cases heq : fd = eh.fd
          · subst heq
            exact Or.inl (by simp [Dispatching.registered])
          · simp only [Dispatching.registered, Function.update_of_ne heq] at hfd ⊢
            exact h.watched fd hfd
        · by_cases heq : fd = eh.fd
          · subst heq
            simp [Dispatching.registered]
          · simp only [Dispatching.registered, Function.update_of_ne heq] at hfd ⊢
            exact h.owned fd hfd
        · by_cases heq : fd = eh.fd
          · subst heq
            simp [Dispatching.registered] at hwants
          · simp only [Dispatching.registered, if_true, Function.update_of_ne heq]
              at hfd hwants ⊢
            exact h.promised fd hfd hwants

theorem PortsServed.delFd (h : PortsServed d) (eh : Handler) (force : Bool) :
    PortsServed (d.registered eh.fd (d.engine.delFd maxDescriptors eh force)) := by
  unfold PortsEngine.delFd
  split
  · exact h.refused eh.fd
  · refine ⟨fun fd hfd => ?_, fun fd hfd => ?_, fun fd hfd hwants => ?_,
    fun _ _ _ hcalled => by cases hcalled⟩
    · by_cases heq : fd = eh.fd
      · subst heq
        simp [Dispatching.registered] at hfd
      · simp only [Dispatching.registered, Function.update_of_ne heq] at hfd ⊢
        exact h.watched fd hfd
    · by_cases heq : fd = eh.fd
      · subst heq
        simp [Dispatching.registered] at hfd
      · simp only [Dispatching.registered, Function.update_of_ne heq] at hfd ⊢
        exact h.owned fd hfd
    · by_cases heq : fd = eh.fd
      · subst heq
        simp [Dispatching.registered] at hfd
      · simp only [Dispatching.registered, if_true, Function.update_of_ne heq] at hfd hwants ⊢
        exact h.promised fd hfd hwants

theorem PortsServed.wantWrite (h : PortsServed d) {eh : Handler}
    (htimely : PortsTimely d (.wantWrite eh)) :
    PortsServed (d.asked eh.fd (d.engine.wantWrite eh)) := by
  obtain ⟨hregistered, hread⟩ := htimely
  refine ⟨fun fd hfd => ?_, fun fd hfd => ?_, fun fd hfd hwants => ?_,
    fun _ _ _ hcalled => by cases hcalled⟩
  · by_cases heq : fd = eh.fd
    · subst heq
      exact Or.inl (by simp [Dispatching.asked, PortsEngine.wantWrite])
    · simp only [Dispatching.asked, PortsEngine.wantWrite, Function.update_of_ne heq]
      exact h.watched fd hfd
  · by_cases heq : fd = eh.fd
    · subst heq
      exact hregistered
    · simp only [Dispatching.asked, PortsEngine.wantWrite, Function.update_of_ne heq] at hfd
      exact h.owned fd hfd
  · by_cases heq : fd = eh.fd
    · subst heq
      exact ⟨hread, Or.inl (by simp [Dispatching.asked, PortsEngine.wantWrite])⟩
    · simp only [Dispatching.asked, PortsEngine.wantWrite, Function.update_of_ne heq] at hwants ⊢
      exact h.promised fd hfd hwants

/-- What is reported of a descriptor is what it was associated for. -/
theorem reportable_mask {kernel : Int → Option PollMask} {reports : List PortEvent}
    (h : reportable kernel reports = true) {ev : PortEvent} (hev : ev ∈ reports)
    (hmask : kernel ev.object = some ⟨false, true⟩) : ev.events.rdnorm = false := by
  obtain ⟨-, hreports⟩ := of_decide_eq_true h
  have hany := hreports ev hev
  rw [hmask] at hany
  simpa using hany

theorem PortsServed.poll (h : PortsServed d) (hidle : d.events = []) {reports : List PortEvent}
    (hreports : reportable d.engine.kernel reports = true) :
    PortsServed { d with
      engine := { d.engine with
        kernel := fun fd =>
          if fd ∈ reports.map PortEvent.object then none else d.engine.kernel fd }
      events := reports
      called := none } := by
  have hnone : ∀ fd, ¬∃ ev ∈ d.events, ev.object = fd := by
    rintro fd ⟨ev, hev, -⟩
    rw [hidle] at hev
    cases hev
  refine ⟨fun fd hfd => ?_, fun fd hfd => ?_, fun fd hfd hwants => ?_,
    fun _ _ _ hcalled => by cases hcalled⟩
  · dsimp only
    split
    · next hmem => exact Or.inr (List.mem_map.1 hmem)
    · exact Or.inl ((h.watched fd hfd).resolve_right (hnone fd))
  · dsimp only at hfd
    split at hfd
    · cases hfd
    · exact h.owned fd hfd
  · obtain ⟨-, hmask⟩ := h.promised fd hfd hwants
    have hmask := hmask.resolve_right (hnone fd)
    refine ⟨fun ev hev hobject => reportable_mask hreports hev (hobject ▸ hmask), ?_⟩
    dsimp only
    split
    · next hmem => exact Or.inr (List.mem_map.1 hmem)
    · exact Or.inl hmask

theorem PortsServed.turn (h : PortsServed d) {ev : PortEvent} {rest : List PortEvent}
    (hevents : d.events = ev :: rest) :
    PortsServed ({ d with events := rest, called := none }.portsTurn ev) := by
  have hrest : ∀ fd, ev.object ≠ fd → (∃ ev' ∈ d.events, ev'.object = fd) →
      ∃ ev' ∈ rest, ev'.object = fd := by
    rintro fd hne ⟨ev', hev', hobject⟩
    rw [hevents] at hev'
    rcases List.mem_cons.1 hev' with rfl | hev'
    · exact absurd hobject hne
    · exact ⟨ev', hev', hobject⟩
  have hsub : ∀ ev' ∈ rest, ev' ∈ d.events := by
    intro ev' hev'
    rw [hevents]
    exact List.mem_cons_of_mem _ hev'
  unfold Dispatching.portsTurn
  dsimp only
  split
  · next hnone =>
      -- the handler has gone, and what is left of the array is for others
      have hne : ∀ fd, (d.engine.ref fd).isSome = true → ev.object ≠ fd := by
        rintro fd hfd rfl
        rw [hnone] at hfd
        cases hfd
      refine ⟨fun fd hfd => (h.watched fd hfd).imp_right (hrest fd (hne fd hfd)), h.owned,
        fun fd hfd hwants => ?_, fun _ _ _ hcalled => by cases hcalled⟩
      obtain ⟨hwrite, hnext⟩ := h.promised fd hfd hwants
      exact ⟨fun ev' hev' => hwrite ev' (hsub ev' hev'),
        hnext.imp_right (hrest fd (hne fd hfd))⟩
  · next eh hsome =>
      refine ⟨fun fd hfd => ?_, fun fd hfd => ?_, fun fd hfd hwants => ?_,
        fun fd eh' event hcalled => ?_⟩
      · by_cases heq : ev.object = fd
        · subst heq
          exact Or.inl (by simp [Dispatching.deliver])
        · simp only [Dispatching.deliver, Function.update_of_ne (Ne.symm heq)]
          exact (h.watched fd hfd).imp_right (hrest fd heq)
      · by_cases heq : ev.object = fd
        · subst heq
          show (d.engine.ref ev.object).isSome = true
          rw [hsome]
          rfl
        · simp only [Dispatching.deliver, Function.update_of_ne (Ne.symm heq)] at hfd
          exact h.owned fd hfd
      · by_cases heq : ev.object = fd
        · subst heq
          cases hread : ev.events.rdnorm with
          | false => simp [Dispatching.deliver, hread] at hwants
          | true =>
              simp only [Dispatching.deliver, hread, if_true] at hwants
              have hwrite := (h.promised ev.object hfd hwants).1 ev
                (by rw [hevents]; exact List.mem_cons_self) rfl
              rw [hread] at hwrite
              cases hwrite
        · rw [Dispatching.deliver_wants (Ne.symm heq)] at hwants
          obtain ⟨hwrite, hnext⟩ := h.promised fd hfd hwants
          refine ⟨fun ev' hev' => hwrite ev' (hsub ev' hev'), ?_⟩
          simp only [Dispatching.deliver, Function.update_of_ne (Ne.symm heq)]
          exact hnext.imp_right (hrest fd heq)
      · cases hcalled
        exact hsome

theorem PortsServed.step (h : PortsServed d) {e : QueueEvent PortEvent}
    (htimely : PortsTimely d e) (hstep : portsStep maxDescriptors d e = some d') :
    PortsServed d' := by
  cases e with
  | addFd eh =>
      cases hstep
      exact h.addFd eh
  | delFd eh force =>
      cases hstep
      exact h.delFd eh force
  | wantWrite eh =>
      cases hstep
      exact h.wantWrite htimely
  | poll reports =>
      obtain ⟨⟨hidle, hreports⟩, hstep⟩ := Option.ite_none_right_eq_some.1 hstep
      cases hstep
      exact h.poll hidle hreports
  | call =>
      cases hevents : d.events with
      | nil => simp [portsStep, hevents] at hstep
      | cons ev rest =>
          simp only [portsStep, hevents, Option.some.injEq] at hstep
          subst hstep
          exact h.turn hevents

/-- A handler that is not registered is watched, or one that asks too early is not heard. -/
theorem PortsServed.breaks {e : QueueEvent PortEvent} (htimely : ¬PortsTimely d e) :
    ∃ d', portsStep maxDescriptors d e = some d' ∧ ¬PortsServed d' := by
  cases e with
  | addFd _ | delFd _ _ | poll _ | call => exact absurd trivial htimely
  | wantWrite eh =>
      refine ⟨_, rfl, fun hserved => htimely ?_⟩
      have hregistered : (d.engine.ref eh.fd).isSome = true :=
        hserved.owned eh.fd (by simp [Dispatching.asked, PortsEngine.wantWrite])
      exact ⟨hregistered,
        (hserved.promised eh.fd hregistered (by simp [Dispatching.asked])).1⟩

def Dispatching.ports : Dispatching PortsEngine PortEvent :=
  ⟨PortsEngine.new, [], fun _ => false, none⟩

/-- A handler that asks to write between the poll and its turn to read is left watched for
reading. -/
example : ((Runs.run (portsStep 1024) Dispatching.ports
    [.addFd ⟨0, 5, true⟩, .poll [⟨5, true, false⟩], .wantWrite ⟨0, 5, true⟩, .call]).map
      fun d => (d.wants 5, d.engine.kernel 5)) = some (true, some ⟨true, false⟩) := by
  decide

/-! ## The kqueue engine -/

/-- The report is passed on as a write event or as an error. -/
def KEvent.Answers (ke : KEvent) : Prop :=
  ke.flags &&& evEof ≠ 0 ∨ ke.flags &&& KFilter.write.value ≠ 0

/-- Handlers are watched all the time for what they are registered for, nothing else is watched
or called, and who waits to write has a note for it, or a report. -/
structure KQueueServed (d : Dispatching KQueueEngine KEvent) : Prop where
  watched : ∀ fd eh, d.engine.ref fd = some eh → d.engine.kernel fd eh.filter = some false
  owned : ∀ fd f, (d.engine.kernel fd f).isSome = true → (d.engine.ref fd).isSome = true
  promised : ∀ fd, (d.engine.ref fd).isSome = true → d.wants fd = true →
    d.engine.kernel fd .write = some true ∨ ∃ ke ∈ d.events, ke.ident = fd ∧ ke.Answers
  called : ∀ fd eh event, d.called = some (fd, eh, event) → d.engine.ref fd = some eh

/-- The condition on a step: only for a registered handler that reads a write event is asked for,
and a report that is taken for a write event is worked off while its descriptor has a handler. -/
def KQueueTimely (d : Dispatching KQueueEngine KEvent) : QueueEvent KReport → Prop
  | .wantWrite eh => ∃ eh', d.engine.ref eh.fd = some eh' ∧ eh'.readable = true
  | .call => ∀ ke rest, d.events = ke :: rest → ke.flags &&& evEof = 0 →
      ke.flags &&& KFilter.write.value ≠ 0 → (d.engine.ref ke.ident).isSome = true
  | .addFd _ | .delFd _ _ | .poll _ => True

section KQueue

variable {d d' : Dispatching KQueueEngine KEvent}

theorem setNote_self (fd : Int) (f : KFilter) (note : Option Bool)
    (kernel : Int → KFilter → Option Bool) : setNote fd f note kernel fd f = note := by
  rw [setNote, Function.update_self, Function.update_self]

theorem setNote_fd {fd fd' : Int} (hne : fd' ≠ fd) (f f' : KFilter) (note : Option Bool)
    (kernel : Int → KFilter → Option Bool) :
    setNote fd f note kernel fd' f' = kernel fd' f' := by
  rw [setNote, Function.update_of_ne hne]

theorem setNote_filter (fd : Int) {f f' : KFilter} (hne : f' ≠ f) (note : Option Bool)
    (kernel : Int → KFilter → Option Bool) : setNote fd f note kernel fd f' = kernel fd f' := by
  rw [setNote, Function.update_self, Function.update_of_ne hne]

/-- A note that is set is the only change. -/
theorem setNote_cases (fd : Int) (f : KFilter) (note : Option Bool)
    (kernel : Int → KFilter → Option Bool) (fd' : Int) (f' : KFilter) :
    (fd' = fd ∧ f' = f ∧ setNote fd f note kernel fd' f' = note) ∨
      setNote fd f note kernel fd' f' = kernel fd' f' := by
  by_cases hfd : fd' = fd
  · subst hfd
    by_cases hf : f' = f
    · subst hf
      exact Or.inl ⟨rfl, rfl, setNote_self _ _ _ _⟩
    · exact Or.inr (setNote_filter _ hf _ _)
  · exact Or.inr (setNote_fd hfd _ _ _ _)

/-- The flag of a note for one report is among those the test on the filter looks at. -/
theorem oneshot_answers (r : KReport) : (r.event true).Answers := by
  have hflags : ∀ add eof : Bool,
      ((if add then evAdd else 0) ||| evOneshot ||| (if eof then evEof else 0))
        &&& KFilter.write.value ≠ 0 := by decide
  exact Or.inr (hflags r.add r.eof)

/-- A poll takes notes for one report only, and each with a report that answers. -/
theorem kernelReports_spec (reports : List KReport) :
    ∀ (kernel kernel' : Int → KFilter → Option Bool) (events : List KEvent),
    kernelReports reports kernel = some (events, kernel') → ∀ fd f,
      kernel' fd f = kernel fd f ∨ (kernel' fd f = none ∧ kernel fd f = some true ∧
        ∃ ke ∈ events, ke.ident = fd ∧ ke.Answers) := by
  induction reports with
  | nil =>
      intro kernel kernel' events h fd f
      cases h
      exact Or.inl rfl
  | cons r reports ih =>
      intro kernel kernel' events h fd f
      unfold kernelReports at h
      split at h
      · cases h
      · next oneshot hnote =>
          split at h
          · cases h
          · obtain ⟨⟨events₁, kernel₁⟩, hrest, heq⟩ := Option.map_eq_some_iff.1 h
            obtain ⟨rfl, rfl⟩ := Prod.mk.inj heq
            have hcases := ih _ _ _ hrest fd f
            cases oneshot with
            | false =>
                rcases hcases with hsame | ⟨hgone, htrue, ke, hke, hanswers⟩
                · exact Or.inl hsame
                · exact Or.inr ⟨hgone, htrue, ke, List.mem_cons_of_mem _ hke, hanswers⟩
            | true =>
                simp only [if_true] at hcases
                rcases setNote_cases r.ident r.filter none kernel fd f with
                  ⟨rfl, rfl, hset⟩ | hset
                · rw [hset] at hcases
                  rcases hcases with hnone | ⟨-, htrue, -⟩
                  · exact Or.inr ⟨hnone, hnote, _, List.mem_cons_self, rfl, oneshot_answers r⟩
                  · cases htrue
                · rw [hset] at hcases
                  rcases hcases with hsame | ⟨hgone, htrue, ke, hke, hanswers'⟩
                  · exact Or.inl hsame
                  · exact Or.inr ⟨hgone, htrue, ke, List.mem_cons_of_mem _ hke, hanswers'⟩

theorem KQueueServed.refused (h : KQueueServed d) (fd : Int) :
    KQueueServed (d.registered fd (false, d.engine)) :=
  ⟨h.watched, h.owned, h.promised, fun _ _ _ hcalled => by cases hcalled⟩

theorem KQueueServed.addFd (h : KQueueServed d) (eh : Handler) :
    KQueueServed (d.registered eh.fd (d.engine.addFd maxDescriptors eh)) := by
  unfold KQueueEngine.addFd
  split
  · exact h.refused eh.fd
  · split
    · exact h.refused eh.fd
    · split
      · exact h.refused eh.fd
      · refine ⟨fun fd eh' heh => ?_, fun fd f hnote => ?_, fun fd hfd hwants => ?_,
          fun _ _ _ hcalled => by cases hcalled⟩
        · by_cases heq : fd = eh.fd
          · subst heq
            simp only [Dispatching.registered, Function.update_self, Option.some.injEq] at heh
            subst heh
            exact setNote_self _ _ _ _
          · simp only [Dispatching.registered, Function.update_of_ne heq] at heh
            show setNote eh.fd eh.filter (some false) d.engine.kernel fd eh'.filter = some false
            rw [setNote_fd heq]
            exact h.watched fd eh' heh
        · by_cases heq : fd = eh.fd
          · subst heq
            simp [Dispatching.registered]
          · simp only [Dispatching.registered, Function.update_of_ne heq, setNote_fd heq]
              at hnote ⊢
            exact h.owned fd f hnote
        · by_cases heq : fd = eh.fd
          · subst heq
            simp [Dispatching.registered] at hwants
          · simp only [Dispatching.registered, if_true, Function.update_of_ne heq,
              setNote_fd heq] at hfd hwants ⊢
            exact h.promised fd hfd hwants

theorem KQueueServed.delFd (h : KQueueServed d) (eh : Handler) (force : Bool) :
    KQueueServed (d.registered eh.fd (d.engine.delFd maxDescriptors eh force)) := by
  unfold KQueueEngine.delFd
  split
  · exact h.refused eh.fd
  · split
    · exact h.refused eh.fd
    · refine ⟨fun fd eh' heh => ?_, fun fd f hnote => ?_, fun fd hfd hwants => ?_,
        fun _ _ _ hcalled => by cases hcalled⟩
      · by_cases heq : fd = eh.fd
        · subst heq
          simp [Dispatching.registered] at heh
        · simp only [Dispatching.registered, Function.update_of_ne heq, setNote_fd heq]
            at heh ⊢
          exact h.watched fd eh' heh
      · by_cases heq : fd = eh.fd
        · subst heq
          cases f with
          | read =>
              simp only [Dispatching.registered] at hnote
              rw [setNote_filter _ (by decide), setNote_self] at hnote
              cases hnote
          | write =>
              simp only [Dispatching.registered] at hnote
              rw [setNote_self] at hnote
              cases hnote
        · simp only [Dispatching.registered, Function.update_of_ne heq, setNote_fd heq]
            at hnote ⊢
          exact h.owned fd f hnote
      · by_cases heq : fd = eh.fd
        · subst heq
          simp [Dispatching.registered] at hfd
        · simp only [Dispatching.registered, if_true, Function.update_of_ne heq,
            setNote_fd heq] at hfd hwants ⊢
          exact h.promised fd hfd hwants

theorem KQueueServed.wantWrite (h : KQueueServed d) {eh : Handler}
    (htimely : KQueueTimely d (.wantWrite eh)) :
    KQueueServed (d.asked eh.fd (d.engine.wantWrite eh)) := by
  obtain ⟨eh₀, hregistered, hreadable⟩ := htimely
  refine ⟨fun fd eh' heh => ?_, fun fd f hnote => ?_, fun fd hfd hwants => ?_,
    fun _ _ _ hcalled => by cases hcalled⟩
  · have hregistered' : d.engine.ref fd = some eh' := heh
    show setNote eh.fd .write (some true) d.engine.kernel fd eh'.filter = some false
    rcases setNote_cases eh.fd .write (some true) d.engine.kernel fd eh'.filter with
      ⟨rfl, hfilter, -⟩ | hset
    · -- its own note is the one for reading
      rw [hregistered, Option.some.injEq] at hregistered'
      subst hregistered'
      rw [Handler.filter, hreadable] at hfilter
      cases hfilter
    · rw [hset]
      exact h.watched fd eh' hregistered'
  · simp only [Dispatching.asked, KQueueEngine.wantWrite] at hnote
    rcases setNote_cases eh.fd .write (some true) d.engine.kernel fd f with ⟨hfd, -, -⟩ | hset
    · show (d.engine.ref fd).isSome = true
      rw [hfd, hregistered]
      rfl
    · rw [hset] at hnote
      exact h.owned fd f hnote
  · by_cases heq : fd = eh.fd
    · subst heq
      exact Or.inl (setNote_self _ _ _ _)
    · simp only [Dispatching.asked, KQueueEngine.wantWrite, Function.update_of_ne heq,
        setNote_fd heq] at hwants ⊢
      exact h.promised fd hfd hwants

theorem KQueueServed.poll (h : KQueueServed d) (hidle : d.events = []) {reports : List KReport}
    {events : List KEvent} {kernel : Int → KFilter → Option Bool}
    (hreports : kernelReports reports d.engine.kernel = some (events, kernel)) :
    KQueueServed { d with
      engine := { d.engine with kernel := kernel }
      events := events
      called := none } := by
  have hspec := kernelReports_spec reports _ _ _ hreports
  refine ⟨fun fd eh heh => ?_, fun fd f hnote => ?_, fun fd hfd hwants => ?_,
    fun _ _ _ hcalled => by cases hcalled⟩
  · have hread := h.watched fd eh heh
    rcases hspec fd eh.filter with hsame | ⟨-, htrue, -⟩
    · exact hsame.trans hread
    · rw [hread] at htrue
      cases htrue
  · rcases hspec fd f with hsame | ⟨hgone, -, -⟩
    · refine h.owned fd f ?_
      rw [← hsame]
      exact hnote
    · dsimp only at hnote
      rw [hgone] at hnote
      cases hnote
  · have hwrite : d.engine.kernel fd .write = some true := by
      refine (h.promised fd hfd hwants).resolve_right ?_
      rintro ⟨ke, hke, -⟩
      rw [hidle] at hke
      cases hke
    rcases hspec fd .write with hsame | ⟨-, -, hreport⟩
    · exact Or.inl (hsame.trans hwrite)
    · exact Or.inr hreport

/-- What a turn does: a handler is called, and a write event has the descriptor read again. -/
theorem kqueueTurn_kernel (ke : KEvent) (d : Dispatching KQueueEngine KEvent) :
    (d.kqueueTurn ke).engine.kernel =
      if ke.flags &&& evEof = 0 ∧ ke.flags &&& KFilter.write.value ≠ 0 then
        setNote ke.ident .read (some false) d.engine.kernel
      else d.engine.kernel := by
  unfold Dispatching.kqueueTurn
  split
  · next heof =>
      rw [if_neg fun h => heof h.1]
      split <;> rfl
  · next heof =>
      rw [Classical.not_not] at heof
      split
      · next hwrite =>
          rw [if_pos ⟨heof, hwrite⟩]
          dsimp only
          split <;> rfl
      · next hwrite =>
          rw [if_neg fun h => hwrite h.2]
          split <;> rfl

theorem kqueueTurn_ref (ke : KEvent) (d : Dispatching KQueueEngine KEvent) :
    (d.kqueueTurn ke).engine.ref = d.engine.ref := by
  unfold Dispatching.kqueueTurn
  split
  · split <;> rfl
  · split
    · dsimp only
      split <;> rfl
    · split <;> rfl

theorem kqueueTurn_events (ke : KEvent) (d : Dispatching KQueueEngine KEvent) :
    (d.kqueueTurn ke).events = d.events := by
  unfold Dispatching.kqueueTurn
  split
  · split <;> rfl
  · split
    · dsimp only
      split <;> rfl
    · split <;> rfl

/-- The handler called is that of the table. -/
theorem kqueueTurn_called {ke : KEvent} {fd : Int} {eh : Handler} {event : EventType}
    (hnone : d.called = none) (hcalled : (d.kqueueTurn ke).called = some (fd, eh, event)) :
    d.engine.ref fd = some eh := by
  unfold Dispatching.kqueueTurn at hcalled
  cases hregistered : d.engine.ref ke.ident with
  | none =>
      simp only [hregistered] at hcalled
      split at hcalled
      · rw [hnone] at hcalled
        cases hcalled
      · split at hcalled
        · rw [hnone] at hcalled
          cases hcalled
        · rw [hnone] at hcalled
          cases hcalled
  | some eh' =>
      simp only [hregistered, Dispatching.deliver] at hcalled
      split at hcalled
      · cases hcalled
        exact hregistered
      · split at hcalled
        · cases hcalled
          exact hregistered
        · cases hcalled
          exact hregistered

/-- Who still waits behind a turn waited before, and the turn was no answer. -/
theorem kqueueTurn_wants {ke : KEvent} {fd : Int} (hfd : (d.engine.ref fd).isSome = true)
    (hwants : (d.kqueueTurn ke).wants fd = true) :
    d.wants fd = true ∧ ¬(ke.ident = fd ∧ ke.Answers) := by
  unfold Dispatching.kqueueTurn at hwants
  by_cases heq : ke.ident = fd
  · subst heq
    obtain ⟨eh, heh⟩ := Option.isSome_iff_exists.1 hfd
    simp only [heh] at hwants
    split at hwants
    · simp [Dispatching.deliver] at hwants
    · next heof =>
        split at hwants
        · simp [Dispatching.deliver] at hwants
        · next hwrite => exact ⟨hwants, fun h => h.2.elim heof hwrite⟩
  · refine ⟨?_, fun h => heq h.1⟩
    have hne : fd ≠ ke.ident := Ne.symm heq
    split at hwants
    · split at hwants
      · rwa [Dispatching.deliver_wants hne] at hwants
      · exact hwants
    · split at hwants
      · dsimp only at hwants
        split at hwants
        · rwa [Dispatching.deliver_wants hne] at hwants
        · exact hwants
      · split at hwants
        · rwa [Dispatching.deliver_wants hne] at hwants
        · exact hwants

theorem KQueueServed.turn (h : KQueueServed d) {ke : KEvent} {rest : List KEvent}
    (hevents : d.events = ke :: rest)
    (hregistered : ke.flags &&& evEof = 0 → ke.flags &&& KFilter.write.value ≠ 0 →
      (d.engine.ref ke.ident).isSome = true) :
    KQueueServed ({ d with events := rest, called := none }.kqueueTurn ke) := by
  refine ⟨fun fd eh heh => ?_, fun fd f hnote => ?_, fun fd hfd hwants => ?_,
    fun fd eh event hcalled => ?_⟩
  · rw [kqueueTurn_ref] at heh
    have hread := h.watched fd eh heh
    rw [kqueueTurn_kernel]
    split
    · rcases setNote_cases ke.ident .read (some false) d.engine.kernel fd eh.filter with
        ⟨-, -, hset⟩ | hset
      · exact hset
      · exact hset.trans hread
    · exact hread
  · rw [kqueueTurn_ref]
    rw [kqueueTurn_kernel] at hnote
    split at hnote
    · next hwrite =>
        dsimp only at hnote
        rcases setNote_cases ke.ident .read (some false) d.engine.kernel fd f with
          ⟨hfd, -, -⟩ | hset
        · rw [hfd]
          exact hregistered hwrite.1 hwrite.2
        · rw [hset] at hnote
          exact h.owned fd f hnote
    · exact h.owned fd f hnote
  · rw [kqueueTurn_ref] at hfd
    obtain ⟨hwanted, hother⟩ := kqueueTurn_wants hfd hwants
    rw [kqueueTurn_kernel, kqueueTurn_events]
    rcases h.promised fd hfd hwanted with hnote | ⟨ke', hke', hident, hanswers⟩
    · refine Or.inl ?_
      split
      · dsimp only
        rcases setNote_cases ke.ident .read (some false) d.engine.kernel fd .write with
          ⟨-, hf, -⟩ | hset
        · cases hf
        · exact hset.trans hnote
      · exact hnote
    · rw [hevents, List.mem_cons] at hke'
      rcases hke' with rfl | hke'
      · exact absurd ⟨hident, hanswers⟩ hother
      · exact Or.inr ⟨ke', hke', hident, hanswers⟩
  · rw [kqueueTurn_ref]
    exact kqueueTurn_called rfl hcalled

theorem KQueueServed.step (h : KQueueServed d) {e : QueueEvent KReport}
    (htimely : KQueueTimely d e) (hstep : kqueueStep maxDescriptors d e = some d') :
    KQueueServed d' := by
  cases e with
  | addFd eh =>
      cases hstep
      exact h.addFd eh
  | delFd eh force =>
      cases hstep
      exact h.delFd eh force
  | wantWrite eh =>
      cases hstep
      exact h.wantWrite htimely
  | poll reports =>
      obtain ⟨hidle, hstep⟩ := Option.ite_none_right_eq_some.1 hstep
      obtain ⟨⟨events, kernel⟩, hreports, heq⟩ := Option.map_eq_some_iff.1 hstep
      cases heq
      exact h.poll hidle hreports
  | call =>
      cases hevents : d.events with
      | nil => simp [kqueueStep, hevents] at hstep
      | cons ke rest =>
          simp only [kqueueStep, hevents, Option.some.injEq] at hstep
          subst hstep
          exact h.turn hevents (htimely ke rest hevents)

/-- A descriptor without a handler is watched, or a handler that only writes loses its note. -/
theorem KQueueServed.breaks {e : QueueEvent KReport} (htimely : ¬KQueueTimely d e) :
    ∃ d', kqueueStep maxDescriptors d e = some d' ∧ ¬KQueueServed d' := by
  cases e with
  | addFd _ | delFd _ _ | poll _ => exact absurd trivial htimely
  | wantWrite eh =>
      refine ⟨_, rfl, fun hserved => htimely ?_⟩
      have hnote : (d.asked eh.fd (d.engine.wantWrite eh)).engine.kernel eh.fd .write
          = some true := setNote_self _ _ _ _
      have howned := hserved.owned eh.fd .write (by rw [hnote]; rfl)
      obtain ⟨eh', heh⟩ := Option.isSome_iff_exists.1 howned
      refine ⟨eh', heh, ?_⟩
      by_contra hwrites
      have hwatched := hserved.watched eh.fd eh' heh
      rw [Handler.filter, if_neg hwrites, hnote] at hwatched
      cases hwatched
  | call =>
      simp only [KQueueTimely, not_forall] at htimely
      obtain ⟨ke, rest, hevents, heof, hwrite, hgone⟩ := htimely
      refine ⟨{ d with events := rest, called := none }.kqueueTurn ke, ?_, fun hserved => hgone ?_⟩
      · simp only [kqueueStep, hevents]
      · have howned := hserved.owned ke.ident .read
        rw [kqueueTurn_kernel, kqueueTurn_ref, if_pos ⟨heof, hwrite⟩, setNote_self] at howned
        exact howned rfl

def Dispatching.kqueue : Dispatching KQueueEngine KEvent :=
  ⟨KQueueEngine.new, [], fun _ => false, none⟩

/-- In every run of the kqueue engine: it serves all its handlers and nobody else throughout
exactly if only registered handlers that read ask for a write event, and every report that is
taken for a write event is worked off while its descriptor has a handler. -/
theorem kqueue_served (maxDescriptors : Nat) (es : List (QueueEvent KReport)) :
    Throughout (kqueueStep maxDescriptors) Dispatching.kqueue es KQueueServed ↔
      EachStep (kqueueStep maxDescriptors) Dispatching.kqueue es KQueueTimely := by
  refine throughout_iff (I := KQueueServed)
    ⟨fun fd eh heh => ?_, fun fd f hnote => ?_, fun fd hfd => ?_, fun fd eh event hcalled => ?_⟩
    id (fun h htimely hstep => h.step htimely hstep) (fun _ htimely => KQueueServed.breaks htimely)
    es
  · cases heh
  · cases hnote
  · cases hfd
  · cases hcalled

end KQueue

end Hottpd
