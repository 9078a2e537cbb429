import Hottpd.Core.Listeners

/-!
# Every listener is closed once

What the four routines share is a balance: the listeners in `ports` and those
destroyed are different objects, each of them handed out before. `BindPorts`
keeps it for each port and each old pair, and `Cleanup` keeps it since it
forgets what it destroys. A graceful shutdown keeps the entries it destroys, so
it breaks the balance unless there are none.
-/

namespace Hottpd

open Bytes Runs

/-! ## The balance -/

/-- The listeners there are and those there were. -/
structure Booked (ports : List ListenSocket) (destroyed : List Nat) (next : Nat) : Prop where
  distinct : (ports.map ListenSocket.id ++ destroyed).Nodup
  below : ∀ i ∈ ports.map ListenSocket.id ++ destroyed, i < next

section Balance

variable {ports : List ListenSocket} {destroyed : List Nat} {next : Nat}

theorem Booked.allocate (h : Booked ports destroyed next) :
    Booked ports destroyed (next + 1) :=
  ⟨h.distinct, fun i hi => Nat.lt_succ_of_lt (h.below i hi)⟩

theorem Booked.listen (h : Booked ports destroyed next) (addr : Bytes) (portno : Int) :
    Booked (ports ++ [(⟨next, addr, portno⟩ : ListenSocket)]) destroyed (next + 1) := by
  have hperm : ((ports ++ [(⟨next, addr, portno⟩ : ListenSocket)]).map ListenSocket.id
      ++ destroyed).Perm (next :: (ports.map ListenSocket.id ++ destroyed)) := by
    rw [List.map_append, List.append_assoc]
    exact List.perm_middle
  constructor
  · rw [hperm.nodup_iff, List.nodup_cons]
    exact ⟨fun hmem => absurd (h.below next hmem) (Nat.lt_irrefl next), h.distinct⟩
  · intro i hi
    rw [hperm.mem_iff, List.mem_cons] at hi
    rcases hi with rfl | hi
    · exact Nat.lt_succ_self i
    · exact Nat.lt_succ_of_lt (h.below i hi)

/-- What moves from one side to the other keeps the balance. -/
theorem Booked.of_perm (h : Booked ports destroyed next) {ports' : List ListenSocket}
    {destroyed' : List Nat} (hperm : (ports'.map ListenSocket.id ++ destroyed').Perm
      (ports.map ListenSocket.id ++ destroyed)) : Booked ports' destroyed' next :=
  ⟨hperm.nodup_iff.2 h.distinct, fun i hi => h.below i (hperm.mem_iff.1 hi)⟩

theorem Booked.close (h : Booked ports destroyed next) {p : ListenSocket → Bool}
    {l : ListenSocket} (hl : ports.find? p = some l) :
    Booked (ports.eraseP p) (destroyed ++ [l.id]) next := by
  obtain ⟨hp, before, behind, rfl, hbefore⟩ := List.find?_eq_some_iff_append.1 hl
  have herase : (before ++ l :: behind).eraseP p = before ++ behind := by
    rw [List.eraseP_append_right _ (by simpa using hbefore), List.eraseP_cons_of_pos hp]
  rw [herase]
  refine h.of_perm ?_
  simp only [List.map_append, List.map_cons, List.append_assoc, List.cons_append]
  rw [← List.append_assoc, ← List.append_assoc]
  refine (List.perm_append_singleton l.id _).trans ?_
  rw [List.append_assoc]
  exact List.perm_middle.symm

theorem Booked.closeAll (h : Booked ports destroyed next) :
    Booked [] (destroyed ++ ports.map ListenSocket.id) next :=
  h.of_perm (show (destroyed ++ ports.map ListenSocket.id).Perm _ from List.perm_append_comm)

end Balance

/-! ## `BindPorts` -/

section BindPorts

variable {maxbuf : Nat} {bind : Bytes → Int → Bool}

/-- The balance in the middle of `BindPorts`, with what was destroyed before it. -/
def BindState.Booked (destroyed : List Nat) (s : BindState) : Prop :=
  Hottpd.Booked s.ports (destroyed ++ s.deleted.map ListenSocket.id) s.next

variable {destroyed : List Nat} {s : BindState}

theorem BindState.Booked.bindPort (h : s.Booked destroyed) (addr : Bytes) (portno : Int) :
    (bindPort bind addr portno s).Booked destroyed := by
  unfold Hottpd.bindPort
  generalize findListener (addr, portno) s.ports s.oldPorts = found
  obtain ⟨skip, old⟩ := found
  dsimp only
  split
  · exact h
  · split
    · exact h.listen addr portno
    · exact h.allocate

theorem BindState.Booked.bindRange {addr : Bytes} : ∀ {fuel : Nat} {p : PortParser}
    {s s' : BindState}, s.Booked destroyed → bindRange bind addr fuel p s = some s' →
    s'.Booked destroyed := by
  intro fuel
  induction fuel with
  | zero => intro p s s' _ hs; cases hs
  | succ fuel ih =>
      intro p s s' h hs
      rw [Hottpd.bindRange] at hs
      generalize p.getToken = read at hs
      obtain ⟨portno, p⟩ := read
      dsimp only at hs
      split at hs
      · cases hs
        exact h
      · exact ih (h.bindPort addr _) hs

theorem BindState.Booked.bindSections {fuel : Nat} : ∀ {config : List BindSection}
    {s s' : BindState}, s.Booked destroyed → bindSections maxbuf bind fuel config s = some s' →
    s'.Booked destroyed := by
  intro config
  induction config with
  | nil =>
      intro s s' h hs
      cases hs
      exact h
  | cons sect rest ih =>
      intro s s' h hs
      rw [Hottpd.bindSections] at hs
      split at hs
      · cases hs
      · next s₁ hrange => exact ih (h.bindRange hrange) hs

theorem BindState.Booked.closeOld (h : s.Booked destroyed) (pair : Bytes × Int) :
    (closeOld s pair).Booked destroyed := by
  unfold Hottpd.closeOld
  split
  · exact h
  · next l hl =>
      show Hottpd.Booked _ (destroyed ++ (s.deleted ++ [l]).map ListenSocket.id) _
      rw [List.map_append, ← List.append_assoc]
      exact Hottpd.Booked.close h hl

theorem BindState.Booked.closeAll (pairs : List (Bytes × Int)) : ∀ {s : BindState},
    s.Booked destroyed → (pairs.foldl Hottpd.closeOld s).Booked destroyed := by
  induction pairs with
  | nil => intro s h; exact h
  | cons pair pairs ih => intro s h; exact ih (h.closeOld pair)

theorem Booked.bindPorts {ports : List ListenSocket} {next fuel : Nat}
    {config : List BindSection} {b : BindState} (h : Booked ports destroyed next)
    (hb : bindPorts maxbuf bind fuel config ports next = some b) :
    Booked b.ports (destroyed ++ b.deleted.map ListenSocket.id) b.next := by
  unfold Hottpd.bindPorts at hb
  dsimp only at hb
  split at hb
  · cases hb
  · next s hs =>
      have hstart : BindState.Booked destroyed
          ⟨ports, ports.map ListenSocket.pair, 0, 0, [], [], next⟩ := by
        rw [BindState.Booked, List.map_nil, List.append_nil]
        exact h
      have hbound : s.Booked destroyed := hstart.bindSections hs
      cases hb
      split
      · exact hbound
      · exact hbound.closeAll _

end BindPorts

/-! ## Runs -/

/-- What is promised of the listeners: the entries of `ports` have been handed out and are
not destroyed, and nothing is destroyed twice. -/
structure Listening.Owned (s : Listening) : Prop where
  live : ∀ l ∈ s.ports, l.id < s.next ∧ l.id ∉ s.destroyed
  once : s.destroyed.Nodup

/-- The balance, and that nothing is left at the exit. -/
structure Listening.Balanced (s : Listening) : Prop where
  booked : Booked s.ports s.destroyed s.next
  gone : s.exited = true → s.ports = []

theorem Listening.Balanced.owned {s : Listening} (h : s.Balanced) : s.Owned := by
  have hdistinct := List.nodup_append.1 h.booked.distinct
  refine ⟨fun l hl => ?_, hdistinct.2.1⟩
  have hid : l.id ∈ s.ports.map ListenSocket.id := List.mem_map_of_mem hl
  exact ⟨h.booked.below _ (List.mem_append_left _ hid),
    fun hgone => hdistinct.2.2 _ hid _ hgone rfl⟩

/-- A SIGHUP comes when there is nothing left to close. -/
def Listening.Graceful (s : Listening) : Signal → Prop
  | .sighup => s.ports = []
  | _ => True

variable {maxbuf : Nat}

theorem Listening.Balanced.signal {s s' : Listening} {e : Signal} (h : s.Balanced)
    (he : s.Graceful e) (hs : s.signal maxbuf e = some s') : s'.Balanced := by
  unfold Listening.signal at hs
  split at hs
  · cases hs
  · next hrunning =>
      cases e with
      | bindPorts fuel config bind =>
          obtain ⟨b, hb, rfl⟩ := Option.map_eq_some_iff.1 hs
          exact ⟨h.booked.bindPorts hb, fun hexit => absurd hexit hrunning⟩
      | sighup =>
          cases hs
          have hnone : s.ports = [] := he
          refine ⟨?_, fun _ => hnone⟩
          show Booked s.ports (s.destroyed ++ s.ports.map ListenSocket.id) s.next
          rw [hnone, List.map_nil, List.append_nil, ← hnone]
          exact h.booked
      | sigterm =>
          cases hs
          exact ⟨h.booked.closeAll, fun _ => rfl⟩
      | cleanup =>
          cases hs
          exact ⟨h.booked.closeAll, fun _ => rfl⟩

/-- A graceful shutdown that finds a listener leaves it destroyed in the list. -/
theorem Listening.Balanced.sighup_breaks {s : Listening} {e : Signal} (h : s.Balanced)
    (he : ¬s.Graceful e) : ∃ s', s.signal maxbuf e = some s' ∧ ¬s'.Owned := by
  cases e with
  | sighup =>
      have hsome : s.ports ≠ [] := he
      have hrunning : ¬s.exited = true := fun hexit => hsome (h.gone hexit)
      obtain ⟨l, hl⟩ := List.exists_mem_of_ne_nil s.ports hsome
      refine ⟨s.gracefulShutdown, if_neg hrunning, fun howned => ?_⟩
      exact (howned.live l hl).2 (List.mem_append_right _ (List.mem_map_of_mem hl))
  | bindPorts fuel config bind => exact absurd trivial he
  | sigterm => exact absurd trivial he
  | cleanup => exact absurd trivial he

/-- Whatever the order of the events: the listeners are owned in every state reached if and
only if every graceful shutdown comes when none is left. -/
theorem listeners_owned (maxbuf : Nat) (es : List Signal) :
    Throughout (Listening.signal maxbuf) Listening.new es Listening.Owned ↔
      EachStep (Listening.signal maxbuf) Listening.new es Listening.Graceful := by
  have hnew : Listening.new.Balanced := by
    refine ⟨⟨List.nodup_nil, fun i hi => ?_⟩, fun _ => rfl⟩
    cases hi
  exact throughout_iff hnew (fun h => h.owned) (fun h he hs => h.signal he hs)
    (fun h he => h.sighup_breaks he) es

/-- A shutdown with a listener open, and the exit behind it. -/
def shutdownAndExit : List Signal :=
  [.bindPorts 4 [⟨str "80", []⟩] fun _ _ => true, .sighup, .sigterm]

theorem closed_twice :
    ¬Throughout (Listening.signal 514) Listening.new shutdownAndExit Listening.Owned := by
  intro h
  have hrun : Listening.run 514 shutdownAndExit = some ⟨[], [0, 0], 1, true, true⟩ := by
    decide +kernel
  exact absurd (h _ _ (List.prefix_refl _) hrun).once (by decide)

end Hottpd
