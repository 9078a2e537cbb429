import Hottpd.Proofs.CgiOrder

/-!
# The processes of a server

Over all connections: every request with a process is the one stored for its
connection, the counter of the processes is the size of the map, and it stays
within the configured maximum. The events of one connection leave the others
alone, so this is the walk of `CgiOrder` and a sum.
-/

namespace Hottpd

open Bytes

variable {env : Nat → Env} {cfg : CgiConfig} {f f' : CgiServer}

/-! ## Sums over the connections -/

/-- One term of a sum replaced. -/
theorem sum_set {l : List Nat} {c x : Nat} (h : l[c]? = some x) (y : Nat) :
    (l.set c y).sum + x = l.sum + y := by
  induction l generalizing c with
  | nil => simp at h
  | cons a l ih =>
      cases c with
      | zero =>
          rw [List.getElem?_cons_zero, Option.some.injEq] at h
          rw [List.set_cons_zero, List.sum_cons, List.sum_cons, h]
          omega
      | succ c =>
          rw [List.getElem?_cons_succ] at h
          rw [List.set_cons_succ, List.sum_cons, List.sum_cons]
          have := ih h
          omega

theorem conn_eq_some {c : Nat} {s : St CgiVars} :
    f.conn c = some s ↔ f.conns[c]? = some (some s) := by
  rw [CgiServer.conn, Option.join_eq_some_iff]

theorem conn_set {c : Nat} {o : Option (St CgiVars)} {s : St CgiVars} (hc : f.conn c = some s)
    (d : Nat) (orphans : List CGIRequest) :
    CgiServer.conn ⟨f.conns.set c o, orphans⟩ d = if d = c then o else f.conn d := by
  have hlt : c < f.conns.length := (List.getElem?_eq_some_iff.1 (conn_eq_some.1 hc)).1
  show (f.conns.set c o)[d]?.join = _
  rw [List.getElem?_set]
  by_cases hd : d = c
  · rw [if_pos hd.symm, if_pos hd, if_pos (hd ▸ hlt)]
    rfl
  · rw [if_neg (Ne.symm hd), if_neg hd]
    rfl

theorem map_set_sum {c : Nat} {s : St CgiVars} (hc : f.conn c = some s)
    (g : Option (St CgiVars) → Nat) (o : Option (St CgiVars)) :
    ((f.conns.set c o).map g).sum + g (some s) = (f.conns.map g).sum + g o := by
  rw [List.map_set]
  refine sum_set ?_ (g o)
  rw [List.getElem?_map, conn_eq_some.1 hc]
  rfl

/-- The processes of a connection are among those of the server. -/
theorem live_le_total {c : Nat} {s : St CgiVars} (hc : f.conn c = some s) :
    s.mods.live.length ≤ f.total := by
  have hsum := map_set_sum hc liveCount none
  have hone : liveCount (some s) = s.mods.live.length := rfl
  have hzero : liveCount none = 0 := rfl
  rw [CgiServer.total]
  omega

/-! ## One event and one connection -/

/-- What can happen, and what it leaves. -/
theorem CgiServer.step_cases {e : CgiServerEvent} (hstep : f.step env cfg e = some f') :
    (e = .accept ∧ f' = { f with conns := f.conns ++ [some (St.init CgiVars.init)] }) ∨
    (∃ c os ev s, e = .on c os ev ∧ f.conn c = some s ∧ f' = { f with
      conns := f.conns.set c (some (cgiEvent (env c) cfg (f.answers s os) ev s)) }) ∨
    (∃ c s, e = .disconnect c ∧ f.conn c = some s ∧ s.quitting = true ∧
      f' = ⟨f.conns.set c none, f.orphans ++ (onFlushed s.mods).live⟩) := by
  cases e with
  | accept => exact Or.inl ⟨rfl, (Option.some.inj hstep).symm⟩
  | on c os ev =>
      rw [CgiServer.step] at hstep
      cases hc : f.conn c with
      | none =>
          rw [hc] at hstep
          cases hstep
      | some s =>
          rw [hc] at hstep
          exact Or.inr (Or.inl ⟨c, os, ev, s, rfl, hc, (Option.some.inj hstep).symm⟩)
  | disconnect c =>
      rw [CgiServer.step] at hstep
      cases hc : f.conn c with
      | none =>
          rw [hc] at hstep
          cases hstep
      | some s =>
          rw [hc] at hstep
          dsimp only at hstep
          split at hstep
          · next hquit =>
              exact Or.inr (Or.inr ⟨c, s, rfl, hc, hquit, (Option.some.inj hstep).symm⟩)
          · cases hstep

theorem conn_append (f : CgiServer) (s : St CgiVars) (c : Nat) :
    CgiServer.conn { f with conns := f.conns ++ [some s] } c
      = if c = f.conns.length then some s else f.conn c := by
  show (f.conns ++ [some s])[c]?.join = _
  rw [List.getElem?_append]
  split
  · next hlt => rw [if_neg (by omega), CgiServer.conn]
  · next hlt =>
      split
      · next heq => rw [heq, Nat.sub_self, List.getElem?_cons_zero, Option.join_some]
      · rw [CgiServer.conn, List.getElem?_eq_none (by simp; omega),
          List.getElem?_eq_none (Nat.not_lt.1 hlt)]

/-- Every connection is in order, nothing is left of those that are gone, and there are no more
processes than there may be. -/
structure InOrder (cfg : CgiConfig) (f : CgiServer) : Prop where
  conns : ∀ c s, f.conn c = some s → Orderly s
  orphans : f.orphans = []
  total : 0 ≤ cfg.maximumDynamicProcesses → (f.total : Int) ≤ cfg.maximumDynamicProcesses

theorem inOrder_new : InOrder cfg CgiServer.new := by
  refine ⟨fun c s hc => ?_, rfl, fun hmax => ?_⟩
  · rw [conn_eq_some] at hc
    simp [CgiServer.new] at hc
  · exact hmax

/-- A request that is stored is destroyed with its connection, and it is the only one. -/
theorem Orderly.flushed {s : St CgiVars} (h : Orderly s) : (onFlushed s.mods).live = [] := by
  cases h with
  | vacant h => exact h.idle.flushed.none_left
  | running h => exact (onFlushed_one h.only h.stored).1
  | answered h => exact (onFlushed_one h.live h.stored).1

theorem InOrder.on {c : Nat} {s s' : St CgiVars} {os : CgiOs} (h : InOrder cfg f)
    (hc : f.conn c = some s) (hs : Tidy cfg (f.answers s os) s s') :
    InOrder cfg { f with conns := f.conns.set c (some s') } := by
  refine ⟨fun d t hd => ?_, h.orphans, fun hmax => ?_⟩
  · rw [conn_set hc] at hd
    split at hd
    · cases hd
      exact hs.orderly
    · exact h.conns d t hd
  · have hsum := map_set_sum hc liveCount (some s')
    have hold : liveCount (some s) = s.mods.live.length := rfl
    have hnew : liveCount (some s') = s'.mods.live.length := rfl
    have htotal := h.total hmax
    have hle := live_le_total hc
    have heq : f.total = (f.conns.map liveCount).sum + f.orphans.length := rfl
    have hafter : CgiServer.total { f with conns := f.conns.set c (some s') }
        = ((f.conns.set c (some s')).map liveCount).sum + f.orphans.length := rfl
    rw [hafter]
    rcases hs.room with hfewer | ⟨hone, k, hroom⟩
    · omega
    · have hothers : (f.answers s os).others k = f.total - s.mods.live.length := rfl
      omega

theorem InOrder.accept (h : InOrder cfg f) :
    InOrder cfg { f with conns := f.conns ++ [some (St.init CgiVars.init)] } := by
  refine ⟨fun c s hc => ?_, h.orphans, fun hmax => ?_⟩
  · rw [conn_append] at hc
    split at hc
    · cases hc
      exact orderly_init
    · exact h.conns c s hc
  · have hafter : CgiServer.total { f with conns := f.conns ++ [some (St.init CgiVars.init)] }
        = f.total := by
      rw [CgiServer.total, CgiServer.total, List.map_append, List.sum_append]
      rfl
    rw [hafter]
    exact h.total hmax

theorem InOrder.disconnect {c : Nat} {s : St CgiVars} (h : InOrder cfg f)
    (hc : f.conn c = some s) :
    InOrder cfg ⟨f.conns.set c none, f.orphans ++ (onFlushed s.mods).live⟩ := by
  have hgone := (h.conns c s hc).flushed
  refine ⟨fun d t hd => ?_, ?_, fun hmax => ?_⟩
  · rw [conn_set hc] at hd
    split at hd
    · cases hd
    · exact h.conns d t hd
  · show f.orphans ++ _ = []
    rw [h.orphans, hgone]
    rfl
  · have hsum := map_set_sum hc liveCount none
    have hzero : liveCount none = 0 := rfl
    have htotal := h.total hmax
    have heq : f.total = (f.conns.map liveCount).sum + f.orphans.length := rfl
    have hafter : CgiServer.total ⟨f.conns.set c none, f.orphans ++ (onFlushed s.mods).live⟩
        = ((f.conns.set c none).map liveCount).sum + f.orphans.length := by
      rw [hgone, List.append_nil]
      rfl
    rw [hafter]
    omega

theorem does_on {what : Nat → CgiOs → Event → St CgiVars → Bool} {c : Nat} {os : CgiOs}
    {ev : Event} {s : St CgiVars} (hc : f.conn c = some s) :
    f.does what (.on c os ev) = what c os ev s := by
  rw [CgiServer.does, hc]

theorem InOrder.step {e : CgiServerEvent} (h : InOrder cfg f) (hcrowd : f.crowded e = false)
    (hstep : f.step env cfg e = some f') : InOrder cfg f' := by
  obtain ⟨rfl, rfl⟩ | ⟨c, os, ev, s, rfl, hc, rfl⟩ | ⟨c, s, rfl, hc, -, rfl⟩ :=
    CgiServer.step_cases hstep
  · exact h.accept
  · rw [CgiServer.crowded, does_on hc] at hcrowd
    exact h.on hc ((h.conns c s hc).tidy_event ev hcrowd)
  · exact h.disconnect hc

theorem InOrder.run {es : List CgiServerEvent} (h : InOrder cfg f)
    (hnever : CgiServer.never env cfg CgiServer.crowded es f)
    (hrun : CgiServer.run env cfg es f = some f') : InOrder cfg f' :=
  Runs.EachStep.invariant hnever h (fun h hcrowd hstep => h.step hcrowd hstep) es f'
    (List.prefix_refl _) hrun

/-! ## Every run -/

/-- No event of the run takes up another request while one is stored: every connection has at most
one that has not been answered, which is the one stored; the counter is the size of the map and
within the maximum; and the next event, if it empties no queue meanwhile either, takes a header
block behind a request that is stored only when a response has ended. -/
theorem requests_in_turn (env : Nat → Env) (cfg : CgiConfig) (es : List CgiServerEvent)
    (f : CgiServer) (hmax : 0 ≤ cfg.maximumDynamicProcesses)
    (hnever : CgiServer.never env cfg CgiServer.crowded es CgiServer.new)
    (hrun : CgiServer.run env cfg es CgiServer.new = some f) :
    (∀ c s, f.conn c = some s → s.mods.live.countP (fun cr => cr.done = false) ≤ 1) ∧
    (∀ c s, f.conn c = some s → ∀ cr ∈ s.mods.live, s.mods.stored = some cr.id) ∧
    f.orphans = [] ∧ f.total = f.entries ∧ (f.total : Int) ≤ cfg.maximumDynamicProcesses ∧
    (∀ c s os ev, f.conn c = some s → overtakes (env c) os ev s = false →
      InTime s (cgiEvent (env c) cfg (f.answers s os) ev s)) := by
  have h : InOrder cfg f := inOrder_new.run hnever hrun
  have hone : ∀ c s, f.conn c = some s → s.mods.live.length = s.mods.stored.toList.length ∧
      s.mods.live.length ≤ 1 ∧ ∀ cr ∈ s.mods.live, s.mods.stored = some cr.id := by
    intro c s hc
    cases h.conns c s hc with
    | vacant hs => simp [hs.idle.none_left, hs.idle.none_stored]
    | running hs => simp [hs.only, hs.stored]
    | answered hs => simp [hs.live, hs.stored]
  refine ⟨fun c s hc => ?_, fun c s hc => (hone c s hc).2.2, h.orphans, ?_, h.total hmax,
    fun c s os ev hc ho => ?_⟩
  · exact Nat.le_trans List.countP_le_length (hone c s hc).2.1
  · have hterms : f.conns.map liveCount = f.conns.map storedCount := by
      refine List.map_congr_left fun o ho => ?_
      cases o with
      | none => rfl
      | some s =>
          obtain ⟨c, hc⟩ := List.mem_iff_getElem?.1 ho
          exact (hone c s (conn_eq_some.2 hc)).1
    rw [CgiServer.total, CgiServer.entries, h.orphans, hterms]
    rfl
  · have hover : overtakes (env c) (f.answers s os) ev s = false := by
      cases ev <;> exact ho
    exact ((h.conns c s hc).follows_event ev hover).inTime

/-- A request that is run, answered and flushed. -/
theorem requests_in_turn_answered :
    ∃ f, CgiServer.run emptyWorld phpConfig [.accept, asks "GET /a.php HTTP/1.1\r\n\r\n",
        pipes (.read (.data (str "hi"))), pipes .error, writable] CgiServer.new = some f ∧
      f.total = f.entries ∧ (f.total : Int) ≤ 2 := by
  have hsome : (CgiServer.run emptyWorld phpConfig [.accept,
      asks "GET /a.php HTTP/1.1\r\n\r\n", pipes (.read (.data (str "hi"))), pipes .error,
      writable] CgiServer.new).isSome = true := by decide +kernel
  obtain ⟨f, hf⟩ := Option.isSome_iff_exists.1 hsome
  have h := requests_in_turn emptyWorld phpConfig [.accept,
    asks "GET /a.php HTTP/1.1\r\n\r\n", pipes (.read (.data (str "hi"))), pipes .error,
    writable] f (by decide) (by decide +kernel) hf
  exact ⟨f, hf, h.2.2.2.1, h.2.2.2.2.1⟩

/-- A header line sent while the process runs makes the same request again: the connection has
two, and only the second is stored. -/
theorem two_for_one :
    ∃ f s, CgiServer.run emptyWorld phpConfig [.accept, asks "GET /a.php HTTP/1.1\r\n\r\n",
        asks "A: b\r\n\r\n"] CgiServer.new = some f ∧
      f.conn 0 = some s ∧ s.mods.live.countP (fun cr => cr.done = false) = 2 ∧
      f.total = 2 ∧ f.entries = 1 := by
  have hrun : (CgiServer.run emptyWorld phpConfig [.accept,
      asks "GET /a.php HTTP/1.1\r\n\r\n", asks "A: b\r\n\r\n"] CgiServer.new).map
        (fun f => ((f.conn 0).map fun s => s.mods.live.countP fun cr => cr.done = false,
          f.total, f.entries)) = some (some 2, 2, 1) := by decide +kernel
  obtain ⟨f, hf, heq⟩ := Option.map_eq_some_iff.1 hrun
  simp only [Prod.mk.injEq, Option.map_eq_some_iff] at heq
  obtain ⟨⟨s, hs, hcount⟩, htotal, hentries⟩ := heq
  exact ⟨f, s, hf, hs, hcount, htotal, hentries⟩

end Hottpd
