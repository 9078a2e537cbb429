import Hottpd.Proofs.PortText
import Mathlib.Data.List.Nodup

/-!
# `BindPorts` makes the listeners agree with the configuration

The loop over the sections is a loop over the pairs they name. A pair that has a
listener is struck off the copy of the old pairs, any other gets a new listener,
so at the end the copy holds the pairs of the old listeners that were not named,
each once, and those listeners are deleted.
-/

namespace Hottpd

open Bytes

variable {maxbuf : Nat} {bind : Bytes → Int → Bool}

/-! ## The pairs a configuration names -/

/-- A `bind` section as its author wrote it. -/
structure BindText where
  items : List PortItem
  address : Bytes

def BindText.toSection (t : BindText) : BindSection := ⟨portText t.items, t.address⟩

/-- The port text is well-formed and fits in the buffer it is read into. -/
structure BindText.WellFormed (maxbuf : Nat) (t : BindText) : Prop where
  items : ∀ item ∈ t.items, item.WellFormed
  fits : (portText t.items).length < maxbuf

def BindText.pairs (maxbuf : Nat) (t : BindText) : List (Bytes × Int) :=
  (t.items.flatMap PortItem.ports).map fun port => (bindAddress maxbuf t.address, port)

def named (maxbuf : Nat) (config : List BindText) : List (Bytes × Int) :=
  config.flatMap (BindText.pairs maxbuf)

/-- The step of the loop for one pair. -/
abbrev bindPair (bind : Bytes → Int → Bool) (s : BindState) (pair : Bytes × Int) : BindState :=
  bindPort bind pair.1 pair.2 s

theorem bindRange_reads {p : PortParser} {ports : List Int} (h : p.Reads ports) (addr : Bytes) :
    ∀ (fuel : Nat) (s : BindState), ports.length < fuel → bindRange bind addr fuel p s
      = some ((ports.map fun port => (addr, port)).foldl (bindPair bind) s) := by
  induction h with
  | done hzero =>
      intro fuel s hfuel
      obtain ⟨fuel, rfl⟩ : ∃ k, fuel = k + 1 := ⟨fuel - 1, by omega⟩
      rw [bindRange]
      dsimp only
      rw [if_pos hzero]
      rfl
  | next hport hne _ ih =>
      intro fuel s hfuel
      rw [List.length_cons] at hfuel
      obtain ⟨fuel, rfl⟩ : ∃ k, fuel = k + 1 := ⟨fuel - 1, by omega⟩
      rw [bindRange]
      dsimp only
      rw [hport, if_neg hne, ih fuel _ (by omega)]
      rfl

theorem nul_not_mem_joinWords : ∀ {ws : List Bytes}, (∀ w ∈ ws, 0 ∉ w) → 0 ∉ joinWords ws
  | [], _ => by simp [joinWords]
  | [w], h => h w List.mem_cons_self
  | w :: w' :: ws, h => by
      rw [joinWords, List.mem_append, List.mem_cons, not_or, not_or]
      refine ⟨h w List.mem_cons_self, by decide, nul_not_mem_joinWords fun v hv => ?_⟩
      exact h v (List.mem_cons_of_mem w hv)

theorem PortItem.WellFormed.nul_not_mem {item : PortItem} (h : item.WellFormed) :
    0 ∉ item.text := by
  cases item with
  | one d => exact IsNumber.not_mem h (by decide)
  | range first last =>
      simp only [PortItem.text, List.mem_append, List.mem_cons, not_or]
      exact ⟨h.1.not_mem (by decide), by decide, h.2.1.not_mem (by decide)⟩

theorem BindText.WellFormed.strlcpy {t : BindText} (h : t.WellFormed maxbuf) :
    strlcpy (portText t.items) maxbuf = portText t.items := by
  have hnul : 0 ∉ portText t.items := nul_not_mem_joinWords fun w hw => by
    obtain ⟨item, hitem, rfl⟩ := List.mem_map.1 hw
    exact (h.items item hitem).nul_not_mem
  have hfits := h.fits
  rw [Hottpd.strlcpy, cstr_eq_self hnul, List.take_of_length_le (by omega)]

theorem bindSections_named {config : List BindText} (hwf : ∀ t ∈ config, t.WellFormed maxbuf) :
    ∀ (fuel : Nat) (s : BindState), (named maxbuf config).length < fuel →
      bindSections maxbuf bind fuel (config.map BindText.toSection) s
        = some ((named maxbuf config).foldl (bindPair bind) s) := by
  induction config with
  | nil => intro fuel s _; rfl
  | cons t config ih =>
      intro fuel s hfuel
      have ht := hwf t List.mem_cons_self
      have hnamed : named maxbuf (t :: config) = t.pairs maxbuf ++ named maxbuf config := rfl
      rw [hnamed, List.length_append] at hfuel
      have hlen : (t.items.flatMap PortItem.ports).length < fuel := by
        rw [BindText.pairs, List.length_map] at hfuel
        omega
      have hreads : bindRange bind (bindAddress maxbuf t.toSection.address) fuel
          (PortParser.new (strlcpy t.toSection.port maxbuf) false) s
            = some ((t.pairs maxbuf).foldl (bindPair bind) s) := by
        show bindRange bind _ fuel (PortParser.new (strlcpy (portText t.items) maxbuf) false) s = _
        rw [ht.strlcpy, bindRange_reads (portText_reads ht.items) _ fuel s hlen]
        rfl
      rw [List.map_cons, bindSections, hreads]
      dsimp only
      rw [ih (fun u hu => hwf u (List.mem_cons_of_mem t hu)) fuel _ (by omega), hnamed,
        List.foldl_append]

/-! ## One pair -/

/-- With no two listeners for one pair, at most one is found. -/
theorem findListener_eq {pair : Bytes × Int} : ∀ {ports : List ListenSocket},
    (ports.map ListenSocket.pair).Nodup → ∀ old,
    findListener pair ports old =
      if pair ∈ ports.map ListenSocket.pair then (true, old.erase pair) else (false, old) := by
  intro ports
  induction ports with
  | nil => intro _ old; rfl
  | cons n ports ih =>
      intro hdistinct old
      rw [List.map_cons, List.nodup_cons] at hdistinct
      rw [findListener, List.map_cons]
      by_cases hn : n.pair = pair
      · have hno : pair ∉ ports.map ListenSocket.pair := hn ▸ hdistinct.1
        rw [if_pos hn, if_pos (List.mem_cons.2 (Or.inl hn.symm)), ih hdistinct.2, if_neg hno]
      · rw [if_neg hn, ih hdistinct.2]
        by_cases hmem : pair ∈ ports.map ListenSocket.pair
        · rw [if_pos hmem, if_pos (List.mem_cons_of_mem _ hmem)]
        · rw [if_neg hmem, if_neg fun h => (List.mem_cons.1 h).elim (fun h => hn h.symm) hmem]

/-- Behind the pairs `seen`: the listeners there were and the new ones, and what is left of the
copy. -/
structure Reconciling (start : Nat) (ports news : List ListenSocket)
    (seen : List (Bytes × Int)) (s : BindState) : Prop where
  ports_eq : s.ports = ports ++ news
  distinct : (s.ports.map ListenSocket.pair).Nodup
  covers : ∀ pair, pair ∈ s.ports.map ListenSocket.pair ↔
    pair ∈ ports.map ListenSocket.pair ∨ pair ∈ seen
  old : s.oldPorts = (ports.map ListenSocket.pair).filter fun pair => pair ∉ seen
  deleted : s.deleted = []
  failed : s.failedPorts = []
  bound : s.bound = news.length
  next : s.next = start + news.length

theorem Reconciling.pair {start : Nat} {ports news : List ListenSocket}
    {seen : List (Bytes × Int)} {s : BindState} (h : Reconciling start ports news seen s)
    {pair : Bytes × Int} (hbind : bind pair.1 pair.2 = true) :
    ∃ news', Reconciling start ports news' (seen ++ [pair]) (bindPair bind s pair) := by
  obtain ⟨hports, hdistinct, hcovers, hold, hdeleted, hfailed, hbound, hnext⟩ := h
  have hold₀ : (ports.map ListenSocket.pair).Nodup := by
    rw [hports, List.map_append] at hdistinct
    exact (List.nodup_append.1 hdistinct).1
  have hfind := @findListener_eq pair _ hdistinct s.oldPorts
  by_cases hmem : pair ∈ s.ports.map ListenSocket.pair
  · rw [if_pos hmem] at hfind
    have hstep : bindPair bind s pair = { s with oldPorts := s.oldPorts.erase pair } := by
      rw [bindPair, bindPort, hfind]
      rfl
    rw [hstep]
    refine ⟨news, hports, hdistinct, fun p => ?_, ?_, hdeleted, hfailed, hbound, hnext⟩
    · rw [hcovers, List.mem_append, List.mem_singleton]
      constructor
      · rintro (h | h)
        · exact Or.inl h
        · exact Or.inr (Or.inl h)
      · rintro (h | h | rfl)
        · exact Or.inl h
        · exact Or.inr h
        · exact (hcovers p).1 hmem
    · show s.oldPorts.erase pair = _
      rw [hold, (hold₀.filter _).erase_eq_filter, List.filter_filter]
      refine List.filter_congr fun p _ => ?_
      rw [Bool.eq_iff_iff]
      simp [not_or, and_comm]
  · rw [if_neg hmem] at hfind
    have hstep : bindPair bind s pair = { s with
        portsFound := s.portsFound + 1
        next := s.next + 1
        bound := s.bound + 1
        ports := s.ports ++ [⟨s.next, pair.1, pair.2⟩] } := by
      rw [bindPair, bindPort, hfind]
      dsimp only
      rw [if_neg (by decide), if_pos hbind]
    have hpair : (⟨s.next, pair.1, pair.2⟩ : ListenSocket).pair = pair := rfl
    rw [hstep]
    refine ⟨news ++ [⟨s.next, pair.1, pair.2⟩], ?_, ?_, fun p => ?_, ?_, hdeleted, hfailed, ?_, ?_⟩
    · show s.ports ++ _ = _
      rw [hports, List.append_assoc]
    · show ((s.ports ++ _).map ListenSocket.pair).Nodup
      rw [List.map_append, List.map_singleton, hpair, List.nodup_append]
      refine ⟨hdistinct, List.nodup_singleton _, fun a ha b hb => ?_⟩
      rw [List.mem_singleton.1 hb]
      exact fun h => hmem (h ▸ ha)
    · show p ∈ (s.ports ++ _).map ListenSocket.pair ↔ _
      rw [List.map_append, List.map_singleton, hpair, List.mem_append, hcovers, List.mem_append,
        or_assoc]
    · show s.oldPorts = _
      rw [hold]
      refine List.filter_congr fun p hp => ?_
      have hne : p ≠ pair := by
        rintro rfl
        exact hmem ((hcovers p).2 (Or.inl hp))
      simp [hne]
    · show s.bound + 1 = _
      rw [hbound, List.length_append]
      rfl
    · show s.next + 1 = _
      rw [hnext, List.length_append]
      rfl

theorem Reconciling.all {start : Nat} {ports : List ListenSocket}
    (pairs : List (Bytes × Int)) : ∀ {news : List ListenSocket} {seen : List (Bytes × Int)}
    {s : BindState}, (∀ pair ∈ pairs, bind pair.1 pair.2 = true) →
    Reconciling start ports news seen s →
    ∃ news', Reconciling start ports news' (seen ++ pairs) (pairs.foldl (bindPair bind) s) := by
  induction pairs with
  | nil =>
      intro news seen s _ h
      rw [List.append_nil]
      exact ⟨news, h⟩
  | cons pair pairs ih =>
      intro news seen s hbind h
      obtain ⟨news', hnext⟩ := h.pair (hbind pair List.mem_cons_self)
      have hall := ih (fun p hp => hbind p (List.mem_cons_of_mem _ hp)) hnext
      rw [List.append_assoc, List.singleton_append] at hall
      exact hall

/-! ## Closing what is left -/

/-- With no two listeners for one pair, the first for the pair of `l` is `l`. -/
theorem find_pair {l : ListenSocket} : ∀ {ports : List ListenSocket},
    (ports.map ListenSocket.pair).Nodup → l ∈ ports →
    ports.find? (·.pair = l.pair) = some l ∧
      ports.eraseP (·.pair = l.pair) = ports.filter (· ≠ l) := by
  intro ports
  induction ports with
  | nil => intro _ hl; cases hl
  | cons n ports ih =>
      intro hdistinct hl
      rw [List.map_cons, List.nodup_cons] at hdistinct
      by_cases hn : n = l
      · subst hn
        have hno : n ∉ ports := fun h => hdistinct.1 (List.mem_map_of_mem h)
        have hkeep : ports.filter (· ≠ n) = ports :=
          List.filter_eq_self.2 fun a ha => decide_eq_true fun h => hno (h ▸ ha)
        have hself : decide (n.pair = n.pair) = true := decide_eq_true rfl
        rw [List.filter_cons_of_neg (by simp), hkeep]
        constructor
        · rw [List.find?_cons, hself]
        · rw [List.eraseP_cons, hself, cond_true]
      · have hmem : l ∈ ports := (List.mem_cons.1 hl).resolve_left (Ne.symm hn)
        have hne : n.pair ≠ l.pair := fun h => hdistinct.1 (h ▸ List.mem_map_of_mem hmem)
        obtain ⟨hfind, herase⟩ := ih hdistinct.2 hmem
        simp [hn, hne, hfind, herase]

theorem closeOld_eq {s : BindState} {l : ListenSocket}
    (hdistinct : (s.ports.map ListenSocket.pair).Nodup) (hl : l ∈ s.ports) :
    closeOld s l.pair = { s with
      ports := s.ports.filter (· ≠ l)
      deleted := s.deleted ++ [l] } := by
  obtain ⟨hfind, herase⟩ := find_pair hdistinct hl
  rw [closeOld, hfind]
  dsimp only
  rw [herase]

theorem closeAll_eq (gone : List ListenSocket) : ∀ {s : BindState},
    (s.ports.map ListenSocket.pair).Nodup → gone.Nodup → (∀ l ∈ gone, l ∈ s.ports) →
    (gone.map ListenSocket.pair).foldl closeOld s = { s with
      ports := s.ports.filter (· ∉ gone)
      deleted := s.deleted ++ gone } := by
  induction gone with
  | nil => intro s _ _ _; simp
  | cons l gone ih =>
      intro s hdistinct hgone hmem
      rw [List.nodup_cons] at hgone
      rw [List.map_cons, List.foldl_cons, closeOld_eq hdistinct (hmem l List.mem_cons_self), ih]
      · simp only [List.filter_filter, List.append_assoc, List.singleton_append]
        congr 1
        refine List.filter_congr fun n _ => ?_
        rw [Bool.eq_iff_iff]
        simp [not_or, and_comm]
      · exact hdistinct.sublist (List.filter_sublist.map _)
      · exact hgone.2
      · intro n hn
        refine List.mem_filter.2 ⟨hmem n (List.mem_cons_of_mem l hn), decide_eq_true ?_⟩
        rintro rfl
        exact hgone.1 hn

/-! ## `BindPorts` -/

/-- The run of `BindPorts` on a well-formed configuration, all binds succeeding. -/
theorem bindPorts_eq {config : List BindText} (hwf : ∀ t ∈ config, t.WellFormed maxbuf)
    (hbind : ∀ pair ∈ named maxbuf config, bind pair.1 pair.2 = true)
    {ports : List ListenSocket} (hdistinct : (ports.map ListenSocket.pair).Nodup) (start : Nat) :
    ∃ news s', (∀ fuel, (named maxbuf config).length < fuel →
        bindPorts maxbuf bind fuel (config.map BindText.toSection) ports start = some s') ∧
      s'.ports = ports.filter (·.pair ∈ named maxbuf config) ++ news ∧
      ((ports ++ news).map ListenSocket.pair).Nodup ∧
      (∀ pair, pair ∈ (ports ++ news).map ListenSocket.pair ↔
        pair ∈ ports.map ListenSocket.pair ∨ pair ∈ named maxbuf config) ∧
      s'.deleted = ports.filter (·.pair ∉ named maxbuf config) ∧
      s'.failedPorts = [] ∧ s'.bound = news.length ∧ s'.next = start + news.length := by
  have hstart : Reconciling start ports [] [] {
      ports := ports
      oldPorts := ports.map ListenSocket.pair
      bound := 0
      portsFound := 0
      failedPorts := []
      deleted := []
      next := start } :=
    ⟨(List.append_nil _).symm, hdistinct, by simp, by simp, rfl, rfl, rfl, rfl⟩
  obtain ⟨news, h⟩ := Reconciling.all (named maxbuf config) hbind hstart
  rw [List.nil_append] at h
  have hrun := fun fuel hfuel => @bindSections_named maxbuf bind config hwf fuel {
    ports := ports
    oldPorts := ports.map ListenSocket.pair
    bound := 0
    portsFound := 0
    failedPorts := []
    deleted := []
    next := start } hfuel
  generalize (named maxbuf config).foldl (bindPair bind) _ = s at h hrun
  obtain ⟨hports, hall, hcovers, hold, hdeleted, hfailed, hbound, hnext⟩ := h
  have hgone : s.oldPorts
      = (ports.filter (·.pair ∉ named maxbuf config)).map ListenSocket.pair := by
    rw [hold, List.filter_map]
    rfl
  have hclose := @closeAll_eq (ports.filter (·.pair ∉ named maxbuf config)) s hall
    ((List.Nodup.of_map _ hdistinct).filter _) fun l hl => by
      rw [hports]
      exact List.mem_append_left _ (List.mem_filter.1 hl).1
  rw [← hgone, hdeleted, List.nil_append] at hclose
  refine ⟨news, s.oldPorts.foldl closeOld s, fun fuel hfuel => ?_, ?_, hports ▸ hall,
    hports ▸ hcovers, ?_, ?_, ?_, ?_⟩
  · have hnothing : ports = [] → s.oldPorts.foldl closeOld s = s := by
      rintro rfl
      rw [hgone]
      rfl
    rw [bindPorts, hrun fuel hfuel]
    dsimp only
    split
    · next h => rw [hnothing h]
    · rfl
  · rw [hclose]
    show s.ports.filter _ = _
    rw [hports, List.filter_append]
    rw [hports, List.map_append, List.nodup_append] at hall
    congr 1
    · refine List.filter_congr fun l hl => ?_
      rw [Bool.eq_iff_iff]
      simp [List.mem_filter, hl]
    · refine List.filter_eq_self.2 fun l hl => decide_eq_true fun hmem => ?_
      exact hall.2.2 _ (List.mem_map_of_mem (List.mem_filter.1 hmem).1) _
        (List.mem_map_of_mem hl) rfl
  all_goals
    rw [hclose]
  · exact hfailed
  · exact hbound
  · exact hnext

/-- On listeners for distinct pairs and a well-formed configuration, all binds succeeding:
behind `BindPorts` there is one listener for each pair named and none for any other; the
listeners whose pairs are named are kept as they were, the others are deleted, each once;
and another `BindPorts` with the same configuration changes nothing. -/
theorem bindPorts_reconciles (maxbuf : Nat) (bind : Bytes → Int → Bool) (config : List BindText)
    (ports : List ListenSocket) (start : Nat) (hwf : ∀ t ∈ config, t.WellFormed maxbuf)
    (hbind : ∀ pair ∈ named maxbuf config, bind pair.1 pair.2 = true)
    (hdistinct : (ports.map ListenSocket.pair).Nodup) :
    ∃ s', (∀ fuel, (named maxbuf config).length < fuel →
        bindPorts maxbuf bind fuel (config.map BindText.toSection) ports start = some s') ∧
      (s'.ports.map ListenSocket.pair).Nodup ∧
      (∀ pair, pair ∈ s'.ports.map ListenSocket.pair ↔ pair ∈ named maxbuf config) ∧
      (∀ l, l.pair ∈ ports.map ListenSocket.pair → l.pair ∈ named maxbuf config →
        (l ∈ s'.ports ↔ l ∈ ports)) ∧
      s'.deleted = ports.filter (·.pair ∉ named maxbuf config) ∧
      ∃ s'', (∀ fuel, (named maxbuf config).length < fuel →
          bindPorts maxbuf bind fuel (config.map BindText.toSection) s'.ports s'.next
            = some s'') ∧
        s''.ports = s'.ports ∧ s''.deleted = [] ∧ s''.bound = 0 ∧ s''.next = s'.next := by
  obtain ⟨news, s', hrun, hports, hall, hcovers, hdeleted, -, -, -⟩ :=
    bindPorts_eq hwf hbind hdistinct start
  have hnodup : (s'.ports.map ListenSocket.pair).Nodup := by
    rw [hports]
    exact hall.sublist ((List.filter_sublist.append (List.Sublist.refl _)).map _)
  have hnews : ∀ l ∈ news, l.pair ∉ ports.map ListenSocket.pair := by
    intro l hl h
    rw [List.map_append, List.nodup_append] at hall
    exact hall.2.2 _ h _ (List.mem_map_of_mem hl) rfl
  have hnamed : ∀ pair, pair ∈ s'.ports.map ListenSocket.pair ↔ pair ∈ named maxbuf config := by
    intro pair
    rw [hports, List.map_append, List.mem_append]
    constructor
    · rintro (h | h)
      · obtain ⟨l, hl, rfl⟩ := List.mem_map.1 h
        exact of_decide_eq_true (List.mem_filter.1 hl).2
      · obtain ⟨l, hl, rfl⟩ := List.mem_map.1 h
        have hcover := (hcovers l.pair).1
          (List.mem_map_of_mem (List.mem_append_right ports hl))
        exact hcover.resolve_left (hnews l hl)
    · intro h
      have hcover := (hcovers pair).2 (Or.inr h)
      rw [List.map_append, List.mem_append] at hcover
      rcases hcover with hold | hnew
      · obtain ⟨l, hl, rfl⟩ := List.mem_map.1 hold
        exact Or.inl (List.mem_map_of_mem (List.mem_filter.2 ⟨hl, decide_eq_true h⟩))
      · exact Or.inr hnew
  have hkept : ∀ l, l.pair ∈ ports.map ListenSocket.pair → l.pair ∈ named maxbuf config →
      (l ∈ s'.ports ↔ l ∈ ports) := by
    intro l hold hname
    rw [hports, List.mem_append]
    constructor
    · rintro (h | h)
      · exact (List.mem_filter.1 h).1
      · exact absurd hold (hnews l h)
    · exact fun h => Or.inl (List.mem_filter.2 ⟨h, decide_eq_true hname⟩)
  -- all the pairs are there now, so the second run finds each and leaves nothing over
  obtain ⟨news₂, s'', hrun₂, hports₂, hall₂, hcovers₂, hdeleted₂, -, hbound₂, hnext₂⟩ :=
    bindPorts_eq hwf hbind hnodup s'.next
  have hnone : news₂ = [] := by
    refine List.eq_nil_iff_forall_not_mem.2 fun l hl => ?_
    have hmem : l.pair ∈ s'.ports.map ListenSocket.pair := by
      rcases (hcovers₂ l.pair).1 (List.mem_map_of_mem (List.mem_append_right _ hl)) with h | h
      · exact h
      · exact (hnamed l.pair).2 h
    rw [List.map_append, List.nodup_append] at hall₂
    exact hall₂.2.2 _ hmem _ (List.mem_map_of_mem hl) rfl
  have hstay : ∀ l ∈ s'.ports, l.pair ∈ named maxbuf config :=
    fun l hl => (hnamed l.pair).1 (List.mem_map_of_mem hl)
  subst hnone
  refine ⟨s', hrun, hnodup, hnamed, hkept, hdeleted, s'', hrun₂, ?_, ?_, hbound₂, hnext₂⟩
  · rw [hports₂, List.append_nil]
    exact List.filter_eq_self.2 fun l hl => decide_eq_true (hstay l hl)
  · rw [hdeleted₂]
    exact List.filter_eq_nil_iff.2 fun l hl h => of_decide_eq_true h (hstay l hl)

/-- Ports 80 to 82 and 8080 on every address, where there are listeners for 81 and for a pair that
is not mentioned. -/
theorem bindPorts_reconciles_rangeAndOne :
    ∃ s', (∀ fuel, 4 < fuel → bindPorts 1024 (fun _ _ => true) fuel
        [⟨str "80-82,8080", str "*"⟩]
        [⟨0, [], 81⟩, ⟨1, str "::1", 443⟩] 2 = some s') ∧
      (s'.ports.map ListenSocket.pair).Nodup ∧
      (∀ pair, pair ∈ s'.ports.map ListenSocket.pair ↔
        pair ∈ ([([], 80), ([], 81), ([], 82), ([], 8080)] : List (Bytes × Int))) ∧
      s'.deleted = [⟨1, str "::1", 443⟩] := by
  obtain ⟨s', hrun, hnodup, hnamed, -, hdeleted, -⟩ := bindPorts_reconciles 1024 (fun _ _ => true)
    [⟨[.range (str "80") (str "82"), .one (str "8080")], str "*"⟩]
    [⟨0, [], 81⟩, ⟨1, str "::1", 443⟩] 2
    (by
      intro t ht
      obtain rfl := List.mem_singleton.1 ht
      refine ⟨fun item hitem => ?_, by decide⟩
      simp only [List.mem_cons, List.not_mem_nil, or_false] at hitem
      rcases hitem with rfl | rfl
      · exact ⟨⟨by decide, by decide +kernel, by decide, by decide⟩,
          ⟨by decide, by decide +kernel, by decide, by decide⟩, by decide⟩
      · exact ⟨by decide, by decide +kernel, by decide, by decide⟩)
    (fun _ _ => rfl) (by decide)
  exact ⟨s', hrun, hnodup, hnamed, hdeleted⟩

end Hottpd
