import Hottpd.Core.StatCache

/-!
# What the stat cache answers with

Every answer of `Stat` is one the operating system gave, to the same path and
the same of the two calls, in a call that is not long past. The invariant is
that each item kept in one of the two maps is the answer of such a call, made
at the time the item says: a step either asks, and keeps what it is told, or
hands out an item whose time has not run out. The `int` the expiry time is
stored in can only make it earlier.

The item has the `errno` of the system call. The call that made it hands out what
the log has left of that.
-/

namespace Hottpd

open Bytes

namespace FileSystem

/-- All that a call can do: hand on, ask and keep, or answer from the cache. -/
theorem stat_cases (duration : Int) (fs : FileSystem) (c : StatCall) :
    (duration < 1 ∧ fs.stat duration c = fs.statDirect c) ∨
      (1 ≤ duration ∧ ∃ m : StatMap, (∀ p v, m.lookup p = some v →
          (fs.cache c.followlink).lookup p = some v) ∧
        fs.stat duration c = fs.statFresh m c) ∨
      (1 ≤ duration ∧ ∃ v, (fs.cache c.followlink).lookup c.path = some v ∧
        c.fromcache = true ∧ (c.time : Int) < v.expire duration ∧
        fs.stat duration c =
          { result := v.result, value := v.value
            errno := if v.result < 0 then v.error else none
            fs := fs, asked := none }) := by
  by_cases hd : duration < 1
  · exact Or.inl ⟨hd, by rw [stat, if_pos hd]⟩
  · right
    rw [stat, if_neg hd]
    have hd' : 1 ≤ duration := by omega
    cases hlook : (fs.cache c.followlink).lookup c.path with
    | none => exact Or.inl ⟨hd', _, fun p v hv => hv, rfl⟩
    | some v =>
        by_cases hhit : c.fromcache ∧ (c.time : Int) < v.expire duration
        · refine Or.inr ⟨hd', v, rfl, hhit.1, hhit.2, ?_⟩
          simp only [if_pos hhit]
        · refine Or.inl ⟨hd', (fs.cache c.followlink).erase c.path, ?_,
            by simp only [if_neg hhit]⟩
          intro p v' hv'
          by_cases hp : stringKey p = stringKey c.path
          · rw [SortedMap.lookup_erase_self _ hp] at hv'
            cases hv'
          · rwa [SortedMap.lookup_erase_of_ne _ hp] at hv'

end FileSystem

/-- A time does not grow when it is stored in an `int`. -/
theorem timeToInt_le {t : Int} (h : 0 ≤ t) : timeToInt t ≤ t := by
  rw [timeToInt]
  omega

theorem StatCacheItem.expire_le (v : StatCacheItem) {duration : Int} (h : 1 ≤ duration) :
    v.expire duration ≤ v.created + (if v.result < 0 then 1 else duration) := by
  rw [expire]
  split
  · exact timeToInt_le (by omega)
  · exact timeToInt_le (by omega)

/-! ## Where an answer comes from -/

/-- The system call `src` made, for the path and in the way of `now`, gave the answer of
`now`. -/
structure Supplies (src now : StatDone) : Prop where
  path : src.call.path = now.call.path
  followlink : src.call.followlink = now.call.followlink
  asked : src.outcome.asked = some (src.call.kernel.ask now.call.followlink now.call.path)
  result : now.outcome.result = (src.call.kernel.ask now.call.followlink now.call.path).result
  value : now.outcome.value = (src.call.kernel.ask now.call.followlink now.call.path).value

/-- A failure leaves the `errno` of the system call that `src` made. -/
def SameErrno (src now : StatDone) : Prop :=
  now.outcome.result < 0 →
    now.outcome.errno = some (src.call.kernel.ask now.call.followlink now.call.path).errno

/-- Nothing is written to the log between the system call and the return. -/
def Unlogged (duration : Int) (now : StatDone) : Prop :=
  now.outcome.asked = none ∨ duration < 1 ∨ now.call.log.writes = false

/-- Each answer of a run comes from a call made by then, related to it in this way. -/
def Sourced (run : List StatDone) (timely : StatDone → StatDone → Prop) : Prop :=
  ∀ past now, past ++ [now] <+: run → ∃ src ∈ past ++ [now], Supplies src now ∧ timely src now

/-- The answer of `src` may still stand in for that of `now`. -/
structure Timely (duration : Int) (src now : StatDone) : Prop where
  success : 0 ≤ now.outcome.result → (now.call.time : Int) < src.call.time + duration
  failure : now.outcome.result < 0 → now.call.time < src.call.time + 1
  own : duration < 1 ∨ now.call.fromcache = false → src = now
  errno : SameErrno src now

/-- As `Timely`, with a lifetime for successes where there is a cache at all, and the `errno` of
a failure where no line is written behind the system call. -/
structure TimelyCached (duration : Int) (src now : StatDone) : Prop where
  success : 1 ≤ duration → 0 ≤ now.outcome.result →
    (now.call.time : Int) < src.call.time + duration
  failure : now.outcome.result < 0 → now.call.time < src.call.time + 1
  own : duration < 1 ∨ now.call.fromcache = false → src = now
  errno : Unlogged duration now → SameErrno src now

/-- Each item is the answer a call of the past got, at the time it says. -/
def Backed (past : List StatDone) (fs : FileSystem) : Prop :=
  ∀ follow p v, (fs.cache follow).lookup p = some v →
    ∃ src ∈ past, src.call.followlink = follow ∧ src.call.path = p ∧
      src.outcome.asked = some (src.call.kernel.ask follow p) ∧
      v = StatCacheItem.of src.call.time (src.call.kernel.ask follow p)

theorem Backed.mono {past past' : List StatDone} {fs : FileSystem} (h : Backed past fs)
    (hsub : past ⊆ past') : Backed past' fs := by
  intro follow p v hv
  obtain ⟨src, hmem, hrest⟩ := h follow p v hv
  exact ⟨src, hsub hmem, hrest⟩

theorem backed_init (garbage : Stat) : Backed [] (FileSystem.init garbage) := by
  intro follow p v hv
  cases follow <;> cases hv

/-- A call that asks answers for itself. -/
theorem supplies_self {c : StatCall} {o : StatOutcome}
    (hresult : o.result = (c.kernel.ask c.followlink c.path).result)
    (hvalue : o.value = (c.kernel.ask c.followlink c.path).value)
    (hasked : o.asked = some (c.kernel.ask c.followlink c.path)) :
    Supplies ⟨c, o⟩ ⟨c, o⟩ :=
  ⟨rfl, rfl, hasked, hresult, hvalue⟩

theorem timelyCached_self {duration : Int} {now : StatDone}
    (herrno : Unlogged duration now → SameErrno now now) : TimelyCached duration now now := by
  refine ⟨fun hd _ => ?_, fun _ => ?_, fun _ => rfl, herrno⟩
  · omega
  · omega

/-- What the item kept for a call says, the call it is from said. -/
theorem supplies_item {src : StatDone} {c : StatCall} {v : StatCacheItem} {fs : FileSystem}
    (hfollow : src.call.followlink = c.followlink) (hpath : src.call.path = c.path)
    (hasked : src.outcome.asked = some (src.call.kernel.ask c.followlink c.path))
    (hv : v = StatCacheItem.of src.call.time (src.call.kernel.ask c.followlink c.path)) :
    Supplies src ⟨c, { result := v.result, value := v.value
                       errno := if v.result < 0 then v.error else none
                       fs := fs, asked := none }⟩ := by
  subst hv
  exact ⟨hpath, hfollow, hasked, rfl, rfl⟩

/-- It was kept with the `errno` of the system call. -/
theorem sameErrno_item {src : StatDone} {c : StatCall} {v : StatCacheItem} {fs : FileSystem}
    (hv : v = StatCacheItem.of src.call.time (src.call.kernel.ask c.followlink c.path)) :
    SameErrno src ⟨c, { result := v.result, value := v.value
                        errno := if v.result < 0 then v.error else none
                        fs := fs, asked := none }⟩ := by
  subst hv
  intro hneg
  have hneg' : (src.call.kernel.ask c.followlink c.path).result < 0 := hneg
  simp only [StatCacheItem.of, if_pos hneg']

/-! ## One step -/

theorem stat_answers {past : List StatDone} {fs : FileSystem} (h : Backed past fs)
    (duration : Int) (c : StatCall) :
    ∃ src ∈ past ++ [⟨c, fs.stat duration c⟩],
      Supplies src ⟨c, fs.stat duration c⟩ ∧
      TimelyCached duration src ⟨c, fs.stat duration c⟩ := by
  rcases fs.stat_cases duration c with ⟨-, hstat⟩ | ⟨hd, m, -, hstat⟩ |
    ⟨hd, v, hv, hfrom, hhit, hstat⟩
  · refine ⟨⟨c, fs.stat duration c⟩, List.mem_concat_self, ?_, timelyCached_self fun _ => ?_⟩
    · rw [hstat]
      exact supplies_self rfl rfl rfl
    · rw [hstat]
      exact fun _ => rfl
  · refine ⟨⟨c, fs.stat duration c⟩, List.mem_concat_self, ?_, timelyCached_self fun hquiet => ?_⟩
    · rw [hstat]
      exact supplies_self rfl rfl rfl
    · rw [hstat] at hquiet ⊢
      rcases hquiet with hnone | hoff | hsilent
      · cases hnone
      · omega
      · intro _
        show some (c.log.errno _) = _
        rw [DebugLog.errno, hsilent]
        rfl
  · obtain ⟨src, hmem, hfollow, hpath, hasked, hitem⟩ := h _ _ _ hv
    refine ⟨src, List.mem_append_left _ hmem, ?_, ?_⟩
    · rw [hstat]
      exact supplies_item hfollow hpath hasked hitem
    · have htime : v.created = src.call.time := by
        rw [hitem]
        rfl
      have hlt := lt_of_lt_of_le hhit (v.expire_le hd)
      rw [hstat]
      refine ⟨?_, ?_, ?_, fun _ => sameErrno_item hitem⟩
      · intro _ hok
        rw [if_neg (not_lt.2 hok), htime] at hlt
        exact hlt
      · intro hfail
        rw [if_pos hfail, htime] at hlt
        have : c.time < src.call.time + 1 := by omega
        exact this
      · rintro (hoff | hskip)
        · omega
        · rw [hfrom] at hskip
          cases hskip

theorem stat_backed {past : List StatDone} {fs : FileSystem} (h : Backed past fs)
    (duration : Int) (c : StatCall) :
    Backed (past ++ [⟨c, fs.stat duration c⟩]) (fs.stat duration c).fs := by
  have hold : Backed (past ++ [⟨c, fs.stat duration c⟩]) fs :=
    h.mono (List.subset_append_left _ _)
  rcases fs.stat_cases duration c with ⟨-, hstat⟩ | ⟨-, m, hm, hstat⟩ | ⟨-, v, -, -, -, hstat⟩
  · intro follow p v hv
    refine hold follow p v ?_
    rw [hstat] at hv
    cases follow <;> exact hv
  · intro follow p v hv
    rw [hstat] at hv
    by_cases hfollow : follow = c.followlink
    · subst hfollow
      have hv' : (m.insert c.path (StatCacheItem.of c.time
          (c.kernel.ask c.followlink c.path))).lookup p = some v := by
        simpa only [FileSystem.statFresh, FileSystem.cache_setCache_self] using hv
      by_cases hp : stringKey p = stringKey c.path
      · -- the item just kept
        rw [SortedMap.lookup_insert_self _ _ hp] at hv'
        cases hv'
        obtain rfl := stringKey_inj hp
        refine ⟨⟨c, fs.stat duration c⟩, List.mem_concat_self, rfl, rfl, ?_, rfl⟩
        rw [hstat]
        rfl
      · rw [SortedMap.lookup_insert_of_ne _ _ hp] at hv'
        exact hold _ p v (hm p v hv')
    · -- the other of the two maps
      refine hold follow p v ?_
      simpa only [FileSystem.statFresh, FileSystem.cache_setCache_of_ne hfollow] using hv
  · have hfs : (fs.stat duration c).fs = fs := by rw [hstat]
    rw [hfs]
    exact hold

/-! ## Whole runs -/

theorem statRun_sourced (duration : Int) (calls : List StatCall) :
    ∀ (fs : FileSystem) (before : List StatDone), Backed before fs →
    ∀ past now, past ++ [now] <+: statRun duration fs calls →
      ∃ src ∈ before ++ past ++ [now], Supplies src now ∧ TimelyCached duration src now := by
  induction calls with
  | nil =>
      intro fs before _ past now hpre
      have := hpre.length_le
      simp [statRun] at this
  | cons c calls ih =>
      intro fs before hbacked past now hpre
      cases past with
      | nil =>
          rw [List.nil_append, statRun, List.cons_prefix_cons] at hpre
          rw [hpre.1, List.append_nil]
          exact stat_answers hbacked duration c
      | cons done past =>
          rw [List.cons_append, statRun, List.cons_prefix_cons] at hpre
          obtain ⟨rfl, hpre⟩ := hpre
          have h := ih _ _ (stat_backed hbacked duration c) past now hpre
          rwa [List.append_assoc before, List.singleton_append] at h

/-- Every answer is one the operating system gave for that path and that kind of call, at a
time from which it may still be taken. -/
theorem stat_sourced (duration : Int) (garbage : Stat) (calls : List StatCall) :
    Sourced (statRun duration (FileSystem.init garbage) calls) (TimelyCached duration) := by
  intro past now hpre
  exact statRun_sourced duration calls _ [] (backed_init garbage) past now hpre

/-- Without a cache a success has no lifetime: it is of the very moment. With one, the line in
the log may come between a failure and its `errno`. -/
theorem stat_untimely :
    (¬∀ (garbage : Stat) (calls : List StatCall),
      calls.Pairwise (fun c c' => c.time ≤ c'.time) →
      Sourced (statRun 0 (FileSystem.init garbage) calls) (Timely 0)) ∧
    ¬∀ (garbage : Stat) (calls : List StatCall),
      calls.Pairwise (fun c c' => c.time ≤ c'.time) →
      Sourced (statRun 2 (FileSystem.init garbage) calls) (Timely 2) := by
  let silent : DebugLog := ⟨false, id⟩
  let full : DebugLog := ⟨true, fun _ => .other⟩
  let found : SysAnswer := ⟨0, ⟨.reg, 0, 0⟩, .other⟩
  let missing : SysAnswer := ⟨-1, ⟨.reg, 0, 0⟩, .enoent⟩
  constructor
  · intro h
    let c : StatCall := ⟨0, ⟨fun _ => found, fun _ => found⟩, silent, Bytes.str "/", true, true⟩
    obtain ⟨src, hmem, -, htimely⟩ := h ⟨.reg, 0, 0⟩ [c] (List.pairwise_singleton _ _) [] _
      (List.prefix_refl _)
    obtain rfl := List.mem_singleton.1 hmem
    exact absurd (htimely.success (le_refl 0)) (lt_irrefl _)
  · intro h
    let c : StatCall := ⟨0, ⟨fun _ => missing, fun _ => missing⟩, full, Bytes.str "/", true, true⟩
    obtain ⟨src, hmem, -, htimely⟩ := h ⟨.reg, 0, 0⟩ [c] (List.pairwise_singleton _ _) [] _
      (List.prefix_refl _)
    obtain rfl := List.mem_singleton.1 hmem
    have herrno : some Errno.other = some Errno.enoent := htimely.errno (by decide)
    cases herrno

end Hottpd
