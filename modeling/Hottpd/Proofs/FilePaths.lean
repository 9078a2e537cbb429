import Mathlib.Data.List.Infix
import Hottpd.Core.FileSystem
import Hottpd.Core.Uri

/-!
# The walk down a path

`CheckFilePath` asks for the prefixes of a path one after the other, and only goes
on behind a directory. What it answers is decided by the first prefix that is not
one, and by the whole path if there is none: the walk is a search for the first
element of a list, and what it returns is what `Stat` says there.
-/

namespace Hottpd

open Bytes

/-! ## The prefixes -/

/-- The prefixes of `done ++ rest` that end before a slash of `rest`. -/
def slashPrefixes (done rest : Bytes) : List Bytes :=
  (rest.inits.filter fun p => rest[p.length]? = some 47).map (done ++ ·)

/-- The prefixes of `b ++ path` that end before a slash of `path`, the first character apart,
and all of it. -/
def statPrefixes (b path : Bytes) : List Bytes :=
  ((path.inits.filter fun p => p ≠ [] ∧ path[p.length]? = some 47).map (b ++ ·)) ++ [b ++ path]

theorem slashPrefixes_nil (done : Bytes) : slashPrefixes done [] = [] := rfl

theorem slashPrefixes_cons (done : Bytes) (c : UInt8) (rest : Bytes) :
    slashPrefixes done (c :: rest) =
      (if c = 47 then [done] else []) ++ slashPrefixes (done ++ [c]) rest := by
  have hmore : (rest.inits.map (c :: ·)).filter (fun p => (c :: rest)[p.length]? = some 47)
      = (rest.inits.filter fun p => rest[p.length]? = some 47).map (c :: ·) := by
    rw [List.filter_map]
    rfl
  have hjoin : (fun p => done ++ [c] ++ p) = (done ++ ·) ∘ (c :: ·) := by
    funext p
    simp
  rw [slashPrefixes, slashPrefixes, List.inits_cons, hjoin, ← List.map_map]
  by_cases hc : c = 47
  · rw [List.filter_cons_of_pos (by simp [hc]), hmore, if_pos hc, List.map_cons, List.append_nil]
    rfl
  · rw [List.filter_cons_of_neg (by simp [hc]), hmore, if_neg hc, List.nil_append]

theorem statPrefixes_cons (b : Bytes) (c : UInt8) (rest : Bytes) :
    statPrefixes b (c :: rest) = slashPrefixes (b ++ [c]) rest ++ [b ++ c :: rest] := by
  have hmore : (rest.inits.map (c :: ·)).filter
      (fun p => p ≠ [] ∧ (c :: rest)[p.length]? = some 47)
      = (rest.inits.filter fun p => rest[p.length]? = some 47).map (c :: ·) := by
    rw [List.filter_map]
    simp [Function.comp_def]
  have hjoin : (fun p => b ++ [c] ++ p) = (b ++ ·) ∘ (c :: ·) := by
    funext p
    simp
  rw [statPrefixes, slashPrefixes, List.inits_cons, hjoin, ← List.map_map,
    List.filter_cons_of_neg (by simp), hmore]

theorem inits_longer (s : Bytes) : s.inits.Pairwise fun p q => p.length < q.length := by
  induction s with
  | nil => simp
  | cons c s ih =>
      rw [List.inits_cons, List.pairwise_cons, List.pairwise_map]
      constructor
      · intro q hq
        obtain ⟨p, -, rfl⟩ := List.mem_map.1 hq
        exact Nat.succ_pos _
      · exact ih.imp fun h => Nat.succ_lt_succ h

/-- The prefixes get longer and longer. -/
theorem statPrefixes_longer (b path : Bytes) :
    (statPrefixes b path).Pairwise fun p q => p.length < q.length := by
  rw [statPrefixes, List.pairwise_append, List.pairwise_map]
  refine ⟨((inits_longer path).filter _).imp fun h => ?_, List.pairwise_singleton _ _, ?_⟩
  · rw [List.length_append, List.length_append]
    omega
  · intro q hq q' hq'
    obtain rfl := List.mem_singleton.1 hq'
    obtain ⟨p, hp, rfl⟩ := List.mem_map.1 hq
    have hslash : path[p.length]? = some 47 := by
      have := (List.mem_filter.1 hp).2
      simp only [decide_eq_true_eq] at this
      exact this.2
    have hlt := (List.getElem?_eq_some_iff.1 hslash).1
    rw [List.length_append, List.length_append]
    omega

/-! ## The walk -/

section Walk

variable {stat : StatResults}

/-- `Stat` says that this is a directory. -/
def DirAt (stat : StatResults) (q : Bytes) : Prop :=
  ∃ st, stat (cstr q) = .ok st ∧ st.kind = .dir

/-- What is returned where the walk stops. -/
def stopAt (stat : StatResults) (q : Bytes) : Except Errno (Bytes × Stat) :=
  match stat (cstr q) with
  | .error e => .error e
  | .ok st => if st.kind = .reg then .ok (q, st) else .error .eacces

/-- The walk stops at this element of the list: all before it are directories, and it is not,
unless it is the last. -/
structure Stops (stat : StatResults) (qs before : List Bytes) (q : Bytes) (after : List Bytes) :
    Prop where
  split : qs = before ++ q :: after
  dirs : ∀ p ∈ before, DirAt stat p
  stop : DirAt stat q → after = []

theorem stopAt_ok {q full : Bytes} {st : Stat} :
    stopAt stat q = .ok (full, st) ↔ full = q ∧ FileAt stat q st := by
  unfold stopAt FileAt
  split
  · next e he => simp [he]
  · next st' hst =>
      rw [hst]
      split
      · next hreg =>
          constructor
          · intro h
            cases h
            exact ⟨rfl, rfl, hreg⟩
          · rintro ⟨rfl, h, -⟩
            cases h
            rfl
      · next hreg =>
          refine iff_of_false (by simp) ?_
          rintro ⟨-, h, hkind⟩
          cases h
          exact hreg hkind

theorem stopAt_error {q : Bytes} {e : Errno} :
    stopAt stat q = .error e ↔ stat (cstr q) = .error e ∨
      (e = .eacces ∧ ∃ st, stat (cstr q) = .ok st ∧ st.kind ≠ .reg) := by
  unfold stopAt
  split
  · next e' he =>
      rw [he]
      simp
  · next st hst =>
      rw [hst]
      split
      · next hreg => simp [hreg]
      · next hreg =>
          simp only [Except.error.injEq, Except.ok.injEq, reduceCtorEq, false_or]
          constructor
          · intro h
            exact ⟨h.symm, st, rfl, hreg⟩
          · rintro ⟨rfl, -⟩
            rfl

theorem FileAt.not_dir {q : Bytes} {st : Stat} (h : FileAt stat q st) : ¬DirAt stat q := by
  rintro ⟨st', hst', hdir⟩
  obtain ⟨hst, hreg⟩ := h
  rw [hst] at hst'
  cases hst'
  rw [hreg] at hdir
  cases hdir

/-- There is one place to stop at. -/
theorem Stops.unique {qs before' after' : List Bytes} {q' : Bytes} : ∀ {before : List Bytes}
    {q : Bytes} {after : List Bytes}, Stops stat qs before q after →
    Stops stat qs before' q' after' → q = q' := by
  induction qs generalizing before' with
  | nil => intro before q after h; simpa using h.split
  | cons first qs ih =>
      intro before q after h h'
      have hsplit := h.split
      have hsplit' := h'.split
      cases before with
      | nil =>
          cases before' with
          | nil => exact (List.cons.inj hsplit).1.symm.trans (List.cons.inj hsplit').1
          | cons p before' =>
              obtain ⟨hq, hafter⟩ := List.cons.inj hsplit
              obtain ⟨hp, hmore⟩ := List.cons.inj hsplit'
              have hdir : DirAt stat q := hq ▸ hp ▸ h'.dirs p List.mem_cons_self
              rw [hmore, h.stop hdir] at hafter
              simp at hafter
      | cons p before =>
          cases before' with
          | nil =>
              obtain ⟨hq, hafter⟩ := List.cons.inj hsplit'
              obtain ⟨hp, hmore⟩ := List.cons.inj hsplit
              have hdir : DirAt stat q' := hq ▸ hp ▸ h.dirs p List.mem_cons_self
              rw [hmore, h'.stop hdir] at hafter
              simp at hafter
          | cons p' before' =>
              exact ih ⟨(List.cons.inj hsplit).2, fun r hr => h.dirs r (List.mem_cons_of_mem p hr),
                h.stop⟩ ⟨(List.cons.inj hsplit').2,
                fun r hr => h'.dirs r (List.mem_cons_of_mem p' hr), h'.stop⟩

/-- The loop stops there, with what `Stat` says. -/
theorem checkComponents_stops (rest : Bytes) : ∀ done : Bytes, ∃ before q after,
    Stops stat (slashPrefixes done rest ++ [done ++ rest]) before q after ∧
      checkComponents stat done rest = stopAt stat q := by
  induction rest with
  | nil =>
      intro done
      exact ⟨[], done, [], ⟨by simp [slashPrefixes_nil], by simp, fun _ => rfl⟩, rfl⟩
  | cons c rest ih =>
      intro done
      obtain ⟨before, q, after, hstops, heq⟩ := ih (done ++ [c])
      have hsplit := hstops.split
      rw [List.append_assoc, List.singleton_append] at hsplit
      by_cases hc : c = 47
      · have hlist : slashPrefixes done (c :: rest) ++ [done ++ c :: rest]
            = done :: (before ++ q :: after) := by
          rw [slashPrefixes_cons, if_pos hc, List.append_assoc, hsplit]
          rfl
        rw [hlist, checkComponents, if_pos hc]
        by_cases hdir : DirAt stat done
        · obtain ⟨st, hst, hkind⟩ := hdir
          refine ⟨done :: before, q, after, ⟨rfl, fun p hp => ?_, hstops.stop⟩, ?_⟩
          · rcases List.mem_cons.1 hp with rfl | hp
            · exact ⟨st, hst, hkind⟩
            · exact hstops.dirs p hp
          · rw [hst]
            dsimp only
            rw [hkind]
            exact heq
        · refine ⟨[], done, before ++ q :: after, ⟨rfl, by simp, fun h => absurd h hdir⟩, ?_⟩
          rw [stopAt]
          cases hst : stat (cstr done) with
          | error e => rfl
          | ok st =>
              dsimp only
              cases hkind : st.kind with
              | dir => exact absurd ⟨st, hst, hkind⟩ hdir
              | reg => rfl
              | symlink => rfl
              | special => rfl
      · refine ⟨before, q, after, ⟨?_, hstops.dirs, hstops.stop⟩, ?_⟩
        · rw [slashPrefixes_cons, if_neg hc, List.nil_append, hsplit]
        · rw [checkComponents, if_neg hc, heq]

/-- `CheckFilePath` stops at the first of the prefixes that is not a directory. -/
theorem checkFilePath_stops (basedir path : Bytes) : ∃ before q after,
    Stops stat (statPrefixes (stripSlash basedir) (slash :: path)) before q after ∧
      checkFilePath stat basedir (slash :: path) = stopAt stat q := by
  obtain ⟨before, q, after, hstops, heq⟩ :=
    @checkComponents_stops stat path (stripSlash basedir ++ [slash])
  rw [List.append_assoc, List.singleton_append] at hstops
  rw [statPrefixes_cons]
  exact ⟨before, q, after, hstops, heq⟩

/-- What `CheckFilePath` answers, in terms of the prefix it stops at. -/
theorem checkFilePath_ok_stops {basedir path full : Bytes} {st : Stat} :
    checkFilePath stat basedir (slash :: path) = .ok (full, st) ↔ ∃ before after,
      Stops stat (statPrefixes (stripSlash basedir) (slash :: path)) before full after ∧
        FileAt stat full st := by
  obtain ⟨before, q, after, hstops, heq⟩ := @checkFilePath_stops stat basedir path
  rw [heq, stopAt_ok]
  constructor
  · rintro ⟨rfl, hfile⟩
    exact ⟨before, after, hstops, hfile⟩
  · rintro ⟨before', after', hstops', hfile⟩
    obtain rfl := hstops.unique hstops'
    exact ⟨rfl, hfile⟩

/-- Only the elements before another are shorter. -/
theorem mem_before_of_length {b path q full : Bytes} {before after : List Bytes}
    (hsplit : statPrefixes b path = before ++ full :: after) (hq : q ∈ statPrefixes b path)
    (hlt : q.length < full.length) : q ∈ before := by
  have hlonger := statPrefixes_longer b path
  rw [hsplit] at hq hlonger
  obtain ⟨-, htail, -⟩ := List.pairwise_append.1 hlonger
  rcases List.mem_append.1 hq with h | h
  · exact h
  · rcases List.mem_cons.1 h with rfl | h
    · exact absurd hlt (Nat.lt_irrefl _)
    · have := (List.pairwise_cons.1 htail).1 q h
      omega

/-- A beginning of a prefix that ends before a slash is a prefix itself. -/
theorem mem_statPrefixes {b path p full : Bytes} (hp : p ≠ [])
    (hfull : full ∈ statPrefixes b path) (hpre : b ++ p ++ [slash] <+: full) :
    b ++ p ∈ statPrefixes b path := by
  have hpath : p ++ [slash] <+: path := by
    have hle : ∃ f, full = b ++ f ∧ f <+: path := by
      rcases List.mem_append.1 hfull with h | h
      · obtain ⟨f, hf, rfl⟩ := List.mem_map.1 h
        exact ⟨f, rfl, (List.mem_inits f path).1 (List.mem_filter.1 hf).1⟩
      · exact ⟨path, List.mem_singleton.1 h, List.prefix_refl path⟩
    obtain ⟨f, rfl, hf⟩ := hle
    rw [List.append_assoc, List.prefix_append_right_inj] at hpre
    exact hpre.trans hf
  obtain ⟨rest, hrest⟩ := hpath
  refine List.mem_append_left _ (List.mem_map_of_mem (List.mem_filter.2 ⟨?_, ?_⟩))
  · exact (List.mem_inits p path).2 ⟨slash :: rest, by simpa using hrest⟩
  · rw [← hrest]
    simp [hp, slash]

/-- A given prefix is what is returned. -/
theorem checkFilePath_ok_at {basedir path q : Bytes} {before after : List Bytes} {st : Stat}
    (hsplit : statPrefixes (stripSlash basedir) (slash :: path) = before ++ q :: after) :
    checkFilePath stat basedir (slash :: path) = .ok (q, st) ↔
      (∀ p ∈ before, DirAt stat p) ∧ FileAt stat q st := by
  rw [checkFilePath_ok_stops]
  constructor
  · rintro ⟨before', after', hstops, hfile⟩
    refine ⟨fun p hp => hstops.dirs p ?_, hfile⟩
    refine mem_before_of_length hstops.split ?_ ?_
    · rw [hsplit]
      exact List.mem_append_left _ hp
    · have hlonger := statPrefixes_longer (stripSlash basedir) (slash :: path)
      rw [hsplit] at hlonger
      exact (List.pairwise_append.1 hlonger).2.2 p hp q List.mem_cons_self
  · rintro ⟨hdirs, hfile⟩
    exact ⟨before, after, ⟨hsplit, hdirs, fun h => absurd h hfile.not_dir⟩, hfile⟩

theorem Stops.mem {prefixes before after : List Bytes} {q : Bytes}
    (h : Stops stat prefixes before q after) : q ∈ prefixes := by
  rw [h.split]
  exact List.mem_append_right before List.mem_cons_self

theorem checkFilePath_error_iff {basedir path : Bytes} {e : Errno} :
    checkFilePath stat basedir (slash :: path) = .error e ↔
      ∃ before q after, statPrefixes (stripSlash basedir) (slash :: path) = before ++ q :: after ∧
        (∀ p ∈ before, DirAt stat p) ∧
        (stat (cstr q) = .error e ∨
          e = .eacces ∧ ∃ st, stat (cstr q) = .ok st ∧ st.kind ≠ .reg ∧
            (st.kind ≠ .dir ∨ after = [])) := by
  obtain ⟨before, q, after, hstops, heq⟩ := @checkFilePath_stops stat basedir path
  rw [heq, stopAt_error]
  constructor
  · intro h
    refine ⟨before, q, after, hstops.split, hstops.dirs, h.imp_right ?_⟩
    rintro ⟨he, st, hst, hreg⟩
    refine ⟨he, st, hst, hreg, ?_⟩
    by_cases hdir : st.kind = .dir
    · exact Or.inr (hstops.stop ⟨st, hst, hdir⟩)
    · exact Or.inl hdir
  · rintro ⟨before', q', after', hsplit, hdirs, h⟩
    have hstop : DirAt stat q' → after' = [] := by
      rintro ⟨st, hst, hdir⟩
      rcases h with h | ⟨-, st', hst', -, hother⟩
      · rw [hst] at h
        cases h
      · rw [hst] at hst'
        cases hst'
        exact hother.resolve_left fun hne => hne hdir
    obtain rfl := hstops.unique ⟨hsplit, hdirs, hstop⟩
    refine h.imp_right ?_
    rintro ⟨he, st, hst, hreg, -⟩
    exact ⟨he, st, hst, hreg⟩

/-- On the way to what is returned there are directories, and it is a regular file. -/
theorem checkFilePath_ok_way {basedir path full p : Bytes} {st : Stat}
    (hok : checkFilePath stat basedir (slash :: path) = .ok (full, st)) (hp : p ≠ [])
    (hon : stripSlash basedir ++ p = full ∨ stripSlash basedir ++ p ++ [slash] <+: full) :
    ∃ st', stat (cstr (stripSlash basedir ++ p)) = .ok st' ∧ st'.kind ≠ .symlink := by
  obtain ⟨before, after, hstops, hfile⟩ := checkFilePath_ok_stops.1 hok
  rcases hon with rfl | hpre
  · refine ⟨st, hfile.1, ?_⟩
    rw [hfile.2]
    decide
  · have hlt : (stripSlash basedir ++ p).length < full.length := by
      have := hpre.length_le
      rw [List.length_append, List.length_singleton] at this
      omega
    obtain ⟨st', hst', hdir⟩ := hstops.dirs _
      (mem_before_of_length hstops.split (mem_statPrefixes hp hstops.mem hpre) hlt)
    refine ⟨st', hst', ?_⟩
    rw [hdir]
    decide

end Walk

/-- For any answers of `stat` and `lstat`: a prefix is returned, with what `Stat` says of it,
if and only if all before it are directories and it is a regular file, and nothing else is
returned; what fails is the first prefix that `Stat` fails for, or one that is neither, or the
whole path where it is not a regular file. When symbolic links are not followed none is on the
way to what is returned. -/
theorem checkFilePath_decides (stat : Bool → StatResults) (followSymLinks : Bool)
    (basedir path : Bytes) :
    (∀ before q after st, statPrefixes (stripSlash basedir) (slash :: path) = before ++ q :: after →
      (checkFilePath (stat followSymLinks) basedir (slash :: path) = .ok (q, st) ↔
        (∀ p ∈ before, DirAt (stat followSymLinks) p) ∧ FileAt (stat followSymLinks) q st)) ∧
    (∀ full st, checkFilePath (stat followSymLinks) basedir (slash :: path) = .ok (full, st) →
      full ∈ statPrefixes (stripSlash basedir) (slash :: path)) ∧
    (∀ e, checkFilePath (stat followSymLinks) basedir (slash :: path) = .error e ↔
      ∃ before q after, statPrefixes (stripSlash basedir) (slash :: path) = before ++ q :: after ∧
        (∀ p ∈ before, DirAt (stat followSymLinks) p) ∧
        (stat followSymLinks (cstr q) = .error e ∨
          e = .eacces ∧ ∃ st, stat followSymLinks (cstr q) = .ok st ∧ st.kind ≠ .reg ∧
            (st.kind ≠ .dir ∨ after = []))) ∧
    (∀ full st, checkFilePath (stat false) basedir (slash :: path) = .ok (full, st) →
      ∀ p, p ≠ [] → (stripSlash basedir ++ p = full ∨ stripSlash basedir ++ p ++ [slash] <+: full) →
        ∃ st', stat false (cstr (stripSlash basedir ++ p)) = .ok st' ∧ st'.kind ≠ .symlink) := by
  refine ⟨fun before q after st => checkFilePath_ok_at, fun full st hok => ?_,
    fun e => checkFilePath_error_iff, fun full st hok p hp hon => checkFilePath_ok_way hok hp hon⟩
  obtain ⟨before, after, hstops, -⟩ := checkFilePath_ok_stops.1 hok
  exact hstops.mem

end Hottpd
