import Hottpd.Lib.Bytes

/-!
# Paths on disk: `CheckFilePath`

`FileSystem::Stat` is taken by what it answers, one assignment of results to
path strings for the duration of a `CheckFilePath` call: the walk asks for
each prefix once, so any file system that changes between the calls is one
such assignment. The answer carries `fst` with the path, since callers read
it only after a success, and the `errno` left behind otherwise.
-/

namespace Hottpd

open Bytes

/-- The values of `errno` the core tells apart. -/
inductive Errno where
  | eacces
  | enoent
  | eloop
  | enametoolong
  | enotdir
  | other
deriving DecidableEq, Repr

/-- `st_mode`, as far as `S_ISDIR`, `S_ISREG` and `S_ISLNK` see it. -/
inductive FileKind where
  | dir
  | reg
  | symlink
  | special
deriving DecidableEq, Repr

/-- The part of a `struct stat` the core reads. -/
structure Stat where
  kind : FileKind
  size : Nat
  uid : Nat
deriving DecidableEq, Repr

/-- What `stat` or `lstat` answers for each path. -/
abbrev StatResults := Bytes → Except Errno Stat

/-- The loop of `CheckFilePath`: `done` is what lies before the iterator. A
slash asks for everything before it; a regular file there ends the walk, the
rest being path-info. -/
def checkComponents (stat : StatResults) (done : Bytes) :
    Bytes → Except Errno (Bytes × Stat)
  | [] =>
      match stat (cstr done) with
      | .error e => .error e
      | .ok st => if st.kind = .reg then .ok (done, st) else .error .eacces
  | c :: rest =>
      if c = 47 then
        match stat (cstr done) with
        | .error e => .error e
        | .ok st =>
            match st.kind with
            | .dir => checkComponents stat (done ++ [c]) rest
            | .reg => .ok (done, st)
            | .symlink | .special => .error .eacces
      else checkComponents stat (done ++ [c]) rest

/-- `basedir` without one slash at its end. -/
def stripSlash (basedir : Bytes) : Bytes :=
  if basedir.getLast? = some 47 then basedir.dropLast else basedir

/-- The walk starts behind the first character of `path`. The source moves
its iterator past the end when `path` is empty, which no caller passes. -/
def checkFilePath (stat : StatResults) (basedir path : Bytes) :
    Except Errno (Bytes × Stat) :=
  match path with
  | [] => checkComponents stat (stripSlash basedir) []
  | c :: rest => checkComponents stat (stripSlash basedir ++ [c]) rest

theorem checkFilePath_eq (stat : StatResults) (basedir path : Bytes) :
    checkFilePath stat basedir path
      = checkComponents stat (stripSlash basedir ++ path.take 1) (path.drop 1) := by
  cases path <;> simp [checkFilePath]

/-! ## Where the walk ends -/

/-- The walk over `rest`, begun behind `done`, gets to `n`: a slash or the end
is there, and every slash on the way has a directory before it. -/
structure Walks (stat : StatResults) (done rest : Bytes) (n : Nat) : Prop where
  le : n ≤ rest.length
  stop : n = rest.length ∨ rest[n]? = some 47
  dirs : ∀ k < n, rest[k]? = some 47 →
    ∃ st, stat (cstr (done ++ rest.take k)) = .ok st ∧ st.kind = .dir

theorem walks_nil {stat : StatResults} {done : Bytes} {n : Nat} :
    Walks stat done [] n ↔ n = 0 := by
  constructor
  · intro h
    exact Nat.le_zero.1 h.le
  · rintro rfl
    exact ⟨Nat.le_refl 0, Or.inl rfl, fun k hk => absurd hk (Nat.not_lt_zero k)⟩

theorem walks_zero {stat : StatResults} {done : Bytes} {c : UInt8} {rest : Bytes} :
    Walks stat done (c :: rest) 0 ↔ c = 47 := by
  constructor
  · intro h
    rcases h.stop with h | h
    · cases h
    · simpa using h
  · rintro rfl
    exact ⟨Nat.zero_le _, Or.inr rfl, fun k hk => absurd hk (Nat.not_lt_zero k)⟩

theorem walks_succ {stat : StatResults} {done : Bytes} {c : UInt8} {rest : Bytes} {n : Nat} :
    Walks stat done (c :: rest) (n + 1) ↔
      (c = 47 → ∃ st, stat (cstr done) = .ok st ∧ st.kind = .dir) ∧
        Walks stat (done ++ [c]) rest n := by
  have hdone : ∀ k, done ++ (c :: rest).take (k + 1) = done ++ [c] ++ rest.take k := by
    intro k
    rw [List.take_succ_cons, List.append_assoc, List.singleton_append]
  constructor
  · intro h
    refine ⟨fun hc => ?_, ⟨?_, ?_, ?_⟩⟩
    · have h0 := h.dirs 0 (Nat.succ_pos n) (by rw [hc]; rfl)
      rw [List.take_zero, List.append_nil] at h0
      exact h0
    · have := h.le
      rw [List.length_cons] at this
      omega
    · have := h.stop
      rw [List.length_cons, List.getElem?_cons_succ] at this
      exact this.imp_left fun h => by omega
    · intro k hk hslash
      rw [← hdone k]
      exact h.dirs (k + 1) (by omega) (by rw [List.getElem?_cons_succ]; exact hslash)
  · rintro ⟨hfirst, h⟩
    refine ⟨?_, ?_, ?_⟩
    · have := h.le
      rw [List.length_cons]
      omega
    · rw [List.length_cons, List.getElem?_cons_succ]
      exact h.stop.imp_left fun h => by omega
    · intro k hk hslash
      cases k with
      | zero =>
          rw [List.take_zero, List.append_nil]
          exact hfirst (by simpa using hslash)
      | succ k =>
          rw [hdone k]
          rw [List.getElem?_cons_succ] at hslash
          exact h.dirs k (by omega) hslash

/-- A regular file where the walk ends. -/
def FileAt (stat : StatResults) (full : Bytes) (st : Stat) : Prop :=
  stat (cstr full) = .ok st ∧ st.kind = .reg

/-- A slash: what lies before it decides. -/
theorem checkComponents_slash {stat : StatResults} {done rest full : Bytes} {st : Stat} :
    checkComponents stat done (47 :: rest) = .ok (full, st) ↔
      full = done ∧ FileAt stat done st ∨
        (∃ st', stat (cstr done) = .ok st' ∧ st'.kind = .dir) ∧
          checkComponents stat (done ++ [47]) rest = .ok (full, st) := by
  rw [checkComponents, if_pos rfl, FileAt]
  cases hst : stat (cstr done) with
  | error e => simp
  | ok st' =>
      cases hkind : st'.kind with
      | dir =>
          simp only [hkind]
          constructor
          · exact fun h => Or.inr ⟨⟨st', rfl, hkind⟩, h⟩
          · rintro (⟨-, hst', hreg⟩ | ⟨-, h⟩)
            · cases hst'
              rw [hkind] at hreg
              cases hreg
            · exact h
      | reg =>
          simp only [hkind]
          constructor
          · intro h
            cases h
            exact Or.inl ⟨rfl, rfl, hkind⟩
          · rintro (⟨rfl, hst', -⟩ | ⟨⟨st'', hst', hdir⟩, -⟩)
            · cases hst'
              rfl
            · cases hst'
              rw [hkind] at hdir
              cases hdir
      | symlink | special =>
          simp only [hkind]
          refine iff_of_false (by simp) ?_
          rintro (⟨-, hst', hreg⟩ | ⟨⟨st'', hst', hdir⟩, -⟩)
          · cases hst'
            rw [hkind] at hreg
            cases hreg
          · cases hst'
            rw [hkind] at hdir
            cases hdir

/-- A walk ends at the first character, or gets past it. -/
theorem exists_walks_cons {stat : StatResults} {done : Bytes} {c : UInt8} {rest full : Bytes}
    {st : Stat} :
    (∃ n, Walks stat done (c :: rest) n ∧ full = done ++ (c :: rest).take n ∧
        FileAt stat full st) ↔
      (c = 47 ∧ full = done ∧ FileAt stat done st) ∨
        (c = 47 → ∃ st', stat (cstr done) = .ok st' ∧ st'.kind = .dir) ∧
          ∃ n, Walks stat (done ++ [c]) rest n ∧ full = done ++ [c] ++ rest.take n ∧
            FileAt stat full st := by
  have htake : ∀ n, done ++ (c :: rest).take (n + 1) = done ++ [c] ++ rest.take n := by
    intro n
    rw [List.take_succ_cons, List.append_assoc, List.singleton_append]
  constructor
  · rintro ⟨n, hwalk, hfull, hfile⟩
    cases n with
    | zero =>
        rw [List.take_zero, List.append_nil] at hfull
        exact Or.inl ⟨walks_zero.1 hwalk, hfull, hfull ▸ hfile⟩
    | succ n =>
        obtain ⟨hdir, hrest⟩ := walks_succ.1 hwalk
        exact Or.inr ⟨hdir, n, hrest, hfull.trans (htake n), hfile⟩
  · rintro (⟨hc, rfl, hfile⟩ | ⟨hdir, n, hrest, hfull, hfile⟩)
    · exact ⟨0, walks_zero.2 hc, (List.append_nil _).symm, hfile⟩
    · exact ⟨n + 1, walks_succ.2 ⟨hdir, hrest⟩, hfull.trans (htake n).symm, hfile⟩

theorem checkComponents_iff {stat : StatResults} {full : Bytes} {st : Stat} :
    ∀ {rest done : Bytes}, checkComponents stat done rest = .ok (full, st) ↔
      ∃ n, Walks stat done rest n ∧ full = done ++ rest.take n ∧ FileAt stat full st := by
  intro rest
  induction rest with
  | nil =>
      intro done
      have hpath : done ++ ([] : Bytes).take 0 = done := List.append_nil done
      constructor
      · intro h
        rw [checkComponents] at h
        cases hst : stat (cstr done) with
        | error e => simp only [hst] at h; cases h
        | ok st' =>
            simp only [hst] at h
            by_cases hkind : st'.kind = .reg
            · rw [if_pos hkind] at h
              cases h
              exact ⟨0, walks_nil.2 rfl, hpath.symm, hst, hkind⟩
            · rw [if_neg hkind] at h
              cases h
      · rintro ⟨n, hwalk, rfl, hst, hkind⟩
        obtain rfl := walks_nil.1 hwalk
        rw [hpath] at hst ⊢
        rw [checkComponents]
        simp only [hst, if_pos hkind]
  | cons c rest ih =>
      intro done
      rw [exists_walks_cons]
      by_cases hc : c = 47
      · subst hc
        rw [checkComponents_slash, ih]
        simp only [true_and, forall_const]
      · rw [checkComponents, if_neg hc, ih]
        simp only [hc, false_and, false_or, false_imp_iff, true_and]

/-- What `CheckFilePath` finds is the first thing on its way that is not a
directory, if it is a regular file. -/
theorem checkFilePath_iff {stat : StatResults} {basedir path full : Bytes} {st : Stat} :
    checkFilePath stat basedir path = .ok (full, st) ↔
      ∃ n, Walks stat (stripSlash basedir ++ path.take 1) (path.drop 1) n ∧
        full = stripSlash basedir ++ path.take (1 + n) ∧ FileAt stat full st := by
  rw [checkFilePath_eq, checkComponents_iff]
  refine exists_congr fun n => and_congr_right fun _ => ?_
  rw [List.append_assoc, ← List.take_add]

/-- It is at the base directory followed by a beginning of the path. -/
theorem checkFilePath_ok {stat : StatResults} {basedir path full : Bytes} {st : Stat}
    (h : checkFilePath stat basedir path = .ok (full, st)) :
    stat (cstr full) = .ok st ∧ st.kind = .reg ∧ full <+: stripSlash basedir ++ path := by
  obtain ⟨n, -, rfl, hst, hkind⟩ := checkFilePath_iff.1 h
  refine ⟨hst, hkind, ?_⟩
  rw [List.prefix_append_right_inj]
  exact List.take_prefix _ _

end Hottpd
