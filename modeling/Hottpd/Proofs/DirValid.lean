import Hottpd.Core.DirValid
import Hottpd.Core.Uri

/-!
# When `DirValid` is right

A directory is told from the name behind the last slash, and gone to. Its name need only
begin with what it was asked for, since the rest is cut off before the two are compared.
And once the process is there, a call that fails leaves it there.
-/

namespace Hottpd

open Bytes

/-- Everything before the last slash, or the slash if it is the first character. -/
def directoryPart (path : Bytes) : Bytes :=
  match rfind 47 path with
  | some pos => if pos = 0 then str "/" else path.take pos
  | none => []

/-! ## The loop over `work` -/

theorem cutDir_concat (work : Bytes) (b : UInt8) :
    cutDir work.length (work ++ [b]) = if b = 47 then work else cutDir (work.length - 1) work := by
  cases hlen : work.length with
  | zero =>
      rw [List.length_eq_zero_iff.1 hlen]
      exact (ite_self _).symm
  | succ p =>
      have hget : (work ++ [b])[p + 1]? = some b := by
        rw [← hlen]
        exact List.getElem?_concat_length
      have htake : (work ++ [b]).take (p + 1) = work := by
        rw [← hlen]
        exact List.take_left
      rw [cutDir, if_neg (List.append_ne_nil_of_right_ne_nil _ (List.cons_ne_nil _ _)), hget, htake,
        Nat.add_sub_cancel]
      simp only [Option.some.injEq]

theorem cutDir_before {dir name : Bytes} (h : 47 ∉ name) :
    cutDir ((dir ++ 47 :: name).length - 1) (dir ++ 47 :: name) = dir := by
  induction name using List.reverseRecOn with
  | nil =>
      rw [List.length_append, List.length_singleton, Nat.add_sub_cancel, cutDir_concat, if_pos rfl]
  | append_singleton name b ih =>
      have hb : b ≠ 47 := by
        rintro rfl
        exact h (List.mem_append_right _ (List.mem_singleton_self _))
      rw [show dir ++ 47 :: (name ++ [b]) = dir ++ 47 :: name ++ [b] by
        rw [List.append_assoc, List.cons_append], List.length_append, List.length_singleton,
        Nat.add_sub_cancel, cutDir_concat, if_neg hb]
      exact ih fun hmem => h (List.mem_append_left _ hmem)

/-- The NUL is not a slash. -/
theorem cutDir_length {work : Bytes} (h : work ≠ []) :
    cutDir work.length work = cutDir (work.length - 1) work := by
  obtain ⟨p, hp⟩ := Nat.exists_eq_succ_of_ne_zero (mt List.length_eq_zero_iff.1 h)
  have hget : work[p + 1]? = none := List.getElem?_eq_none (Nat.le_of_eq hp)
  rw [hp, cutDir, if_neg h, hget, if_neg (Option.some_ne_none 47).symm,
    List.take_of_length_le (Nat.le_of_eq hp)]
  rfl

theorem sameDir_iff {otherdir work : Bytes} : sameDir otherdir work = true ↔ work <+: otherdir := by
  rw [sameDir, List.prefix_iff_eq_take]
  by_cases h : work.length ≤ otherdir.length
  · rw [if_pos h, beq_iff_eq, eq_comm]
  · rw [if_neg h]
    refine iff_of_false Bool.false_ne_true fun heq => h ?_
    rw [heq, List.length_take]
    exact Nat.min_le_right _ _

/-- A path with a slash is cut at the last. -/
theorem path_cut {path : Bytes} (h : 47 ∈ path) :
    ∃ dir, cutDir path.length path = dir ∧ rfind 47 path = some dir.length ∧
      directoryPart path = if dir = [] then str "/" else dir := by
  obtain ⟨rname, rdir, heq, hname⟩ := List.eq_append_cons_of_mem (List.mem_reverse.2 h)
  have hpath : path = rdir.reverse ++ 47 :: rname.reverse := by
    rw [← List.reverse_reverse path, heq, List.reverse_append, List.reverse_cons, List.append_assoc,
      List.singleton_append]
  have hmem : 47 ∉ rname.reverse := fun hmem => hname (List.mem_reverse.1 hmem)
  have hfind : rfind 47 path = some rdir.reverse.length := by
    rw [hpath, rfind_append_cons hmem]
  refine ⟨rdir.reverse, ?_, hfind, ?_⟩
  · rw [cutDir_length (List.ne_nil_of_mem h), hpath, cutDir_before hmem]
  · rw [directoryPart, hfind]
    dsimp only
    rw [hpath, List.take_left]
    simp only [List.length_eq_zero_iff]

/-! ## The calls -/

variable {tree : FileTree} {fails : CallFailures} {cwd dir : tree.Dir} {path : Bytes}

/-- The process gets to `dir`, which `path` names. -/
structure Enters (tree : FileTree) (fails : CallFailures) (cwd : tree.Dir) (path : Bytes)
    (dir : tree.Dir) : Prop where
  getcwd : fails.getcwd = false
  short : (tree.name cwd).length < 1024
  chdir : fails.chdir = false
  resolves : tree.resolve cwd path = some dir

/-- And comes back from there. -/
structure Returns (tree : FileTree) (fails : CallFailures) (dir : tree.Dir) : Prop where
  getcwd : fails.getcwdThere = false
  short : (tree.name dir).length < 1024
  chdir : fails.chdirBack = false

theorem getcwd_some {failing : Bool} (h : failing = false) {size : Nat}
    (hshort : (tree.name cwd).length < size) :
    tree.getcwd failing size cwd = some (tree.name cwd) := by
  rw [FileTree.getcwd, if_neg]
  rintro (hfails | hlong)
  · rw [h] at hfails
    cases hfails
  · exact absurd hshort (Nat.not_lt.2 hlong)

theorem getcwd_cases (failing : Bool) (size : Nat) (cwd : tree.Dir) :
    tree.getcwd failing size cwd = none ∨
      failing = false ∧ (tree.name cwd).length < size := by
  rw [FileTree.getcwd]
  split
  · exact Or.inl rfl
  · next h =>
      rw [not_or, Bool.not_eq_true, Nat.not_le] at h
      exact Or.inr h

theorem chdir_some {failing : Bool} (h : failing = false)
    (hresolves : tree.resolve cwd path = some dir) : tree.chdir failing path cwd = some dir := by
  rw [FileTree.chdir, h, if_neg Bool.false_ne_true, hresolves]

theorem chdir_cases (failing : Bool) (path : Bytes) (cwd : tree.Dir) :
    tree.chdir failing path cwd = none ∨
      failing = false ∧ ∃ dir, tree.resolve cwd path = some dir := by
  cases failing with
  | true => exact Or.inl rfl
  | false =>
      cases h : tree.resolve cwd path with
      | none => exact Or.inl h
      | some dir => exact Or.inr ⟨rfl, dir, rfl⟩

/-! ## One check -/

theorem checkDir_refused {work : Bytes} (h : ∀ dir, ¬Enters tree fails cwd work dir) :
    checkDir tree fails work cwd = (false, cwd) := by
  rw [checkDir]
  rcases getcwd_cases fails.getcwd 1024 cwd with hnone | ⟨hcalls, hshort⟩
  · rw [hnone]
  · rw [getcwd_some hcalls hshort]
    rcases chdir_cases fails.chdir work cwd with hnone | ⟨hgoes, dir, hdir⟩
    · dsimp only
      rw [hnone]
    · exact absurd ⟨hcalls, hshort, hgoes, hdir⟩ (h dir)

theorem checkDir_returned {work : Bytes} (h : Enters tree fails cwd work dir)
    (hback : Returns tree fails dir) :
    checkDir tree fails work cwd = (sameDir (tree.name dir) work, cwd) := by
  rw [checkDir, getcwd_some h.getcwd h.short]
  dsimp only
  rw [chdir_some h.chdir h.resolves]
  dsimp only
  rw [getcwd_some hback.getcwd hback.short]
  dsimp only
  rw [chdir_some hback.chdir (tree.resolve_name dir cwd)]

/-- Either call that fails in the directory leaves the process there. -/
theorem checkDir_left {work : Bytes} (h : Enters tree fails cwd work dir)
    (hback : ¬Returns tree fails dir) : checkDir tree fails work cwd = (false, dir) := by
  rw [checkDir, getcwd_some h.getcwd h.short]
  dsimp only
  rw [chdir_some h.chdir h.resolves]
  dsimp only
  rcases getcwd_cases fails.getcwdThere 1024 dir with hnone | ⟨hcalls, hshort⟩
  · rw [hnone]
  · rw [getcwd_some hcalls hshort]
    rcases chdir_cases fails.chdirBack (tree.name cwd) dir with hnone | ⟨hgoes, -⟩
    · dsimp only
      rw [hnone]
    · exact absurd ⟨hcalls, hshort, hgoes⟩ hback

theorem not_enters_nil : ¬Enters tree fails cwd [] dir := fun h =>
  Option.some_ne_none dir (h.resolves.symm.trans (tree.resolve_nil cwd))

/-! ## The promise -/

/-- The directory part exists and is its own canonical name. -/
def Canonical (tree : FileTree) (cwd : tree.Dir) (path : Bytes) : Prop :=
  ∃ dir, tree.resolve cwd (directoryPart path) = some dir ∧ tree.name dir = directoryPart path

/-- What is returned is whether it is so, and the process is where it was. -/
structure DirChecked (tree : FileTree) (fails : CallFailures) (path : Bytes) (cwd : tree.Dir) :
    Prop where
  answer : (dirValid tree fails path cwd).1 = true ↔ Canonical tree cwd path
  back : (dirValid tree fails path cwd).2 = cwd

/-- There is a directory between the first slash and the last; where the process does not get to
it, it is not one to be accepted; where the process gets there and back, its name does not just
begin with what was asked for; and where it gets there only, it was there before and is not to be
accepted either. -/
structure Suits (tree : FileTree) (fails : CallFailures) (path : Bytes) (cwd : tree.Dir) :
    Prop where
  slash : rfind 47 path ≠ some 0
  refused : (∀ dir, ¬Enters tree fails cwd (directoryPart path) dir) → ¬Canonical tree cwd path
  returned : ∀ dir, Enters tree fails cwd (directoryPart path) dir → Returns tree fails dir →
    directoryPart path <+: tree.name dir → tree.name dir = directoryPart path
  left : ∀ dir, Enters tree fails cwd (directoryPart path) dir → ¬Returns tree fails dir →
    tree.name dir ≠ directoryPart path ∧ dir = cwd

theorem Enters.canonical_iff (h : Enters tree fails cwd (directoryPart path) dir) :
    Canonical tree cwd path ↔ tree.name dir = directoryPart path := by
  refine ⟨?_, fun hname => ⟨dir, h.resolves, hname⟩⟩
  rintro ⟨dir', hdir', hname⟩
  rw [h.resolves, Option.some_inj] at hdir'
  rw [hdir']
  exact hname

/-- The only slash is cut off with what is behind it. -/
theorem canonical_root (hpart : directoryPart path = str "/") : Canonical tree cwd path := by
  obtain ⟨root, hroot, hname⟩ := tree.resolve_root cwd
  rw [Canonical, hpart]
  exact ⟨root, hroot, hname⟩

theorem dirChecked_iff {result : Bool × tree.Dir} (h : dirValid tree fails path cwd = result) :
    DirChecked tree fails path cwd ↔
      ((result.1 = true ↔ Canonical tree cwd path) ∧ result.2 = cwd) := by
  rw [← h]
  exact ⟨fun hchecked => ⟨hchecked.answer, hchecked.back⟩, fun hboth => ⟨hboth.1, hboth.2⟩⟩

section Cases

variable (hwork : dirValid tree fails path cwd = checkDir tree fails (directoryPart path) cwd)
include hwork

theorem dirChecked_refused (h : ∀ dir, ¬Enters tree fails cwd (directoryPart path) dir) :
    DirChecked tree fails path cwd ↔ ¬Canonical tree cwd path := by
  rw [dirChecked_iff (hwork.trans (checkDir_refused h)), and_iff_left rfl]
  exact iff_of_eq (Bool.false_eq_true ▸ false_iff _)

theorem dirChecked_returned (h : Enters tree fails cwd (directoryPart path) dir)
    (hback : Returns tree fails dir) :
    DirChecked tree fails path cwd ↔
      (directoryPart path <+: tree.name dir → tree.name dir = directoryPart path) := by
  rw [dirChecked_iff (hwork.trans (checkDir_returned h hback)), and_iff_left rfl, sameDir_iff,
    h.canonical_iff]
  refine ⟨Iff.mp, fun himp => ⟨himp, fun hname => ?_⟩⟩
  rw [hname]

theorem dirChecked_left (h : Enters tree fails cwd (directoryPart path) dir)
    (hback : ¬Returns tree fails dir) :
    DirChecked tree fails path cwd ↔ tree.name dir ≠ directoryPart path ∧ dir = cwd := by
  rw [dirChecked_iff (hwork.trans (checkDir_left h hback)), h.canonical_iff]
  exact and_congr_left' (iff_of_eq (Bool.false_eq_true ▸ false_iff _))

/-- Each way that the calls can go meets one of the conditions, and the others say nothing. -/
theorem dirChecked_iff_suits (hslash : rfind 47 path ≠ some 0) :
    DirChecked tree fails path cwd ↔ Suits tree fails path cwd := by
  by_cases henters : ∃ dir, Enters tree fails cwd (directoryPart path) dir
  · obtain ⟨dir, h⟩ := henters
    have hsame : ∀ dir', Enters tree fails cwd (directoryPart path) dir' → dir' = dir :=
      fun dir' h' => Option.some_inj.1 (h'.resolves.symm.trans h.resolves)
    by_cases hback : Returns tree fails dir
    · rw [dirChecked_returned hwork h hback]
      refine ⟨fun himp => ⟨hslash, fun hnone => absurd h (hnone dir), ?_, ?_⟩,
        fun hsuits => hsuits.returned dir h hback⟩
      · intro dir' h' _
        rw [hsame dir' h']
        exact himp
      · intro dir' h' hnot
        rw [hsame dir' h'] at hnot
        exact absurd hback hnot
    · rw [dirChecked_left hwork h hback]
      refine ⟨fun haway => ⟨hslash, fun hnone => absurd h (hnone dir), ?_, ?_⟩,
        fun hsuits => hsuits.left dir h hback⟩
      · intro dir' h' hreturns
        rw [hsame dir' h'] at hreturns
        exact absurd hreturns hback
      · intro dir' h' _
        rw [hsame dir' h']
        exact haway
  · have hnone := not_exists.1 henters
    rw [dirChecked_refused hwork hnone]
    refine ⟨fun hnot => ⟨hslash, fun _ => hnot, ?_, ?_⟩, fun hsuits => hsuits.refused hnone⟩
    · exact fun dir h => absurd h (hnone dir)
    · exact fun dir h => absurd h (hnone dir)

end Cases

/-- With one slash, `chdir` is called with nothing. -/
theorem not_dirChecked_root (hwork : dirValid tree fails path cwd = checkDir tree fails [] cwd)
    (hpart : directoryPart path = str "/") : ¬DirChecked tree fails path cwd := by
  intro h
  have hfalse : dirValid tree fails path cwd = (false, cwd) :=
    hwork.trans (checkDir_refused fun dir => not_enters_nil)
  have htrue := h.answer.2 (canonical_root hpart)
  rw [hfalse] at htrue
  cases htrue

theorem dirValid_checked (tree : FileTree) (fails : CallFailures) (cwd : tree.Dir) (path : Bytes)
    (habsolute : path.head? = some 47) (hnul : 0 ∉ path) (hlen : path.length < 1024) :
    DirChecked tree fails path cwd ↔ Suits tree fails path cwd := by
  obtain ⟨dir, hcut, hfind, hpart⟩ := path_cut (List.mem_of_head? habsolute)
  have hcopy : strlcpy path 1024 = path := by
    rw [strlcpy, cstr_eq_self hnul, List.take_of_length_le (Nat.le_sub_one_of_lt hlen)]
  have hwork : dirValid tree fails path cwd = checkDir tree fails dir cwd := by
    rw [dirValid, hcopy, hcut]
  by_cases hnil : dir = []
  · rw [if_pos hnil] at hpart
    rw [hnil] at hwork hfind
    exact iff_of_false (not_dirChecked_root hwork hpart) fun hsuits => hsuits.slash hfind
  · rw [if_neg hnil] at hpart
    refine dirChecked_iff_suits (hpart ▸ hwork) ?_
    rw [hfind]
    exact fun h => hnil (List.length_eq_zero_iff.1 (Option.some_inj.1 h))

/-! ## A link to a name that begins with its own -/

/-- `/srv-new`, and `/srv` which is a link to it. -/
def linked : FileTree where
  Dir := Bool
  name dir := if dir then str "/srv-new" else str "/"
  resolve _ path :=
    if path = str "/srv" ∨ path = str "/srv-new" then some true
    else if path = str "/" then some false
    else none
  resolve_name _ dir := by cases dir <;> decide
  resolve_nil _ := by decide
  resolve_root _ := ⟨false, by decide, by decide⟩

def noFailures : CallFailures := ⟨false, false, false, false⟩

/-- The directory is gone to and come back from. -/
theorem linked_enters : Enters linked noFailures false (directoryPart (str "/srv-new/site")) true :=
  ⟨rfl, by decide, rfl, rfl⟩

theorem linked_returns : Returns linked noFailures true := ⟨rfl, by decide, rfl⟩

theorem dirValid_checked_linked : DirChecked linked noFailures (str "/srv-new/site") false := by
  have hdir : ∀ dir, Enters linked noFailures false (directoryPart (str "/srv-new/site")) dir →
      dir = true := fun dir h => Option.some_inj.1 (h.resolves.symm.trans linked_enters.resolves)
  refine (dirValid_checked linked noFailures false (str "/srv-new/site") (by decide) (by decide)
    (by decide)).2 ⟨by decide, fun hnone => absurd linked_enters (hnone true), fun dir h _ _ => ?_,
      fun dir h hnot => ?_⟩
  · rw [hdir dir h]
    decide
  · rw [hdir dir h] at hnot
    exact absurd linked_returns hnot

/-- The link is taken for the directory, what is directly under the root is refused, and where the
process cannot come back it is left in the directory. -/
theorem dirValid_not_checked :
    ¬DirChecked linked noFailures (str "/srv/site") false ∧
      ¬DirChecked linked noFailures (str "/site") false ∧
      ¬DirChecked linked { noFailures with chdirBack := true } (str "/srv-new/site") false := by
  refine ⟨fun h => ?_, fun h => ?_, fun h => ?_⟩
  · obtain ⟨dir, hdir, hname⟩ := h.answer.1 rfl
    have htrue : dir = true := Option.some_inj.1 hdir.symm
    rw [htrue] at hname
    exact absurd hname (by decide)
  · exact absurd (h.answer.2 ⟨false, rfl, by decide⟩) (by decide)
  · have hback : true = false := h.back
    cases hback

end Hottpd
