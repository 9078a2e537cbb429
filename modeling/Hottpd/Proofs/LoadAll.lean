import Hottpd.Core.LoadAll
import Hottpd.Proofs.Loading

/-!
# What is made of the loads of a pattern

The loop over the directory calls `Load` once for each entry that matches, and
counts the calls that fail. It is this count that the answer is made of, so a
pattern is reported to have failed when all it matched was loaded, and the other
way round. Where nothing matches there is nothing to tell apart.
-/

namespace Hottpd

open Bytes

namespace ModuleManager

variable {load : Bytes → ModuleManager → Bool × ModuleManager} {filename : Bytes}

/-! ## The loop -/

/-- What the loop has done by the time it has seen `listing`, from where it was. -/
theorem foldl_tryEntry (listing : List Bytes) (run : GlobRun)
    (hrun : run.nMatch = run.attempts.countP fun a => !a.2) :
    ((listing.foldl (tryEntry load filename) run).attempts.map Prod.fst =
        run.attempts.map Prod.fst ++ listing.filter (matchText · filename)) ∧
      (listing.foldl (tryEntry load filename) run).nMatch =
        (listing.foldl (tryEntry load filename) run).attempts.countP fun a => !a.2 := by
  induction listing generalizing run with
  | nil => exact ⟨(List.append_nil _).symm, hrun⟩
  | cons d_name listing ih =>
      rw [List.foldl_cons]
      by_cases hmatch : matchText d_name filename = true
      · have hcount : (tryEntry load filename run d_name).nMatch =
            (tryEntry load filename run d_name).attempts.countP fun a => !a.2 := by
          rw [tryEntry, if_pos hmatch]
          cases hloaded : (load d_name run.manager).1 <;> simp [hloaded, hrun]
        have hattempts : (tryEntry load filename run d_name).attempts.map Prod.fst =
            run.attempts.map Prod.fst ++ [d_name] := by
          rw [tryEntry, if_pos hmatch, List.map_append]
          rfl
        obtain ⟨hnames, hfailed⟩ := ih _ hcount
        refine ⟨?_, hfailed⟩
        rw [hnames, hattempts, List.filter_cons, if_pos hmatch, List.append_assoc,
          List.singleton_append]
      · rw [tryEntry, if_neg hmatch, List.filter_cons, if_neg hmatch]
        exact ih run hrun

theorem attempts_globRun (listing : List Bytes) (m : ModuleManager) :
    (globRun load filename listing m).attempts.map Prod.fst =
      listing.filter (matchText · filename) :=
  (foldl_tryEntry listing ⟨[], 0, m⟩ rfl).1

/-- The count is of the calls that failed. -/
theorem nMatch_globRun (listing : List Bytes) (m : ModuleManager) :
    (globRun load filename listing m).nMatch =
      (globRun load filename listing m).attempts.countP fun a => !a.2 :=
  (foldl_tryEntry listing ⟨[], 0, m⟩ rfl).2

/-! ## `Load` of a pattern -/

variable (lib : Library) (fds : Nat)

/-- The loop that `Load` makes for a pattern. -/
def patternRun (filename : Bytes) (m : ModuleManager) : GlobRun :=
  globRun (loadAny lib (fds - 1)) filename (lib.listing fds) m

variable {lib fds} {m : ModuleManager}

theorem loadAny_pattern (h : isPattern filename = true) :
    loadAny lib fds filename m =
      (decide (0 < (patternRun lib fds filename m).nMatch),
        (patternRun lib fds filename m).manager) := by
  cases fds with
  | zero =>
      rw [loadAny, if_pos h]
      rfl
  | succ fds =>
      rw [loadAny, if_pos h]
      rfl

/-- It answers with true just where a load failed. -/
theorem loadAny_pattern_iff (h : isPattern filename = true) :
    (loadAny lib fds filename m).1 = true ↔
      ∃ a ∈ (patternRun lib fds filename m).attempts, a.2 = false := by
  have hcount : (patternRun lib fds filename m).nMatch =
      (patternRun lib fds filename m).attempts.countP fun a => !a.2 := nMatch_globRun _ _
  rw [loadAny_pattern h, decide_eq_true_iff, hcount, List.countP_pos_iff]
  simp only [Bool.not_eq_true']

theorem attempts_patternRun :
    (patternRun lib fds filename m).attempts.map Prod.fst =
      (lib.listing fds).filter (matchText · filename) :=
  attempts_globRun _ _

/-- What the comment in `Load` says of a pattern. -/
structure PatternPromises (lib : Library) (fds : Nat) (filename : Bytes) (m : ModuleManager) :
    Prop where
  attempted : (patternRun lib fds filename m).attempts.map Prod.fst =
    (lib.listing fds).filter (matchText · filename)
  answer : (loadAny lib fds filename m).1 = true ↔
    (patternRun lib fds filename m).attempts ≠ [] ∧
      ∀ a ∈ (patternRun lib fds filename m).attempts, a.2 = true
  /-- `LoadAll` gets past a tag with the pattern, if all that it matched was loaded. -/
  getsPast : (patternRun lib fds filename m).attempts ≠ [] →
    (∀ a ∈ (patternRun lib fds filename m).attempts, a.2 = true) →
    ∀ n count data data', configToken lib count data = (filename, data') →
      loadTags lib fds (n + 1) count ⟨data, m⟩ =
        loadTags lib fds n (count + 1) ⟨data', (patternRun lib fds filename m).manager⟩

/-- For every listing, pattern and state: the comment is right exactly if nothing matches. -/
theorem loadAny_promises (lib : Library) (fds : Nat) (filename : Bytes) (m : ModuleManager)
    (h : isPattern filename = true) :
    PatternPromises lib fds filename m ↔
      ∀ d_name ∈ lib.listing fds, matchText d_name filename = false := by
  have hattempts : (patternRun lib fds filename m).attempts = [] ↔
      ∀ d_name ∈ lib.listing fds, matchText d_name filename = false := by
    rw [← List.map_eq_nil_iff, attempts_patternRun, List.filter_eq_nil_iff]
    simp only [Bool.not_eq_true]
  rw [← hattempts]
  constructor
  · intro hpromises
    by_contra hsome
    have hiff := (loadAny_pattern_iff h).symm.trans hpromises.answer
    by_cases hall : ∀ a ∈ (patternRun lib fds filename m).attempts, a.2 = true
    · obtain ⟨b, hb, hfailed⟩ := hiff.2 ⟨hsome, hall⟩
      rw [hall b hb] at hfailed
      cases hfailed
    · refine hall (hiff.1 ?_).2
      obtain ⟨b, hfailed⟩ := not_forall.1 hall
      obtain ⟨hb, hfailed⟩ := Classical.not_imp.1 hfailed
      exact ⟨b, hb, Bool.not_eq_true _ ▸ hfailed⟩
  · intro hnone
    refine ⟨attempts_patternRun, ?_, fun hsome => absurd hnone hsome⟩
    rw [loadAny_pattern_iff h]
    constructor
    · rintro ⟨a, ha, -⟩
      exact absurd (hnone ▸ ha) List.not_mem_nil
    · rintro ⟨hsome, -⟩
      exact absurd hnone hsome

end ModuleManager

/-- One module that can be loaded. -/
def cgiLibrary : Library where
  env := plainLoader
  file _ := { throwing with init := .module }
  entries := [str "m_cgi.so"]

def globConf : ConfigDataHash :=
  MultiMap.empty.insert (str "module") [(str "name", str "m_*.so")]

theorem loadAny_promises_unmatched :
    ModuleManager.PatternPromises cgiLibrary 8 (str "*.la") ModuleManager.new :=
  (ModuleManager.loadAny_promises cgiLibrary 8 (str "*.la") ModuleManager.new
    (by decide +kernel)).2 (by
      intro d_name hmem
      rw [List.mem_singleton.1 hmem]
      decide +kernel)

/-- All that the pattern matches is loaded, and the server exits. -/
theorem loaded_glob_exits :
    (ModuleManager.patternRun cgiLibrary 8 (str "m_*.so") ModuleManager.new).attempts =
        [(str "m_cgi.so", true)] ∧
      (ModuleManager.loadAny cgiLibrary 8 (str "m_*.so") ModuleManager.new).1 = false ∧
      (ModuleManager.loadAll cgiLibrary 8 globConf ModuleManager.new).1 = false :=
  ⟨by decide +kernel, by decide +kernel, by decide +kernel⟩

end Hottpd
