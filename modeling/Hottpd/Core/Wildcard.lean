import Mathlib.Algebra.Order.Ring.Nat
import Mathlib.Tactic.Ring
import Hottpd.Lib.Bytes

/-!
# Wildcards: `csmatch` and `match`

The two are the same routine but for how letters are compared. A pointer is given
by the bytes from it up to the NUL, so at the NUL there are none. The first loop
goes up to the first star of the mask, the second one from star to star: where a
letter does not fit, it goes back to the last star and tries one letter further on.
-/

namespace Hottpd

open Bytes

/-- The pointers of the second loop. The mask behind the last star is at `mp`, and `cp` is where
it is tried next; `string` and `wild` are never before them. -/
structure WildState where
  string : Bytes
  wild : Bytes
  mp : Bytes
  cp : Bytes
  wild_le : wild.length ≤ mp.length
  string_le : string.length ≤ cp.length + 1

/-- A turn of the second loop, or its end. -/
inductive WildTurn where
  | done (matched : Bool)
  | next (s : WildState)

namespace WildState

/-- `wild = mp; string = cp++`; behind the NUL `cp` is not read. -/
def retry (mp cp : Bytes) : WildState :=
  ⟨cp, mp, mp, cp.tail, Nat.le_refl _, by rw [List.length_tail]; omega⟩

def turn (fold : UInt8 → UInt8) : WildState → WildTurn
  -- `while (*wild == '*') wild++; return !*wild`
  | ⟨[], wild, _, _, _, _⟩ => .done (wild.dropWhile (· = 42) = [])
  | ⟨_ :: _, [], mp, cp, _, _⟩ => .next (retry mp cp)
  | ⟨c :: string, w :: wild, mp, cp, hwild, hstring⟩ =>
      if w = 42 then
        if wild = [] then .done true
        else .next ⟨c :: string, wild, wild, string, Nat.le_refl _, Nat.le_refl _⟩
      else if fold w = fold c ∨ w = 63 then
        .next ⟨string, wild, mp, cp, (Nat.le_succ _).trans hwild, (Nat.le_succ _).trans hstring⟩
      else .next (retry mp cp)

/-- A star leaves less of the mask behind it, a letter less of the string, and to go back leaves
less to try. -/
def variant (s : WildState) : Nat := s.mp.length + s.cp.length ^ 2 + s.string.length

theorem variant_retry {s : WildState} (h : s.string ≠ []) :
    (retry s.mp s.cp).variant < s.variant := by
  have hpos := List.length_pos_of_ne_nil h
  simp only [variant, retry, List.length_tail]
  cases hcp : s.cp.length with
  | zero => omega
  | succ n =>
      have hsq : (n + 1) ^ 2 = n ^ 2 + 2 * n + 1 := by ring
      rw [Nat.add_sub_cancel, hsq]
      omega

theorem variant_turn {fold : UInt8 → UInt8} {s s' : WildState} (h : s.turn fold = .next s') :
    s'.variant < s.variant := by
  obtain ⟨string, wild, mp, cp, hwild, hstring⟩ := s
  cases string with
  | nil => cases h
  | cons c string =>
      have hretry := @variant_retry ⟨c :: string, wild, mp, cp, hwild, hstring⟩
        (List.cons_ne_nil c string)
      cases wild with
      | nil =>
          cases h
          exact hretry
      | cons w wild =>
          rw [List.length_cons] at hwild hstring
          rw [turn] at h
          split at h
          · split at h
            · cases h
            · cases h
              have hsq : string.length ^ 2 ≤ cp.length ^ 2 :=
                Nat.pow_le_pow_left (Nat.le_of_succ_le_succ hstring) 2
              simp only [variant, List.length_cons]
              omega
          · split at h
            · cases h
              simp only [variant, List.length_cons]
              omega
            · cases h
              exact hretry

end WildState

/-- The second loop and what follows it. -/
def wildLoop (fold : UInt8 → UInt8) (s : WildState) : Bool :=
  match _h : s.turn fold with
  | .done matched => matched
  | .next s' => wildLoop fold s'
termination_by s.variant
decreasing_by exact WildState.variant_turn _h

/-- The first loop: the pointers behind it, or `none` where it returns. -/
def wildHead (fold : UInt8 → UInt8) : Bytes → Bytes → Option (Bytes × Bytes)
  | [], wild => some ([], wild)
  | _ :: _, [] => none
  | c :: string, w :: wild =>
      if w = 42 then some (c :: string, w :: wild)
      else if fold w ≠ fold c ∧ w ≠ 63 then none
      else wildHead fold string wild

/-- The routine. The second loop starts at a star, if there is one to start at, and sets `mp` and
`cp`, which are NULL before. -/
def wildMatch (fold : UInt8 → UInt8) (str mask : Bytes) : Bool :=
  match wildHead fold str mask with
  | none => false
  | some (string, wild) =>
      wildLoop fold ⟨string, wild, wild, string, Nat.le_refl _, Nat.le_succ _⟩

def csmatch (str mask : Bytes) : Bool := wildMatch id str mask

/-- `match` -/
def match_ (str mask : Bytes) : Bool := wildMatch tolower str mask

/-- `InspIRCd::MatchText` -/
def matchText (sliteral spattern : Bytes) : Bool := match_ (cstr sliteral) (cstr spattern)

end Hottpd
