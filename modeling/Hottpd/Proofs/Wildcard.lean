import Mathlib.Data.List.TakeWhile
import Hottpd.Core.Wildcard
import Hottpd.Lib.Glob

/-!
# What a mask matches

In every turn of the second loop the string still matches if the rest of it matches
the rest of the mask, or what is behind the last star matches further on. A letter
that fits leaves only the first, one that does not only the second, and a star
only the first again, by the exchange of `Glob.Retraces`.
-/

namespace Hottpd

open Bytes

/-- The mask as a pattern, for letters as they are compared. -/
def globItems (fold : UInt8 → UInt8) (mask : Bytes) : List (GlobItem UInt8) :=
  mask.map fun b => if b = 42 then .many else if b = 63 then .one else .lit (fold b)

section Mask

variable {fold : UInt8 → UInt8} {w c : UInt8} {wild string : Bytes}

/-- The letter of the mask fits. -/
theorem glob_fits (hw : w ≠ 42) (hfits : fold w = fold c ∨ w = 63) :
    Glob (globItems fold (w :: wild)) ((c :: string).map fold)
      ↔ Glob (globItems fold wild) (string.map fold) := by
  rw [globItems, List.map_cons, if_neg hw, List.map_cons]
  by_cases hone : w = 63
  · rw [if_pos hone]
    exact Glob.one_iff
  · rw [if_neg hone, Glob.lit_iff]
    exact and_iff_right (hfits.resolve_right hone)

/-- It does not. -/
theorem not_glob (hw : w ≠ 42) (hfits : ¬(fold w = fold c ∨ w = 63)) :
    ¬Glob (globItems fold (w :: wild)) ((c :: string).map fold) := by
  rw [not_or] at hfits
  rw [globItems, List.map_cons, if_neg hw, if_neg hfits.2, List.map_cons, Glob.lit_iff]
  exact fun h => hfits.1 h.1

theorem not_glob_nil : ¬Glob (globItems fold []) ((c :: string).map fold) := by
  rw [globItems, List.map_nil, Glob.nil_iff]
  exact List.cons_ne_nil _ _

/-- At the end of the string. -/
theorem glob_end : (wild.dropWhile (· = 42) = []) ↔ Glob (globItems fold wild) [] := by
  rw [Glob.nil_right_iff, List.dropWhile_eq_nil_iff, globItems, List.forall_mem_map]
  refine forall₂_congr fun b _ => ?_
  by_cases hb : b = 42
  · simp [hb]
  · by_cases hone : b = 63
    · simp [hone]
    · simp [hb, hone]

end Mask

namespace WildState

variable {fold : UInt8 → UInt8}

/-- What is left fits, or what is behind the last star does further on. -/
def Hopes (fold : UInt8 → UInt8) (s : WildState) : Prop :=
  Glob (globItems fold s.wild) (s.string.map fold) ∨
    Glob (.many :: globItems fold s.mp) (s.cp.map fold)

def Tracks (fold : UInt8 → UInt8) (s : WildState) : Prop :=
  Glob.Retraces (globItems fold s.mp) (s.cp.map fold) (globItems fold s.wild) (s.string.map fold)

theorem tracks_retry (mp cp : Bytes) : Tracks fold (retry mp cp) := by
  rw [Tracks, retry, List.map_tail]
  exact Glob.Retraces.again

/-- Going back loses nothing. -/
theorem hopes_retry (mp cp : Bytes) :
    Hopes fold (retry mp cp) ↔ Glob (.many :: globItems fold mp) (cp.map fold) := by
  rw [Hopes, retry]
  cases cp with
  | nil => exact (or_iff_left_of_imp Glob.many_nil_iff.1).trans Glob.many_nil_iff.symm
  | cons d cp => exact Glob.many_cons_iff.symm

/-- The loop ends with what there is to hope for. -/
theorem turn_done {s : WildState} {matched : Bool} (h : Tracks fold s)
    (hturn : s.turn fold = .done matched) : matched = true ↔ Hopes fold s := by
  obtain ⟨string, wild, mp, cp, hwild, hstring⟩ := s
  cases string with
  | nil =>
      cases hturn
      rw [decide_eq_true_eq, @glob_end fold]
      exact (Glob.Retraces.ends h).symm
  | cons c string =>
      cases wild with
      | nil => cases hturn
      | cons w wild =>
          rw [turn] at hturn
          split at hturn
          · next hw =>
              subst hw
              split at hturn
              · next hnil =>
                  subst hnil
                  cases hturn
                  refine iff_of_true rfl (Or.inl ?_)
                  exact Glob.many_iff.2 ⟨[], List.nil_suffix, .nil⟩
              · cases hturn
          · split at hturn
            · cases hturn
            · cases hturn

/-- A turn leaves as much to hope for. -/
theorem turn_next {s s' : WildState} (h : Tracks fold s) (hturn : s.turn fold = .next s') :
    Tracks fold s' ∧ (Hopes fold s' ↔ Hopes fold s) := by
  obtain ⟨string, wild, mp, cp, hwild, hstring⟩ := s
  cases string with
  | nil => cases hturn
  | cons c string =>
      cases wild with
      | nil =>
          cases hturn
          refine ⟨tracks_retry mp cp, ?_⟩
          rw [hopes_retry]
          exact (or_iff_right not_glob_nil).symm
      | cons w wild =>
          rw [turn] at hturn
          split at hturn
          · next hw =>
              subst hw
              split at hturn
              · cases hturn
              · cases hturn
                refine ⟨Glob.Retraces.start, ?_⟩
                have hlast := Glob.Retraces.exchange h
                exact Glob.many_cons_iff.symm.trans hlast.symm
          · next hw =>
              split at hturn
              · next hfits =>
                  cases hturn
                  refine ⟨Glob.Retraces.next h ?_, ?_⟩
                  · show (if w = 42 then _ else _) ≠ _
                    rw [if_neg hw]
                    split <;> intro heq <;> cases heq
                  · exact or_congr_left (glob_fits hw hfits).symm
              · next hfits =>
                  cases hturn
                  refine ⟨tracks_retry mp cp, ?_⟩
                  rw [hopes_retry]
                  exact (or_iff_right (not_glob hw hfits)).symm

end WildState

theorem wildLoop_iff {fold : UInt8 → UInt8} {s : WildState} (h : s.Tracks fold) :
    wildLoop fold s = true ↔ s.Hopes fold := by
  fun_induction wildLoop fold s with
  | case1 s matched hturn => exact WildState.turn_done h hturn
  | case2 s s' hturn ih =>
      obtain ⟨htracks, hhopes⟩ := WildState.turn_next h hturn
      exact (ih htracks).trans hhopes

/-- Up to the first star letter stands against letter. -/
theorem wildHead_spec {fold : UInt8 → UInt8} (mask : Bytes) : ∀ str : Bytes,
    (wildHead fold str mask = none → ¬Glob (globItems fold mask) (str.map fold)) ∧
      ∀ string wild, wildHead fold str mask = some (string, wild) →
        (Glob (globItems fold mask) (str.map fold)
          ↔ Glob (globItems fold wild) (string.map fold)) ∧
        (string = [] ∨ ∃ rest, wild = 42 :: rest) := by
  induction mask with
  | nil =>
      intro str
      cases str with
      | nil =>
          refine ⟨nofun, fun string wild h => ?_⟩
          cases h
          exact ⟨Iff.rfl, Or.inl rfl⟩
      | cons c str => exact ⟨fun _ => not_glob_nil, nofun⟩
  | cons w mask ih =>
      intro str
      cases str with
      | nil =>
          refine ⟨nofun, fun string wild h => ?_⟩
          cases h
          exact ⟨Iff.rfl, Or.inl rfl⟩
      | cons c str =>
          rw [wildHead]
          by_cases hw : w = 42
          · rw [if_pos hw]
            refine ⟨nofun, fun string wild h => ?_⟩
            cases h
            exact ⟨Iff.rfl, Or.inr ⟨mask, by rw [hw]⟩⟩
          · rw [if_neg hw]
            by_cases hfits : fold w = fold c ∨ w = 63
            · rw [if_neg (by tauto), glob_fits hw hfits]
              exact ih str
            · rw [if_pos (not_or.1 hfits)]
              exact ⟨fun _ => not_glob hw hfits, nofun⟩

theorem wildMatch_iff (fold : UInt8 → UInt8) (str mask : Bytes) :
    wildMatch fold str mask = true ↔ Glob (globItems fold mask) (str.map fold) := by
  obtain ⟨hnone, hsome⟩ := @wildHead_spec fold mask str
  rw [wildMatch]
  cases hhead : wildHead fold str mask with
  | none => exact iff_of_false Bool.false_ne_true (hnone hhead)
  | some p =>
      obtain ⟨string, wild⟩ := p
      obtain ⟨hsame, hstart⟩ := hsome string wild hhead
      have htracks : WildState.Tracks fold
          ⟨string, wild, wild, string, Nat.le_refl _, Nat.le_succ _⟩ := Glob.Retraces.refl
      refine (wildLoop_iff htracks).trans (Iff.trans ?_ hsame.symm)
      rcases hstart with rfl | ⟨rest, rfl⟩
      · exact Glob.Retraces.ends htracks
      · exact Glob.Retraces.exchange htracks

theorem tolower_of_not_upper {b : UInt8} (h : ¬(65 ≤ b ∧ b ≤ 90)) : tolower b = b := if_neg h

/-- A letter does not become a sign. -/
theorem tolower_eq_iff {b c : UInt8} (hc : c.toNat < 65) : tolower b = c ↔ b = c := by
  by_cases hb : 65 ≤ b ∧ b ≤ 90
  · rw [tolower, if_pos hb, ← UInt8.toNat_inj, ← UInt8.toNat_inj, UInt8.toNat_add]
    have hlow := UInt8.le_iff_toNat_le.1 hb.1
    have hhigh := UInt8.le_iff_toNat_le.1 hb.2
    have h32 : (32 : UInt8).toNat = 32 := rfl
    have h65 : (65 : UInt8).toNat = 65 := rfl
    have h90 : (90 : UInt8).toNat = 90 := rfl
    omega
  · rw [tolower_of_not_upper hb]

theorem globItems_lower (mask : Bytes) :
    globItems id (mask.map tolower) = globItems tolower mask := by
  rw [globItems, globItems, List.map_map]
  refine List.map_congr_left fun b _ => ?_
  have hstar : tolower b = 42 ↔ b = 42 := tolower_eq_iff (by decide)
  have hone : tolower b = 63 ↔ b = 63 := tolower_eq_iff (by decide)
  simp only [Function.comp_apply, hstar, hone, id_eq]

/-- `csmatch` is true just where the mask, read as a glob, matches the whole string, and `match` is
`csmatch` of the two in lower case. -/
theorem csmatch_glob (str mask : Bytes) :
    (csmatch str mask = true ↔ Glob (globItems id mask) str) ∧
      match_ str mask = csmatch (str.map tolower) (mask.map tolower) := by
  constructor
  · have hiff := wildMatch_iff id str mask
    rwa [List.map_id] at hiff
  · rw [Bool.eq_iff_iff, match_, csmatch, wildMatch_iff, wildMatch_iff, List.map_id,
      globItems_lower]

example : csmatch (str "m_cgi.so") (str "m_*?.so") = true := by decide +kernel

end Hottpd
