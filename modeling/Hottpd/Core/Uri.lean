import Hottpd.Lib.Bytes

/-!
# Request targets: `HandleURI` and `unhexchar`

`HandleURI` walks the target once. It decodes escapes as it goes, collects
the current segment in `pathpart` and keeps everything accepted so far in
the flat string `sanepath`, which a `..` segment shortens by a backwards
search for the last slash but one.

The second half reads that flat string as what it stands for, a stack of
segments: `sanepath` is always the stack written out with a slash behind
each segment, so the cut of `..` is a pop and the cleaned target has no
segment that climbs.
-/

namespace Hottpd

open Bytes

def hexLookup : List Int :=
  [0, 1, 2, 3, 4, 5, 6, 7, 8, 9, -1, -1, -1, -1,
   -1, -1, -1, 10, 11, 12, 13, 14, 15, -1, -1, -1, -1, -1, -1, -1, -1,
   -1, -1, -1, -1, -1, -1, -1, -1, -1, -1, -1, -1, -1, -1, -1, -1, -1,
   -1, 10, 11, 12, 13, 14, 15]

/-- An `int` stored in a `char`. -/
def toChar (n : Int) : UInt8 := UInt8.ofNat (n % 256).toNat

def unhexchar (a b : UInt8) : Option UInt8 :=
  if signed b < 48 ∨ signed b > 102 ∨ signed a < 48 ∨ signed a > 102 then none
  else
    some (toChar (hexLookup.getD (a.toNat - 48) 0 * 16
      + hexLookup.getD (b.toNat - 48) 0))

def slash : UInt8 := 47

/-- Drop the last segment: `rfind('/', sanepath.length() - 2)` and erase
behind it. The subtraction is on `size_t`. -/
def popSegment (sanepath : Bytes) : Bytes :=
  match rfindUpto slash sanepath (sizeSub sanepath.length 2) with
  | some sloc => sanepath.take (sloc + 1)
  | none => []

/-- The end of the URL or a path separator; `sep` says which. -/
def endSegment (sanepath pathpart : Bytes) (sep : Bool) : Bytes :=
  if pathpart = [] ∨ pathpart = str "." then sanepath
  else if pathpart = str ".." then popSegment sanepath
  else sanepath ++ pathpart ++ (if sep then [slash] else [])

/-- The loop of `HandleURI` from its second character on: the final
`sanepath`, and the query string if a `?` was met. -/
def scanUri (sanepath pathpart : Bytes) : Bytes → Bytes × Option Bytes
  | [] => (endSegment sanepath pathpart false, none)
  | c :: rest =>
      if c = 37 then
        match rest with
        | a :: b :: rest =>
            match unhexchar a b with
            | none => scanUri sanepath pathpart rest
            | some v =>
                if signed v < 32 ∨ v = 127 then scanUri sanepath pathpart rest
                else if v ≠ slash then scanUri sanepath (pathpart ++ [v]) rest
                else scanUri (endSegment sanepath pathpart true) [] rest
        -- an escape cut short ends the scan
        | _ => (endSegment sanepath pathpart false, none)
      else if c = 0 then (endSegment sanepath pathpart false, none)
      else if c = slash then scanUri (endSegment sanepath pathpart true) [] rest
      else if c = 63 then (endSegment sanepath pathpart false, some rest)
      else if c = 35 then (endSegment sanepath pathpart false, none)
      else scanUri sanepath (pathpart ++ [c]) rest

/-- `HandleURI` on the two fields it may change, `uri` and `uriquery`. -/
def handleURI (uri uriquery : Bytes) : Bytes × Bytes :=
  match uri with
  | [] => (uri, uriquery)
  | c :: rest =>
      if c ≠ slash then (uri, uriquery)
      else
        let (sanepath, query) := scanUri [] [] rest
        ((if sanepath.head? ≠ some slash then [slash] else []) ++ sanepath,
          query.getD uriquery)

/-- Where the last segment of a target begins. -/
def filePos (uri : Bytes) : Nat :=
  match rfind slash uri with
  | some pos => pos + 1
  | none => 0

/-- Everything up to and including the last slash. -/
def dirOf (uri : Bytes) : Bytes := uri.take (filePos uri)

/-- Everything behind the last slash. -/
def fileOf (uri : Bytes) : Bytes := uri.drop (filePos uri)

/-! ## Segments -/

/-- A path from the root down that never climbs: it begins with a slash and
none of the segments between its slashes is `..`. -/
def SafePath (p : Bytes) : Prop :=
  p.head? = some slash ∧ str ".." ∉ p.splitOn slash

instance : DecidablePred SafePath := fun _ => inferInstanceAs (Decidable (_ ∧ _))

/-- A segment `HandleURI` keeps: not empty, not a dot name, and in one piece. -/
structure Kept (seg : Bytes) : Prop where
  ne_nil : seg ≠ []
  ne_dot : seg ≠ str "."
  ne_dotdot : seg ≠ str ".."
  no_slash : slash ∉ seg

/-- A stack of segments as `sanepath` holds it. -/
def joined (stack : List Bytes) : Bytes := stack.flatMap (· ++ [slash])

@[simp] theorem joined_nil : joined [] = [] := rfl

theorem joined_concat (stack : List Bytes) (seg : Bytes) :
    joined (stack ++ [seg]) = joined stack ++ seg ++ [slash] := by
  simp [joined]

theorem rfind_eq_none {c : UInt8} {s : Bytes} (h : c ∉ s) : rfind c s = none := by
  induction s with
  | nil => rfl
  | cons b s ih =>
      simp only [List.mem_cons, not_or] at h
      simp [rfind, ih h.2, Ne.symm h.1]

theorem rfind_append_cons {c : UInt8} {s t : Bytes} (ht : c ∉ t) :
    rfind c (s ++ c :: t) = some s.length := by
  induction s with
  | nil => simp [rfind, rfind_eq_none ht]
  | cons b s ih => simp [rfind, ih]

theorem rfind_of_mem {c : UInt8} {s : Bytes} (h : c ∈ s) : ∃ i, rfind c s = some i := by
  induction s with
  | nil => cases h
  | cons b s ih =>
      cases hrest : rfind c s with
      | some i => exact ⟨i + 1, by simp only [rfind, hrest]⟩
      | none =>
          rcases List.mem_cons.1 h with rfl | hs
          · exact ⟨0, by simp only [rfind, hrest, if_true]⟩
          · obtain ⟨i, hi⟩ := ih hs
            rw [hrest] at hi
            cases hi

theorem rfind_append {c : UInt8} {s : Bytes} {i : Nat} (t : Bytes) (h : rfind c s = some i) :
    rfind c (t ++ s) = some (t.length + i) := by
  induction t with
  | nil => rw [List.nil_append, List.length_nil, Nat.zero_add, h]
  | cons b t ih =>
      rw [List.cons_append, rfind, ih, List.length_cons]
      simp only [Option.some.injEq]
      omega

/-- What is in front of a path with a slash does not change its last segment. -/
theorem fileOf_append {uri : Bytes} (dir : Bytes) (h : slash ∈ uri) :
    fileOf (dir ++ uri) = fileOf uri := by
  obtain ⟨i, hi⟩ := rfind_of_mem h
  simp only [fileOf, filePos, hi, rfind_append dir hi]
  rw [Nat.add_assoc, ← List.drop_drop, List.drop_left]

/-- The backwards search of `..` on a written-out stack is a pop. -/
theorem popSegment_joined {stack : List Bytes} {seg : Bytes} (hseg : slash ∉ seg)
    (hne : seg ≠ []) :
    popSegment (joined (stack ++ [seg])) = joined stack := by
  have hpos : 0 < seg.length := List.length_pos_iff.2 hne
  have hlen : (joined (stack ++ [seg])).length
      = (joined stack).length + seg.length + 1 := by
    simp [joined_concat, Nat.add_assoc]
  have hbound : sizeSub (joined (stack ++ [seg])).length 2
      = (joined stack).length + seg.length - 1 := by
    rw [hlen, sizeSub, if_pos (by omega)]
    omega
  have htake : (joined (stack ++ [seg])).take ((joined stack).length + seg.length)
      = joined stack ++ seg := by
    rw [joined_concat, ← List.length_append, List.take_left]
  simp only [popSegment, rfindUpto, hbound]
  rw [show (joined stack).length + seg.length - 1 + 1
    = (joined stack).length + seg.length by omega, htake]
  rcases List.eq_nil_or_concat stack with rfl | ⟨init, last, rfl⟩
  · simp [rfind_eq_none hseg]
  · have hsplit : joined (init ++ [last]) ++ seg
        = (joined init ++ last) ++ slash :: seg := by
      rw [joined_concat]; simp
    rw [List.concat_eq_append, hsplit, rfind_append_cons hseg]
    simp only [joined_concat]
    rw [show ((joined init ++ last).length + 1)
      = (joined init ++ last ++ [slash]).length by simp [Nat.add_assoc]]
    rw [show joined init ++ last ++ [slash] ++ seg ++ [slash]
      = (joined init ++ last ++ [slash]) ++ (seg ++ [slash]) by simp, List.take_left]

theorem endSegment_sep {stack : List Bytes} {part : Bytes}
    (hstack : ∀ seg ∈ stack, Kept seg) (hpart : slash ∉ part) :
    ∃ stack', (∀ seg ∈ stack', Kept seg) ∧
      endSegment (joined stack) part true = joined stack' := by
  unfold endSegment
  split
  · exact ⟨stack, hstack, rfl⟩
  · next hmeaning =>
      push Not at hmeaning
      split
      · rcases List.eq_nil_or_concat stack with rfl | ⟨init, last, rfl⟩
        · exact ⟨[], by simp, by decide⟩
        · rw [List.concat_eq_append] at hstack ⊢
          have hlast := hstack last (by simp)
          exact ⟨init, fun seg hs => hstack seg (by simp [hs]),
            popSegment_joined hlast.no_slash hlast.ne_nil⟩
      · next hdd =>
          refine ⟨stack ++ [part], fun seg hs => ?_, by simp [joined_concat]⟩
          rcases List.mem_append.1 hs with h | h
          · exact hstack seg h
          · obtain rfl := List.mem_singleton.1 h
            exact ⟨hmeaning.1, hmeaning.2, hdd, hpart⟩

/-- The last segment is written without a slash, so it stays outside the
stack; what ends in `..` or in a dot leaves nothing there. -/
theorem endSegment_end {stack : List Bytes} {part : Bytes}
    (hstack : ∀ seg ∈ stack, Kept seg) (hpart : slash ∉ part) :
    ∃ stack' last, (∀ seg ∈ stack', Kept seg) ∧ (last = [] ∨ Kept last) ∧
      endSegment (joined stack) part false = joined stack' ++ last := by
  by_cases hkeep : part = [] ∨ part = str "." ∨ part = str ".."
  · obtain ⟨stack', hstack', heq⟩ := endSegment_sep hstack hpart
    refine ⟨stack', [], hstack', Or.inl rfl, ?_⟩
    rw [← heq]
    rcases hkeep with h | h | h <;> simp [endSegment, h]
  · push Not at hkeep
    refine ⟨stack, part, hstack, Or.inr ⟨hkeep.1, hkeep.2.1, hkeep.2.2, hpart⟩, ?_⟩
    simp [endSegment, hkeep.1, hkeep.2.1, hkeep.2.2]

theorem slash_not_mem_append {part : Bytes} {c : UInt8} (hpart : slash ∉ part)
    (hc : c ≠ slash) : slash ∉ part ++ [c] := by
  simp [hpart, Ne.symm hc]

theorem scanUri_joined : ∀ {rest : Bytes} {stack : List Bytes} {part : Bytes},
    (∀ seg ∈ stack, Kept seg) → slash ∉ part →
    ∃ stack' last, (∀ seg ∈ stack', Kept seg) ∧ (last = [] ∨ Kept last) ∧
      (scanUri (joined stack) part rest).1 = joined stack' ++ last := by
  intro rest
  induction hn : rest.length using Nat.strong_induction_on generalizing rest with
  | _ n ih =>
      intro stack part hstack hpart
      have hnext : ∀ {rest' : Bytes} {stack' : List Bytes} {part' : Bytes},
          rest'.length < rest.length → (∀ seg ∈ stack', Kept seg) → slash ∉ part' →
          ∃ stack'' last, (∀ seg ∈ stack'', Kept seg) ∧ (last = [] ∨ Kept last) ∧
            (scanUri (joined stack') part' rest').1 = joined stack'' ++ last :=
        fun hlt hs hp => ih _ (hn ▸ hlt) rfl hs hp
      have hsep : ∀ {rest' : Bytes}, rest'.length < rest.length →
          ∃ stack'' last, (∀ seg ∈ stack'', Kept seg) ∧ (last = [] ∨ Kept last) ∧
            (scanUri (endSegment (joined stack) part true) [] rest').1
              = joined stack'' ++ last := by
        intro rest' hlt
        obtain ⟨stack', hstack', heq⟩ := endSegment_sep hstack hpart
        rw [heq]
        exact hnext hlt hstack' (by simp)
      cases rest with
      | nil => exact endSegment_end hstack hpart
      | cons c rest =>
          rw [scanUri.eq_def]
          simp only []
          split
          · split
            · next a b rest' =>
                have hlt : rest'.length < (c :: a :: b :: rest').length := by
                  simp; omega
                split
                · exact hnext hlt hstack hpart
                · next v _ =>
                    split
                    · exact hnext hlt hstack hpart
                    · split
                      · next hv =>
                          exact hnext hlt hstack (slash_not_mem_append hpart hv)
                      · exact hsep hlt
            · exact endSegment_end hstack hpart
          · have hlt : rest.length < (c :: rest).length := by simp
            split
            · exact endSegment_end hstack hpart
            · split
              · exact hsep hlt
              · next hc =>
                  split
                  · exact endSegment_end hstack hpart
                  · split
                    · exact endSegment_end hstack hpart
                    · exact hnext hlt hstack (slash_not_mem_append hpart hc)

theorem splitOn_joined {stack : List Bytes} (hstack : ∀ seg ∈ stack, Kept seg)
    (tail : Bytes) :
    (joined stack ++ tail).splitOn slash = stack ++ tail.splitOn slash := by
  induction stack with
  | nil => rfl
  | cons seg stack ih =>
      have hrest := ih fun s hs => hstack s (List.mem_cons_of_mem _ hs)
      rw [show joined (seg :: stack) ++ tail = seg ++ slash :: (joined stack ++ tail) by
        simp [joined], List.splitOn_append_cons_self_of_not_mem
          (hstack seg List.mem_cons_self).no_slash, hrest, List.cons_append]

theorem safePath_joined {stack : List Bytes} {last : Bytes}
    (hstack : ∀ seg ∈ stack, Kept seg) (hlast : last = [] ∨ Kept last) :
    SafePath (slash :: (joined stack ++ last)) := by
  refine ⟨rfl, ?_⟩
  rw [show slash :: (joined stack ++ last) = [] ++ slash :: (joined stack ++ last)
    from rfl, List.splitOn_append_cons_self, splitOn_joined hstack]
  have hsplit : last.splitOn slash = [last] := by
    rcases hlast with rfl | h
    · rfl
    · exact List.splitOn_eq_singleton h.no_slash
  rw [hsplit]
  intro hmem
  simp only [List.splitOn_nil, List.mem_append, List.mem_singleton] at hmem
  rcases hmem with h | h | h
  · exact absurd h (by decide)
  · exact (hstack _ h).ne_dotdot rfl
  · rcases hlast with rfl | hk
    · exact absurd h (by decide)
    · exact hk.ne_dotdot h.symm

theorem head?_joined_ne {stack : List Bytes} {last : Bytes}
    (hstack : ∀ seg ∈ stack, Kept seg) (hlast : last = [] ∨ Kept last) :
    (joined stack ++ last).head? ≠ some slash := by
  have hkept : ∀ {seg tail : Bytes}, Kept seg → (seg ++ tail).head? ≠ some slash := by
    rintro (_ | ⟨b, seg⟩) tail hk
    · exact absurd rfl hk.ne_nil
    · intro h
      rw [List.cons_append, List.head?_cons, Option.some_inj] at h
      exact hk.no_slash (h ▸ List.mem_cons_self)
  cases stack with
  | nil =>
      rcases hlast with rfl | hk
      · simp
      · simpa using @hkept _ [] hk
  | cons seg stack =>
      rw [show joined (seg :: stack) ++ last
        = seg ++ ([slash] ++ (joined stack ++ last)) by simp [joined]]
      exact hkept (hstack seg List.mem_cons_self)

/-- A target that begins with a slash comes out of `HandleURI` as a path
that cannot climb, whatever the escapes, dots and slashes in it. -/
theorem handleURI_safe {uri uriquery : Bytes} (h : uri.head? = some slash) :
    SafePath (handleURI uri uriquery).1 := by
  cases uri with
  | nil => simp at h
  | cons c rest =>
      obtain rfl : c = slash := by simpa using h
      obtain ⟨stack, last, hstack, hlast, heq⟩ :=
        @scanUri_joined rest [] [] (by simp) (by simp)
      rw [joined_nil] at heq
      simp only [handleURI, ne_eq, not_true_eq_false, if_false, heq]
      rw [if_pos (head?_joined_ne hstack hlast)]
      exact safePath_joined hstack hlast

/-- A target that does not begin with a slash is left as the client sent it. -/
theorem handleURI_raw {uri uriquery : Bytes} (h : uri.head? ≠ some slash) :
    (handleURI uri uriquery).1 = uri := by
  cases uri with
  | nil => rfl
  | cons c rest =>
      have hc : c ≠ slash := by simpa using h
      simp [handleURI, hc]

end Hottpd
