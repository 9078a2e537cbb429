import Hottpd.Core.Uri

/-!
# What a target says

The loop of `HandleURI` decodes and cleans in one go. Taken apart, it decodes the
target up to where it is cut, splits what comes out at the slashes, and folds the
segments over a stack. `sanepath` is this stack written out, so the two agree
after every byte.
-/

namespace Hottpd

open Bytes

/-! ## Decoding and cleaning -/

/-- The byte of an escape, if it is one to keep. -/
def unescape (a b : UInt8) : Option UInt8 :=
  match unhexchar a b with
  | none => none
  | some v => if signed v < 32 ∨ v = 127 then none else some v

/-- What a target says behind its first slash, up to the first `?` or `#` that is not
escaped, to an escape cut short or to a NUL; and what is behind the `?`, if that is where
it is cut. -/
def decodeTarget : Bytes → Bytes × Option Bytes
  | [] => ([], none)
  | c :: rest =>
      if c = 37 then
        match rest with
        | a :: b :: rest =>
            match unescape a b with
            | none => decodeTarget rest
            | some v => (v :: (decodeTarget rest).1, (decodeTarget rest).2)
        | _ => ([], none)
      else if c = 0 then ([], none)
      else if c = 63 then ([], some rest)
      else if c = 35 then ([], none)
      else (c :: (decodeTarget rest).1, (decodeTarget rest).2)

/-- The segment goes on the stack. -/
def isPushed (seg : Bytes) : Bool := seg ≠ [] ∧ seg ≠ str "." ∧ seg ≠ str ".."

/-- What a segment does to the stack. -/
def pushSegment (stack : List Bytes) (seg : Bytes) : List Bytes :=
  if seg = [] ∨ seg = str "." then stack
  else if seg = str ".." then stack.dropLast
  else stack ++ [seg]

/-- The segments left of those between the slashes. -/
def resolve (d : Bytes) : List Bytes := (d.splitOn slash).foldl pushSegment []

/-- They are joined by slashes, with one at the end unless the last segment was pushed. The
slash of the root is there in any case. -/
def cleanTarget (d : Bytes) : Bytes :=
  let stack := resolve d
  let lastPushed := ((d.splitOn slash).getLast?.map isPushed).getD false
  slash :: (List.intercalate [slash] stack ++ if stack = [] ∨ lastPushed then [] else [slash])

theorem isPushed_iff {seg : Bytes} :
    isPushed seg = true ↔ seg ≠ [] ∧ seg ≠ str "." ∧ seg ≠ str ".." := by
  simp [isPushed]

theorem pushSegment_of_pushed {stack : List Bytes} {seg : Bytes} (h : isPushed seg = true) :
    pushSegment stack seg = stack ++ [seg] := by
  obtain ⟨hne, hdot, hdotdot⟩ := isPushed_iff.1 h
  rw [pushSegment, if_neg (not_or.2 ⟨hne, hdot⟩), if_neg hdotdot]

/-- What is on the stack is worth keeping. -/
theorem pushSegment_kept {stack : List Bytes} {seg : Bytes} (hstack : ∀ s ∈ stack, Kept s)
    (hseg : slash ∉ seg) : ∀ s ∈ pushSegment stack seg, Kept s := by
  unfold pushSegment
  split
  · exact hstack
  · next hne =>
      obtain ⟨hnil, hdot⟩ := not_or.1 hne
      split
      · intro s hs
        exact hstack s (List.mem_of_mem_dropLast hs)
      · next hdotdot =>
          intro s hs
          rcases List.mem_append.1 hs with hs | hs
          · exact hstack s hs
          · obtain rfl := List.mem_singleton.1 hs
            exact ⟨hnil, hdot, hdotdot, hseg⟩

/-- A segment that ends at a slash does to `sanepath` what it does to the stack. -/
theorem endSegment_push {stack : List Bytes} {seg : Bytes} (hstack : ∀ s ∈ stack, Kept s) :
    endSegment (joined stack) seg true = joined (pushSegment stack seg) := by
  unfold endSegment pushSegment
  split
  · rfl
  · split
    · rcases List.eq_nil_or_concat stack with rfl | ⟨init, last, rfl⟩
      · decide
      · rw [List.concat_eq_append] at hstack ⊢
        have hlast := hstack last (by simp)
        rw [popSegment_joined hlast.no_slash hlast.ne_nil, List.dropLast_concat]
    · simp [joined_concat]

/-- The last segment is written without a slash. -/
theorem endSegment_last {stack : List Bytes} {seg : Bytes} (hstack : ∀ s ∈ stack, Kept s) :
    endSegment (joined stack) seg false =
      if isPushed seg then joined stack ++ seg else joined (pushSegment stack seg) := by
  by_cases hpushed : isPushed seg = true
  · obtain ⟨hne, hdot, hdotdot⟩ := isPushed_iff.1 hpushed
    rw [if_pos hpushed, endSegment, if_neg (not_or.2 ⟨hne, hdot⟩), if_neg hdotdot]
    simp
  · rw [if_neg hpushed, ← endSegment_push hstack]
    unfold endSegment
    split
    · rfl
    · next hne =>
        obtain ⟨hnil, hdot⟩ := not_or.1 hne
        split
        · rfl
        · next hdotdot => exact absurd (isPushed_iff.2 ⟨hnil, hdot, hdotdot⟩) hpushed

/-! ## The loop -/

/-- The last segment and those before it, on the stack. -/
def written (stack : List Bytes) : List Bytes → Bytes
  | [] => joined stack
  | [last] => if isPushed last then joined stack ++ last else joined (pushSegment stack last)
  | seg :: next :: rest => written (pushSegment stack seg) (next :: rest)

theorem written_cons {stack : List Bytes} {seg : Bytes} {rest : List Bytes} (h : rest ≠ []) :
    written stack (seg :: rest) = written (pushSegment stack seg) rest := by
  cases rest with
  | nil => exact absurd rfl h
  | cons next rest => rfl

section Loop

variable {sanepath pathpart rest : Bytes} {a b c v : UInt8}

theorem scanUri_silent (h : unescape a b = none) :
    scanUri sanepath pathpart (37 :: a :: b :: rest) = scanUri sanepath pathpart rest := by
  rw [scanUri, if_pos rfl]
  rw [unescape] at h
  split
  · rfl
  · next v hv =>
      rw [hv] at h
      dsimp only at h
      split at h
      · next hdrop => rw [if_pos hdrop]
      · cases h

theorem scanUri_escape (h : unescape a b = some v) :
    scanUri sanepath pathpart (37 :: a :: b :: rest) =
      if v = slash then scanUri (endSegment sanepath pathpart true) [] rest
      else scanUri sanepath (pathpart ++ [v]) rest := by
  rw [scanUri, if_pos rfl]
  rw [unescape] at h
  split
  · next hv =>
      rw [hv] at h
      cases h
  · next v' hv =>
      rw [hv] at h
      dsimp only at h
      split at h
      · cases h
      · next hkeep =>
          cases h
          rw [if_neg hkeep, ite_not]

theorem scanUri_short (h : ∀ a b rest', rest ≠ a :: b :: rest') :
    scanUri sanepath pathpart (37 :: rest) = (endSegment sanepath pathpart false, none) := by
  rw [scanUri.eq_def]
  dsimp only
  rw [if_pos rfl]
  split
  · next a b rest' => exact absurd rfl (h a b rest')
  · rfl

/-- A byte that begins no escape. -/
theorem scanUri_plain (hpercent : c ≠ 37) :
    scanUri sanepath pathpart (c :: rest) =
      if c = 0 then (endSegment sanepath pathpart false, none)
      else if c = slash then scanUri (endSegment sanepath pathpart true) [] rest
      else if c = 63 then (endSegment sanepath pathpart false, some rest)
      else if c = 35 then (endSegment sanepath pathpart false, none)
      else scanUri sanepath (pathpart ++ [c]) rest := by
  rw [scanUri.eq_def]
  dsimp only
  rw [if_neg hpercent]

end Loop

/-- From any point of the loop on: what is decoded from there continues the segment being
read. -/
theorem scanUri_eq (rest : Bytes) : ∀ {stack : List Bytes} {part : Bytes},
    (∀ s ∈ stack, Kept s) → slash ∉ part →
    scanUri (joined stack) part rest =
      (written stack ((part ++ (decodeTarget rest).1).splitOn slash), (decodeTarget rest).2) := by
  -- nothing more is decoded
  have hcut : ∀ {stack : List Bytes} {part : Bytes}, (∀ s ∈ stack, Kept s) → slash ∉ part →
      endSegment (joined stack) part false = written stack ((part ++ []).splitOn slash) := by
    intro stack part hstack hpart
    rw [List.append_nil, List.splitOn_eq_singleton hpart, endSegment_last hstack]
    rfl
  -- one byte more, a slash or one of the segment
  have hbyte : ∀ {rest : Bytes} {c : UInt8},
      (∀ {stack : List Bytes} {part : Bytes}, (∀ s ∈ stack, Kept s) → slash ∉ part →
        scanUri (joined stack) part rest =
          (written stack ((part ++ (decodeTarget rest).1).splitOn slash),
            (decodeTarget rest).2)) →
      ∀ {stack : List Bytes} {part : Bytes}, (∀ s ∈ stack, Kept s) → slash ∉ part →
      (if c = slash then scanUri (endSegment (joined stack) part true) [] rest
        else scanUri (joined stack) (part ++ [c]) rest) =
        (written stack ((part ++ c :: (decodeTarget rest).1).splitOn slash),
          (decodeTarget rest).2) := by
    intro rest c ih stack part hstack hpart
    by_cases hc : c = slash
    · rw [if_pos hc, hc, List.splitOn_append_cons_self_of_not_mem hpart,
        written_cons (List.splitOn_ne_nil slash _), endSegment_push hstack,
        ih (pushSegment_kept hstack hpart) List.not_mem_nil, List.nil_append]
    · rw [if_neg hc, ih hstack (slash_not_mem_append hpart hc), List.append_assoc,
        List.singleton_append]
  fun_induction decodeTarget rest with
  | case1 =>
      intro stack part hstack hpart
      rw [scanUri, hcut hstack hpart]
  | case2 a b rest hnone ih =>
      intro stack part hstack hpart
      rw [scanUri_silent hnone, ih hstack hpart]
  | case3 a b rest v hsome ih =>
      intro stack part hstack hpart
      rw [scanUri_escape hsome, hbyte ih hstack hpart]
  | case4 rest hshort =>
      intro stack part hstack hpart
      rw [scanUri_short hshort, hcut hstack hpart]
  | case5 rest hpercent =>
      intro stack part hstack hpart
      rw [scanUri_plain hpercent, if_pos rfl, hcut hstack hpart]
  | case6 rest hpercent hnul =>
      intro stack part hstack hpart
      rw [scanUri_plain hpercent, if_neg hnul, if_neg (by decide), if_pos rfl, hcut hstack hpart]
  | case7 rest hpercent hnul hquery =>
      intro stack part hstack hpart
      rw [scanUri_plain hpercent, if_neg hnul, if_neg (by decide), if_neg hquery, if_pos rfl,
        hcut hstack hpart]
  | case8 c rest hpercent hnul hquery hhash ih =>
      intro stack part hstack hpart
      rw [scanUri_plain hpercent, if_neg hnul, if_neg hquery, if_neg hhash, hbyte ih hstack hpart]

/-! ## The cleaned target -/

theorem written_concat (last : Bytes) (segs : List Bytes) : ∀ stack,
    written stack (segs ++ [last]) =
      if isPushed last then joined (segs.foldl pushSegment stack) ++ last
      else joined ((segs ++ [last]).foldl pushSegment stack) := by
  induction segs with
  | nil => intro stack; rfl
  | cons seg segs ih =>
      intro stack
      rw [List.cons_append, written_cons (by simp), ih]
      rfl

theorem joined_append_last (last : Bytes) (stack : List Bytes) :
    joined stack ++ last = List.intercalate [slash] (stack ++ [last]) := by
  induction stack with
  | nil => simp
  | cons seg stack ih =>
      rw [List.cons_append, List.intercalate_cons_of_ne_nil (by simp), ← ih]
      simp [joined]

theorem joined_eq (stack : List Bytes) :
    joined stack = List.intercalate [slash] stack ++ if stack = [] then [] else [slash] := by
  rcases List.eq_nil_or_concat stack with rfl | ⟨init, last, rfl⟩
  · rfl
  · rw [List.concat_eq_append, ← joined_append_last, joined_concat, if_neg (by simp)]

theorem written_resolve (d : Bytes) : slash :: written [] (d.splitOn slash) = cleanTarget d := by
  obtain ⟨segs, last, hsegs⟩ :=
    (List.eq_nil_or_concat (d.splitOn slash)).resolve_left (List.splitOn_ne_nil slash d)
  rw [List.concat_eq_append] at hsegs
  have hlast : ((d.splitOn slash).getLast?.map isPushed).getD false = isPushed last := by
    rw [hsegs, List.getLast?_concat]
    rfl
  have hstack : resolve d = pushSegment (segs.foldl pushSegment []) last := by
    rw [resolve, hsegs, List.foldl_concat]
  rw [cleanTarget, hlast, hsegs, written_concat, List.foldl_concat, ← hstack]
  by_cases hpushed : isPushed last = true
  · rw [if_pos hpushed, if_pos (Or.inr hpushed), List.append_nil, joined_append_last, hstack,
      pushSegment_of_pushed hpushed]
  · rw [if_neg hpushed, joined_eq]
    simp [hpushed]

theorem slash_not_mem_segment (d : Bytes) : ∀ seg ∈ d.splitOn slash, slash ∉ seg := by
  induction d with
  | nil => simp
  | cons c d ih =>
      intro seg hseg
      rw [List.splitOn_cons_eq_if_modifyHead] at hseg
      split at hseg
      · rcases List.mem_cons.1 hseg with rfl | hseg
        · exact List.not_mem_nil
        · exact ih seg hseg
      · next hc =>
          cases hsplit : d.splitOn slash with
          | nil => exact absurd hsplit (List.splitOn_ne_nil slash d)
          | cons first more =>
              rw [hsplit] at hseg ih
              rw [List.modifyHead_cons] at hseg
              rcases List.mem_cons.1 hseg with rfl | hseg
              · intro hmem
                rcases List.mem_cons.1 hmem with h | h
                · exact hc (by simp [← h])
                · exact ih first List.mem_cons_self h
              · exact ih seg (List.mem_cons_of_mem first hseg)

/-- Every segment that is left is worth keeping. -/
theorem resolve_kept (d : Bytes) : ∀ seg ∈ resolve d, Kept seg := by
  have hfold : ∀ (segs stack : List Bytes), (∀ seg ∈ segs, slash ∉ seg) →
      (∀ seg ∈ stack, Kept seg) → ∀ seg ∈ segs.foldl pushSegment stack, Kept seg := by
    intro segs
    induction segs with
    | nil => intro stack _ hstack; exact hstack
    | cons seg segs ih =>
        intro stack hsegs hstack
        exact ih _ (fun s hs => hsegs s (List.mem_cons_of_mem _ hs))
          (pushSegment_kept hstack (hsegs seg List.mem_cons_self))
  exact hfold _ [] (slash_not_mem_segment d) (by simp)

/-- `HandleURI` decodes the target, resolves its segments and writes them out; the query is
what is behind the first `?`. No segment that is left is empty, a dot or two. -/
theorem handleURI_cleans (target uriquery : Bytes) :
    handleURI (slash :: target) uriquery
        = (cleanTarget (decodeTarget target).1, (decodeTarget target).2.getD uriquery) ∧
      ∀ seg ∈ resolve (decodeTarget target).1, Kept seg := by
  refine ⟨?_, resolve_kept _⟩
  have hscan := @scanUri_eq target [] [] (by simp) (by simp)
  obtain ⟨stack, last, hstack, hlast, hsane⟩ :=
    @scanUri_joined target [] [] (by simp) (by simp)
  rw [joined_nil] at hscan hsane
  rw [hscan] at hsane
  have hhead := head?_joined_ne hstack hlast
  rw [← hsane] at hhead
  simp only [handleURI, hscan, ne_eq, not_true_eq_false, if_false]
  rw [if_pos hhead, List.nil_append, List.singleton_append, written_resolve]

end Hottpd
