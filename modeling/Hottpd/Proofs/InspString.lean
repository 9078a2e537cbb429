import Hottpd.Core.InspString
import Hottpd.Core.Ports

/-!
# Buffers hold bounded strings

Each loop is followed with the memory cut at its pointers. Nothing behind the end of
a buffer is read or written, and what a buffer holds is what the bounded string is, call
after call.
-/

namespace Hottpd

open Bytes Runs Simulation

namespace InspString

/-! ## Memory cut at a pointer -/

theorem peek_cut (front : Bytes) (c : UInt8) (rest : Bytes) :
    peek (front ++ c :: rest) front.length = some c := by
  simp [peek]

theorem poke_cut (front : Bytes) (c c' : UInt8) (rest : Bytes) :
    poke (front ++ c :: rest) front.length c' = some (front ++ c' :: rest) := by
  simp [poke]

theorem skip_text {text : Bytes} (hfree : 0 ∉ text) (behind : Bytes) :
    ∀ s, skip (text ++ 0 :: behind) s = some (s + text.length + 1) := by
  induction text with
  | nil => exact fun s => rfl
  | cons c text ih =>
      intro s
      rw [List.mem_cons, not_or] at hfree
      rw [List.cons_append, skip, if_neg (Ne.symm hfree.1), ih hfree.2, List.length_cons]
      congr 1
      omega

theorem strlen_text {text : Bytes} (hfree : 0 ∉ text) (behind : Bytes) :
    strlen (text ++ 0 :: behind) = some text.length := by
  rw [strlen, skip_text hfree]
  simp

/-- The buffer is as long as it was, and holds the text. -/
structure Holds (siz : Nat) (buf text : Bytes) : Prop where
  length : buf.length = siz
  text : ∃ rest, buf = text ++ 0 :: rest

theorem exists_cons_of_lt {buf : Bytes} {n : Nat} (h : n < buf.length) :
    ∃ x rest, buf.drop n = x :: rest :=
  ⟨_, _, List.drop_eq_getElem_cons h⟩

/-! ## `strlcpy` -/

/-- The loop stops at the NUL, which it has copied, or when there is no more room. -/
theorem copyLoop_text (behind : Bytes) (n : Nat) : ∀ (text front front' dst : Bytes),
    0 ∉ text → n ≤ dst.length →
    copyLoop (front' ++ (text ++ 0 :: behind)) n front.length front'.length (front ++ dst)
      = some (if text.length < n then
          (n - text.length, front.length + text.length + 1, front'.length + text.length + 1,
            front ++ (text ++ 0 :: dst.drop (text.length + 1)))
        else (0, front.length + n, front'.length + n, front ++ (text.take n ++ dst.drop n))) := by
  induction n with
  | zero =>
      intro text front front' dst _ _
      rw [if_neg (Nat.not_lt_zero _), List.take_zero, List.nil_append, List.drop_zero]
      rfl
  | succ n ih =>
      intro text front front' dst hfree hlen
      obtain ⟨x, dst, rfl⟩ : ∃ x rest, dst = x :: rest := by
        cases dst with
        | nil => cases hlen
        | cons x rest => exact ⟨x, rest, rfl⟩
      cases text with
      | nil =>
          rw [List.nil_append, copyLoop, peek_cut]
          simp [poke_cut]
      | cons c text =>
          rw [List.mem_cons, not_or] at hfree
          have hrest := ih text (front ++ [c]) (front' ++ [c]) dst hfree.2
            (Nat.le_of_succ_le_succ hlen)
          rw [List.length_append, List.length_append, List.append_assoc, List.append_assoc]
            at hrest
          rw [List.cons_append, copyLoop, peek_cut]
          simp only [Option.bind_some, poke_cut, if_neg (Ne.symm hfree.1)]
          refine hrest.trans ?_
          simp only [List.length_cons, List.length_nil, Nat.add_lt_add_iff_right, List.append_assoc,
            List.singleton_append]
          congr 1
          split
          · simp only [Prod.mk.injEq, List.drop_succ_cons, and_true, List.cons_append]
            omega
          · simp only [Prod.mk.injEq, List.drop_succ_cons, List.take_succ_cons, and_true,
              true_and, List.cons_append]
            omega

/-- What is copied fits with its NUL into the buffer. -/
theorem strlcpy_text {dst text : Bytes} {siz : Nat} (hfree : 0 ∉ text) (behind : Bytes)
    (hpos : 0 < siz) (hlen : dst.length = siz) :
    ∃ buf, strlcpy dst (text ++ 0 :: behind) siz = some (text.length, buf) ∧
      Holds siz buf (text.take (siz - 1)) := by
  have hcopy := copyLoop_text behind (siz - 1) text [] [] dst hfree (by omega)
  simp only [List.nil_append, List.length_nil, Nat.zero_add] at hcopy
  have hstart : (if siz ≠ 0 ∧ siz - 1 ≠ 0 then copyLoop (text ++ 0 :: behind) (siz - 1) 0 0 dst
      else some (siz - 1, 0, 0, dst)) = copyLoop (text ++ 0 :: behind) (siz - 1) 0 0 dst := by
    split
    · rfl
    · next hone =>
        rw [show siz - 1 = 0 by omega]
        rfl
  unfold strlcpy
  rw [hstart, hcopy]
  by_cases hfits : text.length < siz - 1
  · rw [List.take_of_length_le (by omega)]
    refine ⟨text ++ 0 :: dst.drop (text.length + 1), ?_, ?_, dst.drop (text.length + 1), rfl⟩
    · rw [if_pos hfits, Option.bind_some, finishCopy, if_neg (by omega), Nat.add_sub_cancel]
    · simp only [List.length_append, List.length_cons, List.length_drop]
      omega
  · have hroom : (text.take (siz - 1)).length = siz - 1 := by
      rw [List.length_take]
      omega
    obtain ⟨x, rest, hrest⟩ := exists_cons_of_lt (show siz - 1 < dst.length by omega)
    have hpoke : poke (text.take (siz - 1) ++ x :: rest) (siz - 1) 0
        = some (text.take (siz - 1) ++ 0 :: rest) := by
      have hcut := poke_cut (text.take (siz - 1)) x 0 rest
      rwa [hroom] at hcut
    -- the rest of the source is looked through for its NUL
    have hskip : skip ((text ++ 0 :: behind).drop (siz - 1)) (siz - 1)
        = some (text.length + 1) := by
      rw [List.drop_append_of_le_length (by omega),
        skip_text fun hmem => hfree (List.mem_of_mem_drop hmem), List.length_drop]
      congr 1
      omega
    refine ⟨text.take (siz - 1) ++ 0 :: rest, ?_, ?_, rest, rfl⟩
    · rw [if_neg hfits, Option.bind_some, finishCopy, if_pos rfl, if_pos (by omega), hrest, hpoke,
        Option.bind_some, hskip]
      rfl
    · have hlength := congrArg List.length hrest
      rw [List.length_drop, List.length_cons] at hlength
      simp only [List.length_append, List.length_cons, hroom]
      omega

/-- The memory behind `c_str()`. -/
theorem cstr_memory (value : Bytes) : ∃ behind, value ++ [0] = cstr value ++ 0 :: behind := by
  induction value with
  | nil => exact ⟨[], rfl⟩
  | cons c value ih =>
      obtain ⟨behind, hbehind⟩ := ih
      by_cases hc : c = 0
      · subst hc
        exact ⟨value ++ [0], rfl⟩
      · refine ⟨behind, ?_⟩
        rw [cstr, List.takeWhile_cons_of_pos (by simp [hc]), List.cons_append, hbehind]
        rfl

/-- What the rest of the model takes for the copy of a string. -/
theorem strlcpy_models {dst value : Bytes} {siz : Nat} (hpos : 0 < siz)
    (hlen : dst.length = siz) :
    ∃ buf, strlcpy dst (value ++ [0]) siz = some ((cstr value).length, buf) ∧
      Holds siz buf (Hottpd.strlcpy value siz) := by
  obtain ⟨behind, hbehind⟩ := cstr_memory value
  rw [hbehind]
  exact strlcpy_text (fun hmem => by simpa using List.mem_takeWhile_imp hmem) behind hpos hlen

/-! ## `strlcat` -/

theorem findEnd_text (rest : Bytes) (n : Nat) : ∀ text front : Bytes, 0 ∉ text → text.length < n →
    findEnd (front ++ (text ++ 0 :: rest)) n front.length = some (front.length + text.length) := by
  induction n with
  | zero => exact fun _ _ _ hlt => absurd hlt (Nat.not_lt_zero _)
  | succ n ih =>
      intro text front hfree hlt
      cases text with
      | nil =>
          rw [List.nil_append, findEnd, peek_cut]
          rfl
      | cons c text =>
          rw [List.mem_cons, not_or] at hfree
          have hrest := ih text (front ++ [c]) hfree.2 (Nat.lt_of_succ_lt_succ hlt)
          rw [List.length_append, List.append_assoc] at hrest
          rw [List.cons_append, findEnd, peek_cut]
          simp only [Option.bind_some, if_pos (Ne.symm hfree.1)]
          refine hrest.trans ?_
          rw [List.length_cons, List.length_cons, List.length_nil]
          congr 1
          omega

/-- As long as there is room the text is copied, and one byte of room is left. -/
theorem appendLoop_text (behind : Bytes) (text : Bytes) : ∀ (n s : Nat) (front dst : Bytes),
    0 ∉ text → 0 < n → n ≤ dst.length →
    appendLoop (text ++ 0 :: behind) s n front.length (front ++ dst)
      = some (s + text.length, front.length + min text.length (n - 1),
          front ++ (text.take (n - 1) ++ dst.drop (min text.length (n - 1)))) := by
  induction text with
  | nil =>
      intro n s front dst _ _ _
      simp [appendLoop]
  | cons c text ih =>
      intro n s front dst hfree hpos hlen
      rw [List.mem_cons, not_or] at hfree
      rw [List.cons_append, appendLoop, if_neg (Ne.symm hfree.1)]
      by_cases hone : n = 1
      · subst hone
        rw [if_neg (by simp), ih 1 (s + 1) front dst hfree.2 hpos hlen, List.length_cons]
        simp only [Nat.sub_self, Nat.min_zero, List.take_zero, List.drop_zero]
        congr 2
        omega
      · obtain ⟨x, dst, rfl⟩ : ∃ x rest, dst = x :: rest := by
          cases dst with
          | nil => exact absurd hlen (by simp; omega)
          | cons x rest => exact ⟨x, rest, rfl⟩
        have hrest := ih (n - 1) (s + 1) (front ++ [c]) dst hfree.2 (by omega)
          (by rw [List.length_cons] at hlen; omega)
        rw [List.length_append, List.append_assoc, List.singleton_append, List.length_singleton]
          at hrest
        rw [if_pos hone, poke_cut]
        simp only [Option.bind_some]
        refine hrest.trans ?_
        obtain ⟨k, rfl⟩ : ∃ k, n = k + 2 := ⟨n - 2, by omega⟩
        simp only [List.length_cons, Nat.add_one_sub_one, show k + 2 - 1 = k + 1 by omega,
          Nat.add_min_add_right, List.drop_succ_cons, List.take_succ_cons, List.append_assoc,
          List.cons_append]
        congr 2
        · omega
        · congr 1
          omega

theorem strlcat_text {dst text more : Bytes} {siz : Nat} (hdst : Holds siz dst text)
    (hfree : 0 ∉ text) (hfits : text.length < siz) (hmore : 0 ∉ more) (behind : Bytes) :
    ∃ buf, strlcat dst (more ++ 0 :: behind) siz = some (text.length + more.length, buf) ∧
      Holds siz buf ((text ++ more).take (siz - 1)) := by
  obtain ⟨hlen, rest, rfl⟩ := hdst
  have hend := findEnd_text rest siz text [] hfree hfits
  rw [List.nil_append, List.length_nil, Nat.zero_add] at hend
  rw [List.length_append, List.length_cons] at hlen
  have happend := appendLoop_text behind more (siz - text.length) 0 text (0 :: rest) hmore
    (by omega) (by rw [List.length_cons]; omega)
  rw [Nat.zero_add] at happend
  have htake : (text ++ more).take (siz - 1) = text ++ more.take (siz - text.length - 1) := by
    rw [List.take_append, List.take_of_length_le (by omega)]
    congr 2
    omega
  -- the pointer behind what has been appended is inside of the buffer
  obtain ⟨x, tail, htail⟩ := exists_cons_of_lt
    (show min more.length (siz - text.length - 1) < ((0 : UInt8) :: rest).length by
      rw [List.length_cons]
      omega)
  have hfront : (text ++ more.take (siz - text.length - 1)).length
      = text.length + min more.length (siz - text.length - 1) := by
    rw [List.length_append, List.length_take]
    omega
  have hpoke : poke (text ++ (more.take (siz - text.length - 1) ++ x :: tail))
      (text.length + min more.length (siz - text.length - 1)) 0
      = some ((text ++ more.take (siz - text.length - 1)) ++ 0 :: tail) := by
    have hcut := poke_cut (text ++ more.take (siz - text.length - 1)) x 0 tail
    rwa [hfront, List.append_assoc] at hcut
  rw [htake]
  refine ⟨_, ?_, ?_, tail, rfl⟩
  · rw [strlcat, hend, Option.bind_some]
    dsimp only
    rw [if_neg (by omega), happend, Option.bind_some]
    dsimp only
    rw [htail, hpoke]
    rfl
  · have hlength := congrArg List.length htail
    rw [List.length_drop, List.length_cons, List.length_cons] at hlength
    rw [List.length_append, List.length_cons, hfront]
    omega

/-! ## Characters -/

theorem charlcat_text {x text : Bytes} {siz : Nat} {y : UInt8} (hx : Holds siz x text)
    (hfree : 0 ∉ text) :
    ∃ buf, charlcat x y siz = some (text.length, buf) ∧
      Holds siz buf (if text.length + 1 < siz then text ++ [y] else text) := by
  obtain ⟨hlen, rest, rfl⟩ := hx
  rw [charlcat, strlen_text hfree, Option.bind_some]
  by_cases hroom : text.length + 1 < siz
  · rw [if_pos (by omega), if_pos hroom, poke_cut, Option.bind_some]
    rw [List.length_append, List.length_cons] at hlen
    obtain ⟨c, rest, rfl⟩ : ∃ c tail, rest = c :: tail := by
      cases rest with
      | nil =>
          rw [List.length_nil] at hlen
          omega
      | cons c tail => exact ⟨c, tail, rfl⟩
    have hcut := poke_cut (text ++ [y]) c 0 rest
    rw [List.length_append, List.length_singleton, List.append_assoc, List.singleton_append]
      at hcut
    rw [hcut]
    refine ⟨_, rfl, ?_, rest, rfl⟩
    rw [List.length_cons] at hlen
    simp only [List.length_append, List.length_cons, List.length_nil]
    omega
  · rw [if_neg (by omega), if_neg hroom]
    exact ⟨_, rfl, hlen, rest, rfl⟩

/-- Behind the character that is removed each byte is written over with the next. -/
theorem removeLoop_shift (remove : UInt8) (rest : Bytes) (text : Bytes) : ∀ c : UInt8,
    c ≠ 0 → 0 ∉ text → removeLoop remove true (c :: (text ++ 0 :: rest))
      = some (true, text ++ 0 :: 0 :: rest) := by
  induction text with
  | nil =>
      intro c hc _
      simp [removeLoop, hc, peek]
  | cons c' text ih =>
      intro c hc hfree
      rw [List.mem_cons, not_or] at hfree
      rw [removeLoop, if_neg hc]
      simp [peek, ih c' (Ne.symm hfree.1) hfree.2]

theorem removeLoop_text (remove : UInt8) (rest : Bytes) (text : Bytes) (hfree : 0 ∉ text) :
    removeLoop remove false (text ++ 0 :: rest) =
      some (if remove ∈ text then (true, text.erase remove ++ 0 :: 0 :: rest)
        else (false, text ++ 0 :: rest)) := by
  induction text with
  | nil => simp [removeLoop]
  | cons c text ih =>
      rw [List.mem_cons, not_or] at hfree
      have hc : c ≠ 0 := Ne.symm hfree.1
      by_cases hfound : c = remove
      · subst hfound
        rw [if_pos List.mem_cons_self, List.erase_cons_head, ← removeLoop_shift c rest text c hc
          hfree.2, List.cons_append, removeLoop, removeLoop, if_neg hc, if_neg hc]
        simp
      · rw [List.cons_append, removeLoop, if_neg hc]
        simp only [Bool.false_or, ih hfree.2, Option.map_some, decide_eq_false hfound]
        by_cases hmem : remove ∈ text
        · simp [hmem, List.erase_cons_tail, hfound]
        · simp [hmem, Ne.symm hfound]

/-- The first of the characters is gone, and only that. -/
theorem charremove_text (remove : UInt8) {mp text : Bytes} {siz : Nat} (hmp : Holds siz mp text)
    (hfree : 0 ∉ text) :
    ∃ buf, charremove mp remove = some (decide (remove ∈ text), buf) ∧
      Holds siz buf (text.erase remove) := by
  obtain ⟨hlen, rest, rfl⟩ := hmp
  rw [charremove, removeLoop_text remove rest text hfree]
  by_cases hmem : remove ∈ text
  · rw [if_pos hmem, decide_eq_true hmem]
    refine ⟨_, rfl, ?_, 0 :: rest, rfl⟩
    have hlength := List.length_erase_of_mem hmem
    have hpos := List.length_pos_of_mem hmem
    simp only [List.length_append, List.length_cons] at hlen ⊢
    omega
  · rw [if_neg hmem, decide_eq_false hmem, List.erase_of_not_mem hmem]
    exact ⟨_, rfl, hlen, rest, rfl⟩

/-! ## Calls -/

/-- The buffer is still there, and holds the bounded string. -/
def Contains {siz : Nat} (s : Option Bytes) (t : BoundedString siz) : Prop :=
  ∃ buf, s = some buf ∧ Holds siz buf t.bytes

theorem call_text {siz : Nat} (hpos : 0 < siz) {buf : Bytes} {t : BoundedString siz}
    (hbuf : Holds siz buf t.bytes) (c : StringCall) :
    ∃ buf', call siz buf c = some ((BoundedString.step hpos c t).1, buf') ∧
      Holds siz buf' (BoundedString.step hpos c t).2.bytes := by
  cases c with
  | strlcpy src behind => exact strlcpy_text src.free behind hpos hbuf.length
  | strlcat src behind => exact strlcat_text hbuf t.free t.fits src.free behind
  | charlcat y hy =>
      obtain ⟨buf', hcall, hholds⟩ := charlcat_text (y := y) hbuf t.free
      refine ⟨buf', hcall, ?_⟩
      by_cases hroom : t.bytes.length + 1 < siz
      · rw [if_pos hroom] at hholds
        simp only [BoundedString.step, if_pos hroom, BoundedString.truncate]
        rwa [List.take_of_length_le (by rw [List.length_append, List.length_singleton]; omega)]
      · rw [if_neg hroom] at hholds
        simp only [BoundedString.step, if_neg hroom]
        exact hholds
  | charremove remove =>
      obtain ⟨buf', hcall, hholds⟩ := charremove_text remove hbuf t.free
      refine ⟨buf', ?_, hholds⟩
      rw [call, hcall]
      by_cases hmem : remove ∈ t.bytes
      · simp [BoundedString.step, hmem]
      · simp [BoundedString.step, hmem]

end InspString

open InspString in
/-- For every buffer that starts with a NUL and every sequence of calls with its size: no call
reads or writes behind the end of it, and answers and text are those of the bounded string. -/
theorem buffer_holds {siz : Nat} (hpos : 0 < siz) (junk : Bytes) (hlen : junk.length + 1 = siz)
    (calls : List StringCall) :
    Throughout (Compared.step (InspString.machine siz (0 :: junk)) (BoundedString.machine hpos))
      (Compared.start (InspString.machine siz (0 :: junk)) (BoundedString.machine hpos)) calls
      (Compared.Agree Contains) := by
  refine Compared.agree (R := Contains) ⟨0 :: junk, rfl, hlen, junk, rfl⟩ id
    (fun {s t c} h => ?_) calls
  obtain ⟨buf, rfl, hbuf⟩ := h
  obtain ⟨buf', hcall, hholds⟩ := call_text hpos hbuf c
  simp only [InspString.machine, BoundedString.machine, Option.bind_some, hcall]
  exact ⟨trivial, buf', rfl, hholds⟩

/-- A text is copied, and one appended that does not fit. -/
theorem buffer_holds_truncated :
    Throughout
      (Compared.step (InspString.machine 5 (0 :: [1, 2, 3, 4]))
        (BoundedString.machine (show 0 < 5 by decide)))
      (Compared.start (InspString.machine 5 (0 :: [1, 2, 3, 4]))
        (BoundedString.machine (show 0 < 5 by decide)))
      [.strlcpy ⟨str "ab", by decide⟩ [7], .charlcat 99 (by decide),
        .strlcat ⟨str "dd", by decide⟩ [], .charremove 97]
      (Compared.Agree InspString.Contains) :=
  buffer_holds (by decide) [1, 2, 3, 4] rfl _

/-- Of two the first is removed. -/
example : InspString.charremove (str "abab" ++ [0]) 97 = some (true, str "bab" ++ [0, 0]) := by
  decide

end Hottpd
