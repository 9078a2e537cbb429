import Hottpd.Core.Ports

/-!
# The fields that a `sepstream` gives

Behind an empty field the iterator moves one byte further than the start of the
next token. A separator there becomes part of that token, and a string that ends
there is taken to be read. So what is given of a field depends on how many empty
ones are in front of it: an odd number leaves the iterator on its first byte but
one, where it does no harm if there is one, and an even number behind a separator
that was never cut off.
-/

namespace Hottpd

open Bytes

namespace SepStream

/-! ## Successive calls -/

/-- What is left to do, counted twice for the iterator that stays on the last byte. -/
def variant (s : SepStream) : Nat :=
  2 * (s.tokens.length - s.n) + if s.lastStartingPosition < s.tokens.length then 1 else 0

theorem stopFrom_lt {sep : UInt8} {rest : Bytes} : ∀ {n stop : Nat},
    stopFrom sep n rest = some stop → n ≤ stop ∧ stop < n + rest.length := by
  induction rest with
  | nil => intro n stop h; cases h
  | cons b rest ih =>
      intro n stop h
      rw [stopFrom] at h
      rw [List.length_cons]
      split at h
      · cases h
        omega
      · have := ih h
        omega

theorem variant_getToken {s : SepStream} (h : s.getToken.2.1 = true) :
    s.getToken.2.2.variant < s.variant := by
  rw [getToken] at h ⊢
  split at h
  · cases h
  · next stop hstop =>
      obtain ⟨hle, hlt⟩ := stopFrom_lt hstop
      rw [List.length_drop] at hlt
      dsimp only at h ⊢
      by_cases hend : stop + 1 = s.tokens.length
      · rw [if_pos hend, if_pos hend] at h ⊢
        split at h
        · next hempty => simp [hend] at h
        · next hempty =>
            have hstart : s.lastStartingPosition < s.tokens.length := by
              by_contra hge
              refine hempty ?_
              rw [hend, List.take_length, List.drop_eq_nil_of_le (by omega)]
              rfl
            rw [if_neg hempty, variant, variant, if_neg (by simp [hend]), if_pos hstart]
            dsimp only
            omega
      · rw [if_neg hend, if_neg hend] at h ⊢
        rw [variant, variant]
        dsimp only
        split <;> split <;> split <;> omega

/-- The tokens of the calls of `GetToken` that return true, up to the one that does not. -/
def tokensWhile (s : SepStream) : List Bytes :=
  if _h : s.getToken.2.1 = true then s.getToken.1 :: tokensWhile s.getToken.2.2 else []
termination_by s.variant
decreasing_by exact variant_getToken _h

end SepStream

/-- What the tokens should be: the fields, leaving empty ones out on both sides, and without the
separator in any. -/
structure SepAgrees (sep : UInt8) (tokens fields : List Bytes) : Prop where
  nonempty : tokens.filter (· ≠ []) = fields.filter (· ≠ [])
  noSep : ∀ token ∈ tokens, sep ∉ token

/-- In front of no field that is not empty is an even number of empty ones, other than none,
nor any where it is the last and has one byte; `k` are there already. -/
def FieldsGiven : Nat → List Bytes → Prop
  | _, [] => True
  | k, f :: fields =>
      if f = [] then FieldsGiven (k + 1) fields
      else (k = 0 ∨ k % 2 = 1 ∧ (fields ≠ [] ∨ 2 ≤ f.length)) ∧ FieldsGiven 0 fields

instance decidableFieldsGiven : ∀ k fields, Decidable (FieldsGiven k fields)
  | _, [] => isTrue trivial
  | k, f :: fields =>
      have := decidableFieldsGiven (k + 1) fields
      have := decidableFieldsGiven 0 fields
      inferInstanceAs (Decidable (if f = [] then FieldsGiven (k + 1) fields else
        (k = 0 ∨ k % 2 = 1 ∧ (fields ≠ [] ∨ 2 ≤ f.length)) ∧ FieldsGiven 0 fields))

namespace SepStream

variable {sep : UInt8}

/-! ## One call -/

/-- A stream whose next token starts behind `pre`, and whose iterator is past `gap` already. -/
def at_ (sep : UInt8) (pre gap rest : Bytes) : SepStream :=
  ⟨pre ++ (gap ++ rest), pre.length, pre.length + gap.length, sep⟩

/-- The separator stops it, and so does the last byte, whatever it is. -/
theorem stopFrom_eq {w more : Bytes} {b : UInt8} (hw : sep ∉ w) (hb : b = sep ∨ more = []) : ∀ n,
    stopFrom sep n (w ++ b :: more) = some (n + w.length) := by
  induction w with
  | nil =>
      intro n
      rw [List.nil_append, stopFrom, if_pos hb]
      rfl
  | cons c w ih =>
      intro n
      have hgo : ¬(c = sep ∨ w ++ b :: more = []) := by
        rintro (heq | hnil)
        · exact List.ne_of_not_mem_cons hw heq.symm
        · exact List.append_ne_nil_of_right_ne_nil w (List.cons_ne_nil b more) hnil
      rw [List.cons_append, stopFrom, if_neg hgo, ih (List.not_mem_of_not_mem_cons hw),
        List.length_cons, Nat.add_assoc, Nat.add_comm 1]

theorem drop_at (pre gap rest : Bytes) :
    (pre ++ (gap ++ rest)).drop (pre.length + gap.length) = rest := by
  rw [← List.append_assoc, ← List.length_append, List.drop_left]

/-- Nothing is left. -/
theorem tokensWhile_nil (pre gap : Bytes) : (at_ sep pre gap []).tokensWhile = [] := by
  have hcall : (at_ sep pre gap []).getToken.2.1 = false := by
    rw [getToken, at_, drop_at]
    rfl
  rw [tokensWhile, dif_neg (by rw [hcall]; decide)]

/-- The call that stops at a separator with more behind it, and its token. -/
theorem tokensWhile_mid {pre gap w more : Bytes} (hw : sep ∉ w) (hmore : more ≠ [])
    (htoken : dropTrailing sep (gap ++ w) ≠ []) :
    (at_ sep pre gap (w ++ sep :: more)).tokensWhile =
      dropTrailing sep (gap ++ w) ::
        (at_ sep (pre ++ (gap ++ w) ++ [sep]) [] more).tokensWhile := by
  have hpos : 0 < more.length := List.length_pos_iff.2 hmore
  have hcall : (at_ sep pre gap (w ++ sep :: more)).getToken =
      (dropTrailing sep (gap ++ w), true, at_ sep (pre ++ (gap ++ w) ++ [sep]) [] more) := by
    have hgo : ¬pre.length + gap.length + w.length + 1 =
        (pre ++ (gap ++ (w ++ sep :: more))).length := by
      simp only [List.length_append, List.length_cons]
      omega
    have htake : ((pre ++ (gap ++ (w ++ sep :: more))).take
        (pre.length + gap.length + w.length)).drop pre.length = gap ++ w := by
      rw [← List.append_assoc gap, ← List.append_assoc pre, Nat.add_assoc, ← List.length_append,
        ← List.length_append, List.take_left, List.drop_left]
    rw [getToken, at_, drop_at]
    dsimp only
    rw [stopFrom_eq hw (Or.inl rfl)]
    dsimp only
    rw [if_neg hgo, if_neg hgo, htake, if_neg htoken, at_, decide_eq_true (by omega)]
    simp [Nat.add_assoc]
  rw [tokensWhile, dif_pos (by rw [hcall]), hcall]

/-- An empty token in front of a separator, with more behind it: the iterator goes one further. -/
theorem tokensWhile_skip {pre gap more : Bytes} {c : UInt8} (htoken : dropTrailing sep gap = []) :
    (at_ sep pre gap (sep :: c :: more)).tokensWhile =
      if more = [] then [] else [] :: (at_ sep (pre ++ gap ++ [sep]) [c] more).tokensWhile := by
  have hcall : (at_ sep pre gap (sep :: c :: more)).getToken =
      ([], decide (more ≠ []), at_ sep (pre ++ gap ++ [sep]) [c] more) := by
    have hgo : ¬pre.length + gap.length + 1 = (pre ++ (gap ++ sep :: c :: more)).length := by
      simp only [List.length_append, List.length_cons]
      omega
    have htake : ((pre ++ (gap ++ sep :: c :: more)).take
        (pre.length + gap.length)).drop pre.length = gap := by
      rw [← List.append_assoc pre, ← List.length_append, List.take_left, List.drop_left]
    have hend : pre.length + gap.length + 1 + 1 = (pre ++ (gap ++ sep :: c :: more)).length ↔
        more = [] := by
      rw [← List.length_eq_zero_iff]
      simp only [List.length_append, List.length_cons]
      omega
    rw [getToken, at_, drop_at]
    dsimp only
    rw [stopFrom, if_pos (Or.inl rfl)]
    dsimp only
    rw [if_neg hgo, if_neg hgo, htake, htoken, if_pos rfl, at_]
    simp only [ne_eq, hend]
    simp [Nat.add_assoc]
  by_cases hmore : more = []
  · rw [if_pos hmore, tokensWhile, dif_neg]
    rw [hcall]
    simp [hmore]
  · rw [if_neg hmore, tokensWhile, dif_pos, hcall]
    rw [hcall]
    simp [hmore]

/-- On the last byte, with its token given, the iterator finds an empty token. -/
theorem tokensWhile_given {text : Bytes} (w : Bytes) (b : UInt8) (htext : text = w ++ [b]) :
    tokensWhile ⟨text, text.length, w.length, sep⟩ = [] := by
  subst htext
  have hlast : w.length + 1 = (w ++ [b]).length := by rw [List.length_append, List.length_singleton]
  have hcall : (getToken ⟨w ++ [b], (w ++ [b]).length, w.length, sep⟩).2.1 = false := by
    rw [getToken, List.drop_left]
    dsimp only
    rw [stopFrom, if_pos (Or.inr rfl)]
    dsimp only
    have htoken : dropTrailing sep [] = [] := rfl
    rw [if_pos hlast, if_pos hlast, hlast, List.take_length, List.drop_length, if_pos htoken,
      decide_eq_false (not_not.2 rfl)]
  rw [tokensWhile, dif_neg (by rw [hcall]; decide)]

/-- The call that stops at the last byte, which is part of its token, is the last that can
return true. -/
theorem tokensWhile_end {pre gap w : Bytes} {b : UInt8} (hw : sep ∉ w) :
    (at_ sep pre gap (w ++ [b])).tokensWhile =
      if dropTrailing sep (gap ++ (w ++ [b])) = [] then []
      else [dropTrailing sep (gap ++ (w ++ [b]))] := by
  have hlast : pre.length + gap.length + w.length + 1 = (pre ++ (gap ++ (w ++ [b]))).length := by
    simp only [List.length_append, List.length_cons, List.length_nil]
    omega
  have hcall : (at_ sep pre gap (w ++ [b])).getToken =
      if dropTrailing sep (gap ++ (w ++ [b])) = [] then
        ([], false, ⟨pre ++ (gap ++ (w ++ [b])), (pre ++ (gap ++ (w ++ [b]))).length,
          (pre ++ (gap ++ (w ++ [b]))).length, sep⟩)
      else (dropTrailing sep (gap ++ (w ++ [b])), true,
        ⟨pre ++ (gap ++ (w ++ [b])), (pre ++ (gap ++ (w ++ [b]))).length,
          (pre ++ gap ++ w).length, sep⟩) := by
    rw [getToken, at_, drop_at]
    dsimp only
    rw [stopFrom_eq hw (Or.inr rfl)]
    dsimp only
    rw [if_pos hlast, if_pos hlast, hlast, List.take_length, List.drop_left]
    split
    · next hempty => simp [hempty]
    · have hn : (pre ++ gap ++ w).length = pre.length + gap.length + w.length := by
        rw [List.length_append, List.length_append]
      rw [decide_eq_true (by omega), hn]
  by_cases htoken : dropTrailing sep (gap ++ (w ++ [b])) = []
  · rw [if_pos htoken, tokensWhile, dif_neg]
    rw [hcall, if_pos htoken]
    exact Bool.false_ne_true
  · rw [if_neg htoken] at hcall ⊢
    rw [tokensWhile, dif_pos (by rw [hcall]), hcall]
    refine congrArg _ (tokensWhile_given (pre ++ gap ++ w) b ?_)
    rw [List.append_assoc, List.append_assoc]

end SepStream

/-! ## Tokens and fields -/

section Fields

variable {sep : UInt8} {tokens fields : List Bytes} {f : Bytes}

theorem dropTrailing_concat (w : Bytes) (b : UInt8) :
    dropTrailing sep (w ++ [b]) = if b = sep then dropTrailing sep w else w ++ [b] := by
  rw [dropTrailing, List.reverse_append, List.reverse_singleton, List.singleton_append,
    List.dropWhile_cons]
  by_cases hb : b = sep
  · rw [if_pos hb, if_pos (beq_iff_eq.2 hb)]
    rfl
  · rw [if_neg hb, if_neg fun heq => hb (beq_iff_eq.1 heq), List.reverse_cons,
      List.reverse_reverse]

theorem dropTrailing_not_mem (hf : sep ∉ f) : dropTrailing sep f = f := by
  rcases List.eq_nil_or_concat' f with rfl | ⟨w, b, rfl⟩
  · rfl
  · rw [dropTrailing_concat, if_neg]
    rintro rfl
    exact hf (by simp)

theorem sepAgrees_nil : SepAgrees sep [] fields ↔ ∀ f ∈ fields, f = [] := by
  have hnone : fields.filter (· ≠ []) = [] ↔ ∀ f ∈ fields, f = [] := by
    rw [List.filter_eq_nil_iff]
    simp
  rw [← hnone]
  exact ⟨fun h => h.nonempty.symm, fun h => ⟨h.symm, fun _ hmem => absurd hmem List.not_mem_nil⟩⟩

@[simp] theorem sepAgrees_nil_cons : SepAgrees sep tokens ([] :: fields) ↔
    SepAgrees sep tokens fields :=
  ⟨fun h => ⟨h.nonempty, h.noSep⟩, fun h => ⟨h.nonempty, h.noSep⟩⟩

@[simp] theorem sepAgrees_cons_nil : SepAgrees sep ([] :: tokens) fields ↔
    SepAgrees sep tokens fields := by
  constructor
  · exact fun h => ⟨h.nonempty, fun token hmem => h.noSep token (List.mem_cons_of_mem _ hmem)⟩
  · exact fun h => ⟨h.nonempty, List.forall_mem_cons.2 ⟨List.not_mem_nil, h.noSep⟩⟩

theorem sepAgrees_cons (hf : f ≠ []) (hsep : sep ∉ f) :
    SepAgrees sep (f :: tokens) (f :: fields) ↔ SepAgrees sep tokens fields := by
  have hkeep : ∀ l : List Bytes, (f :: l).filter (· ≠ []) = f :: l.filter (· ≠ []) := by
    intro l
    rw [List.filter_cons, if_pos (decide_eq_true hf)]
  constructor
  · intro h
    have hnonempty := h.nonempty
    rw [hkeep, hkeep] at hnonempty
    exact ⟨(List.cons.inj hnonempty).2, fun token hmem => h.noSep token
      (List.mem_cons_of_mem _ hmem)⟩
  · intro h
    refine ⟨?_, List.forall_mem_cons.2 ⟨hsep, h.noSep⟩⟩
    rw [hkeep, hkeep, h.nonempty]

@[simp] theorem fieldsGiven_nil_cons (k : Nat) :
    FieldsGiven k ([] :: fields) ↔ FieldsGiven (k + 1) fields := by
  rw [FieldsGiven, if_pos rfl]

theorem fieldsGiven_cons (k : Nat) (hf : f ≠ []) : FieldsGiven k (f :: fields) ↔
    (k = 0 ∨ k % 2 = 1 ∧ (fields ≠ [] ∨ 2 ≤ f.length)) ∧ FieldsGiven 0 fields := by
  rw [FieldsGiven, if_neg hf]

/-! ## One call and one field -/

variable {pre gap w more : Bytes}

/-- A field with something behind its separator. -/
theorem sepAgrees_word (hne : gap ++ w ≠ []) (hf : sep ∉ gap ++ w) (hmore : more ≠ []) :
    SepAgrees sep (SepStream.at_ sep pre gap (w ++ sep :: more)).tokensWhile
        ((gap ++ w ++ sep :: more).splitOn sep) ↔
      SepAgrees sep (SepStream.at_ sep (pre ++ (gap ++ w) ++ [sep]) [] more).tokensWhile
        (more.splitOn sep) := by
  have htoken := dropTrailing_not_mem hf
  have hw : sep ∉ w := fun hmem => hf (List.mem_append_right gap hmem)
  rw [SepStream.tokensWhile_mid hw hmore (by rwa [htoken]), htoken,
    List.splitOn_append_cons_self_of_not_mem hf, sepAgrees_cons hne hf]

/-- A field that is the last, or is followed by nothing but its separator. -/
theorem sepAgrees_last (hne : gap ++ w ≠ []) (hf : sep ∉ gap ++ w)
    (hmore : more = [] ∧ w ≠ [] ∨ more = [sep]) :
    SepAgrees sep (SepStream.at_ sep pre gap (w ++ more)).tokensWhile
      ((gap ++ w ++ more).splitOn sep) := by
  have htoken := dropTrailing_not_mem hf
  have hw : sep ∉ w := fun hmem => hf (List.mem_append_right gap hmem)
  rcases hmore with ⟨rfl, hlast⟩ | rfl
  · obtain ⟨w, b, rfl⟩ := (List.eq_nil_or_concat' w).resolve_left hlast
    have hinit : sep ∉ w := fun hmem => hw (List.mem_append_left _ hmem)
    rw [List.append_nil, SepStream.tokensWhile_end hinit, htoken, if_neg hne, List.append_nil,
      List.splitOn_eq_singleton hf, sepAgrees_cons hne hf, sepAgrees_nil]
    exact fun f hmem => absurd hmem List.not_mem_nil
  · rw [SepStream.tokensWhile_end hw, ← List.append_assoc, dropTrailing_concat, if_pos rfl,
      htoken, if_neg hne, List.splitOn_append_cons_self_of_not_mem hf, List.splitOn_nil,
      sepAgrees_cons hne hf, sepAgrees_nil]
    exact fun f hmem => List.mem_singleton.1 hmem

/-- An empty field with something behind its separator, of which the first byte is passed over. -/
theorem sepAgrees_skip {c : UInt8} {k : Nat} (hgap : dropTrailing sep gap = []) (hk : k % 2 = 1)
    (hrest : more ≠ [] → ∀ pre, SepAgrees sep (SepStream.at_ sep pre [c] more).tokensWhile
      ((c :: more).splitOn sep) ↔ FieldsGiven k ((c :: more).splitOn sep)) :
    SepAgrees sep (SepStream.at_ sep pre gap (sep :: c :: more)).tokensWhile
      ((c :: more).splitOn sep) ↔ FieldsGiven k ((c :: more).splitOn sep) := by
  rw [SepStream.tokensWhile_skip hgap]
  by_cases hmore : more = []
  · subst hmore
    rw [if_pos rfl, sepAgrees_nil]
    by_cases hc : c = sep
    · subst hc
      have hsplit : ([] ++ [c]).splitOn c = [[], []] :=
        List.splitOn_append_cons_self_of_not_mem List.not_mem_nil []
      rw [List.nil_append] at hsplit
      rw [hsplit]
      simp [FieldsGiven]
    · have hsplit : [c].splitOn sep = [[c]] :=
        List.splitOn_eq_singleton fun hmem => hc (List.mem_singleton.1 hmem).symm
      rw [hsplit, fieldsGiven_cons k (List.cons_ne_nil c [])]
      simp
      omega
  · rw [if_neg hmore, sepAgrees_cons_nil]
    exact hrest hmore _

/-- Where the separator was passed over, the word behind it is given with it. -/
theorem not_sepAgrees_led (hne : w ≠ []) (hw : sep ∉ w)
    (hmore : more = [] ∨ ∃ rest, more = sep :: rest) :
    ¬SepAgrees sep (SepStream.at_ sep pre [sep] (w ++ more)).tokensWhile fields := by
  obtain ⟨v, b, rfl⟩ := (List.eq_nil_or_concat' w).resolve_left hne
  have hb : b ≠ sep := by
    rintro rfl
    exact hw (List.mem_append_right v List.mem_cons_self)
  have hv : sep ∉ v := fun hmem => hw (List.mem_append_left _ hmem)
  have htoken : dropTrailing sep ([sep] ++ (v ++ [b])) = [sep] ++ (v ++ [b]) := by
    rw [← List.append_assoc, dropTrailing_concat, if_neg hb]
  have hled : [sep] ++ (v ++ [b]) ≠ [] := List.cons_ne_nil sep _
  have hbad : ∀ tokens, ¬SepAgrees sep (([sep] ++ (v ++ [b])) :: tokens) fields :=
    fun tokens h => h.noSep _ List.mem_cons_self List.mem_cons_self
  rcases hmore with rfl | ⟨rest, rfl⟩
  · rw [List.append_nil, SepStream.tokensWhile_end hv, htoken, if_neg hled]
    exact hbad []
  · by_cases hrest : rest = []
    · subst hrest
      rw [SepStream.tokensWhile_end hw, ← List.append_assoc, dropTrailing_concat, if_pos rfl,
        htoken, if_neg hled]
      exact hbad []
    · rw [SepStream.tokensWhile_mid hw hrest (by rwa [htoken]), htoken]
      exact hbad _

/-! ## All of them -/

/-- From the start of a field. -/
def FreshGiven (sep : UInt8) (text : Bytes) : Prop :=
  ∀ pre, SepAgrees sep (SepStream.at_ sep pre [] text).tokensWhile (text.splitOn sep) ↔
    FieldsGiven 0 (text.splitOn sep)

/-- With the first byte of the field passed over, behind an odd number of empty fields. -/
def SkippedGiven (sep : UInt8) (text : Bytes) : Prop :=
  ∀ c more, text = c :: more → more ≠ [] → ∀ k pre, k % 2 = 1 →
    (SepAgrees sep (SepStream.at_ sep pre [c] more).tokensWhile (text.splitOn sep) ↔
      FieldsGiven k (text.splitOn sep))

/-- A text is one field, or a field and what is behind its separator. -/
theorem field_cases (sep : UInt8) (text : Bytes) :
    sep ∉ text ∨ ∃ f more, text = f ++ sep :: more ∧ sep ∉ f := by
  by_cases hmem : sep ∈ text
  · obtain ⟨f, more, heq, hf⟩ := List.eq_append_cons_of_mem hmem
    exact Or.inr ⟨f, more, heq, hf⟩
  · exact Or.inl hmem

/-- A field, or a field and its separator, and nothing more. -/
theorem fieldsGiven_end {k : Nat} (hk : k = 0 ∨ k % 2 = 1) (hf : sep ∉ f)
    (hmore : more = [] ∧ (k = 0 ∨ 2 ≤ f.length) ∨ more = [sep]) :
    FieldsGiven k ((f ++ more).splitOn sep) := by
  by_cases hne : f = []
  · subst hne
    rcases hmore with ⟨rfl, -⟩ | rfl
    · simp [FieldsGiven]
    · have hsplit : ([] ++ [sep]).splitOn sep = [[], []] :=
        List.splitOn_append_cons_self_of_not_mem hf []
      rw [hsplit]
      simp [FieldsGiven]
  · rcases hmore with ⟨rfl, hlen⟩ | rfl
    · rw [List.append_nil, List.splitOn_eq_singleton hf, fieldsGiven_cons k hne]
      refine ⟨?_, trivial⟩
      rcases hlen with hzero | hlen
      · exact Or.inl hzero
      · exact hk.imp_right fun hodd => ⟨hodd, Or.inr hlen⟩
    · rw [List.splitOn_append_cons_self_of_not_mem hf, List.splitOn_nil, fieldsGiven_cons k hne]
      refine ⟨hk.imp_right fun hodd => ⟨hodd, Or.inl (List.cons_ne_nil [] [])⟩, ?_⟩
      simp [FieldsGiven]

/-- A field that is not empty, on both sides. -/
theorem given_word {k : Nat} (hk : k = 0 ∨ k % 2 = 1) (hne : gap ++ w ≠ []) (hf : sep ∉ gap ++ w)
    (hmore : more ≠ []) (hrest : FreshGiven sep more) :
    SepAgrees sep (SepStream.at_ sep pre gap (w ++ sep :: more)).tokensWhile
        ((gap ++ w ++ sep :: more).splitOn sep) ↔
      FieldsGiven k ((gap ++ w ++ sep :: more).splitOn sep) := by
  rw [sepAgrees_word hne hf hmore, hrest _, List.splitOn_append_cons_self_of_not_mem hf,
    fieldsGiven_cons k hne, and_iff_right]
  exact hk.imp_right fun hodd => ⟨hodd, Or.inl (List.splitOn_ne_nil sep more)⟩

theorem freshGiven_step {text : Bytes}
    (ih : ∀ t : Bytes, t.length < text.length → FreshGiven sep t ∧ SkippedGiven sep t) :
    FreshGiven sep text := by
  intro pre
  rcases field_cases sep text with htext | ⟨f, more, rfl, hf⟩
  · by_cases hne : text = []
    · subst hne
      rw [SepStream.tokensWhile_nil, List.splitOn_nil, sepAgrees_nil]
      simp [FieldsGiven]
    · have hagrees := @sepAgrees_last sep pre [] text [] hne htext (Or.inl ⟨rfl, hne⟩)
      have hgiven := @fieldsGiven_end sep text [] 0 (Or.inl rfl) htext
        (Or.inl ⟨rfl, Or.inl rfl⟩)
      rw [List.append_nil] at hgiven
      rw [List.nil_append, List.append_nil] at hagrees
      exact iff_of_true hagrees hgiven
  · rw [List.length_append, List.length_cons] at ih
    by_cases hne : f = []
    · subst hne
      cases more with
      | nil =>
          have htoken : dropTrailing sep ([] ++ ([] ++ [sep])) = [] := by
            rw [List.nil_append, dropTrailing_concat, if_pos rfl]
            rfl
          have hgiven := @fieldsGiven_end sep [] [sep] 0 (Or.inl rfl) hf (Or.inr rfl)
          rw [SepStream.tokensWhile_end hf, if_pos htoken]
          rw [List.splitOn_append_cons_self_of_not_mem hf, List.splitOn_nil] at hgiven ⊢
          refine iff_of_true (sepAgrees_nil.2 ?_) hgiven
          simp
      | cons c more =>
          rw [List.splitOn_append_cons_self_of_not_mem hf, sepAgrees_nil_cons,
            fieldsGiven_nil_cons]
          exact sepAgrees_skip rfl rfl fun hmore pre =>
            (ih (c :: more) (by simp)).2 c more rfl hmore 1 pre rfl
    · by_cases hmore : more = []
      · subst hmore
        exact iff_of_true (@sepAgrees_last sep pre [] f [sep] hne hf (Or.inr rfl))
          (fieldsGiven_end (Or.inl rfl) hf (Or.inr rfl))
      · exact @given_word sep pre [] f more 0 (Or.inl rfl) hne hf hmore
          (ih more (by omega)).1

/-- The separator passed over is the whole of an empty field: the number of these is even now,
and the next field that is not empty will be given with it. -/
theorem skippedGiven_sep {more : Bytes} (hmore : more ≠ [])
    (ih : ∀ t : Bytes, t.length < more.length → SkippedGiven sep t) {k : Nat} (hk : k % 2 = 1)
    (pre : Bytes) : SepAgrees sep (SepStream.at_ sep pre [sep] more).tokensWhile
        ((sep :: more).splitOn sep) ↔ FieldsGiven k ((sep :: more).splitOn sep) := by
  have hsplit : (sep :: more).splitOn sep = [] :: more.splitOn sep :=
    @List.splitOn_append_cons_self_of_not_mem _ [] _ _ sep List.not_mem_nil more
  rw [hsplit, sepAgrees_nil_cons, fieldsGiven_nil_cons]
  have heven : ∀ {w : Bytes} {fields : List Bytes}, w ≠ [] →
      ¬FieldsGiven (k + 1) (w :: fields) := by
    intro w fields hw hgiven
    rcases ((fieldsGiven_cons _ hw).1 hgiven).1 with hzero | ⟨hodd, -⟩ <;> omega
  rcases field_cases sep more with hno | ⟨w, rest, rfl, hw⟩
  · refine iff_of_false ?_ ?_
    · have hled := @not_sepAgrees_led sep (more.splitOn sep) pre more [] hmore hno (Or.inl rfl)
      rwa [List.append_nil] at hled
    · rw [List.splitOn_eq_singleton hno]
      exact heven hmore
  · rw [List.splitOn_append_cons_self_of_not_mem hw]
    by_cases hne : w = []
    · subst hne
      rw [sepAgrees_nil_cons, fieldsGiven_nil_cons]
      have hgap : dropTrailing sep [sep] = [] := by
        have hstrip := @dropTrailing_concat sep [] sep
        rwa [if_pos rfl] at hstrip
      cases rest with
      | nil =>
          have htoken : dropTrailing sep ([sep] ++ ([] ++ [sep])) = [] := by
            rw [List.nil_append, dropTrailing_concat, if_pos rfl, hgap]
          rw [SepStream.tokensWhile_end hw, if_pos htoken, List.splitOn_nil]
          refine iff_of_true (sepAgrees_nil.2 ?_) ?_
          · simp
          · simp [FieldsGiven]
      | cons e v =>
          refine sepAgrees_skip hgap (by omega) fun hv pre => ?_
          exact ih (e :: v) (by simp) e v rfl hv (k + 1 + 1) pre (by omega)
    · exact iff_of_false (not_sepAgrees_led hne hw (Or.inr ⟨rest, rfl⟩)) (heven hne)

theorem skippedGiven_step {text : Bytes}
    (ih : ∀ t : Bytes, t.length < text.length → FreshGiven sep t ∧ SkippedGiven sep t) :
    SkippedGiven sep text := by
  rintro c more rfl hmore k pre hk
  rcases field_cases sep (c :: more) with htext | ⟨f, rest, heq, hf⟩
  · have hagrees := @sepAgrees_last sep pre [c] more [] (List.cons_ne_nil c more) htext
      (Or.inl ⟨rfl, hmore⟩)
    have hpos : 0 < more.length := List.length_pos_iff.2 hmore
    have hgiven := @fieldsGiven_end sep (c :: more) [] k (Or.inr hk) htext
      (Or.inl ⟨rfl, Or.inr (by rw [List.length_cons]; omega)⟩)
    rw [List.append_nil] at hgiven
    rw [List.append_nil, List.append_nil] at hagrees
    exact iff_of_true hagrees hgiven
  · cases f with
    | cons c' f =>
        obtain ⟨rfl, rfl⟩ := List.cons.inj heq
        by_cases hrest : rest = []
        · subst hrest
          exact iff_of_true
            (@sepAgrees_last sep pre [c] f [sep] (List.cons_ne_nil c f) hf (Or.inr rfl))
            (fieldsGiven_end (Or.inr hk) hf (Or.inr rfl))
        · refine @given_word sep pre [c] f rest k (Or.inr hk) (List.cons_ne_nil c f) hf hrest ?_
          exact (ih rest (by simp; omega)).1
    | nil =>
        obtain ⟨rfl, rfl⟩ := List.cons.inj heq
        exact skippedGiven_sep hmore (fun t ht => (ih t (Nat.lt_succ_of_lt ht)).2) hk pre

theorem freshGiven (text : Bytes) : FreshGiven sep text ∧ SkippedGiven sep text :=
  have ih : ∀ t : Bytes, t.length < text.length → FreshGiven sep t ∧ SkippedGiven sep t :=
    fun t _ => freshGiven t
  ⟨freshGiven_step ih, skippedGiven_step ih⟩
termination_by text.length

/-- The tokens of a text are its fields, without the empty ones, exactly if the fields that are
not empty are where the iterator gets at them. -/
theorem tokensWhile_fields (source : Bytes) (separator : UInt8) :
    SepAgrees separator (SepStream.new source separator).tokensWhile
        (source.splitOn separator) ↔
      FieldsGiven 0 (source.splitOn separator) :=
  (freshGiven source).1 []

/-- Of two fields the one behind the empty one is lost. -/
theorem field_lost : ¬SepAgrees 44 (SepStream.new (str "80,,5") 44).tokensWhile
    ((str "80,,5").splitOn 44) := by
  intro h
  have htokens : ((SepStream.new (str "80,,5") 44).tokensWhile.filter (· ≠ [])) = [str "80"] := by
    decide +kernel
  have hfields : (((str "80,,5").splitOn 44).filter (· ≠ [])) = [str "80", str "5"] := by
    decide +kernel
  have heq := h.nonempty
  rw [htokens, hfields] at heq
  exact absurd heq (by decide +kernel)

end Fields

end Hottpd
