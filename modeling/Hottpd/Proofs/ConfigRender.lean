import Hottpd.Proofs.ConfigFile

/-!
# Writing a configuration file

Sections with their items, written down and read again by `LoadConf`. A name is a
word that neither a sign nor a comment can end, and a value may be anything that
fits into quotes, line feeds included: what looks like a comment or a brace in it
is none.
-/

namespace Hottpd

open Bytes

/-- A word that is cut as one token, wherever it stands. -/
structure PlainWord (w : Bytes) : Prop where
  ne_nil : w ≠ []
  plain : ∀ c ∈ w, c ∉ str "\t\n\r \"#;=\x7b\x7d"
  slashes : ¬str "//" <:+: w
  slashStar : ¬str "/*" <:+: w

instance (w : Bytes) : Decidable (PlainWord w) :=
  decidable_of_iff (w ≠ [] ∧ w.all (fun c => c ∉ str "\t\n\r \"#;=\x7b\x7d") ∧
      ¬str "//" <:+: w ∧ ¬str "/*" <:+: w)
    ⟨fun ⟨h, h', h'', h'''⟩ =>
        ⟨h, fun c hc => of_decide_eq_true (List.all_eq_true.1 h' c hc), h'', h'''⟩,
      fun h => ⟨h.ne_nil, List.all_eq_true.2 fun c hc => decide_eq_true (h.plain c hc),
        h.slashes, h.slashStar⟩⟩

/-- The section can be written down. -/
structure Writable (s : Bytes × KeyValList) : Prop where
  name : PlainWord s.1
  key : ∀ item ∈ s.2, PlainWord item.1
  value : ∀ item ∈ s.2, item.2 ≠ [] ∧ 34 ∉ item.2

instance (s : Bytes × KeyValList) : Decidable (Writable s) :=
  decidable_of_iff (PlainWord s.1 ∧ (∀ item ∈ s.2, PlainWord item.1) ∧
      ∀ item ∈ s.2, item.2 ≠ [] ∧ 34 ∉ item.2)
    ⟨fun ⟨h, h', h''⟩ => ⟨h, h', h''⟩, fun h => ⟨h.name, h.key, h.value⟩⟩

/-- The white space between a name and its brace, and before the keys. -/
structure Layout where
  gap : Bytes
  indent : Bytes
  blank : ∀ c ∈ gap ++ indent, c = 32 ∨ c = 9 ∨ c = 10

def renderItem (l : Layout) (item : KeyVal) : Bytes :=
  l.indent ++ item.1 ++ str " = \"" ++ item.2 ++ str "\"\n"

def renderSection (l : Layout) (s : Bytes × KeyValList) : Bytes :=
  s.1 ++ l.gap ++ str "\x7b\n" ++ s.2.flatMap (renderItem l) ++ str "\x7d\n"

def render (l : Layout) (ss : List (Bytes × KeyValList)) : Bytes := ss.flatMap (renderSection l)

/-! ## Cutting what was written -/

/-- A character that begins no comment. -/
theorem lexFrom_char {c : UInt8} (hline : c ≠ 10) (hhash : c ≠ 35) (hslash : c ≠ 47)
    (cur rest : Bytes) : lexFrom (c :: rest) (.plain cur)
      = (plainToken c cur).1 ++ lexFrom rest (plainToken c cur).2 := by
  cases rest with
  | nil => exact (if_neg hline).trans (if_neg hhash)
  | cons next rest =>
      rw [lexFrom_plain_cons hline, if_neg hhash, if_neg fun h => hslash h.1,
        if_neg fun h => hslash h.1]

/-- A blank or a tab ends the word. -/
theorem lexFrom_space {c : UInt8} (hc : c = 32 ∨ c = 9) (cur rest : Bytes) :
    lexFrom (c :: rest) (.plain cur) = wordOf cur ++ lexFrom rest (.plain []) := by
  rcases hc with rfl | rfl
  · exact lexFrom_char (by decide) (by decide) (by decide) cur rest
  · exact lexFrom_char (by decide) (by decide) (by decide) cur rest

/-- So does a sign. -/
theorem lexFrom_equals (cur rest : Bytes) :
    lexFrom (61 :: rest) (.plain cur) = wordOf cur ++ .equals :: lexFrom rest (.plain []) := by
  have hsign : (plainToken 61 cur).1 = wordOf cur ++ [.equals] := rfl
  rw [lexFrom_char (by decide) (by decide) (by decide), hsign, List.append_assoc]
  rfl

theorem plainToken_word {c : UInt8} (h : c ∉ str "\t\n\r \"#;=\x7b\x7d") (cur : Bytes) :
    plainToken c cur = ([], .plain (cur ++ [c])) := by
  have hne : ∀ b ∈ str "\t\n\r \"#;=\x7b\x7d", c ≠ b := by
    rintro b hb rfl
    exact h hb
  rw [plainToken, if_neg (hne 34 (by decide)), if_neg (hne 61 (by decide)),
    if_neg (hne 123 (by decide)), if_neg (hne 125 (by decide)),
    if_neg (not_or.2 ⟨hne 59 (by decide), hne 13 (by decide)⟩),
    if_neg (not_or.2 ⟨hne 32 (by decide), hne 9 (by decide)⟩)]

/-- A word goes on up to what stands behind it. -/
theorem lexFrom_word {c : UInt8} (hslash : c ≠ 47) (hstar : c ≠ 42) (rest : Bytes) :
    ∀ {w : Bytes}, (∀ b ∈ w, b ∉ str "\t\n\r \"#;=\x7b\x7d") → ¬str "//" <:+: w →
    ¬str "/*" <:+: w → ∀ cur,
    lexFrom (w ++ c :: rest) (.plain cur) = lexFrom (c :: rest) (.plain (cur ++ w)) := by
  intro w
  induction w with
  | nil =>
      intro _ _ _ cur
      rw [List.append_nil]
      rfl
  | cons a w ih =>
      intro hplain hslashes hslashStar cur
      have ha : a ∉ str "\t\n\r \"#;=\x7b\x7d" := hplain a List.mem_cons_self
      have hrest := ih (fun b hb => hplain b (List.mem_cons_of_mem a hb))
        (fun h => hslashes (h.trans (List.suffix_cons a w).isInfix))
        (fun h => hslashStar (h.trans (List.suffix_cons a w).isInfix)) (cur ++ [a])
      obtain ⟨next, tail, htail, hnext⟩ : ∃ next tail, w ++ c :: rest = next :: tail ∧
          (a = 47 → next ≠ 47 ∧ next ≠ 42) := by
        cases w with
        | nil => exact ⟨c, rest, rfl, fun _ => ⟨hslash, hstar⟩⟩
        | cons b w =>
            refine ⟨b, w ++ c :: rest, rfl, ?_⟩
            rintro rfl
            constructor
            · rintro rfl
              exact hslashes ⟨[], w, rfl⟩
            · rintro rfl
              exact hslashStar ⟨[], w, rfl⟩
      have hline : a ≠ 10 := by
        rintro rfl
        exact ha (by decide)
      have hhash : a ≠ 35 := by
        rintro rfl
        exact ha (by decide)
      rw [htail] at hrest
      rw [List.cons_append, htail, lexFrom_plain_cons hline, if_neg hhash,
        if_neg fun h => (hnext h.1).1 h.2, if_neg fun h => (hnext h.1).2 h.2,
        plainToken_word ha, List.nil_append, hrest, List.append_assoc]
      rfl

theorem wordOf_word {w : Bytes} (h : w ≠ []) : wordOf w = [.word w] := if_neg h

/-- A quoted string goes on up to its end, whatever is in it. -/
theorem lexFrom_quoted {v : Bytes} (rest : Bytes) : 34 ∉ v → ∀ q,
    lexFrom (v ++ 34 :: rest) (.quote q) = .quoted (q ++ v) :: lexFrom rest (.plain []) := by
  induction v with
  | nil =>
      intro _ q
      rw [List.nil_append, lexFrom, if_pos rfl, List.append_nil]
  | cons c v ih =>
      intro hv q
      rw [List.mem_cons, not_or] at hv
      rw [List.cons_append, lexFrom, if_neg (Ne.symm hv.1), ih hv.2, List.append_assoc]
      rfl

/-- White space is line ends at most. -/
theorem lexFrom_blank {gap : Bytes} (rest : Bytes) :
    (∀ c ∈ gap, c = 32 ∨ c = 9 ∨ c = 10) →
    ∃ n, lexFrom (gap ++ rest) (.plain [])
      = List.replicate n .eol ++ lexFrom rest (.plain []) := by
  induction gap with
  | nil => intro _; exact ⟨0, rfl⟩
  | cons c gap ih =>
      intro hblank
      obtain ⟨n, hn⟩ := ih fun b hb => hblank b (List.mem_cons_of_mem c hb)
      rcases or_assoc.2 (hblank c List.mem_cons_self) with hspace | rfl
      · refine ⟨n, ?_⟩
        rw [List.cons_append, lexFrom_space hspace, ← hn]
        rfl
      · refine ⟨n + 1, ?_⟩
        rw [List.cons_append, lexFrom_eol_plain, hn]
        rfl

/-- A name, white space and the brace. -/
theorem lexFrom_head {name gap : Bytes} (hname : name ≠ []) (rest : Bytes)
    (hblank : ∀ c ∈ gap, c = 32 ∨ c = 9 ∨ c = 10) :
    ∃ n, lexFrom (gap ++ 123 :: rest) (.plain name)
      = .word name :: (List.replicate n .eol ++ .lbrace :: lexFrom rest (.plain [])) := by
  have hbrace : ∀ cur, lexFrom (123 :: rest) (.plain cur)
      = wordOf cur ++ [.lbrace] ++ lexFrom rest (.plain []) := by
    intro cur
    rw [lexFrom_char (by decide) (by decide) (by decide)]
    rfl
  cases gap with
  | nil =>
      refine ⟨0, ?_⟩
      rw [List.nil_append, hbrace, wordOf_word hname]
      rfl
  | cons c gap =>
      obtain ⟨n, hn⟩ := lexFrom_blank (123 :: rest) fun b hb =>
        hblank b (List.mem_cons_of_mem c hb)
      rw [hbrace] at hn
      rcases or_assoc.2 (hblank c List.mem_cons_self) with hspace | rfl
      · refine ⟨n, ?_⟩
        rw [List.cons_append, lexFrom_space hspace, hn, wordOf_word hname]
        rfl
      · refine ⟨n + 1, ?_⟩
        rw [List.cons_append, lexFrom_eol_plain, hn, wordOf_word hname]
        rfl

/-! ## The written file -/

theorem lexFrom_item (l : Layout) {item : KeyVal} (hkey : PlainWord item.1)
    (hvalue : 34 ∉ item.2) (rest : Bytes) :
    ∃ n, lexFrom (renderItem l item ++ rest) (.plain []) = List.replicate n .eol ++
      (.word item.1 :: .equals :: .quoted item.2 :: .eol :: lexFrom rest (.plain [])) := by
  obtain ⟨k, v⟩ := item
  have hblank : ∀ c ∈ l.indent, c = 32 ∨ c = 9 ∨ c = 10 :=
    fun c hc => l.blank c (List.mem_append_right _ hc)
  obtain ⟨n, hn⟩ := lexFrom_blank (k ++ 32 :: 61 :: 32 :: 34 :: (v ++ 34 :: 10 :: rest)) hblank
  have htext : renderItem l (k, v) ++ rest
      = l.indent ++ (k ++ 32 :: 61 :: 32 :: 34 :: (v ++ 34 :: 10 :: rest)) := by
    have heq : str " = \"" = [32, 61, 32, 34] := by decide
    have hend : str "\"\n" = [34, 10] := by decide
    simp [renderItem, heq, hend]
  refine ⟨n, ?_⟩
  rw [htext, hn, lexFrom_word (by decide) (by decide) _ hkey.plain hkey.slashes hkey.slashStar,
    List.nil_append, lexFrom_space (Or.inl rfl), wordOf_word hkey.ne_nil, lexFrom_equals,
    lexFrom_space (Or.inl rfl), lexFrom_char (by decide) (by decide) (by decide)]
  congr 1
  show .word k :: .equals :: lexFrom (v ++ 34 :: 10 :: rest) (.quote []) = _
  rw [lexFrom_quoted (10 :: rest) hvalue, lexFrom_eol_plain]
  rfl

theorem Items.eols {ts : List Token} {items : KeyValList} (h : Items ts items) (n : Nat) :
    Items (List.replicate n .eol ++ ts) items := by
  induction n with
  | zero => exact h
  | succ n ih => exact ih.eol

theorem items_written (l : Layout) (rest : Bytes) : ∀ {items : KeyValList},
    (∀ item ∈ items, PlainWord item.1) → (∀ item ∈ items, item.2 ≠ [] ∧ 34 ∉ item.2) →
    ∃ ts, lexFrom (items.flatMap (renderItem l) ++ rest) (.plain [])
      = ts ++ lexFrom rest (.plain []) ∧ Items ts items := by
  intro items
  induction items with
  | nil => intro _ _; exact ⟨[], rfl, .nil⟩
  | cons item items ih =>
      intro hkeys hvalues
      obtain ⟨hne, hquote⟩ := hvalues item List.mem_cons_self
      have hkey := hkeys item List.mem_cons_self
      obtain ⟨ts, hts, hitems⟩ := ih (fun i hi => hkeys i (List.mem_cons_of_mem item hi))
        fun i hi => hvalues i (List.mem_cons_of_mem item hi)
      obtain ⟨n, hn⟩ := lexFrom_item l hkey hquote (items.flatMap (renderItem l) ++ rest)
      refine ⟨List.replicate n .eol ++
        (.word item.1 :: .equals :: .quoted item.2 :: .eol :: ts), ?_, ?_⟩
      · rw [List.flatMap_cons, List.append_assoc, hn, hts, List.append_assoc]
        rfl
      · exact (hitems.cons 0 0 hkey.ne_nil hne (Or.inr rfl)).eols n

theorem sections_written (l : Layout) : ∀ {ss : List (Bytes × KeyValList)},
    (∀ s ∈ ss, Writable s) → Sections (lexFrom (render l ss) (.plain [])) ss := by
  intro ss
  induction ss with
  | nil => intro _; exact .nil
  | cons s ss ih =>
      intro hss
      obtain ⟨name, items⟩ := s
      have hs := hss _ List.mem_cons_self
      have hrest := ih fun s' hs' => hss s' (List.mem_cons_of_mem _ hs')
      obtain ⟨body, hbody, hitems⟩ :=
        items_written l (125 :: 10 :: render l ss) hs.key hs.value
      obtain ⟨n, hn⟩ := lexFrom_head hs.name.ne_nil
        (10 :: (items.flatMap (renderItem l) ++ 125 :: 10 :: render l ss))
        fun c hc => l.blank c (List.mem_append_left _ hc)
      have htext : render l ((name, items) :: ss) = name ++ (l.gap ++
          123 :: 10 :: (items.flatMap (renderItem l) ++ 125 :: 10 :: render l ss)) := by
        have hopen : str "\x7b\n" = [123, 10] := by decide
        have hclose : str "\x7d\n" = [125, 10] := by decide
        simp [render, renderSection, hopen, hclose]
      have hcut : ∀ tail, lexFrom (name ++ (l.gap ++ 123 :: tail)) (.plain [])
          = lexFrom (l.gap ++ 123 :: tail) (.plain name) := by
        intro tail
        cases hgap : l.gap with
        | nil =>
            exact lexFrom_word (by decide) (by decide) tail hs.name.plain hs.name.slashes
              hs.name.slashStar []
        | cons c gap =>
            have hc := l.blank c (by simp [hgap])
            refine lexFrom_word ?_ ?_ _ hs.name.plain hs.name.slashes hs.name.slashStar []
            · rcases hc with rfl | rfl | rfl <;> decide
            · rcases hc with rfl | rfl | rfl <;> decide
      have hclose : lexFrom (125 :: 10 :: render l ss) (.plain [])
          = .rbrace :: .eol :: lexFrom (render l ss) (.plain []) := by
        rw [lexFrom_char (by decide) (by decide) (by decide)]
        show .rbrace :: lexFrom (10 :: render l ss) (.plain []) = _
        rw [lexFrom_eol_plain]
        rfl
      rw [htext, hcut, hn, lexFrom_eol_plain, hbody, hclose]
      exact hrest.eol.cons n hs.name.ne_nil hitems.eol

theorem wholeLines_render (l : Layout) (ss : List (Bytes × KeyValList)) :
    wholeLines (render l ss) = render l ss := by
  rw [wholeLines]
  refine if_pos ?_
  cases ss using List.reverseRecOn with
  | nil => exact Or.inl rfl
  | append_singleton ss s =>
      refine Or.inr ?_
      have hend : render l (ss ++ [s]) = (render l ss ++ (s.1 ++ l.gap ++ str "\x7b\n" ++
          s.2.flatMap (renderItem l) ++ [125])) ++ [10] := by
        have hclose : str "\x7d\n" = [125, 10] := by decide
        simp [render, renderSection, hclose]
      rw [hend, List.getLast?_concat]

theorem stringKey_iff (a b : Bytes) : stringKey a = stringKey b ↔ a = b :=
  ⟨stringKey_inj, congrArg stringKey⟩

/-- What was written down is read again: the sections with their items in order, and those of
one name in the order of the file. -/
theorem loadConf_render (l : Layout) (filename : Bytes) (ss : List (Bytes × KeyValList))
    (h : ∀ s ∈ ss, Writable s) :
    loadConf MultiMap.empty filename (some (render l ss)) = .ok (ofSections MultiMap.empty ss) ∧
      ∀ name, (ofSections MultiMap.empty ss).range name
        = (ss.filter fun s => s.1 = name).map Prod.snd := by
  constructor
  · refine loadConf_of_sections ?_ MultiMap.empty filename
    rw [confTokens, wholeLines_render]
    exact sections_written l h
  · intro name
    rw [ofSections, MultiMap.range_foldl_insert, MultiMap.range_empty, List.nil_append]
    simp only [stringKey_iff]

/-- A section with a value of two lines that looks like the end of a section, and another one of
the same name. -/
def twoSections : List (Bytes × KeyValList) :=
  [(str "s", [(str "a", str "1\n\x7d"), (str "a", str "/*")]), (str "s", [])]

theorem twoSections_read :
    loadConf MultiMap.empty (str "hottpd.conf") (some (render ⟨str " ", str "\t", by decide +kernel⟩
        twoSections)) = .ok (ofSections MultiMap.empty twoSections) ∧
      ∀ name, (ofSections MultiMap.empty twoSections).range name
        = (twoSections.filter fun s => s.1 = name).map Prod.snd :=
  loadConf_render _ _ twoSections (by decide +kernel)

end Hottpd
