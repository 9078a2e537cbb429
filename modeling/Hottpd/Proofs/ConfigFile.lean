import Hottpd.Proofs.ConfigTokens

/-!
# What a configuration file says

A file is a sequence of sections, each a name and its items in braces, each item a
word, a sign and a value that ends its line. `LoadConf` reads such a file as the
sections it is made of. The converse would hold too if an empty string did not
mean both that no item is pending and that an item has no name: a sign with no
word before it is passed over.
-/

namespace Hottpd

open Bytes

/-! ## The grammar -/

/-- The items of a section. A word or a quoted string is the value; empty quoted strings
before it do not count. -/
inductive Items : List Token → KeyValList → Prop where
  | nil : Items [] []
  | eol {ts : List Token} {items : KeyValList} (h : Items ts items) : Items (.eol :: ts) items
  | cons {k v : Bytes} {t : Token} {ts : List Token} {items : KeyValList} (gap empties : Nat)
      (hk : k ≠ []) (hv : v ≠ []) (ht : t = .word v ∨ t = .quoted v) (h : Items ts items) :
      Items (.word k :: (List.replicate gap .eol ++ .equals ::
        (List.replicate empties (.quoted []) ++ t :: .eol :: ts))) ((k, v) :: items)

/-- A file, with the sections it is made of. -/
inductive Sections : List Token → List (Bytes × KeyValList) → Prop where
  | nil : Sections [] []
  | eol {ts : List Token} {ss : List (Bytes × KeyValList)} (h : Sections ts ss) :
      Sections (.eol :: ts) ss
  | cons {name : Bytes} {body ts : List Token} {items : KeyValList}
      {ss : List (Bytes × KeyValList)} (gap : Nat) (hname : name ≠ []) (hbody : Items body items)
      (h : Sections ts ss) :
      Sections (.word name :: (List.replicate gap .eol ++ .lbrace :: (body ++ .rbrace :: ts)))
        ((name, items) :: ss)

/-- The sections, inserted one after the other. -/
def ofSections (target : ConfigDataHash) (ss : List (Bytes × KeyValList)) : ConfigDataHash :=
  ss.foldl (fun m s => m.insert s.1 s.2) target

/-! ## Reading a file of that form -/

section Reading

variable {sec k v : Bytes} {data : KeyValList} {target : ConfigDataHash}

theorem feedAll_eols {p : ConfParse} (h : p.itemname = []) (n : Nat) (rest : List Token) :
    p.feedAll (List.replicate n .eol ++ rest) = p.feedAll rest := by
  induction n with
  | zero => rfl
  | succ n ih =>
      refine Eq.trans (ConfParse.feedAll_cons_some (ConfParse.feed_eol_iff.2 ?_) _) ih
      exact Or.inl ⟨h, rfl⟩

theorem feedAll_empties (hsec : sec ≠ []) (hk : k ≠ []) (n : Nat) (rest : List Token) :
    (⟨[], sec, k, data, target⟩ : ConfParse).feedAll (List.replicate n (.quoted []) ++ rest)
      = (⟨[], sec, k, data, target⟩ : ConfParse).feedAll rest := by
  induction n with
  | zero => rfl
  | succ n ih =>
      refine Eq.trans (ConfParse.feedAll_cons_some (ConfParse.feed_quoted_iff.2 ?_) _) ih
      exact ⟨hsec, hk, rfl, rfl⟩

theorem feedAll_value (hsec : sec ≠ []) (hk : k ≠ []) (hv : v ≠ []) {t : Token}
    (ht : t = .word v ∨ t = .quoted v) (rest : List Token) :
    (⟨[], sec, k, data, target⟩ : ConfParse).feedAll (t :: .eol :: rest)
      = (⟨[], sec, [], data ++ [(k, v)], target⟩ : ConfParse).feedAll rest := by
  have hvalue : (⟨[], sec, k, data, target⟩ : ConfParse).feed t
      = some ⟨v, sec, k, data, target⟩ := by
    rcases ht with rfl | rfl
    · exact ConfParse.feed_word_iff.2 ⟨hv, rfl, rfl⟩
    · exact ConfParse.feed_quoted_iff.2 ⟨hsec, hk, rfl, rfl⟩
  have hend : (⟨v, sec, k, data, target⟩ : ConfParse).feed .eol
      = some ⟨[], sec, [], data ++ [(k, v)], target⟩ :=
    ConfParse.feed_eol_iff.2 (Or.inr ⟨hk, hv, rfl⟩)
  rw [ConfParse.feedAll_cons_some hvalue, ConfParse.feedAll_cons_some hend]

theorem Items.feedAll {ts : List Token} {items : KeyValList} (h : Items ts items)
    (hsec : sec ≠ []) (rest : List Token) : ∀ data : KeyValList,
    (⟨[], sec, [], data, target⟩ : ConfParse).feedAll (ts ++ rest)
      = (⟨[], sec, [], data ++ items, target⟩ : ConfParse).feedAll rest := by
  induction h with
  | nil =>
      intro data
      rw [List.append_nil]
      rfl
  | eol _ ih =>
      intro data
      rw [← ih data]
      rfl
  | @cons k v t ts items gap empties hk hv ht _ ih =>
      intro data
      have hname : (⟨[], sec, [], data, target⟩ : ConfParse).feed (.word k)
          = some ⟨k, sec, [], data, target⟩ := ConfParse.feed_word_iff.2 ⟨hk, rfl, rfl⟩
      have hsign : (⟨k, sec, [], data, target⟩ : ConfParse).feed .equals
          = some ⟨[], sec, k, data, target⟩ := ConfParse.feed_equals_iff.2 ⟨hsec, rfl, rfl⟩
      rw [List.cons_append, ConfParse.feedAll_cons_some hname, List.append_assoc,
        feedAll_eols rfl, List.cons_append, ConfParse.feedAll_cons_some hsign, List.append_assoc,
        feedAll_empties hsec hk, List.cons_append, List.cons_append,
        feedAll_value hsec hk hv ht, ih, List.append_assoc]
      rfl

theorem Sections.feedAll {ts : List Token} {ss : List (Bytes × KeyValList)}
    (h : Sections ts ss) : ∀ target : ConfigDataHash,
    (ConfParse.init target).feedAll ts = some (ConfParse.init (ofSections target ss)) := by
  induction h with
  | nil => intro target; rfl
  | eol _ ih => intro target; exact ih target
  | @cons name body ts items ss gap hname hbody _ ih =>
      intro target
      have hword : (ConfParse.init target).feed (.word name)
          = some ⟨name, [], [], [], target⟩ := ConfParse.feed_word_iff.2 ⟨hname, rfl, rfl⟩
      have hopen : (⟨name, [], [], [], target⟩ : ConfParse).feed .lbrace
          = some ⟨[], name, [], [], target⟩ := ConfParse.feed_lbrace_iff.2 ⟨rfl, hname, rfl⟩
      have hclose : (⟨[], name, [], items, target⟩ : ConfParse).feed .rbrace
          = some (ConfParse.init (target.insert name items)) :=
        ConfParse.feed_rbrace_iff.2 ⟨hname, rfl, rfl, rfl⟩
      rw [ConfParse.feedAll_cons_some hword, feedAll_eols rfl, ConfParse.feedAll_cons_some hopen,
        hbody.feedAll hname]
      exact (ConfParse.feedAll_cons_some hclose ts).trans (ih (target.insert name items))

end Reading

theorem loadConf_ok {r : Except ConfFailure ConfigDataHash} {out : ConfigDataHash}
    (h : r.toOption = some out) : r = .ok out := by
  cases r with
  | error e => cases h
  | ok out' =>
      cases h
      rfl

/-- `LoadConf` reads a file made of sections as these sections. -/
theorem loadConf_of_sections {text : Bytes} {ss : List (Bytes × KeyValList)}
    (h : Sections (confTokens text) ss) (target : ConfigDataHash) (filename : Bytes) :
    loadConf target filename (some text) = .ok (ofSections target ss) := by
  have hparse := loadConf_eq target filename text
  rw [parseTokens, h.feedAll target] at hparse
  exact loadConf_ok hparse

/-! ## What is read is of that form -/

/-- What stands before a token, line ends aside. -/
inductive Before where
  | nothing
  /-- A word that is not a value. -/
  | name
  /-- A sign that waits for its value. -/
  | sign
deriving DecidableEq

/-- Each sign stands behind a word that is not the value of the sign before. -/
def signsNamed : Before → List Token → Bool
  | _, [] => true
  | b, .eol :: ts => signsNamed b ts
  | b, .equals :: ts => b = .name && signsNamed .sign ts
  | b, .word _ :: ts => signsNamed (if b = .sign then .nothing else .name) ts
  | b, .quoted q :: ts => signsNamed (if b = .sign ∧ q = [] then .sign else .nothing) ts
  | _, _ :: ts => signsNamed .nothing ts

/-- What the small reader makes of the rest of a file. -/
def readsTo (p : ConfParse) (ts : List Token) : Option ConfigDataHash :=
  (p.feedAll ts).bind ConfParse.finish

section Inversion

variable {sec k v : Bytes} {data : KeyValList} {target out : ConfigDataHash}

theorem readsTo_cons {p : ConfParse} {t : Token} {ts : List Token}
    (h : readsTo p (t :: ts) = some out) : ∃ p', p.feed t = some p' ∧ readsTo p' ts = some out := by
  rw [readsTo, ConfParse.feedAll_cons, Option.bind_assoc] at h
  exact Option.bind_eq_some_iff.1 h

/-- Behind the name of a section its brace comes. -/
theorem readsTo_name {name : Bytes} (hname : name ≠ []) : ∀ {ts : List Token},
    readsTo ⟨name, [], [], data, target⟩ ts = some out →
    ∃ gap ts', ts = List.replicate gap .eol ++ .lbrace :: ts' ∧
      readsTo ⟨[], name, [], data, target⟩ ts' = some out := by
  intro ts
  induction ts with
  | nil =>
      intro h
      simp [readsTo, ConfParse.finish, hname] at h
  | cons t ts ih =>
      intro h
      obtain ⟨p', hfeed, hrest⟩ := readsTo_cons h
      cases t with
      | eol =>
          obtain ⟨-, rfl⟩ | ⟨hitem, -⟩ := ConfParse.feed_eol_iff.1 hfeed
          · obtain ⟨gap, ts', rfl, hreads⟩ := ih hrest
            exact ⟨gap + 1, ts', rfl, hreads⟩
          · exact absurd rfl hitem
      | lbrace =>
          obtain ⟨-, -, rfl⟩ := ConfParse.feed_lbrace_iff.1 hfeed
          exact ⟨0, ts, rfl, hrest⟩
      | word w => exact absurd (ConfParse.feed_word_iff.1 hfeed).2.1 hname
      | quoted q => exact absurd rfl (ConfParse.feed_quoted_iff.1 hfeed).1
      | equals => exact absurd rfl (ConfParse.feed_equals_iff.1 hfeed).1
      | rbrace => exact absurd rfl (ConfParse.feed_rbrace_iff.1 hfeed).1
      | torn => cases hfeed

/-- Behind the name of an item its sign comes. -/
theorem readsTo_key (hsec : sec ≠ []) (hk : k ≠ []) : ∀ {ts : List Token},
    readsTo ⟨k, sec, [], data, target⟩ ts = some out →
    ∃ gap ts', ts = List.replicate gap .eol ++ .equals :: ts' ∧
      readsTo ⟨[], sec, k, data, target⟩ ts' = some out := by
  intro ts
  induction ts with
  | nil =>
      intro h
      simp [readsTo, ConfParse.finish, hk] at h
  | cons t ts ih =>
      intro h
      obtain ⟨p', hfeed, hrest⟩ := readsTo_cons h
      cases t with
      | eol =>
          obtain ⟨-, rfl⟩ | ⟨hitem, -⟩ := ConfParse.feed_eol_iff.1 hfeed
          · obtain ⟨gap, ts', rfl, hreads⟩ := ih hrest
            exact ⟨gap + 1, ts', rfl, hreads⟩
          · exact absurd rfl hitem
      | equals =>
          obtain ⟨-, -, rfl⟩ := ConfParse.feed_equals_iff.1 hfeed
          exact ⟨0, ts, rfl, hrest⟩
      | word w => exact absurd (ConfParse.feed_word_iff.1 hfeed).2.1 hk
      | rbrace => exact absurd (ConfParse.feed_rbrace_iff.1 hfeed).2.1 hk
      | lbrace => exact absurd (ConfParse.feed_lbrace_iff.1 hfeed).1 hsec
      | quoted q => exact absurd rfl (ConfParse.feed_quoted_iff.1 hfeed).2.1
      | torn => cases hfeed

/-- A value ends its line. -/
theorem readsTo_value (hsec : sec ≠ []) (hk : k ≠ []) (hv : v ≠ []) {ts : List Token}
    (h : readsTo ⟨v, sec, k, data, target⟩ ts = some out) :
    ∃ ts', ts = .eol :: ts' ∧ readsTo ⟨[], sec, [], data ++ [(k, v)], target⟩ ts' = some out := by
  cases ts with
  | nil => simp [readsTo, ConfParse.finish, hk] at h
  | cons t ts =>
      obtain ⟨p', hfeed, hrest⟩ := readsTo_cons h
      cases t with
      | eol =>
          obtain ⟨hitem, -⟩ | ⟨-, -, rfl⟩ := ConfParse.feed_eol_iff.1 hfeed
          · exact absurd hitem hk
          · exact ⟨ts, rfl, hrest⟩
      | word w => exact absurd (ConfParse.feed_word_iff.1 hfeed).2.1 hv
      | quoted q => exact absurd (ConfParse.feed_quoted_iff.1 hfeed).2.2.1 hv
      | equals => exact absurd (ConfParse.feed_equals_iff.1 hfeed).2.1 hk
      | rbrace => exact absurd (ConfParse.feed_rbrace_iff.1 hfeed).2.2.1 hk
      | lbrace => exact absurd (ConfParse.feed_lbrace_iff.1 hfeed).1 hsec
      | torn => cases hfeed

/-- Behind a sign its value comes, on the same line. -/
theorem readsTo_sign (hsec : sec ≠ []) (hk : k ≠ []) : ∀ {ts : List Token},
    readsTo ⟨[], sec, k, data, target⟩ ts = some out →
    ∃ empties v t ts', v ≠ [] ∧ (t = .word v ∨ t = .quoted v) ∧
      ts = List.replicate empties (.quoted []) ++ t :: .eol :: ts' ∧
      readsTo ⟨[], sec, [], data ++ [(k, v)], target⟩ ts' = some out := by
  intro ts
  induction ts with
  | nil =>
      intro h
      simp [readsTo, ConfParse.finish, hk] at h
  | cons t ts ih =>
      intro h
      obtain ⟨p', hfeed, hrest⟩ := readsTo_cons h
      cases t with
      | word v =>
          obtain ⟨hv, -, rfl⟩ := ConfParse.feed_word_iff.1 hfeed
          obtain ⟨ts', rfl, hreads⟩ := readsTo_value hsec hk hv hrest
          exact ⟨0, v, .word v, ts', hv, Or.inl rfl, rfl, hreads⟩
      | quoted q =>
          obtain ⟨-, -, -, rfl⟩ := ConfParse.feed_quoted_iff.1 hfeed
          by_cases hq : q = []
          · subst hq
            obtain ⟨empties, v, t, ts', hv, ht, rfl, hreads⟩ := ih hrest
            exact ⟨empties + 1, v, t, ts', hv, ht, rfl, hreads⟩
          · obtain ⟨ts', rfl, hreads⟩ := readsTo_value hsec hk hq hrest
            exact ⟨0, q, .quoted q, ts', hq, Or.inr rfl, rfl, hreads⟩
      | eol =>
          obtain ⟨hitem, -⟩ | ⟨-, hempty, -⟩ := ConfParse.feed_eol_iff.1 hfeed
          · exact absurd hitem hk
          · exact absurd rfl hempty
      | equals => exact absurd (ConfParse.feed_equals_iff.1 hfeed).2.1 hk
      | rbrace => exact absurd (ConfParse.feed_rbrace_iff.1 hfeed).2.2.1 hk
      | lbrace => exact absurd (ConfParse.feed_lbrace_iff.1 hfeed).1 hsec
      | torn => cases hfeed

end Inversion

/-! ## Signs with a name -/

theorem signsNamed_eols (b : Before) (n : Nat) (ts : List Token) :
    signsNamed b (List.replicate n .eol ++ ts) = signsNamed b ts := by
  induction n with
  | zero => rfl
  | succ n ih =>
      rw [List.replicate_succ, List.cons_append, signsNamed]
      exact ih

theorem signsNamed_empties (n : Nat) (ts : List Token) :
    signsNamed .sign (List.replicate n (.quoted []) ++ ts) = signsNamed .sign ts := by
  induction n with
  | zero => rfl
  | succ n ih =>
      rw [List.replicate_succ, List.cons_append, signsNamed, if_pos ⟨rfl, rfl⟩]
      exact ih

/-- The sign of an item has a name, and what follows the item begins anew. -/
theorem signsNamed_item {k v : Bytes} {t : Token} (hv : v ≠ []) (ht : t = .word v ∨ t = .quoted v)
    (gap empties : Nat) (ts : List Token) :
    signsNamed .nothing (.word k :: (List.replicate gap .eol ++ .equals ::
      (List.replicate empties (.quoted []) ++ t :: .eol :: ts))) = signsNamed .nothing ts := by
  rw [signsNamed, if_neg (by decide), signsNamed_eols, signsNamed, signsNamed_empties]
  rcases ht with rfl | rfl
  · rw [signsNamed, if_pos rfl, signsNamed]
    rfl
  · rw [signsNamed, if_neg fun h => hv h.2, signsNamed]
    rfl

theorem Items.signsNamed {ts : List Token} {items : KeyValList} (h : Items ts items)
    (rest : List Token) : signsNamed .nothing (ts ++ rest) = signsNamed .nothing rest := by
  induction h with
  | nil => rfl
  | eol _ ih =>
      rw [List.cons_append, Hottpd.signsNamed]
      exact ih
  | cons gap empties _ hv ht _ ih =>
      simp only [List.cons_append, List.append_assoc]
      rw [signsNamed_item hv ht]
      exact ih

/-- A section begins anew behind its opening brace. -/
theorem signsNamed_open (name : Bytes) (gap : Nat) (ts : List Token) :
    signsNamed .nothing (.word name :: (List.replicate gap .eol ++ .lbrace :: ts))
      = signsNamed .nothing ts := by
  rw [signsNamed, if_neg (by decide), signsNamed_eols]
  rfl

theorem Sections.signsNamed {ts : List Token} {ss : List (Bytes × KeyValList)}
    (h : Sections ts ss) : signsNamed .nothing ts = true := by
  induction h with
  | nil => rfl
  | eol _ ih =>
      rw [Hottpd.signsNamed]
      exact ih
  | cons gap _ hbody _ ih =>
      rw [signsNamed_open, hbody.signsNamed]
      exact ih

/-- Up to the closing brace. -/
theorem readsTo_items {sec : Bytes} {target out : ConfigDataHash} (hsec : sec ≠ []) :
    ∀ (n : Nat) {ts : List Token} {data : KeyValList}, ts.length ≤ n →
    signsNamed .nothing ts = true → readsTo ⟨[], sec, [], data, target⟩ ts = some out →
    ∃ body items ts', ts = body ++ .rbrace :: ts' ∧ Items body items ∧
      readsTo (ConfParse.init (target.insert sec (data ++ items))) ts' = some out := by
  intro n
  induction n with
  | zero =>
      intro ts data hlen _ h
      obtain rfl := List.length_eq_zero_iff.1 (Nat.le_zero.1 hlen)
      simp [readsTo, ConfParse.finish, hsec] at h
  | succ n ih =>
      intro ts data hlen hsigns h
      cases ts with
      | nil => simp [readsTo, ConfParse.finish, hsec] at h
      | cons t ts =>
          have hlen' : ts.length ≤ n := Nat.le_of_succ_le_succ hlen
          obtain ⟨p', hfeed, hrest⟩ := readsTo_cons h
          cases t with
          | eol =>
              obtain ⟨-, rfl⟩ | ⟨hitem, -⟩ := ConfParse.feed_eol_iff.1 hfeed
              · rw [signsNamed] at hsigns
                obtain ⟨body, items, ts', rfl, hitems, hreads⟩ := ih hlen' hsigns hrest
                exact ⟨.eol :: body, items, ts', rfl, hitems.eol, hreads⟩
              · exact absurd rfl hitem
          | rbrace =>
              obtain ⟨-, -, -, rfl⟩ := ConfParse.feed_rbrace_iff.1 hfeed
              refine ⟨[], [], ts, rfl, .nil, ?_⟩
              rw [List.append_nil]
              exact hrest
          | word k =>
              obtain ⟨hk, -, rfl⟩ := ConfParse.feed_word_iff.1 hfeed
              obtain ⟨gap, ts₁, rfl, hkey⟩ := readsTo_key hsec hk hrest
              obtain ⟨empties, v, t, ts₂, hv, ht, rfl, hsign⟩ := readsTo_sign hsec hk hkey
              rw [signsNamed_item hv ht] at hsigns
              have hshort : ts₂.length ≤ n := by
                simp only [List.length_append, List.length_cons] at hlen'
                omega
              obtain ⟨body, items, ts', rfl, hitems, hreads⟩ := ih hshort hsigns hsign
              refine ⟨_, (k, v) :: items, ts', ?_, hitems.cons gap empties hk hv ht, ?_⟩
              · simp only [List.cons_append, List.append_assoc]
              · rw [List.append_assoc] at hreads
                exact hreads
          | equals => cases hsigns
          | quoted q => exact absurd rfl (ConfParse.feed_quoted_iff.1 hfeed).2.1
          | lbrace => exact absurd (ConfParse.feed_lbrace_iff.1 hfeed).1 hsec
          | torn => cases hfeed

/-- What is read to its end, with a name for every sign, is made of sections. -/
theorem readsTo_sections {out : ConfigDataHash} : ∀ (n : Nat) {ts : List Token}
    {target : ConfigDataHash}, ts.length ≤ n → signsNamed .nothing ts = true →
    readsTo (ConfParse.init target) ts = some out →
    ∃ ss, Sections ts ss ∧ out = ofSections target ss := by
  intro n
  induction n with
  | zero =>
      intro ts target hlen _ h
      obtain rfl := List.length_eq_zero_iff.1 (Nat.le_zero.1 hlen)
      cases h
      exact ⟨[], .nil, rfl⟩
  | succ n ih =>
      intro ts target hlen hsigns h
      cases ts with
      | nil =>
          cases h
          exact ⟨[], .nil, rfl⟩
      | cons t ts =>
          have hlen' : ts.length ≤ n := Nat.le_of_succ_le_succ hlen
          obtain ⟨p', hfeed, hrest⟩ := readsTo_cons h
          cases t with
          | eol =>
              obtain ⟨-, rfl⟩ | ⟨hitem, -⟩ := ConfParse.feed_eol_iff.1 hfeed
              · rw [signsNamed] at hsigns
                obtain ⟨ss, hss, hout⟩ := ih hlen' hsigns hrest
                exact ⟨ss, hss.eol, hout⟩
              · exact absurd rfl hitem
          | word name =>
              obtain ⟨hname, -, rfl⟩ := ConfParse.feed_word_iff.1 hfeed
              obtain ⟨gap, ts₁, rfl, hopen⟩ := readsTo_name hname hrest
              rw [signsNamed_open] at hsigns
              obtain ⟨body, items, ts₂, rfl, hitems, hreads⟩ :=
                readsTo_items hname ts₁.length (Nat.le_refl _) hsigns hopen
              rw [hitems.signsNamed] at hsigns
              have hshort : ts₂.length ≤ n := by
                simp only [List.length_append, List.length_cons] at hlen'
                omega
              obtain ⟨ss, hss, hout⟩ := ih hshort hsigns hreads
              exact ⟨(name, items) :: ss, hss.cons gap hname hitems, hout⟩
          | quoted q => exact absurd rfl (ConfParse.feed_quoted_iff.1 hfeed).1
          | equals => exact absurd rfl (ConfParse.feed_equals_iff.1 hfeed).1
          | lbrace => exact absurd rfl (ConfParse.feed_lbrace_iff.1 hfeed).2.1
          | rbrace => exact absurd rfl (ConfParse.feed_rbrace_iff.1 hfeed).1
          | torn => cases hfeed

/-- A file that is read is made of sections, and is read as these, just when each of its signs
stands behind a word that is not the value of the sign before. -/
theorem loadConf_sections (target : ConfigDataHash) (filename text : Bytes)
    (out : ConfigDataHash) (h : loadConf target filename (some text) = .ok out) :
    (∃ ss, Sections (confTokens text) ss ∧ out = ofSections target ss) ↔
      signsNamed .nothing (confTokens text) = true := by
  constructor
  · rintro ⟨ss, hss, -⟩
    exact hss.signsNamed
  · intro hsigns
    have hreads : readsTo (ConfParse.init target) (confTokens text) = some out := by
      have hload := loadConf_eq target filename text
      rw [h] at hload
      exact hload.symm
    exact readsTo_sections _ (Nat.le_refl _) hsigns hreads

/-- One section with two items. -/
def twoItems : Bytes := str "s\n\x7b\n a = 1 # one\n b = \"2;\"\n\x7d\n"

theorem twoItems_sections :
    ∃ ss, Sections (confTokens twoItems) ss ∧
      MultiMap.empty.insert (str "s") [(str "a", str "1"), (str "b", str "2;")]
        = ofSections MultiMap.empty ss :=
  (loadConf_sections MultiMap.empty (str "hottpd.conf") twoItems _
    (loadConf_ok (by decide +kernel))).2 (by decide +kernel)

/-- A sign with no word before it is passed over. -/
def strayEquals : Bytes := str "s \x7b\n = \n\x7d\n"

theorem strayEquals_accepted :
    ¬∀ (target : ConfigDataHash) (filename text : Bytes) (out : ConfigDataHash),
      loadConf target filename (some text) = .ok out →
      ∃ ss, Sections (confTokens text) ss ∧ out = ofSections target ss := by
  intro h
  obtain ⟨ss, hss, -⟩ := h MultiMap.empty (str "hottpd.conf") strayEquals
    (MultiMap.empty.insert (str "s") []) (loadConf_ok (by decide +kernel))
  have hsigns := hss.signsNamed
  revert hsigns
  decide +kernel

end Hottpd
