import Hottpd.Core.ConfigRead
import Hottpd.Core.DirValid
import Hottpd.Proofs.LoadAll

/-!
# When `Read` gives up

Of the validators only the one of the document root throws, and it is the first:
no setting has been stored by then, but the new file is the configuration already.
What counts the sections is not inside the `try` block, and its exceptions go to
the caller.
-/

namespace Hottpd

open Bytes

/-! ## The table -/

/-- An entry that takes any value. -/
structure Harmless (entry : InitialConfig) : Prop where
  validates : ∀ conf data, ∃ validated,
    entry.validation_function entry.tag conf data = .ok validated ∧ validated.answer = true
  plain : ∀ v, syntaxError entry v = none

theorem noValidation_validates (tag : Bytes) (conf : Settings) (data : ValueItem) :
    ∃ validated, noValidation tag conf data = .ok validated ∧ validated.answer = true :=
  ⟨_, rfl, rfl⟩

theorem validateSoftLimit_validates (build : Build) (tag : Bytes) (conf : Settings)
    (data : ValueItem) :
    ∃ validated, validateSoftLimit build tag conf data = .ok validated ∧
      validated.answer = true := by
  unfold validateSoftLimit
  split <;> exact ⟨_, rfl, rfl⟩

theorem validateNetBufferSize_validates (tag : Bytes) (conf : Settings) (data : ValueItem) :
    ∃ validated, validateNetBufferSize tag conf data = .ok validated ∧
      validated.answer = true := by
  unfold validateNetBufferSize
  split <;> exact ⟨_, rfl, rfl⟩

theorem harmless_entryOf {tag value : String} {default_value : Bytes} {val : ValueContainer}
    {datatype : ConfigDataType} {f : Validator}
    (htype : datatype = .integer ∨ datatype = .charptr ∨ datatype = .boolean)
    (hvalidates : ∀ conf data, ∃ validated, f (str tag) conf data = .ok validated ∧
      validated.answer = true) :
    Harmless (entryOf tag value default_value val datatype f) := by
  refine ⟨hvalidates, fun v => ?_⟩
  rcases htype with rfl | rfl | rfl <;> rfl

/-- The first entry. -/
def rootEntry (dirValid : Bytes → Bool) : InitialConfig :=
  entryOf "server" "document-root" [] (.char fun v s => { s with docRoot := v }) .charptr
    (validateDir dirValid)

theorem initialValues_eq (build : Build) (dirValid : Bytes → Bool) :
    ∃ table, initialValues build dirValid = rootEntry dirValid :: table ∧
      ∀ entry ∈ table, Harmless entry := by
  refine ⟨_, rfl, ?_⟩
  simp only [List.forall_mem_cons]
  refine ⟨harmless_entryOf (by decide) (validateSoftLimit_validates build _),
    harmless_entryOf (by decide) fun _ _ => ⟨_, rfl, rfl⟩,
    harmless_entryOf (by decide) (validateNetBufferSize_validates _), ?_⟩
  repeat refine And.intro (harmless_entryOf (by decide) (noValidation_validates _)) ?_
  refine ⟨harmless_entryOf (by decide) fun _ _ => ⟨_, rfl, rfl⟩, ?_⟩
  repeat refine And.intro (harmless_entryOf (by decide) (noValidation_validates _)) ?_
  exact fun _ h => absurd h List.not_mem_nil

/-- The item that an entry is read into. -/
def itemOf (build : Build) (entry : InitialConfig) (data : ConfigDataHash) : ValueItem :=
  (readItem build.maxbuf data entry.tag entry.value entry.default_value entry.allowNewline).1

theorem readValue_ok {build : Build} {entry : InitialConfig} {st : ReadState}
    {validated : Validated} (hplain : ∀ v, syntaxError entry v = none)
    (hvalidated : entry.validation_function entry.tag st.settings (itemOf build entry st.data) =
      .ok validated) (hanswer : validated.answer = true) :
    ∃ st', readValue build entry st = .ok st' := by
  rw [itemOf] at hvalidated
  unfold readValue
  simp only [hvalidated, hanswer, hplain]
  split
  · next h => cases h
  · split <;> exact ⟨_, rfl⟩

theorem readValue_harmless {entry : InitialConfig} (h : Harmless entry) (build : Build)
    (st : ReadState) : ∃ st', readValue build entry st = .ok st' := by
  obtain ⟨validated, hvalidated, hanswer⟩ :=
    h.validates st.settings (itemOf build entry st.data)
  exact readValue_ok h.plain hvalidated hanswer

theorem readValues_harmless (build : Build) {table : List InitialConfig}
    (h : ∀ entry ∈ table, Harmless entry) (st : ReadState) :
    ∃ st', readValues build table st = .ok st' := by
  induction table generalizing st with
  | nil => exact ⟨st, rfl⟩
  | cons entry table ih =>
      obtain ⟨st', heq⟩ := readValue_harmless (h entry List.mem_cons_self) build st
      rw [readValues, heq]
      exact ih (fun e he => h e (List.mem_cons_of_mem _ he)) st'

/-- The document root that a configuration gives, and what looking it up leaves of it. -/
def documentRoot (build : Build) (data : ConfigDataHash) : ValueItem × ConfigDataHash :=
  readItem build.maxbuf data (str "server") (str "document-root") [] false

/-- All values are read if the document root is a directory, and none is if it is not. -/
theorem readValues_cases (build : Build) (dirValid : Bytes → Bool) (st : ReadState) :
    (dirValid (documentRoot build st.data).1.getString = true ∧
      ∃ st', readValues build (initialValues build dirValid) st = .ok st') ∨
    (dirValid (documentRoot build st.data).1.getString = false ∧
      readValues build (initialValues build dirValid) st = .error
        (str "The value for server must be an existing directory",
          ⟨(documentRoot build st.data).2, st.settings⟩)) := by
  obtain ⟨table, htable, hharmless⟩ := initialValues_eq build dirValid
  rw [htable, readValues]
  cases hvalid : dirValid (documentRoot build st.data).1.getString with
  | true =>
      refine Or.inl ⟨rfl, ?_⟩
      have haccepts : validateDir dirValid (str "server") st.settings
          (documentRoot build st.data).1 =
            .ok ⟨true, st.settings, (documentRoot build st.data).1⟩ := by
        rw [validateDir, hvalid, if_neg (by decide)]
      obtain ⟨st', heq⟩ := @readValue_ok build (rootEntry dirValid) st _ (fun _ => rfl)
        haccepts rfl
      rw [heq]
      exact readValues_harmless build hharmless st'
  | false =>
      refine Or.inr ⟨rfl, ?_⟩
      have hrejects : validateDir dirValid (str "server") st.settings
          (documentRoot build st.data).1 =
            .error (str "The value for server must be an existing directory") := by
        rw [validateDir, hvalid, if_pos rfl]
        exact congrArg Except.error (by decide +kernel)
      have hfirst : readValue build (rootEntry dirValid) st =
          .error (str "The value for server must be an existing directory",
            ⟨(documentRoot build st.data).2, st.settings⟩) := by
        rw [documentRoot] at hrejects
        unfold readValue rootEntry entryOf
        simp only [hrejects]
        rfl
      rw [hfirst]

/-! ## Looking up keeps the sections -/

theorem count_confValue (target : ConfigDataHash) (tag var default_value : Bytes) (index : Int)
    (allowLinefeeds : Bool) (k : Bytes) :
    (confValue target tag var default_value index allowLinefeeds).2.count k = target.count k := by
  rw [confValue]
  split
  · cases target.entry tag index.toNat with
    | none => rfl
    | some items =>
        dsimp only
        split <;> exact MultiMap.count_modify ..
  · split <;> rfl

theorem count_readItem (maxbuf : Nat) (target : ConfigDataHash) (tag var default_value : Bytes)
    (allowNewlines : Bool) (k : Bytes) :
    (readItem maxbuf target tag var default_value allowNewlines).2.count k = target.count k :=
  count_confValue _ _ _ _ _ _ k

theorem count_readValue {build : Build} {entry : InitialConfig} {st st' : ReadState}
    (h : readValue build entry st = .ok st') (k : Bytes) : st'.data.count k = st.data.count k := by
  have hcount := count_readItem build.maxbuf st.data entry.tag entry.value entry.default_value
    entry.allowNewline k
  unfold readValue at h
  dsimp only at h
  split at h
  · cases h
  · split at h
    · cases h
    · split at h
      · cases h
        exact hcount
      · split at h
        · cases h
        · cases h
          exact hcount

theorem count_readValues {build : Build} {table : List InitialConfig} {st st' : ReadState}
    (h : readValues build table st = .ok st') (k : Bytes) :
    st'.data.count k = st.data.count k := by
  induction table generalizing st with
  | nil =>
      cases h
      rfl
  | cons entry table ih =>
      rw [readValues] at h
      split at h
      · cases h
      · next st'' heq => rw [ih h, count_readValue heq]

theorem count_doModules (maxbuf n : Nat) (k : Bytes) : ∀ tagnum names data,
    (doModules maxbuf n tagnum names data).2.count k = data.count k := by
  induction n with
  | zero => intro tagnum names data; rfl
  | succ n ih =>
      intro tagnum names data
      rw [doModules]
      exact (ih _ _ _).trans (count_confValue ..)

theorem count_readModules (maxbuf : Nat) (m : ModuleManager) (data : ConfigDataHash) (k : Bytes) :
    (readModules maxbuf m data).2.count k = data.count k :=
  count_doModules ..

theorem count_loadTag (lib : Library) (fds count : Nat) (st : ModuleManager.Loading) (k : Bytes) :
    (ModuleManager.loadTag lib fds count st).2.data.count k = st.data.count k :=
  count_confValue ..

theorem count_loadTags (lib : Library) (fds n : Nat) (k : Bytes) : ∀ count st,
    (ModuleManager.loadTags lib fds n count st).2.data.count k = st.data.count k := by
  induction n with
  | zero => intro count st; rfl
  | succ n ih =>
      intro count st
      have htag := count_loadTag lib fds count st k
      rw [ModuleManager.loadTags]
      split
      · next st' heq =>
          rw [heq] at htag
          rw [ih, htag]
      · next st' heq =>
          rw [heq] at htag
          exact htag

/-! ## What `Read` comes to -/

section Read

variable {host : Host} {bail : Bool} {fuel : Nat} {names : ModuleNames} {s : InspIRCd}

/-- `LoadAll` as `Read` calls it. -/
def loadModules (host : Host) (s : InspIRCd) : Bool × ModuleManager.Loading :=
  ModuleManager.loadAll (host.library s.config.settings.modPath) host.fds s.config.configData
    s.modules

/-- The server behind `LoadAll`. -/
def withModules (host : Host) (s : InspIRCd) : InspIRCd :=
  { s with
    config := { s.config with configData := (loadModules host s).2.data }
    modules := (loadModules host s).2.manager }

theorem count_withModules (host : Host) (s : InspIRCd) (k : Bytes) :
    (withModules host s).config.configData.count k = s.config.configData.count k :=
  count_loadTags ..

theorem finishRead_plain (reason : Bytes) :
    (finishRead host bail fuel names s).1 ≠ .reported reason ∧
      (finishRead host bail fuel names s).1 ≠ .threw reason := by
  unfold finishRead
  split
  · exact ⟨nofun, nofun⟩
  · split
    · exact ⟨nofun, nofun⟩
    · dsimp only
      split <;> exact ⟨nofun, nofun⟩

theorem checkOnce_eq_none {conf : ServerConfig} {tag : Bytes} :
    conf.checkOnce tag = none ↔ conf.configData.count tag = 1 := by
  rw [ServerConfig.checkOnce]
  split
  · exact iff_of_false nofun (by omega)
  · split
    · exact iff_of_false nofun (by omega)
    · exact iff_of_true rfl (by omega)

theorem readOn_of_not_loaded (h : (loadModules host s).1 = false) :
    (readOn host bail fuel names s).1 = .exited 13 := by
  rw [loadModules] at h
  unfold readOn
  dsimp only
  rw [h, if_pos rfl]

theorem readOn_of_sections {reason : Bytes} (h : (loadModules host s).1 = true)
    (hcheck : (withModules host s).config.checkOnce (str "server") = some reason) :
    (readOn host bail fuel names s).1 = .threw reason := by
  rw [loadModules] at h
  rw [withModules, loadModules] at hcheck
  unfold readOn
  dsimp only at hcheck ⊢
  rw [h, if_neg (by decide), hcheck]

theorem readOn_of_section (h : (loadModules host s).1 = true)
    (hcheck : (withModules host s).config.checkOnce (str "server") = none) :
    readOn host bail fuel names s =
      finishRead host bail fuel names (withModules host s) := by
  rw [loadModules] at h
  rw [withModules, loadModules] at hcheck ⊢
  unfold readOn
  dsimp only at hcheck ⊢
  rw [h, if_neg (by decide), hcheck]

/-- Behind the `try` block: a module is not loaded, the sections are not one, or `Read` comes to
its end. -/
theorem readOn_cases (host : Host) (bail : Bool) (fuel : Nat) (names : ModuleNames)
    (s : InspIRCd) :
    ((loadModules host s).1 = false ∧ (readOn host bail fuel names s).1 = .exited 13) ∨
    ((loadModules host s).1 = true ∧ s.config.configData.count (str "server") ≠ 1 ∧
      ∃ reason, (readOn host bail fuel names s).1 = .threw reason) ∨
    ((loadModules host s).1 = true ∧ s.config.configData.count (str "server") = 1 ∧
      readOn host bail fuel names s = finishRead host bail fuel names (withModules host s)) := by
  cases hloaded : (loadModules host s).1 with
  | false => exact Or.inl ⟨rfl, readOn_of_not_loaded hloaded⟩
  | true =>
      rw [← count_withModules host s]
      cases hcheck : (withModules host s).config.checkOnce (str "server") with
      | none =>
          exact Or.inr (Or.inr ⟨rfl, checkOnce_eq_none.1 hcheck, readOn_of_section hloaded hcheck⟩)
      | some reason =>
          refine Or.inr (Or.inl ⟨rfl, fun hone => ?_, reason, readOn_of_sections hloaded hcheck⟩)
          rw [checkOnce_eq_none.2 hone] at hcheck
          cases hcheck

theorem readOn_ne_reported (reason : Bytes) :
    (readOn host bail fuel names s).1 ≠ .reported reason := by
  rcases readOn_cases host bail fuel names s with
    ⟨-, heq⟩ | ⟨-, -, other, heq⟩ | ⟨-, -, heq⟩
  · rw [heq]
    exact nofun
  · rw [heq]
    exact nofun
  · rw [heq]
    exact (finishRead_plain reason).1

/-- The names of the modules to load and to unload, by the file. -/
def namesOf (host : Host) (st : ReadState) (s : InspIRCd) : ModuleNames :=
  (readModules host.build.maxbuf s.modules st.data).1

/-- The server with what was read from the file. -/
def applied (host : Host) (st : ReadState) (s : InspIRCd) : InspIRCd :=
  { s with config := { s.config with
    configData := (readModules host.build.maxbuf s.modules st.data).2
    settings := st.settings } }

/-- The file is refused, or its document root is, or it is applied. -/
theorem read_cases (host : Host) (bail : Bool) (fuel : Nat) (conf : Option Bytes)
    (s : InspIRCd) :
    (∃ failure, loadConf MultiMap.empty host.configFileName conf = .error failure ∧
      (read host bail fuel conf s).1 = .reported (s.config.errstr ++ failure.message) ∧
      (read host bail fuel conf s).2.config.configData = s.config.configData ∧
      (read host bail fuel conf s).2.config.settings = s.config.settings) ∨
    (∃ newconfig, loadConf MultiMap.empty host.configFileName conf = .ok newconfig ∧
      host.dirValid (documentRoot host.build newconfig).1.getString = false ∧
      (read host bail fuel conf s).1 =
        .reported (str "The value for server must be an existing directory") ∧
      (read host bail fuel conf s).2.config.configData = (documentRoot host.build newconfig).2 ∧
      (read host bail fuel conf s).2.config.settings = s.config.settings) ∨
    ∃ newconfig st, loadConf MultiMap.empty host.configFileName conf = .ok newconfig ∧
      host.dirValid (documentRoot host.build newconfig).1.getString = true ∧
      readValues host.build (initialValues host.build host.dirValid)
        ⟨newconfig, s.config.settings⟩ = .ok st ∧
      read host bail fuel conf s =
        readOn host bail fuel (namesOf host st s) (applied host st s) := by
  cases hconf : loadConf MultiMap.empty host.configFileName conf with
  | error failure =>
      refine Or.inl ⟨failure, rfl, ?_⟩
      rw [read, hconf]
      exact ⟨rfl, rfl, rfl⟩
  | ok newconfig =>
      refine Or.inr ?_
      rcases readValues_cases host.build host.dirValid ⟨newconfig, s.config.settings⟩ with
        ⟨hvalid, st, heq⟩ | ⟨hvalid, heq⟩
      · refine Or.inr ⟨newconfig, st, rfl, hvalid, heq, ?_⟩
        rw [read, hconf]
        dsimp only
        rw [heq]
        rfl
      · refine Or.inl ⟨newconfig, rfl, hvalid, ?_⟩
        rw [read, hconf]
        dsimp only
        rw [heq]
        exact ⟨rfl, rfl, rfl⟩

/-! ## The configuration behind a failure -/

/-- An error leaves the configuration what it was. -/
def Unaffected (host : Host) (fuel : Nat) (conf : Option Bytes) (s : InspIRCd) : Prop :=
  ∀ reason, (read host false fuel conf s).1 = .reported reason →
    (read host false fuel conf s).2.config.configData = s.config.configData ∧
      (read host false fuel conf s).2.config.settings = s.config.settings

/-- A failed rehash leaves the configuration alone exactly if the file is refused as a whole, its
document root is a directory, or it says what the configuration was. -/
theorem read_unaffected (host : Host) (fuel : Nat) (conf : Option Bytes) (s : InspIRCd) :
    Unaffected host fuel conf s ↔
      ∀ newconfig, loadConf MultiMap.empty host.configFileName conf = .ok newconfig →
        host.dirValid (documentRoot host.build newconfig).1.getString = true ∨
          (documentRoot host.build newconfig).2 = s.config.configData := by
  rcases read_cases host false fuel conf s with
    ⟨failure, hconf, -, hdata, hsettings⟩ |
      ⟨newconfig, hconf, hvalid, hreported, hdata, hsettings⟩ |
      ⟨newconfig, st, hconf, hvalid, -, heq⟩
  · refine iff_of_true (fun _ _ => ⟨hdata, hsettings⟩) fun newconfig hok => ?_
    rw [hconf] at hok
    cases hok
  · constructor
    · intro hunaffected newconfig' hok
      rw [hconf] at hok
      cases hok
      exact Or.inr (hdata.symm.trans (hunaffected _ hreported).1)
    · intro hcond reason _
      rcases hcond newconfig hconf with htrue | hsame
      · rw [hvalid] at htrue
        cases htrue
      · exact ⟨hdata.trans hsame, hsettings⟩
  · refine iff_of_true (fun reason hreported => ?_) fun newconfig' hok => ?_
    · rw [heq] at hreported
      exact absurd hreported (readOn_ne_reported reason)
    · rw [hconf] at hok
      cases hok
      exact Or.inl hvalid

/-! ## Exceptions -/

/-- The file is right up to its document root, its values are read and its modules loaded. -/
structure Reaches (host : Host) (conf : Option Bytes) (s : InspIRCd) (newconfig : ConfigDataHash)
    (st : ReadState) : Prop where
  parsed : loadConf MultiMap.empty host.configFileName conf = .ok newconfig
  root : host.dirValid (documentRoot host.build newconfig).1.getString = true
  values : readValues host.build (initialValues host.build host.dirValid)
    ⟨newconfig, s.config.settings⟩ = .ok st
  loaded : (loadModules host (applied host st s)).1 = true

/-- The file is not parsed, or its document root is no directory. -/
def Refused (host : Host) (conf : Option Bytes) : Prop :=
  ∀ newconfig, loadConf MultiMap.empty host.configFileName conf = .ok newconfig →
    host.dirValid (documentRoot host.build newconfig).1.getString = false

/-- The PID file can be written, the ports are gone through, and of the modules that were added
none is missing when that would be the end. -/
def Finishes (host : Host) (bail : Bool) (fuel : Nat) (names : ModuleNames) (s : InspIRCd) : Prop :=
  host.canWrite (pidFile host.configFileName s.config.settings.pid) = true ∧
    ∃ s', rebind host bail fuel s = some s' ∧
      (loadAdded (host.library s'.config.settings.modPath) host.fds bail names.added
        (names.removed.foldl (fun m name => (m.unload name).2) s'.modules)).1 = true

theorem finishRead_completed_iff :
    (finishRead host bail fuel names s).1 = .completed ↔ Finishes host bail fuel names s := by
  unfold finishRead
  split
  · next hpid => exact iff_of_false nofun fun h => absurd h.1 (by simp [hpid])
  · next hpid =>
      split
      · next hnone =>
          refine iff_of_false nofun ?_
          rintro ⟨-, s', hsome, -⟩
          rw [hnone] at hsome
          cases hsome
      · next s' hsome =>
          dsimp only
          split
          · next m hload =>
              refine iff_of_true rfl ⟨by simpa using hpid, s', hsome, ?_⟩
              rw [hload]
          · next m hload =>
              refine iff_of_false nofun ?_
              rintro ⟨-, s'', hsome', hloaded⟩
              rw [hsome] at hsome'
              cases hsome'
              rw [hload] at hloaded
              cases hloaded

theorem count_applied {newconfig : ConfigDataHash} {st : ReadState}
    (h : readValues host.build (initialValues host.build host.dirValid)
      ⟨newconfig, s.config.settings⟩ = .ok st) (k : Bytes) :
    (applied host st s).config.configData.count k = newconfig.count k :=
  (count_readModules host.build.maxbuf s.modules st.data k).trans (count_readValues h k)

theorem Reaches.unique {conf : Option Bytes} {newconfig newconfig' : ConfigDataHash}
    {st st' : ReadState} (h : Reaches host conf s newconfig st)
    (h' : Reaches host conf s newconfig' st') : newconfig = newconfig' ∧ st = st' := by
  have hdata : newconfig = newconfig' := Except.ok.inj (h.parsed.symm.trans h'.parsed)
  subst hdata
  exact ⟨rfl, Except.ok.inj (h.values.symm.trans h'.values)⟩

theorem Reaches.not_refused {conf : Option Bytes} {newconfig : ConfigDataHash} {st : ReadState}
    (h : Reaches host conf s newconfig st) : ¬Refused host conf := by
  intro hrefused
  have hfalse := hrefused newconfig h.parsed
  rw [h.root] at hfalse
  cases hfalse

/-- The ways that `Read` goes, by what it is given. -/
theorem read_outcome (host : Host) (bail : Bool) (fuel : Nat) (conf : Option Bytes)
    (s : InspIRCd) :
    (Refused host conf ∧ ∃ reason, (read host bail fuel conf s).1 = .reported reason) ∨
    (¬Refused host conf ∧ (∀ newconfig st, ¬Reaches host conf s newconfig st) ∧
      (read host bail fuel conf s).1 = .exited 13) ∨
    ∃ newconfig st, Reaches host conf s newconfig st ∧
      (newconfig.count (str "server") ≠ 1 ∧
          (∃ reason, (read host bail fuel conf s).1 = .threw reason) ∨
        newconfig.count (str "server") = 1 ∧ read host bail fuel conf s =
          finishRead host bail fuel (namesOf host st s)
            (withModules host (applied host st s))) := by
  rcases read_cases host bail fuel conf s with
    ⟨failure, hconf, hreported, -⟩ | ⟨newconfig, hconf, hvalid, hreported, -⟩ |
      ⟨newconfig, st, hconf, hvalid, hvalues, heq⟩
  · refine Or.inl ⟨fun newconfig hok => ?_, _, hreported⟩
    rw [hconf] at hok
    cases hok
  · refine Or.inl ⟨fun newconfig' hok => ?_, _, hreported⟩
    rw [hconf] at hok
    cases hok
    exact hvalid
  · rw [heq]
    rcases readOn_cases host bail fuel (namesOf host st s) (applied host st s) with
      ⟨hloaded, hexit⟩ | ⟨hloaded, hcount, hthrew⟩ | ⟨hloaded, hcount, hfinish⟩
    · refine Or.inr (Or.inl ⟨fun hrefused => ?_, fun newconfig' st' h => ?_, hexit⟩)
      · have hfalse := hrefused newconfig hconf
        rw [hvalid] at hfalse
        cases hfalse
      · cases Except.ok.inj (hconf.symm.trans h.parsed)
        cases Except.ok.inj (hvalues.symm.trans h.values)
        rw [h.loaded] at hloaded
        cases hloaded
    · rw [count_applied hvalues] at hcount
      exact Or.inr (Or.inr ⟨newconfig, st, ⟨hconf, hvalid, hvalues, hloaded⟩,
        Or.inl ⟨hcount, hthrew⟩⟩)
    · rw [count_applied hvalues] at hcount
      exact Or.inr (Or.inr ⟨newconfig, st, ⟨hconf, hvalid, hvalues, hloaded⟩,
        Or.inr ⟨hcount, hfinish⟩⟩)

/-- An exception goes to the caller exactly if the file is right and its modules are loaded, but
the sections `server` are not one. Where they are, or the file is refused, `Read` completes or
reports. -/
theorem read_ends (host : Host) (bail : Bool) (fuel : Nat) (conf : Option Bytes) (s : InspIRCd) :
    ((∃ reason, (read host bail fuel conf s).1 = .threw reason) ↔
      ∃ newconfig st, Reaches host conf s newconfig st ∧ newconfig.count (str "server") ≠ 1) ∧
    (((read host bail fuel conf s).1 = .completed ∨
        ∃ reason, (read host bail fuel conf s).1 = .reported reason) ↔
      Refused host conf ∨
        ∃ newconfig st, Reaches host conf s newconfig st ∧ newconfig.count (str "server") = 1 ∧
          Finishes host bail fuel (namesOf host st s)
            (withModules host (applied host st s))) := by
  rcases read_outcome host bail fuel conf s with
    ⟨hrefused, reason, heq⟩ | ⟨hnot, hnone, heq⟩ | ⟨newconfig, st, hreaches, hcases⟩
  · rw [heq]
    refine ⟨iff_of_false (by simp) ?_, iff_of_true (Or.inr ⟨reason, rfl⟩) (Or.inl hrefused)⟩
    rintro ⟨newconfig, st, hreaches, -⟩
    exact hreaches.not_refused hrefused
  · rw [heq]
    refine ⟨iff_of_false (by simp) ?_, iff_of_false (by simp) ?_⟩
    · rintro ⟨newconfig, st, hreaches, -⟩
      exact hnone newconfig st hreaches
    · rintro (hrefused | ⟨newconfig, st, hreaches, -⟩)
      · exact hnot hrefused
      · exact hnone newconfig st hreaches
  · rcases hcases with ⟨hcount, reason, heq⟩ | ⟨hcount, heq⟩
    · rw [heq]
      refine ⟨iff_of_true ⟨reason, rfl⟩ ⟨newconfig, st, hreaches, hcount⟩,
        iff_of_false (by simp) ?_⟩
      rintro (hrefused | ⟨newconfig', st', hreaches', hone, -⟩)
      · exact hreaches.not_refused hrefused
      · exact hcount ((hreaches.unique hreaches').1 ▸ hone)
    · rw [heq]
      constructor
      · refine iff_of_false ?_ ?_
        · rintro ⟨reason, hthrew⟩
          exact (finishRead_plain reason).2 hthrew
        · rintro ⟨newconfig', st', hreaches', hne⟩
          exact hne ((hreaches.unique hreaches').1 ▸ hcount)
      · constructor
        · rintro (hcompleted | ⟨reason, hreported⟩)
          · exact Or.inr ⟨newconfig, st, hreaches, hcount, finishRead_completed_iff.1 hcompleted⟩
          · exact absurd hreported (finishRead_plain reason).1
        · rintro (hrefused | ⟨newconfig', st', hreaches', -, hfinishes⟩)
          · exact absurd hrefused hreaches.not_refused
          · obtain ⟨rfl, rfl⟩ := hreaches.unique hreaches'
            exact Or.inl (finishRead_completed_iff.2 hfinishes)

end Read

/-! ## A rehash -/

/-- The root and `/srv` in it. -/
def srvTree : FileTree where
  Dir := Bool
  name dir := if dir then str "/srv" else str "/"
  resolve _ path :=
    if path = str "/srv" then some true else if path = str "/" then some false else none
  resolve_name _ dir := by cases dir <;> decide
  resolve_nil _ := by decide
  resolve_root _ := ⟨false, by decide, by decide⟩

/-- A host with these directories. `DirValid` looks at what is in front of the last slash. -/
def srvHost : Host where
  build := ⟨514, 1024, str "/srv/modules", str "128"⟩
  configFileName := str "/srv/hottpd.conf"
  dirValid d := (dirValid srvTree ⟨false, false, false, false⟩ d false).1
  library _ := cgiLibrary
  fds := 8
  canWrite _ := true
  bind _ _ := true

def srvSettings : Settings where
  docRoot := str "/srv/"
  softLimit := 1024
  debug := str "default"
  netBufferSize := 10240
  modPath := str "/srv/modules"
  customVersion := []
  pid := []
  followSymLinks := true
  setUser := []
  setGroup := []
  chRoot := []
  statCacheDuration := 2
  noAtime := true
  maxConn := 128
  keepAliveMax := 30
  timeoutCullFrequency := 120
  timeoutTotalLifetime := 30
  timeoutIdleLifetime := 5
  maxPostBody := 1024
  maximumDynamicProcesses := 2
  logLevel := 30
  debugging := false

/-- A server that runs with it. -/
def srvServer : InspIRCd where
  config :=
    { configData := MultiMap.empty.insert (str "server") [(str "document-root", str "/srv/")]
      settings := srvSettings
      errstr := [] }
  modules := ModuleManager.new
  ports := []
  next := 0

def serverConf (root : String) : Bytes := str "server\n\x7b\n document-root = " ++ str root ++
  str "\n\x7d\n"

/-- The document root of a configuration. -/
def rootOf (data : ConfigDataHash) : Option Bytes :=
  (confValue data (str "server") (str "document-root") [] 0 false).1

/-- The error is about the new document root, and the configuration has it all the same. -/
theorem failed_rehash_stays :
    rootOf srvServer.config.configData = some (str "/srv/") ∧
      (read srvHost false 0 (some (serverConf "/gone/")) srvServer).1 =
        .reported (str "The value for server must be an existing directory") ∧
      rootOf (read srvHost false 0 (some (serverConf "/gone/")) srvServer).2.config.configData =
        some (str "/gone/") ∧
      ¬Unaffected srvHost 0 (some (serverConf "/gone/")) srvServer := by
  have hreported : (read srvHost false 0 (some (serverConf "/gone/")) srvServer).1 =
      .reported (str "The value for server must be an existing directory") := by decide +kernel
  have hbefore : rootOf srvServer.config.configData = some (str "/srv/") := by decide +kernel
  have hafter : rootOf
      (read srvHost false 0 (some (serverConf "/gone/")) srvServer).2.config.configData =
        some (str "/gone/") := by decide +kernel
  refine ⟨hbefore, hreported, hafter, fun hunaffected => ?_⟩
  rw [(hunaffected _ hreported).1, hbefore] at hafter
  exact absurd hafter (by decide +kernel)

/-- With two sections the exception is not caught. -/
theorem two_servers_throw :
    (read srvHost false 0 (some (serverConf "/srv/" ++ serverConf "/srv/")) srvServer).1 =
      .threw (str "You have more than one <server> tag, this is not permitted.") := by
  decide +kernel

end Hottpd
