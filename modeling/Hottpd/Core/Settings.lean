import Hottpd.Core.ConfigNumbers

/-!
# The settings, and how one is read

The values of the tags that occur once are read from a table: each names its tag
and item, the default, where the value goes, what type of data it is, and the
function that validates it. A validator may put another value in the item, or
set something of its own.
-/

namespace Hottpd

open Bytes

/-- The members of `ServerConfig` that `Read` sets, and its buffer `debug`. -/
structure Settings where
  docRoot : Bytes
  softLimit : Nat
  debug : Bytes
  netBufferSize : Int
  modPath : Bytes
  customVersion : Bytes
  pid : Bytes
  followSymLinks : Bool
  setUser : Bytes
  setGroup : Bytes
  chRoot : Bytes
  statCacheDuration : Int
  noAtime : Bool
  maxConn : Int
  keepAliveMax : Int
  timeoutCullFrequency : Int
  timeoutTotalLifetime : Int
  timeoutIdleLifetime : Int
  maxPostBody : Int
  maximumDynamicProcesses : Int
  logLevel : Int
  debugging : Bool
deriving DecidableEq

/-- The constants of the build: `MAXBUF`, `MAXCLIENTS`, `MOD_PATH` and `SOMAXCONN_S`. -/
structure Build where
  maxbuf : Nat
  maxclients : Nat
  modPath : Bytes
  somaxconn : Bytes

/-- `ConfigDataType` -/
inductive ConfigDataType where
  | integer
  | charptr
  | boolean
  | hostname
  | nospaces
  | ipaddress
deriving DecidableEq

/-- `ValueContainerBase`: what `Set` does, by the type of the container. -/
inductive ValueContainer where
  | char (set : Bytes → Settings → Settings)
  | int (set : Int → Settings → Settings)
  | bool (set : Bool → Settings → Settings)

/-! ## Types with a syntax -/

/-- `ValidateNoSpaces`: the exception, if any. -/
def validateNoSpaces (p tag val : Bytes) : Option Bytes :=
  if 32 ∈ p then
    some (str "The value of <" ++ tag ++ str ":" ++ val ++ str "> cannot contain spaces")
  else none

def validateHostname (p tag val : Bytes) : Option Bytes :=
  if p = [] then none
  else if p.head? = some 46 ∨ 32 ∈ p ∨ 46 ∉ p then
    some (str "The value of <" ++ tag ++ str ":" ++ val ++ str "> is not a valid hostname")
  else none

/-- `ValidateIP` -/
def validateIP (p tag val : Bytes) (wild : Bool) : Option Bytes :=
  let told := fun what : String =>
    some (str "The value of <" ++ tag ++ str ":" ++ val ++ str what)
  -- the loop goes past the characters of a wildcard
  let seen := if wild then p.filter fun c => c ∉ str "*?/" else p
  let signs := seen.filter fun c => c ≠ 58 ∧ c ≠ 46
  let num_dots := seen.count 46
  let num_seps := seen.count 58
  let not_numbers := signs.any fun c => !isdigit c
  let not_hex := signs.any fun c => !isxdigit c
  if p = [] then none
  else if p.head? = some 46 then told "> is not an IP address"
  else if 32 ∈ seen then told "> is not an IP address"
  else if 3 < num_dots then told "> is an IPv4 address with too many fields!"
  else if 8 < num_seps then told "> is an IPv6 address with too many fields!"
  else if num_seps = 0 ∧ num_dots < 3 ∧ wild = false then
    told "> looks to be a malformed IPv4 address"
  else if num_seps = 0 ∧ num_dots = 3 ∧ not_numbers then
    told "> contains non-numeric characters in an IPv4 address"
  else if num_seps ≠ 0 ∧ not_hex then
    told "> contains non-hexdecimal characters in an IPv6 address"
  else if num_seps ≠ 0 ∧ num_dots ≠ 3 ∧ num_dots ≠ 0 ∧ wild = false then
    told "> is a malformed IPv6 4in6 address"
  else none

/-! ## Validators -/

/-- What a validator leaves: its answer, the settings, and the item. -/
structure Validated where
  answer : Bool
  settings : Settings
  data : ValueItem

/-- A validator is given the tag; an error is the reason of a `CoreException`. -/
abbrev Validator := Bytes → Settings → ValueItem → Except Bytes Validated

def noValidation : Validator := fun _ conf data => .ok ⟨true, conf, data⟩

def validateSoftLimit (build : Build) : Validator := fun _ conf data =>
  if data.getInteger < 1 ∨ build.maxclients < data.getInteger then
    .ok ⟨true, conf, ValueItem.setInteger build.maxclients⟩
  else .ok ⟨true, conf, data⟩

/-- `ValidateMaxConn`, which only logs. -/
def validateMaxConn : Validator := fun _ conf data => .ok ⟨true, conf, data⟩

def validateNetBufferSize : Validator := fun _ conf data =>
  if data.getInteger = 0 ∨ 65535 < data.getInteger ∨ data.getInteger < 1024 then
    .ok ⟨true, conf, ValueItem.setInteger 10240⟩
  else .ok ⟨true, conf, data⟩

/-- The levels of the log by their names, the default one by any other. -/
def logLevelNamed (dbg : Bytes) : Int :=
  if dbg = str "debug" then 10
  else if dbg = str "verbose" then 20
  else if dbg = str "default" then 30
  else if dbg = str "sparse" then 40
  else if dbg = str "none" then 50
  else 30

def validateLogLevel : Validator := fun _ conf data =>
  let logLevel := logLevelNamed data.getString
  .ok ⟨true, { conf with logLevel := logLevel, debugging := logLevel = 10 }, data⟩

def validateDir (dirValid : Bytes → Bool) : Validator := fun tag conf data =>
  if dirValid data.getString = false then
    .error (str "The value for " ++ tag ++ str " must be an existing directory")
  else .ok ⟨true, conf, data⟩

/-! ## The table -/

/-- `InitialConfig`; the two flags of the data type are apart. -/
structure InitialConfig where
  tag : Bytes
  value : Bytes
  default_value : Bytes
  val : ValueContainer
  datatype : ConfigDataType
  allowNewline : Bool
  allowWild : Bool
  validation_function : Validator

/-- An entry without flags. -/
def entryOf (tag value : String) (default_value : Bytes) (val : ValueContainer)
    (datatype : ConfigDataType) (validation_function : Validator) : InitialConfig :=
  ⟨str tag, str value, default_value, val, datatype, false, false, validation_function⟩

/-- `Values` -/
def initialValues (build : Build) (dirValid : Bytes → Bool) : List InitialConfig :=
  [entryOf "server" "document-root" [] (.char fun v s => { s with docRoot := v }) .charptr
      (validateDir dirValid),
    entryOf "server" "softlimit" (ofNat build.maxclients)
      (.int fun v s => { s with softLimit := toUnsigned v }) .integer (validateSoftLimit build),
    entryOf "server" "loglevel" (str "default") (.char fun v s => { s with debug := v }) .charptr
      validateLogLevel,
    entryOf "server" "netbuffersize" (str "10240") (.int fun v s => { s with netBufferSize := v })
      .integer validateNetBufferSize,
    entryOf "server" "moduledir" build.modPath (.char fun v s => { s with modPath := v }) .charptr
      noValidation,
    entryOf "server" "customversion" [] (.char fun v s => { s with customVersion := v }) .charptr
      noValidation,
    entryOf "server" "pidfile" [] (.char fun v s => { s with pid := v }) .charptr noValidation,
    entryOf "security" "follow-symlinks" (str "yes")
      (.bool fun v s => { s with followSymLinks := v }) .boolean noValidation,
    entryOf "security" "user" [] (.char fun v s => { s with setUser := v }) .charptr noValidation,
    entryOf "security" "group" [] (.char fun v s => { s with setGroup := v }) .charptr
      noValidation,
    entryOf "security" "chroot" [] (.char fun v s => { s with chRoot := v }) .charptr noValidation,
    entryOf "performance" "stat-cache-time" (str "2")
      (.int fun v s => { s with statCacheDuration := v }) .integer noValidation,
    entryOf "performance" "noatime" (str "yes") (.bool fun v s => { s with noAtime := v }) .boolean
      noValidation,
    entryOf "performance" "max-conn-queue" build.somaxconn (.int fun v s => { s with maxConn := v })
      .integer validateMaxConn,
    entryOf "performance" "keepalive-max" (str "30") (.int fun v s => { s with keepAliveMax := v })
      .integer noValidation,
    entryOf "performance" "timeout-frequency" (str "120")
      (.int fun v s => { s with timeoutCullFrequency := v }) .integer noValidation,
    entryOf "performance" "timeout-total-lifetime" (str "30")
      (.int fun v s => { s with timeoutTotalLifetime := v }) .integer noValidation,
    entryOf "performance" "timeout-idle-lifetime" (str "5")
      (.int fun v s => { s with timeoutIdleLifetime := v }) .integer noValidation,
    entryOf "performance" "max-post-body" (str "1024") (.int fun v s => { s with maxPostBody := v })
      .integer noValidation,
    entryOf "performance" "max-dynamic-processes" (str "2")
      (.int fun v s => { s with maximumDynamicProcesses := v }) .integer noValidation]

/-! ## The loop over the table -/

/-- What the loops of `Read` change: `config_data`, where a look-up may strip linefeeds, and the
settings. -/
structure ReadState where
  data : ConfigDataHash
  settings : Settings

/-- What the syntax of the type has against a value. -/
def syntaxError (entry : InitialConfig) (v : Bytes) : Option Bytes :=
  match entry.datatype with
  | .nospaces => validateNoSpaces v entry.tag entry.value
  | .hostname => validateHostname v entry.tag entry.value
  | .ipaddress => validateIP v entry.tag entry.value entry.allowWild
  | _ => none

/-- `Set` of the container, which is of the type that its entry says. -/
def store (val : ValueContainer) (vi : ValueItem) (s : Settings) : Settings :=
  match val with
  | .char set => set vi.getString s
  | .int set => set vi.getInteger s
  | .bool set => set vi.getBool s

/-- The loop body: an exception and what is left behind it, or what the next entry finds. -/
def readValue (build : Build) (entry : InitialConfig) (st : ReadState) :
    Except (Bytes × ReadState) ReadState :=
  let (vi, data) := readItem build.maxbuf st.data entry.tag entry.value entry.default_value
    entry.allowNewline
  match entry.validation_function entry.tag st.settings vi with
  | .error reason => .error (reason, ⟨data, st.settings⟩)
  | .ok validated =>
      let st := ⟨data, validated.settings⟩
      if validated.answer = false then
        .error (str "One or more values in your configuration file failed to validate. "
          ++ str "Please see your ircd.log for more information.", st)
      -- the `switch` is on the type with its flags, and has no case with any
      else if entry.allowNewline ∨ entry.allowWild then .ok st
      else
        match syntaxError entry validated.data.getString with
        | some reason => .error (reason, st)
        | none => .ok { st with settings := store entry.val validated.data st.settings }

def readValues (build : Build) :
    List InitialConfig → ReadState → Except (Bytes × ReadState) ReadState
  | [], st => .ok st
  | entry :: table, st =>
      match readValue build entry st with
      | .error e => .error e
      | .ok st => readValues build table st

end Hottpd
