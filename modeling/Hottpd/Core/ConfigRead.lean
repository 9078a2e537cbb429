import Hottpd.Core.LoadAll
import Hottpd.Core.Settings

/-!
# `ServerConfig::Read`

The file is parsed into a copy, which becomes the configuration if that succeeds.
Then the values are read, the names of the modules compared with those that are
loaded, and the modules loaded; what has to be there once is counted after that.
An exception is caught up to the names of the modules.
-/

namespace Hottpd

open Bytes

structure ServerConfig where
  configData : ConfigDataHash
  settings : Settings
  /-- The text in `errstr`, which `clear` leaves there. -/
  errstr : Bytes

/-- What of the server `Read` works on; the next new listener is at address `next`. -/
structure InspIRCd where
  config : ServerConfig
  modules : ModuleManager
  ports : List ListenSocket
  next : Nat

/-- What `Read` is given by the build, the command line and the system: what the modules
directory of a path is, how many directories can be opened, which files can be written and which
sockets bound. -/
structure Host where
  build : Build
  configFileName : Bytes
  dirValid : Bytes → Bool
  library : Bytes → Library
  fds : Nat
  canWrite : Bytes → Bool
  bind : Bytes → Int → Bool

/-- How `Read` ends. -/
inductive ReadOutcome where
  | completed
  /-- By way of `ReportConfigError`, which exits when bailing out. -/
  | reported (reason : Bytes)
  /-- `InspIRCd::Exit` is called elsewhere. -/
  | exited (status : Nat)
  /-- A `CoreException` goes to the caller. -/
  | threw (reason : Bytes)
  /-- `BindPorts` has not returned within its fuel. -/
  | binding
deriving DecidableEq

/-! ## The tag `module` -/

/-- The static lists of names. -/
structure ModuleNames where
  added : List Bytes
  removed : List Bytes

/-- The loop over `n` more of the tags, `DoModule` being called for each. -/
def doModules (maxbuf : Nat) : Nat → Nat → List Bytes → ConfigDataHash →
    List Bytes × ConfigDataHash
  | 0, _, names, data => (names, data)
  | n + 1, tagnum, names, data =>
      let (value, data) := confValue data (str "module") (str "name") [] tagnum false
      doModules maxbuf n (tagnum + 1) (names ++ [strlcpy (value.getD []) maxbuf]) data

/-- `DoneModule` -/
def doneModule (old_module_names new_module_names : List Bytes) : ModuleNames where
  added := new_module_names.filter fun name => !old_module_names.any (· == name)
  removed := old_module_names.filter fun name => !new_module_names.any (· == name)

/-- `MultiValues`, of which `module` is the only one: no callback of it throws. -/
def readModules (maxbuf : Nat) (m : ModuleManager) (data : ConfigDataHash) :
    ModuleNames × ConfigDataHash :=
  let (names, data) := doModules maxbuf (data.count (str "module")) 0 [] data
  (doneModule (m.modules.entries.map Prod.fst) names, data)

/-! ## Behind the `try` block -/

/-- `CheckOnce`: the exception, if any. -/
def ServerConfig.checkOnce (conf : ServerConfig) (tag : Bytes) : Option Bytes :=
  let count := conf.configData.count tag
  if 1 < count then
    some (str "You have more than one <" ++ tag ++ str "> tag, this is not permitted.")
  else if count < 1 then
    some (str "You have not defined a <" ++ tag ++ str "> tag, this is required.")
  else none

/-- The name of the file in `WritePID`. -/
def pidFile (configFileName filename : Bytes) : Bytes :=
  let fname := if filename = [] then str "inspircd.pid" else filename
  if fname.head? ≠ some 47 then
    match rfind 47 configFileName with
    | some pos => configFileName.take pos ++ str "/" ++ fname
    | none => fname
  else fname

/-- The `bind` sections as `BindPorts` looks them up: `n` more of them. -/
def bindSectionsOf : Nat → Nat → ConfigDataHash → List BindSection × ConfigDataHash
  | 0, _, data => ([], data)
  | n + 1, count, data =>
      let (port, data) := confValue data (str "bind") (str "port") [] count false
      let (address, data) := confValue data (str "bind") (str "address") [] count false
      let (rest, data) := bindSectionsOf n (count + 1) data
      (⟨port.getD [], address.getD []⟩ :: rest, data)

/-- The loop over `added_modules`; where it is false the server exits. -/
def loadAdded (lib : Library) (fds : Nat) (bail : Bool) :
    List Bytes → ModuleManager → Bool × ModuleManager
  | [], m => (true, m)
  | name :: names, m =>
      if (m.modules.lookup name).isSome then loadAdded lib fds bail names m
      else
        match m.loadAny lib fds name with
        | (true, m) => loadAdded lib fds bail names m
        | (false, m) => if bail then (false, m) else loadAdded lib fds bail names m

section Read

variable (host : Host) (bail : Bool) (fuel : Nat)

/-- `BindPorts` on a rehash. -/
def rebind (s : InspIRCd) : Option InspIRCd :=
  if bail then some s
  else
    let data := s.config.configData
    let (sections, data) := bindSectionsOf (data.count (str "bind")) 0 data
    (bindPorts host.build.maxbuf host.bind fuel sections s.ports s.next).map fun bound =>
      { s with
        config := { s.config with configData := data }
        ports := bound.ports
        next := bound.next }

/-- What `Read` does once the file is found to be right. -/
def finishRead (names : ModuleNames) (s : InspIRCd) : ReadOutcome × InspIRCd :=
  if host.canWrite (pidFile host.configFileName s.config.settings.pid) = false then (.exited 9, s)
  else
    match rebind host bail fuel s with
    | none => (.binding, s)
    | some s =>
        let unloaded := names.removed.foldl (fun m name => (m.unload name).2) s.modules
        let lib := host.library s.config.settings.modPath
        match loadAdded lib host.fds bail names.added unloaded with
        | (true, m) => (.completed, { s with modules := m })
        | (false, m) => (.exited 13, { s with modules := m })

/-- From `LoadAll` on. -/
def readOn (names : ModuleNames) (s : InspIRCd) : ReadOutcome × InspIRCd :=
  let lib := host.library s.config.settings.modPath
  let (goesOn, loading) := ModuleManager.loadAll lib host.fds s.config.configData s.modules
  let s := { s with
    config := { s.config with configData := loading.data }
    modules := loading.manager }
  if goesOn = false then (.exited 13, s)
  else
    match s.config.checkOnce (str "server") with
    | some reason => (.threw reason, s)
    | none => finishRead host bail fuel names s

/-- `ServerConfig::Read`; the file is `none` where it cannot be opened. -/
def read (conf : Option Bytes) (s : InspIRCd) : ReadOutcome × InspIRCd :=
  match loadConf MultiMap.empty host.configFileName conf with
  | .error failure =>
      let errstr := s.config.errstr ++ failure.message
      (.reported errstr, { s with config := { s.config with errstr := errstr } })
  | .ok newconfig =>
      let table := initialValues host.build host.dirValid
      match readValues host.build table ⟨newconfig, s.config.settings⟩ with
      | .error (reason, st) =>
          (.reported reason, { s with
            config := { s.config with configData := st.data, settings := st.settings } })
      | .ok st =>
          let (names, data) := readModules host.build.maxbuf s.modules st.data
          readOn host bail fuel names { s with
            config := { s.config with configData := data, settings := st.settings } }

end Read

end Hottpd
