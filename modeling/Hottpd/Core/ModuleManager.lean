import Mathlib.Algebra.Group.Int.Defs
import Mathlib.Logic.Function.Basic
import Hottpd.Lib.Runs
import Hottpd.Lib.Bytes
import Hottpd.Lib.SortedMap

/-!
# The module manager

`ModuleManager` keeps the loaded modules by file name, for each kind of event the
modules to call for it, and for each interface the modules that implement it with
the number of its users.

A module is the address of its object; `next` is the address of the next one. A
module file is given by what can be seen of it: how opening it ends, what its
constructor does to the lists, and the version it returns.
-/

namespace Hottpd

open Bytes

/-! ## Event handlers -/

/-- The kinds of events between `I_BEGIN` and `I_END`. -/
inductive Implementation where
  | onConnectionConnect
  | onConnectionDisconnect
  | onGracefulShutdown
  | onCleanup
  | onLoadModule
  | onUnloadModule
  | onBackgroundTimer
  | onEvent
  | onRequest
  | onRawSocketAccept
  | onRawSocketClose
  | onRawSocketWrite
  | onRawSocketRead
  | onRawSocketConnect
  | onGarbageCollect
  | onBufferFlushed
  | onPreRequest
deriving DecidableEq

/-- A vector of modules, where `Attach` and `Detach` have kept each of them once. -/
structure IntModuleList (α : Type) where
  mods : List α
  nodup : mods.Nodup

namespace IntModuleList

variable {α : Type} [DecidableEq α]

def empty : IntModuleList α := ⟨[], List.nodup_nil⟩

/-- `push_back`, unless it is there. -/
def attach (mod : α) (l : IntModuleList α) : IntModuleList α :=
  if h : mod ∈ l.mods then l
  else
    ⟨l.mods ++ [mod], by
      rw [(List.perm_append_singleton mod l.mods).nodup_iff, List.nodup_cons]
      exact ⟨h, l.nodup⟩⟩

/-- `erase(find(mod))` -/
def detach (mod : α) (l : IntModuleList α) : IntModuleList α :=
  ⟨l.mods.erase mod, l.nodup.erase mod⟩

omit [DecidableEq α] in
theorem ext_mods {l l' : IntModuleList α} (h : l.mods = l'.mods) : l = l' := by
  cases l
  cases l'
  cases h
  rfl

theorem attach_of_mem {mod : α} {l : IntModuleList α} (h : mod ∈ l.mods) : l.attach mod = l :=
  dif_pos h

theorem mods_attach {mod : α} {l : IntModuleList α} (h : mod ∉ l.mods) :
    (l.attach mod).mods = l.mods ++ [mod] := by
  rw [attach, dif_neg h]

@[simp] theorem mods_detach (mod : α) (l : IntModuleList α) :
    (l.detach mod).mods = l.mods.erase mod := rfl

end IntModuleList

/-! ## Dispatching -/

/-- What a handler does when it is called: whether it takes itself off the list, and its
answer, where `none` is a `CoreException`. -/
structure Reaction where
  leaves : Bool
  answer : Option Int
deriving DecidableEq

/-- How a loop over the handlers ended. -/
structure Dispatch (α : Type) where
  calls : List α
  handlers : List α
  modResult : Int
  /-- It went on behind the end of the vector. -/
  pastEnd : Bool
deriving DecidableEq

section Dispatching

variable {α : Type} [DecidableEq α]

/-- The loop of the macros from position `i` on; `stops` is for which answers it breaks, and
`none` that the fuel does not last. An iterator is a position, since the elements behind an
erased one move up. -/
def dispatchFrom (stops : Int → Bool) (react : α → Reaction) :
    Nat → Nat → List α → List α → Option (Dispatch α)
  | 0, _, _, _ => none
  | fuel + 1, i, handlers, calls =>
      match handlers[i]? with
      | none => some ⟨calls, handlers, 0, i ≠ handlers.length⟩
      | some mod =>
          let safei := i + 1
          let handlers := if (react mod).leaves then handlers.erase mod else handlers
          let calls := calls ++ [mod]
          match (react mod).answer with
          | none => dispatchFrom stops react fuel safei handlers calls
          | some res =>
              if stops res then some ⟨calls, handlers, res, false⟩
              else dispatchFrom stops react fuel safei handlers calls

/-- A turn for each position, and the last look at the end. -/
def dispatch (stops : Int → Bool) (react : α → Reaction) (l : IntModuleList α) :
    Option (Dispatch α) :=
  dispatchFrom stops react (l.mods.length + 1) 0 l.mods []

namespace IntModuleList

/-- `FOREACH_MOD`; what a handler returns is not looked at. -/
def foreachMod (react : α → Reaction) (l : IntModuleList α) : Option (Dispatch α) :=
  dispatch (fun _ => false) react l

/-- `FOREACH_MOD_I` -/
def foreachModI (react : α → Reaction) (l : IntModuleList α) : Option (Dispatch α) :=
  dispatch (fun _ => false) react l

/-- `FOREACH_RESULT` -/
def foreachResult (react : α → Reaction) (l : IntModuleList α) : Option (Dispatch α) :=
  dispatch (fun res => res ≠ 0) react l

end IntModuleList

end Dispatching

/-! ## The manager -/

/-- What the manager reads of a `Version`. -/
structure Version where
  api : Int
  isStatic : Bool
deriving DecidableEq

/-- The order of a `std::map` with strings for keys. -/
def nameKey (name : Bytes) : List Nat := name.map UInt8.toNat

/-- A module and what its `GetVersion` returns. -/
structure Loaded where
  module : Nat
  version : Version
deriving DecidableEq

/-- The number of users of an interface and the modules that implement it. -/
structure Interface where
  count : Int
  mods : List Nat
deriving DecidableEq

structure ModuleManager where
  eventHandlers : Implementation → IntModuleList Nat
  modules : SortedMap nameKey Loaded
  modCount : Int
  interfaces : SortedMap nameKey Interface
  lastModuleError : Bytes
  next : Nat

namespace ModuleManager

def new : ModuleManager where
  eventHandlers _ := IntModuleList.empty
  modules := SortedMap.empty
  modCount := 0
  interfaces := SortedMap.empty
  lastModuleError := []
  next := 0

def attach (i : Implementation) (mod : Nat) (s : ModuleManager) : ModuleManager :=
  { s with
    eventHandlers := Function.update s.eventHandlers i ((s.eventHandlers i).attach mod) }

def detach (i : Implementation) (mod : Nat) (s : ModuleManager) : ModuleManager :=
  { s with
    eventHandlers := Function.update s.eventHandlers i ((s.eventHandlers i).detach mod) }

/-- `DetachAll`; a NULL pointer is in no list. -/
def detachAll (mod : Option Nat) (s : ModuleManager) : ModuleManager :=
  match mod with
  | none => s
  | some mod => { s with eventHandlers := fun i => (s.eventHandlers i).detach mod }

/-- `false`, with a message. -/
def refuse (error : Bytes) (s : ModuleManager) : Bool × ModuleManager :=
  (false, { s with lastModuleError := error })

end ModuleManager

/-! ## `Load` -/

/-- What a constructor does to the lists, for its own object. -/
inductive HandlerCall where
  | attach (i : Implementation)
  | detach (i : Implementation)
deriving DecidableEq

/-- How `init_module` ends. -/
inductive InitResult where
  | module
  | null
  /-- With a `CoreException`. -/
  | threw (reason : Bytes)
deriving DecidableEq

structure ModuleFile where
  /-- The error of `dlopen`. -/
  dlerror : Option Bytes
  /-- Whether it has an `init_module`. -/
  symbol : Bool
  calls : List HandlerCall
  init : InitResult
  /-- What `GetVersion` returns, or the exception it throws. -/
  version : Except Bytes Version

/-- `ConvToStr` -/
def convToStr (n : Int) : Bytes := if n < 0 then str "-" ++ ofNat (-n).toNat else ofNat n.toNat

/-- What the loader is given: the checks on a path, the modules directory, the size of a
buffer, our API version, and what the modules do when one is introduced to them. -/
structure Loader where
  dirValid : Bytes → Bool
  fileExists : Bytes → Bool
  modPath : Bytes
  maxbuf : Nat
  apiVersion : Int
  introduce : ModuleManager → ModuleManager

namespace ModuleManager

variable (env : Loader)

def construct (mod : Nat) (calls : List HandlerCall) (s : ModuleManager) : ModuleManager :=
  calls.foldl (fun s call =>
    match call with
    | .attach i => s.attach i mod
    | .detach i => s.detach i mod) s

/-- `snprintf(modfile, MAXBUF, "%s/%s", ModPath, filename)` -/
def modfile (filename : Bytes) : Bytes := (env.modPath ++ str "/" ++ filename).take (env.maxbuf - 1)

/-- The constructor of `DLLManager`: the error, if any. -/
def openError (filename : Bytes) (file : ModuleFile) : Option Bytes :=
  if find (str ".so") (modfile env filename) = none then
    some (str "This doesn't look like a module file to me...")
  else file.dlerror

/-- What a `catch` block does with the pointer it finds. -/
def caught (newmod : Option Nat) (error : Bytes) (s : ModuleManager) : Bool × ModuleManager :=
  (s.detachAll newmod).refuse error

/-- `Load` once `init_module` has been called. -/
def initialised (filename : Bytes) (file : ModuleFile) (newmod : Nat) (s : ModuleManager) :
    Bool × ModuleManager :=
  let unable := str "Unable to load " ++ filename ++ str ": "
  match file.init with
  -- the assignment to `newmod` did not take place
  | .threw reason => s.caught none (unable ++ reason)
  | .null =>
      s.refuse (unable
        ++ str "Probably missing init_module() entrypoint, but dlsym() didn't notice a problem")
  | .module =>
      match file.version with
      | .error reason => s.caught (some newmod) (unable ++ reason)
      | .ok v =>
          if v.api ≠ env.apiVersion then
            (s.detachAll (some newmod)).refuse (unable ++ str "Incorrect module API version: "
              ++ convToStr v.api ++ str " (our version: " ++ convToStr env.apiVersion ++ str ")")
          else
            (true, env.introduce { s with
              modules := s.modules.insert filename ⟨newmod, v⟩
              modCount := s.modCount + 1 })

/-- `ModuleManager::Load` of a name that is not a pattern. -/
def load (filename : Bytes) (file : ModuleFile) (s : ModuleManager) : Bool × ModuleManager :=
  if env.dirValid (modfile env filename) = false then
    s.refuse (str "Module " ++ filename ++ str " is not within the modules directory.")
  else if env.fileExists (modfile env filename) = false then
    s.refuse (str "Module file could not be found: " ++ filename)
  else if (s.modules.lookup filename).isSome then
    s.refuse (str "Module " ++ filename ++ str " is already loaded, cannot load a module twice!")
  else
    let unable := str "Unable to load " ++ filename ++ str ": "
    match openError env filename file with
    | some error => s.caught none (unable ++ str "Error when loading: " ++ error)
    | none =>
        if file.symbol = false then
          s.caught none (unable ++ str "Error finding symbol: Missing init_module() entrypoint!")
        else
          initialised env filename file s.next
            (construct s.next file.calls { s with next := s.next + 1 })

/-! ## Interfaces -/

def publishInterface (name : Bytes) (mod : Nat) (s : ModuleManager) : Bool × ModuleManager :=
  match s.interfaces.lookup name with
  | none => (true, { s with interfaces := s.interfaces.insert name ⟨0, [mod]⟩ })
  | some i =>
      (true, { s with interfaces := s.interfaces.insert name { i with mods := i.mods ++ [mod] } })

def unpublishInterface (name : Bytes) (mod : Nat) (s : ModuleManager) : Bool × ModuleManager :=
  match s.interfaces.lookup name with
  | none => (false, s)
  | some i =>
      if mod ∈ i.mods then
        let mods := i.mods.erase mod
        -- the count goes with the last module
        if mods = [] then (true, { s with interfaces := s.interfaces.erase name })
        else (true, { s with interfaces := s.interfaces.insert name { i with mods := mods } })
      else (false, s)

def useInterface (name : Bytes) (s : ModuleManager) : ModuleManager :=
  match s.interfaces.lookup name with
  | none => s
  | some i => { s with interfaces := s.interfaces.insert name { i with count := i.count + 1 } }

def doneWithInterface (name : Bytes) (s : ModuleManager) : ModuleManager :=
  match s.interfaces.lookup name with
  | none => s
  | some i => { s with interfaces := s.interfaces.insert name { i with count := i.count - 1 } }

/-- `GetInterfaceInstanceCount`: the first interface by name that lists the module. -/
def getInterfaceInstanceCount (mod : Nat) (s : ModuleManager) : Int × Bytes :=
  match s.interfaces.entries.find? fun e => mod ∈ e.2.mods with
  | none => (0, [])
  | some e => (e.2.count, e.1)

/-- `ModuleManager::Unload`. -/
def unload (filename : Bytes) (s : ModuleManager) : Bool × ModuleManager :=
  match s.modules.lookup filename with
  | none =>
      s.refuse (str "Module " ++ filename ++ str " is not loaded, cannot unload it!")
  | some m =>
      if m.version.isStatic then
        s.refuse (str "Module " ++ filename ++ str " not unloadable (marked static)")
      else
        let intercount := s.getInterfaceInstanceCount m.module
        if 0 < intercount.1 then
          s.refuse (str "Failed to unload module " ++ filename ++ str ", being used by "
            ++ convToStr intercount.1 ++ str " other(s) via interface '" ++ intercount.2
            ++ str "'")
        else
          (true, { s.detachAll (some m.module) with
            modules := s.modules.erase filename
            modCount := s.modCount - 1 })

end ModuleManager

/-- The manager and its users; `outstanding` is ours: for each interface the uses of it, while
it was published, that are not done with. -/
structure Users where
  manager : ModuleManager
  outstanding : Bytes → Nat

/-- No interface is published yet. -/
def Users.start (s : ModuleManager) : Users :=
  ⟨{ s with interfaces := SortedMap.empty }, fun _ => 0⟩

inductive InterfaceCall where
  | publish (name : Bytes) (mod : Nat)
  | unpublish (name : Bytes) (mod : Nat)
  | use (name : Bytes)
  | done (name : Bytes)
  | unload (filename : Bytes)
deriving DecidableEq

/-- One call; `none` where a user is done with what it did not use. -/
def Users.step (s : Users) (call : InterfaceCall) : Option Users :=
  match call with
  | .publish name mod => some { s with manager := (s.manager.publishInterface name mod).2 }
  | .unpublish name mod => some { s with manager := (s.manager.unpublishInterface name mod).2 }
  | .use name =>
      some {
        manager := s.manager.useInterface name
        outstanding :=
          if (s.manager.interfaces.lookup name).isSome then
            Function.update s.outstanding name (s.outstanding name + 1)
          else s.outstanding }
  | .done name =>
      if s.outstanding name = 0 then none
      else
        some {
          manager := s.manager.doneWithInterface name
          outstanding := Function.update s.outstanding name (s.outstanding name - 1) }
  | .unload filename => some { s with manager := (s.manager.unload filename).2 }

end Hottpd
