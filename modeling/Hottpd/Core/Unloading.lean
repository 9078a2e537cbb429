import Hottpd.Core.Priority
import Mathlib.Logic.Function.Iterate

/-!
# The life of a module

Modules come by `Load` and go by `Unload`. In between their code puts them on
lists of handlers, gives itself a priority there, and publishes features and
interfaces. What an `Unload` does not take back, the module's destructor has to.

A module's code runs as long as it is loaded. What its constructor does to the
lists of handlers is in its `ModuleFile`. A destructor runs where there is an
object to delete: there is none if the constructor throws.
-/

namespace Hottpd

open Bytes

/-! ## Features -/

/-- The module that has published a feature. -/
abbrev Features := SortedMap nameKey Nat

def publishFeature (name : Bytes) (mod : Nat) (features : Features) : Bool × Features :=
  if (features.lookup name).isNone then (true, features.insert name mod) else (false, features)

def unpublishFeature (name : Bytes) (features : Features) : Bool × Features :=
  if (features.lookup name).isNone then (false, features) else (true, features.erase name)

def findFeature (name : Bytes) (features : Features) : Option Nat := features.lookup name

/-- What a constructor does to the features. -/
inductive FeatureCall where
  | publish (name : Bytes)
  | unpublish (name : Bytes)
deriving DecidableEq

def constructFeatures (mod : Nat) (calls : List FeatureCall) (features : Features) : Features :=
  calls.foldl (fun f call =>
    match call with
    | .publish name => (publishFeature name mod f).2
    | .unpublish name => (unpublishFeature name f).2) features

/-- What a destructor does. -/
def destroyFeatures (names : List Bytes) (features : Features) : Features :=
  names.foldl (fun f name => (unpublishFeature name f).2) features

/-! ## Calls in any order -/

namespace ModuleManager

/-- The modules there are. -/
def loaded (s : ModuleManager) : List Nat := s.modules.entries.map fun e => e.2.module

/-- `Find` -/
def find (name : Bytes) (s : ModuleManager) : Option Nat :=
  (s.modules.lookup name).map Loaded.module

/-- `GetAllModuleNames` without a filter. -/
def getAllModuleNames (s : ModuleManager) : List Bytes := s.modules.entries.map Prod.fst

/-- Whether `Load` comes to the call of `init_module`. -/
def callsInit (env : Loader) (filename : Bytes) (file : ModuleFile) (s : ModuleManager) : Bool :=
  env.dirValid (modfile env filename) && env.fileExists (modfile env filename) &&
    (s.modules.lookup filename).isNone && (openError env filename file).isNone && file.symbol

end ModuleManager

structure Managed where
  manager : ModuleManager
  features : Features

def Managed.new : Managed := ⟨ModuleManager.new, SortedMap.empty⟩

inductive ManagerCall where
  /-- With what the constructor does to the features, and those the destructor unpublishes. -/
  | load (filename : Bytes) (file : ModuleFile) (calls : List FeatureCall)
      (unpublishes : List Bytes)
  /-- With the features that the module's destructor unpublishes. -/
  | unload (filename : Bytes) (unpublishes : List Bytes)
  | attach (i : Implementation) (mod : Nat)
  | detach (i : Implementation) (mod : Nat)
  | setPriority (mod : Nat) (i : Implementation) (s : PriorityState) (modules : List (Option Nat))
  | publishFeature (name : Bytes) (mod : Nat)
  | unpublishFeature (name : Bytes)

/-- `none` where it is the code of a module that is not loaded. -/
def Managed.step (env : Loader) (s : Managed) : ManagerCall → Option Managed
  | .load filename file calls unpublishes =>
      let (done, manager) := s.manager.load env filename file
      let features :=
        if s.manager.callsInit env filename file then
          constructFeatures s.manager.next calls s.features
        else s.features
      some {
        manager := manager
        features :=
          -- `delete newmod`, where the pointer is not NULL
          if s.manager.callsInit env filename file ∧ done = false ∧ file.init = .module then
            destroyFeatures unpublishes features
          else features }
  | .unload filename unpublishes =>
      let (done, manager) := s.manager.unload filename
      some {
        manager := manager
        features := if done then destroyFeatures unpublishes s.features else s.features }
  | .attach i mod =>
      if mod ∈ s.manager.loaded then some { s with manager := s.manager.attach i mod } else none
  | .detach i mod =>
      if mod ∈ s.manager.loaded then some { s with manager := s.manager.detach i mod } else none
  | .setPriority mod i p modules =>
      if mod ∈ s.manager.loaded then
        some { s with manager := (s.manager.setPriority mod i p modules).2 }
      else none
  | .publishFeature name mod =>
      if mod ∈ s.manager.loaded then
        some { s with features := (Hottpd.publishFeature name mod s.features).2 }
      else none
  | .unpublishFeature name =>
      some { s with features := (Hottpd.unpublishFeature name s.features).2 }

/-! ## `InspIRCd::Cleanup` -/

/-- What the code of a module has to do with interfaces: those it uses from its constructor to
its destructor, and those it implements. Of a constructor that throws it is what comes before. -/
structure ModuleCode where
  uses : List Bytes
  implements : List Bytes

namespace ModuleManager

variable (env : Loader) (code : Nat → ModuleCode)

/-- The constructor. -/
def install (mod : Nat) (s : ModuleManager) : ModuleManager :=
  let s := (code mod).uses.foldl (fun s name => s.useInterface name) s
  (code mod).implements.foldl (fun s name => (s.publishInterface name mod).2) s

/-- The destructor: it is done with the interfaces it uses, and unpublishes its own. -/
def destroy (mod : Nat) (s : ModuleManager) : ModuleManager :=
  let s := (code mod).uses.foldl (fun s name => s.doneWithInterface name) s
  (code mod).implements.foldl (fun s name => (s.unpublishInterface name mod).2) s

/-- `Load`, with the constructor, and the destructor of a module that is not taken. -/
def bring (s : ModuleManager) (filename : Bytes) (file : ModuleFile) : ModuleManager :=
  let (done, s') := s.load env filename file
  if s.callsInit env filename file then
    let s' := s'.install code s.next
    -- `delete newmod`, where the pointer is not NULL
    if done = false ∧ file.init = .module then s'.destroy code s.next else s'
  else s'

/-- `Unload`, with the destructor it calls. -/
def delete (s : ModuleManager) (filename : Bytes) : ModuleManager :=
  let (done, s') := s.unload filename
  match s.find filename with
  | some mod => if done then s'.destroy code mod else s'
  | none => s'

/-- `Unload` of all the modules there are. -/
def unloadEach (s : ModuleManager) : ModuleManager := s.getAllModuleNames.foldl (delete code) s

/-- The loop over the modules in `Cleanup`: three tries. -/
def cleanup (s : ModuleManager) : ModuleManager := (unloadEach code)^[3] s

end ModuleManager

/-- Modules come and go, at the start and with a rehash. -/
inductive Shift where
  | load (filename : Bytes) (file : ModuleFile)
  | unload (filename : Bytes)

def ModuleManager.shift (env : Loader) (code : Nat → ModuleCode) (s : ModuleManager) :
    Shift → Option ModuleManager
  | .load filename file => some (s.bring env code filename file)
  | .unload filename => some (s.delete code filename)

end Hottpd
