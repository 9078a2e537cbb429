import Hottpd.Core.Exec

/-!
# `m_cgi`

A request for a file with a registered extension is handed to a process, and
what the process writes becomes the response. The module keeps one
`CGIRequest` for each process and stores the last one of a connection under
the connection; the others stay with the engine, which goes on delivering
their events.

`CgiVars` is what the module knows about one connection. The processes of the
other connections enter through `CgiOs.others`.
-/

namespace Hottpd

open Bytes

/-- `CGITypes`, a `std::map` from extensions to executables. -/
abbrev CgiTypes := SortedMap (fun extension : Bytes => extension.map UInt8.toNat) Bytes

/-- The constructor reads the `cgi` blocks; a later block overrides. -/
def readTypes (blocks : List (Bytes × Bytes)) : CgiTypes :=
  blocks.foldl (fun types block => types.insert block.1 block.2) SortedMap.empty

/-- A process and the pipe from it. -/
structure CGIRequest where
  id : Nat
  /-- What the child was told to run. -/
  command : List Bytes
  rbuf : Bytes
  /-- `GetFd() > -1` -/
  isOpen : Bool
  done : Bool
deriving DecidableEq

inductive CgiEvent where
  | read (res : ReadRes)
  | write
  | error
deriving DecidableEq

/-- The operating system's answers to the module, numbered by the calls of its
hooks. -/
structure CgiOs where
  stat : Nat → Bool → StatResults
  pipe : Nat → Bool × Bool
  fork : Nat → Bool
  addFd : Nat → Bool
  /-- The processes of other connections. -/
  others : Nat → Nat
  /-- The event, and the request it is for. -/
  event : Nat → Nat × CgiEvent

structure CgiConfig where
  types : CgiTypes
  maximumDynamicProcesses : Int

structure CgiVars where
  /-- The requests constructed and not yet destroyed. -/
  live : List CGIRequest
  /-- The one stored in `CGIRequests`. -/
  stored : Option Nat
  made : Nat
  calls : Nat
  /-- An exception that nothing catches has ended the process. -/
  aborted : Bool

def CgiVars.init : CgiVars := ⟨[], none, 0, 0, false⟩

/-! ## The hooks -/

/-- Leave the request to others. -/
def declined : PreAnswer := ⟨some 0, [], fun _ => rfl⟩

/-- The request is ours. -/
def handled (calls : List ModCall) : PreAnswer := ⟨some 1, calls, fun h => absurd rfl h⟩

def dot : UInt8 := 46

section Hooks

variable (env : Env) (cfg : CgiConfig) (os : CgiOs)

def totalCgiProcesses (v : CgiVars) : Int := os.others v.calls + v.live.length

/-- Step 3 in the child, and the parent behind `fork`. -/
def startProcess (exe upath : Bytes) (v : CgiVars) : CgiVars × PreAnswer :=
  let command := if exe = [] then [upath] else [exe, upath]
  let cr : CGIRequest := ⟨v.made, command, [], true, false⟩
  if os.addFd v.calls = false then ({ v with calls := v.calls + 1 }, handled [])
  else
    ({ v with
      live := v.live ++ [cr]
      stored := some cr.id
      made := v.made + 1
      calls := v.calls + 1 }, handled [])

/-- The part of `OnPreRequest` behind the lookup in `CGITypes`. -/
def runScript (exe uri : Bytes) (v : CgiVars) : CgiVars × PreAnswer :=
  let failed := handled [.sendError 500 (str "Internal error") true]
  let v' := { v with calls := v.calls + 1 }
  if cfg.maximumDynamicProcesses < totalCgiProcesses os v + 1 then (v', failed)
  else
    match checkFilePath (os.stat v.calls env.cfg.followSymLinks) env.cfg.docRoot uri with
    | .error e => (v', handled [.sendError (statError e).1 (statError e).2 true])
    | .ok (upath, _) =>
        if (os.pipe v.calls).1 = false then (v', failed)
        else if (os.pipe v.calls).2 = false then (v', failed)
        else if os.fork v.calls = false then (v', failed)
        else startProcess os exe upath v

/-- `ModuleCGI::OnPreRequest`. The lookup goes by what follows the last dot of
the last segment; only behind it the whole path is looked at. -/
def onPreRequest (uri file : Bytes) (v : CgiVars) : CgiVars × PreAnswer :=
  -- probably requesting a dir, drop it
  if file = [] then (v, declined)
  else
    match rfind dot file with
    | none => (v, declined)
    | some pos =>
        let ext := file.drop (pos + 1)
        if ext = [] then (v, declined)
        else
          match cfg.types.lookup ext with
          | none => (v, declined)
          | some exe => runScript env cfg os exe uri v

/-- `delete i->second; CGIRequests.erase(i)` -/
def onFlushed (v : CgiVars) : CgiVars :=
  match v.stored with
  | none => v
  | some id => { v with live := v.live.filter fun cr => cr.id ≠ id, stored := none }

/-- `CGIRequest::Close(true)`. -/
def CGIRequest.close (cr : CGIRequest) : CGIRequest × List ModCall :=
  if cr.isOpen then
    ({ cr with isOpen := false, done := true },
      [.sendHeaders cr.rbuf.length 200 (str "OK"), .sendData, .write cr.rbuf, .bufferDone])
  else (cr, [])

/-- `CGIRequest::HandleEvent`; `none` is an exception. -/
def CGIRequest.handleEvent (ev : CgiEvent) (cr : CGIRequest) :
    Option (CGIRequest × List ModCall) :=
  match ev with
  | .read (.data bytes) => some ({ cr with rbuf := cr.rbuf ++ cstr bytes }, [])
  | .read .eof => if cr.rbuf = [] then none else some cr.close
  | .read .again => some (cr, [])
  | .read .fail => none
  | .write => some (cr, [])
  | .error => some cr.close

/-- The engine calls the handler of a descriptor it watches. -/
def onEvent (v : CgiVars) : CgiVars × List ModCall :=
  let (id, ev) := os.event v.calls
  let v' := { v with calls := v.calls + 1 }
  if v.aborted then (v', [])
  else
    match v.live.find? fun cr => cr.id = id ∧ cr.isOpen with
    | none => (v', [])
    | some cr =>
        match cr.handleEvent ev with
        | none => ({ v' with aborted := true }, [])
        | some (cr', calls) =>
            ({ v' with live := v.live.map fun r => if r.id = id then cr' else r }, calls)

end Hooks

/-! ## The module -/

/-- Where a module keeps its variables among those of all modules. -/
structure Slot (σ τ : Type) where
  get : σ → τ
  set : τ → σ → σ
  get_set : ∀ t s, get (set t s) = t

/-- A slot for a module that is alone. -/
def Slot.whole (τ : Type) : Slot τ τ := ⟨id, fun t _ => t, fun _ _ => rfl⟩

def cgi {σ : Type} (env : Env) (cfg : CgiConfig) (os : CgiOs) (slot : Slot σ CgiVars) :
    Module σ where
  onPreRequest m c _ _ _ file :=
    let (v, answer) := onPreRequest env cfg os c.uri file (slot.get m)
    (slot.set v m, answer)
  onBufferFlushed m _ := slot.set (onFlushed (slot.get m)) m
  handleEvent m _ :=
    let (v, calls) := onEvent os (slot.get m)
    (slot.set v m, calls)

/-! ## Which requests it takes -/

/-- The name of a file as `OnPreRequest` reads it: what follows its last dot is
a registered extension. -/
def registered (types : CgiTypes) (name : Bytes) : Bool :=
  match rfind dot name with
  | none => false
  | some pos => name.drop (pos + 1) ≠ [] ∧ (types.lookup (name.drop (pos + 1))).isSome

theorem startProcess_res (os : CgiOs) (exe upath : Bytes) (v : CgiVars) :
    (startProcess os exe upath v).2.res = some 1 := by
  unfold startProcess
  dsimp only
  split <;> rfl

theorem runScript_res (env : Env) (cfg : CgiConfig) (os : CgiOs) (exe uri : Bytes)
    (v : CgiVars) : (runScript env cfg os exe uri v).2.res = some 1 := by
  unfold runScript
  dsimp only
  split
  · rfl
  · split
    · rfl
    · split
      · rfl
      · split
        · rfl
        · split
          · rfl
          · exact startProcess_res os exe _ v

/-- The module takes what has a registered extension, whatever becomes of it,
and declines everything else. -/
theorem onPreRequest_res (env : Env) (cfg : CgiConfig) (os : CgiOs) (uri file : Bytes)
    (v : CgiVars) :
    (onPreRequest env cfg os uri file v).2.res
      = if registered cfg.types file then some 1 else some 0 := by
  unfold onPreRequest
  by_cases hfile : file = []
  · subst hfile
    rfl
  · rw [if_neg hfile]
    cases hdot : rfind dot file with
    | none =>
        simp only [registered, hdot]
        rfl
    | some pos =>
        dsimp only
        by_cases hext : file.drop (pos + 1) = []
        · rw [if_pos hext]
          simp only [registered, hdot, hext]
          rfl
        · rw [if_neg hext]
          cases hlook : cfg.types.lookup (file.drop (pos + 1)) with
          | none =>
              simp only [registered, hdot, hlook]
              simp [declined]
          | some exe =>
              simp only [registered, hdot, hlook]
              simp [hext, runScript_res]

end Hottpd
