import Hottpd.Core.ModuleManager
import Hottpd.Core.ConfigReader
import Hottpd.Core.Wildcard
import Hottpd.Core.Ports

/-!
# Loading by a pattern, and `LoadAll`

`Load` takes the name of a file or a pattern, and calls itself for each entry of
the modules directory that the pattern matches. An entry may be a pattern itself,
and is one that matches itself: what ends the recursion is that a directory
cannot be opened any more.
-/

namespace Hottpd

open Bytes

/-- The modules directory, and what its files are. -/
structure Library where
  env : Loader
  file : Bytes → ModuleFile
  /-- The entries as `readdir` gives them. -/
  entries : List Bytes

namespace Library

/-- The entries read, none if `opendir` fails; `fds` is how many directories can still be
opened. -/
def listing (lib : Library) (fds : Nat) : List Bytes := if fds = 0 then [] else lib.entries

end Library

/-- The loop over the directory: the calls of `Load` it has made, and `n_match`. -/
structure GlobRun where
  attempts : List (Bytes × Bool)
  nMatch : Nat
  manager : ModuleManager

/-- `strchr(filename,'*') || (strchr(filename,'?'))` -/
def isPattern (filename : Bytes) : Bool := 42 ∈ filename ∨ 63 ∈ filename

namespace ModuleManager

/-- The loop body. -/
def tryEntry (load : Bytes → ModuleManager → Bool × ModuleManager) (filename : Bytes)
    (run : GlobRun) (d_name : Bytes) : GlobRun :=
  if matchText d_name filename then
    let (loaded, manager) := load d_name run.manager
    { attempts := run.attempts ++ [(d_name, loaded)]
      nMatch := if loaded then run.nMatch else run.nMatch + 1
      manager := manager }
  else run

/-- The loop. -/
def globRun (load : Bytes → ModuleManager → Bool × ModuleManager) (filename : Bytes)
    (listing : List Bytes) (m : ModuleManager) : GlobRun :=
  listing.foldl (tryEntry load filename) ⟨[], 0, m⟩

/-- `ModuleManager::Load` -/
def loadAny (lib : Library) : Nat → Bytes → ModuleManager → Bool × ModuleManager
  | fds, filename, m =>
      if isPattern filename then
        match fds with
        | 0 => (false, m)
        | fds + 1 =>
            let run := globRun (loadAny lib fds) filename (lib.listing (fds + 1)) m
            (0 < run.nMatch, run.manager)
      else load lib.env filename (lib.file filename) m

/-! ## `LoadAll` -/

/-- What the loop over the tags goes on with. -/
structure Loading where
  data : ConfigDataHash
  manager : ModuleManager

/-- `ConfValue` into `configToken`, which has the size of the buffers. -/
def configToken (lib : Library) (count : Nat) (data : ConfigDataHash) : Bytes × ConfigDataHash :=
  let (value, data) := confValue data (str "module") (str "name") [] count false
  (strlcpy (value.getD []) lib.env.maxbuf, data)

/-- The loop body; where it is false the server exits. -/
def loadTag (lib : Library) (fds count : Nat) (st : Loading) : Bool × Loading :=
  let (token, data) := configToken lib count st.data
  let (loaded, manager) := loadAny lib fds token st.manager
  (loaded, ⟨data, manager⟩)

/-- The loop over `n` more tags. -/
def loadTags (lib : Library) (fds : Nat) : Nat → Nat → Loading → Bool × Loading
  | 0, _, st => (true, st)
  | n + 1, count, st =>
      match loadTag lib fds count st with
      | (true, st) => loadTags lib fds n (count + 1) st
      | (false, st) => (false, st)

def loadAll (lib : Library) (fds : Nat) (data : ConfigDataHash) (m : ModuleManager) :
    Bool × Loading :=
  loadTags lib fds (data.count (str "module")) 0 ⟨data, { m with modCount := -1 }⟩

end ModuleManager

end Hottpd
