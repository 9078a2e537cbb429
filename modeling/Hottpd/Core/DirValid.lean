import Hottpd.Core.Ports

/-!
# The directory of a path: `DirValid`

What a directory's canonical name is can only be asked for the working directory, so the
function goes there and comes back. Each of the four calls can fail.

The directories are the system's and stay as they are for the length of a call. A path in
full is resolved by the system; links are followed there.
-/

namespace Hottpd

open Bytes

/-- The directories, with the names that `getcwd` gives them. `resolve` is what `chdir` makes of a
path. -/
structure FileTree where
  Dir : Type
  name : Dir → Bytes
  resolve : Dir → Bytes → Option Dir
  resolve_name : ∀ cwd dir, resolve cwd (name dir) = some dir
  resolve_nil : ∀ cwd, resolve cwd [] = none
  resolve_root : ∀ cwd, ∃ root, resolve cwd (str "/") = some root ∧ name root = str "/"

/-- Which of the calls fail, whatever they are asked for: by the order they are made in. -/
structure CallFailures where
  getcwd : Bool
  chdir : Bool
  getcwdThere : Bool
  chdirBack : Bool
deriving DecidableEq

namespace FileTree

variable (tree : FileTree)

/-- `getcwd(buffer, size)`, or `none` for NULL. -/
def getcwd (fails : Bool) (size : Nat) (cwd : tree.Dir) : Option Bytes :=
  if fails ∨ size ≤ (tree.name cwd).length then none else some (tree.name cwd)

/-- `chdir(path)`: the directory that is the working directory then, or `none` for -1. -/
def chdir (fails : Bool) (path : Bytes) (cwd : tree.Dir) : Option tree.Dir :=
  if fails then none else tree.resolve cwd path

end FileTree

/-- The loop over `work` from its NUL, which is put at `p`. -/
def cutDir : Nat → Bytes → Bytes
  | 0, _ => []
  | p + 1, work =>
      if work = [] then []
      else if work[p + 1]? = some 47 then work.take (p + 1)
      else cutDir p (work.take (p + 1))

/-- The comparison of what `getcwd` gave with `work`. -/
def sameDir (otherdir work : Bytes) : Bool :=
  let t := work.length
  if t ≤ otherdir.length then otherdir.take t == work else false

/-- What is done with `work`: what is returned, and what the working directory is then. -/
def checkDir (tree : FileTree) (fails : CallFailures) (work : Bytes) (cwd : tree.Dir) :
    Bool × tree.Dir :=
  match tree.getcwd fails.getcwd 1024 cwd with
  | none => (false, cwd)
  | some buffer =>
      match tree.chdir fails.chdir work cwd with
      | none => (false, cwd)
      | some dir =>
          match tree.getcwd fails.getcwdThere 1024 dir with
          | none => (false, dir)
          | some otherdir =>
              match tree.chdir fails.chdirBack buffer dir with
              | none => (false, dir)
              | some cwd => (sameDir otherdir work, cwd)

def dirValid (tree : FileTree) (fails : CallFailures) (dirandfile : Bytes) (cwd : tree.Dir) :
    Bool × tree.Dir :=
  let work := strlcpy dirandfile 1024
  checkDir tree fails (cutDir work.length work) cwd

end Hottpd
