import Hottpd.Lib.Bytes

/-!
# Files as lines: `ServerConfig::ReadFile` and `FileReader`

The loop asks for the end of the file before a line is read and again behind it, and what
is read when the end has been met is not stored. `feof` becomes true when a read goes past
the last byte, not when the last byte is read.

A line buffer has two bytes or more. The size of a file that is held as lines is below what
an `unsigned long` can hold.
-/

namespace Hottpd

open Bytes

/-! ## `stdio` -/

/-- A file that is being read: what is still to be read, and what `feof` answers. -/
structure Stream where
  rest : Bytes
  eof : Bool
deriving DecidableEq

/-- At most `n` bytes up to a newline, which is one of them: the bytes, those behind them, and
whether the end was met. -/
def readUpto : Nat → Bytes → Bytes × Bytes × Bool
  | 0, rest => ([], rest, false)
  | _ + 1, [] => ([], [], true)
  | n + 1, c :: rest =>
      if c = 10 then ([c], rest, false)
      else
        let (got, rest, eof) := readUpto n rest
        (c :: got, rest, eof)

/-- `fgets(linebuf, size, file)`: what it stores, or `none` for NULL. -/
def Stream.fgets (size : Nat) (file : Stream) : Option Bytes × Stream :=
  let (got, rest, eof) := readUpto (size - 1) file.rest
  (if got = [] then none else some got, ⟨rest, file.eof || eof⟩)

/-- What the system answers about paths: the `st_mode` of a `stat` that succeeds, whether
`FileExists` can open the file, and what can be read from it when it is opened again. -/
structure Disk where
  stat : Bytes → Option Nat
  opens : Bytes → Bool
  read : Bytes → Option Bytes

/-! ## The functions -/

/-- `S_IFDIR` -/
def sIfdir : Nat := 0o040000

def fileExists (disk : Disk) (file : Bytes) : Bool :=
  match disk.stat file with
  | none => false
  | some mode => if 0 < mode &&& sIfdir then false else disk.opens file

/-- What `linebuf` becomes a line of the cache as. -/
def entry (linebuf : Bytes) : Bytes := if linebuf ≠ [] then linebuf else str " "

/-- The loop over the lines. Where the text begins with a NUL, the byte in front of `linebuf` is
written to. -/
def readLines (maxbuf : Nat) : Nat → Stream → List Bytes → Option (List Bytes)
  | 0, _, _ => none
  | fuel + 1, file, F =>
      if file.eof then some F
      else
        let (got, file) := file.fgets maxbuf
        let linebuf := ((got.map cstr).getD []).dropLast
        readLines maxbuf fuel file (if file.eof then F else F ++ [entry linebuf])

/-- The path that `fname` is opened by. -/
def newfile (configFileName fname : Bytes) : Bytes :=
  if fname.head? ≠ some 47 ∧ fname.head? ≠ some 92 then
    match rfind 47 configFileName with
    | some pos => configFileName.take pos ++ str "/" ++ fname
    | none =>
        match rfind 92 configFileName with
        | some pos => configFileName.take pos ++ str "\\" ++ fname
        | none => fname
  else fname

/-- What `ReadFile` returns, and what is in `F` then. -/
def readFile (maxbuf : Nat) (disk : Disk) (configFileName : Bytes) (F : List Bytes)
    (fname : Bytes) : Option (Bool × List Bytes) :=
  if fname = [] then some (false, F)
  else
    let file := newfile configFileName fname
    if fileExists disk file then
      match disk.read file with
      | some text => (readLines maxbuf (text.length + 2) ⟨text, false⟩ []).map (Prod.mk true)
      | none => some (false, [])
    else some (false, [])

structure FileReader where
  fc : List Bytes
  contentsize : Nat
deriving DecidableEq

namespace FileReader

def contents (r : FileReader) : Bytes := r.fc.foldl (fun x a => x ++ a ++ crlf) []

def calcSize (r : FileReader) : FileReader :=
  { r with contentsize := r.fc.foldl (fun n a => n + (a.length + 2)) 0 }

def loadFile (maxbuf : Nat) (disk : Disk) (configFileName filename : Bytes) (r : FileReader) :
    Option FileReader :=
  (readFile maxbuf disk configFileName [] (cstr filename)).map fun read =>
    if read.1 then { r with fc := read.2 }.calcSize else r

end FileReader

end Hottpd
