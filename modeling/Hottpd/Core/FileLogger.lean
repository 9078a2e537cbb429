import Hottpd.Lib.Bytes

/-!
# The log: `FileLogger`

The descriptor of the log does not block, so a line may be written in part or not at all.
What is left is meant to stay in `buffer` until the engine calls `HandleEvent`. The engine
is there by its answers only: whether `AddFd` takes a descriptor that it has not got, and
whether `DelFd` removes one.

What `fprintf` has taken counts as written. A buffer is short enough for its length to
be an `int`.
-/

namespace Hottpd

open Bytes

/-- What comes of a `fprintf`. -/
inductive WriteOutcome where
  /-- The first `n` bytes are taken, or all if there are no more. -/
  | took (n : Nat)
  /-- -1 and `EAGAIN` -/
  | again
  /-- -1 and some other error -/
  | failed
deriving DecidableEq

structure LoggerAnswers where
  written : WriteOutcome
  added : Bool
  removed : Bool
deriving DecidableEq

/-- The logger. `log` is whether the file is open, `file` what has been written to it. The last
two are ours: all lines there have been, and whether the buffer is not empty because a write has
left something over. -/
structure FileLogger where
  log : Bool
  buffer : Bytes
  registered : Bool
  file : Bytes
  logged : Bytes
  pending : Bool
deriving DecidableEq

namespace FileLogger

def new (log : Bool) : FileLogger := ⟨log, [], false, [], [], false⟩

/-- `ServerInstance->SE->AddFd(this)`, which refuses a descriptor that it has. -/
def addFd (a : LoggerAnswers) (l : FileLogger) : FileLogger :=
  { l with registered := l.registered || a.added }

/-- `ServerInstance->SE->DelFd(this)` -/
def delFd (a : LoggerAnswers) (l : FileLogger) : FileLogger :=
  { l with registered := l.registered && !a.removed }

/-- What `WriteLogLine` does with an open log, the line being in the buffer. -/
def writeBuffer (a : LoggerAnswers) (l : FileLogger) : FileLogger :=
  match a.written with
  | .took n =>
      let text := cstr l.buffer
      let written := min n text.length
      let l := { l with file := l.file ++ text.take written }
      if written < l.buffer.length then
        let buffer := l.buffer.drop l.buffer.length
        { l with buffer := buffer, pending := !buffer.isEmpty }.addFd a
      else { l with buffer := [], pending := false }
  | .again => { l with pending := !l.buffer.isEmpty }.addFd a
  | .failed => l

def writeLogLine (line : Bytes) (a : LoggerAnswers) (l : FileLogger) : FileLogger :=
  let l := { l with
    buffer := if line ≠ [] then l.buffer ++ line else l.buffer
    logged := l.logged ++ line }
  if l.log then l.writeBuffer a else l

def handleEvent (a : LoggerAnswers) (l : FileLogger) : FileLogger :=
  let l := l.writeLogLine [] a
  if l.log then l.delFd a else l

end FileLogger

inductive LoggerEvent where
  | writeLogLine (line : Bytes) (a : LoggerAnswers)
  | handleEvent (a : LoggerAnswers)

/-- Any line and any write event can come at any time. -/
def FileLogger.step (l : FileLogger) : LoggerEvent → Option FileLogger
  | .writeLogLine line a => some (l.writeLogLine line a)
  | .handleEvent a => some (l.handleEvent a)

end Hottpd
