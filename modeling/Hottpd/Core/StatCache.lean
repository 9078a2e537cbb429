import Hottpd.Core.FileSystem
import Hottpd.Lib.SortedMap
import Mathlib.Data.Int.Order.Basic
import Mathlib.Order.Lattice

/-!
# The stat cache: `FileSystem::Stat`

The result of a `stat` or an `lstat` is kept for `StatCacheDuration` seconds,
that of a failed one for one, in a map for each of the two calls. A duration
below one turns the cache off. What the operating system answers is an
argument, new for every call, and `Time()` is as well.

The caller reads `errno`, and a line written to the log may change it on the way.
-/

namespace Hottpd

open Bytes

/-- What a system call leaves: its return value, the buffer it was given and `errno`. -/
structure SysAnswer where
  result : Int
  value : Stat
  errno : Errno
deriving DecidableEq, Repr

/-- The two system calls, at one moment. -/
structure Kernel where
  stat : Bytes → SysAnswer
  lstat : Bytes → SysAnswer

def Kernel.ask (k : Kernel) (followlink : Bool) (path : Bytes) : SysAnswer :=
  if followlink then k.stat path else k.lstat path

structure StatCacheItem where
  created : Nat
  value : Stat
  result : Int
  /-- Zero is `none`. -/
  error : Option Errno

def StatCacheItem.of (time : Nat) (a : SysAnswer) : StatCacheItem :=
  { created := time, value := a.value, result := a.result
    error := if a.result < 0 then some a.errno else none }

abbrev StatMap := SortedMap stringKey StatCacheItem

structure FileSystem where
  statCache : StatMap
  linkStatCache : StatMap
  staticStat : Stat

namespace FileSystem

def cache (fs : FileSystem) (followlink : Bool) : StatMap :=
  if followlink then fs.statCache else fs.linkStatCache

def setCache (fs : FileSystem) (followlink : Bool) (m : StatMap) : FileSystem :=
  if followlink then { fs with statCache := m } else { fs with linkStatCache := m }

@[simp] theorem cache_setCache_self {fs : FileSystem} {follow : Bool} {m : StatMap} :
    (fs.setCache follow m).cache follow = m := by
  cases follow <;> rfl

theorem cache_setCache_of_ne {fs : FileSystem} {follow follow' : Bool} {m : StatMap}
    (h : follow' ≠ follow) : (fs.setCache follow m).cache follow' = fs.cache follow' := by
  cases follow <;> cases follow' <;> first | rfl | exact absurd rfl h

end FileSystem

/-- A `time_t` stored in an `int`. -/
def timeToInt (t : Int) : Int := (t + 2 ^ 31) % 2 ^ 32 - 2 ^ 31

def StatCacheItem.expire (v : StatCacheItem) (duration : Int) : Int :=
  if v.result < 0 then timeToInt (v.created + 1) else timeToInt (v.created + duration)

/-- `Log` at the level of debugging: whether it writes, and what writing leaves of `errno`. -/
structure DebugLog where
  writes : Bool
  leaves : Errno → Errno

/-- `errno` behind a call of `Log`. -/
def DebugLog.errno (log : DebugLog) (e : Errno) : Errno :=
  if log.writes then log.leaves e else e

/-- One call of `Stat`, with the clock, the operating system and the log it meets. -/
structure StatCall where
  time : Nat
  kernel : Kernel
  log : DebugLog
  path : Bytes
  followlink : Bool
  fromcache : Bool

/-- What the caller gets in `buf`, in `errno` and back, what is cached then,
and the answer of the system call, if one was made. -/
structure StatOutcome where
  result : Int
  value : Stat
  errno : Option Errno
  fs : FileSystem
  asked : Option SysAnswer

namespace FileSystem

/-- The cache is off: the call is handed on. -/
def statDirect (fs : FileSystem) (c : StatCall) : StatOutcome :=
  let a := c.kernel.ask c.followlink c.path
  { result := a.result, value := a.value, errno := some a.errno
    fs := { fs with staticStat := a.value }, asked := some a }

/-- Ask the operating system and keep the answer, with a line in the log behind it. -/
def statFresh (fs : FileSystem) (m : StatMap) (c : StatCall) : StatOutcome :=
  let a := c.kernel.ask c.followlink c.path
  { result := a.result, value := a.value, errno := some (c.log.errno a.errno)
    fs := fs.setCache c.followlink (m.insert c.path (StatCacheItem.of c.time a))
    asked := some a }

/-- `Stat`. -/
def stat (duration : Int) (fs : FileSystem) (c : StatCall) : StatOutcome :=
  if duration < 1 then statDirect fs c
  else
    match (fs.cache c.followlink).lookup c.path with
    | none => statFresh fs (fs.cache c.followlink) c
    | some v =>
        if c.fromcache ∧ (c.time : Int) < v.expire duration then
          -- `errno` is set behind the line in the log
          { result := v.result, value := v.value
            errno := if v.result < 0 then v.error else none
            fs := fs, asked := none }
        else statFresh fs ((fs.cache c.followlink).erase c.path) c

/-- Nothing is cached when the server starts. -/
def init (garbage : Stat) : FileSystem :=
  { statCache := SortedMap.empty, linkStatCache := SortedMap.empty, staticStat := garbage }

end FileSystem

/-- A call that was answered. -/
structure StatDone where
  call : StatCall
  outcome : StatOutcome

/-- The calls of a run, one after the other. -/
def statRun (duration : Int) : FileSystem → List StatCall → List StatDone
  | _, [] => []
  | fs, c :: cs =>
      let o := fs.stat duration c
      ⟨c, o⟩ :: statRun duration o.fs cs

end Hottpd
