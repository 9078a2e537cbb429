import Hottpd.Lib.Bytes
import Hottpd.Lib.Simulation

/-!
# Strings in buffers

The functions of `inspstring.cpp`, byte by byte. A buffer is the memory from its
pointer on, a pointer into it is a position, and an access behind its end is `none`.
The loops count what is left as the code does.

A bounded string is what such a buffer is for: the text in front of its NUL.
-/

namespace Hottpd

open Bytes Simulation

namespace InspString

/-- `*p` -/
def peek (buf : Bytes) (p : Nat) : Option UInt8 := buf[p]?

/-- `*p = c` -/
def poke (buf : Bytes) (p : Nat) (c : UInt8) : Option Bytes :=
  if p < buf.length then some (buf.set p c) else none

/-- `while (*s++);`, on what is left of the memory behind `s`. -/
def skip : Bytes → Nat → Option Nat
  | [], _ => none
  | c :: rest, s => if c = 0 then some (s + 1) else skip rest (s + 1)

def strlen (s : Bytes) : Option Nat := (skip s 0).map (· - 1)

/-! ## `strlcpy` -/

/-- The loop that copies: `n`, `d`, `s` and the memory at `dst` where it stops. -/
def copyLoop (src : Bytes) : Nat → Nat → Nat → Bytes → Option (Nat × Nat × Nat × Bytes)
  | 0, d, s, dst => some (0, d, s, dst)
  | n + 1, d, s, dst =>
      (peek src s).bind fun c =>
        (poke dst d c).bind fun dst =>
          if c = 0 then some (n + 1, d + 1, s + 1, dst) else copyLoop src n (d + 1) (s + 1) dst

/-- Behind the loop: a NUL where there was not enough room, and the rest of `src` looked
through. -/
def finishCopy (src : Bytes) (siz : Nat) : Nat × Nat × Nat × Bytes → Option (Nat × Bytes)
  | (n, d, s, dst) =>
      if n = 0 then
        (if siz ≠ 0 then poke dst d 0 else some dst).bind fun dst =>
          (skip (src.drop s) s).map fun s => (s - 1, dst)
      else some (s - 1, dst)

def strlcpy (dst src : Bytes) (siz : Nat) : Option (Nat × Bytes) :=
  (if siz ≠ 0 ∧ siz - 1 ≠ 0 then copyLoop src (siz - 1) 0 0 dst
    else some (siz - 1, 0, 0, dst)).bind (finishCopy src siz)

/-! ## `strlcat` -/

/-- The loop that looks for the end, at most `n` bytes on. -/
def findEnd (dst : Bytes) : Nat → Nat → Option Nat
  | 0, d => some d
  | n + 1, d => (peek dst d).bind fun c => if c ≠ 0 then findEnd dst n (d + 1) else some d

/-- The loop that appends, on what is left of the memory behind `s`. -/
def appendLoop : Bytes → Nat → Nat → Nat → Bytes → Option (Nat × Nat × Bytes)
  | [], _, _, _, _ => none
  | c :: rest, s, n, d, dst =>
      if c = 0 then some (s, d, dst)
      else if n ≠ 1 then
        (poke dst d c).bind fun dst => appendLoop rest (s + 1) (n - 1) (d + 1) dst
      else appendLoop rest (s + 1) n d dst

def strlcat (dst src : Bytes) (siz : Nat) : Option (Nat × Bytes) :=
  (findEnd dst siz 0).bind fun dlen =>
    let n := siz - dlen
    if n = 0 then (strlen src).map fun len => (dlen + len, dst)
    else
      (appendLoop src 0 n dlen dst).bind fun (s, d, dst) =>
        (poke dst d 0).map fun dst => (dlen + s, dst)

/-! ## Characters -/

def charlcat (x : Bytes) (y : UInt8) (z : Int) : Option (Nat × Bytes) :=
  (strlen x).bind fun v =>
    if (v : Int) < z - 1 then
      ((poke x v y).bind fun x => poke x (v + 1) 0).map fun x => (v, x)
    else some (v, x)

/-- The loop of `charremove`, on what is left of the memory behind `mptr`. -/
def removeLoop (remove : UInt8) : Bool → Bytes → Option (Bool × Bytes)
  | _, [] => none
  | shift, c :: rest =>
      if c = 0 then some (shift, c :: rest)
      else
        let shift := shift || c = remove
        if shift then
          (peek rest 0).bind fun next =>
            (removeLoop remove shift rest).map fun (shift, rest) => (shift, next :: rest)
        else (removeLoop remove shift rest).map fun (shift, rest) => (shift, c :: rest)

def charremove (mp : Bytes) (remove : UInt8) : Option (Bool × Bytes) := removeLoop remove false mp

end InspString

/-! ## What a buffer is for -/

/-- A text without NUL. -/
structure Text where
  bytes : Bytes
  free : 0 ∉ bytes

/-- A text that fits in front of a NUL into a buffer of this size. -/
structure BoundedString (siz : Nat) extends Text where
  fits : bytes.length < siz

/-- A call on one buffer. The memory at `src` goes on behind its NUL. -/
inductive StringCall where
  | strlcpy (src : Text) (behind : Bytes)
  | strlcat (src : Text) (behind : Bytes)
  | charlcat (y : UInt8) (hy : y ≠ 0)
  | charremove (remove : UInt8)

def Text.memory (t : Text) (behind : Bytes) : Bytes := t.bytes ++ 0 :: behind

namespace BoundedString

variable {siz : Nat}

def empty (h : 0 < siz) : BoundedString siz where
  bytes := []
  free h := by cases h
  fits := h

/-- As much of a text as fits. -/
def truncate (h : 0 < siz) (bytes : Bytes) (free : 0 ∉ bytes) : BoundedString siz where
  bytes := bytes.take (siz - 1)
  free hmem := free (List.mem_of_mem_take hmem)
  fits := by
    rw [List.length_take]
    omega

/-- The answer of a call and the text behind it. -/
def step (h : 0 < siz) : StringCall → BoundedString siz → Nat × BoundedString siz
  | .strlcpy src _, _ => (src.bytes.length, truncate h src.bytes src.free)
  | .strlcat src _, t =>
      (t.bytes.length + src.bytes.length, truncate h (t.bytes ++ src.bytes) fun hmem =>
        (List.mem_append.1 hmem).elim t.free src.free)
  | .charlcat y hy, t =>
      (t.bytes.length,
        if t.bytes.length + 1 < siz then
          truncate h (t.bytes ++ [y]) fun hmem => (List.mem_append.1 hmem).elim t.free fun hmem =>
            hy (List.mem_singleton.1 hmem).symm
        else t)
  | .charremove remove, t =>
      (if remove ∈ t.bytes then 1 else 0, {
        bytes := t.bytes.erase remove
        free := fun hmem => t.free (List.mem_of_mem_erase hmem)
        fits := Nat.lt_of_le_of_lt (List.length_erase_le) t.fits })

def machine (h : 0 < siz) : Machine (BoundedString siz) StringCall (Option Nat) where
  start := empty h
  step call t := ((step h call t).1, (step h call t).2)

end BoundedString

namespace InspString

/-- A call with the size of the buffer; a `bool` is answered as 0 or 1. -/
def call (siz : Nat) (buf : Bytes) : StringCall → Option (Nat × Bytes)
  | .strlcpy src behind => strlcpy buf (src.memory behind) siz
  | .strlcat src behind => strlcat buf (src.memory behind) siz
  | .charlcat y _ => charlcat buf y siz
  | .charremove remove => (charremove buf remove).map fun (found, buf) => (found.toNat, buf)

/-- A buffer under calls, until one of them leaves it. -/
def machine (siz : Nat) (buf : Bytes) : Machine (Option Bytes) StringCall (Option Nat) where
  start := some buf
  step c s :=
    match s.bind fun buf => call siz buf c with
    | none => (none, none)
    | some (answer, buf) => (some answer, some buf)

end InspString

end Hottpd
