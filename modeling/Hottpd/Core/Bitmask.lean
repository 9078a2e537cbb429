import Mathlib.Data.List.Basic
import Hottpd.Lib.Bytes

/-!
# Bitmaps: `dynamicbitmask`

A bitfield is a byte of the bitmap and a bit in it. Which are in use is in `freebits`,
an array beside the one of the bits, where a bit that is set is taken. The array is a
static member of the derived class; here it is that of the one object there is.
-/

namespace Hottpd

/-- `bitfield` -/
abbrev Bitfield := Nat × UInt8

/-- `bits_size` is the length of both arrays, and an `unsigned char`. -/
structure DynamicBitmask where
  bits : Bytes
  freebits : Bytes
  same_length : freebits.length = bits.length
  size_le : bits.length ≤ 255

/-- What `current_pos` goes through before the bit is shifted out of it. -/
def bitPositions : List UInt8 := [1, 2, 4, 8, 16, 32, 64, 128]

/-- The loops of `Allocate`, from byte `i` on. -/
def findFree (i : Nat) : Bytes → Option Bitfield
  | [] => none
  | b :: rest =>
      match bitPositions.find? fun current_pos => b &&& current_pos = 0 with
      | some current_pos => some (i, current_pos)
      | none => findFree (i + 1) rest

namespace DynamicBitmask

def new : DynamicBitmask := ⟨[0, 0, 0, 0], [0, 0, 0, 0], rfl, by decide⟩

/-- `Allocate`; `none` is the `bad_alloc`. -/
def allocate (m : DynamicBitmask) : Option Bitfield × DynamicBitmask :=
  match findFree 0 m.freebits with
  | some pos =>
      (some pos, { m with
        freebits := m.freebits.modify pos.1 (· ||| pos.2)
        same_length := (List.length_modify ..).trans m.same_length })
  | none =>
      if h : m.bits.length = 255 then (none, m)
      else
        (some (m.bits.length, 1),
          { bits := m.bits ++ [0]
            freebits := m.freebits ++ [1]
            same_length := by rw [List.length_append, List.length_append, m.same_length]; rfl
            size_le := by
              have := m.size_le
              rw [List.length_append, List.length_singleton]
              omega })

/-- `Deallocate` -/
def deallocate (pos : Bitfield) (m : DynamicBitmask) : Bool × DynamicBitmask :=
  if pos.1 < m.bits.length then
    (true, { m with
      freebits := m.freebits.modify pos.1 (· &&& ~~~pos.2)
      same_length := (List.length_modify ..).trans m.same_length })
  else (false, m)

/-- `Toggle` -/
def toggle (pos : Bitfield) (state : Bool) (m : DynamicBitmask) : DynamicBitmask :=
  if pos.1 < m.bits.length then
    { m with
      bits := m.bits.modify pos.1 fun b => if state then b ||| pos.2 else b &&& ~~~pos.2
      same_length := m.same_length.trans (List.length_modify ..).symm
      size_le := (List.length_modify ..).trans_le m.size_le }
  else m

/-- `Get`; `none` is the exception. -/
def get (pos : Bitfield) (m : DynamicBitmask) : Option Bool :=
  m.bits[pos.1]?.map fun b => b &&& pos.2 ≠ 0

end DynamicBitmask

/-! ## A user of the class -/

/-- The object, and what its user knows: the bitfields that are outstanding with what each was
last set to, and all there have been. -/
structure BitmaskUser where
  mask : DynamicBitmask
  outstanding : List (Bitfield × Bool)
  handed : List Bitfield

inductive BitmaskCall where
  | allocate
  | deallocate (pos : Bitfield)
  | toggle (pos : Bitfield) (state : Bool)
deriving DecidableEq

namespace BitmaskUser

def new : BitmaskUser := ⟨DynamicBitmask.new, [], []⟩

/-- A call: `none` for a bitfield given back that is not outstanding, or set though it has never
been handed out. -/
def step (u : BitmaskUser) : BitmaskCall → Option BitmaskUser
  | .allocate =>
      some
        { mask := u.mask.allocate.2
          outstanding := u.outstanding ++ u.mask.allocate.1.toList.map fun pos => (pos, false)
          handed := u.handed ++ u.mask.allocate.1.toList }
  | .deallocate pos =>
      if pos ∈ u.outstanding.map Prod.fst then
        some { u with
          mask := (u.mask.deallocate pos).2
          outstanding := u.outstanding.filter fun e => e.1 ≠ pos }
      else none
  | .toggle pos state =>
      if pos ∈ u.handed then
        some { u with
          mask := u.mask.toggle pos state
          outstanding := u.outstanding.map fun e => if e.1 = pos then (pos, state) else e }
      else none

end BitmaskUser

end Hottpd
