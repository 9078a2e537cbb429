import Hottpd.Lib.Bytes

/-!
# Durations: `InspIRCd::Duration`

A duration is scanned from its end. The digits met build up a number, and the letter in
front of them ends it; what to multiply it by was met before, since the letter of a
number stands behind it.
-/

namespace Hottpd

open Bytes

/-- The result of 64-bit arithmetic as a `long`. -/
def toLong (n : Int) : Int := (n + 2 ^ 63) % 2 ^ 64 - 2 ^ 63

/-- `duration_multi` -/
def durationMulti : List Int :=
  [1, 1, 1, 1, 1, 1, 1, 1, 1, 1, 1, 1, 1, 1, 1,
   1, 1, 1, 1, 1, 1, 1, 1, 1, 1, 1, 1, 1, 1, 1,
   1, 1, 1, 1, 1, 1, 1, 1, 1, 1, 1, 1, 1, 1, 1,
   1, 1, 1, 1, 1, 1, 1, 1, 1, 1, 1, 1, 1, 1, 1,
   1, 1, 1, 1, 1, 1, 1, 1, 86400, 1, 1, 1, 3600,
   1, 1, 1, 1, 60, 1, 1, 1, 1, 1, 1, 1, 1, 1,
   604800, 1, 31536000, 1, 1, 1, 1, 1, 1, 1, 1,
   1, 1, 86400, 1, 1, 1, 3600, 1, 1, 1, 1, 60,
   1, 1, 1, 1, 1, 1, 1, 1, 1, 604800, 1, 31536000,
   1, 1, 1, 1, 1, 1, 1, 1, 1, 1, 1, 1, 1, 1, 1,
   1, 1, 1, 1, 1, 1, 1, 1, 1, 1, 1, 1, 1, 1, 1,
   1, 1, 1, 1, 1, 1, 1, 1, 1, 1, 1, 1, 1, 1, 1,
   1, 1, 1, 1, 1, 1, 1, 1, 1, 1, 1, 1, 1, 1, 1,
   1, 1, 1, 1, 1, 1, 1, 1, 1, 1, 1, 1, 1, 1, 1,
   1, 1, 1, 1, 1, 1, 1, 1, 1, 1, 1, 1, 1, 1, 1,
   1, 1, 1, 1, 1, 1, 1, 1, 1, 1, 1, 1, 1, 1, 1,
   1, 1, 1, 1, 1, 1, 1, 1, 1, 1, 1, 1, 1, 1, 1,
   1, 1, 1, 1, 1, 1, 1, 1, 1, 1, 1, 1, 1, 1]

structure DurationScan where
  multiplier : UInt8
  total : Int
  times : Int
  subtotal : Int

namespace DurationScan

def new : DurationScan := ⟨0, 0, 1, 0⟩

/-- `subtotal * duration_multi[multiplier]` -/
def product (s : DurationScan) : Int := s.subtotal * durationMulti.getD s.multiplier.toNat 0

/-- The loop body. -/
def step (s : DurationScan) (c : UInt8) : DurationScan :=
  if isdigit c then
    { s with
      subtotal := toLong (s.subtotal + ((c.toNat - 48 : Nat) : Int) * s.times)
      times := toLong (s.times * 10) }
  else
    { multiplier := c
      total := if s.subtotal ≠ 0 then toLong (s.total + s.product) else s.total
      times := 1
      subtotal := 0 }

end DurationScan

/-- `InspIRCd::Duration` -/
def duration (str : Bytes) : Int :=
  let s := str.reverse.foldl DurationScan.step DurationScan.new
  if s.multiplier ≠ 0 then toLong (s.total + s.product) else toLong (s.total + s.subtotal)

end Hottpd
