import Hottpd.Core.Wildcard

/-!
# Addresses and masks: `MatchCIDR`

`MatchCIDRBits` compares two arrays up to a number of bits, the odd bits first.
`MatchCIDR` has the arrays from `inet_pton` and the number from the text behind the
last slash of the mask. An array is given by the bytes that have been written to
it, and `none` is for a read beyond these.
-/

namespace Hottpd

open Bytes

/-! ## `MatchCIDRBits` -/

/-- `inverted_bits` -/
def invertedBits : List UInt8 := [0x00, 0x80, 0xC0, 0xE0, 0xF0, 0xF8, 0xFC, 0xFE]

/-- `memcmp(a, b, n)`: whether there is a difference. -/
def memcmp (a b : Bytes) (n : Nat) : Option Bool :=
  if n ≤ a.length ∧ n ≤ b.length then some (a.take n ≠ b.take n) else none

/-- The comparison of the odd bits, where there are any. -/
def oddBitsDiffer (address mask : Bytes) (divisor modulus : Nat) : Option Bool :=
  if modulus = 0 then some false
  else
    match address[divisor]?, mask[divisor]?, invertedBits[modulus]? with
    | some a, some m, some bits => some (a &&& bits ≠ m &&& bits)
    | _, _, _ => none

def matchCIDRBits (address mask : Bytes) (maskBits : Nat) : Option Bool :=
  let divisor := maskBits / 8
  let modulus := maskBits % 8
  match oddBitsDiffer address mask divisor modulus with
  | none => none
  | some true => some false
  | some false => (memcmp address mask divisor).map not

/-! ## `MatchCIDR` -/

inductive AddressFamily where
  | inet
  | inet6
deriving DecidableEq

/-- The bytes of an address. -/
def AddressFamily.size : AddressFamily → Nat
  | .inet => 4
  | .inet6 => 16

/-- What `inet_pton` writes where it returns a positive number. -/
abbrev InetPton := (af : AddressFamily) → Bytes → Option { raw : Bytes // raw.length = af.size }

section MatchCIDR

-- `ip6links` is for `SUPPORT_IP6LINKS`
variable (ip6links : Bool) (inetPton : InetPton)

/-- The family in which the address is valid, the newer one first. -/
def addressFamily (address : Bytes) : Option AddressFamily :=
  if ip6links = true ∧ (inetPton .inet6 address).isSome then some .inet6
  else if (inetPton .inet address).isSome then some .inet
  else none

/-- The address and the mask in one family. -/
def matchFamily (af : AddressFamily) (address mask : Bytes) (bits : Nat) : Option Bool :=
  match inetPton af address, inetPton af mask with
  | some addrRaw, some maskRaw =>
      matchCIDRBits addrRaw.val maskRaw.val (if 8 * af.size < bits then 8 * af.size else bits)
  | _, _ => some false

/-- Without a username. -/
def matchCIDRHost (address cidrMask : Bytes) : Option Bool :=
  match rfind 47 cidrMask with
  | none => some false
  | some slash =>
      let bits := atoi (cidrMask.drop (slash + 1))
      match addressFamily ip6links inetPton address with
      | none => some false
      | some af => matchFamily inetPton af address (cidrMask.take slash) bits

/-- The parts before the first `@` are matched by `match`. -/
def matchCIDR (address cidrMask : Bytes) (matchWithUsername : Bool) : Option Bool :=
  if matchWithUsername then
    match find [64] cidrMask, find [64] address with
    | some maskPos, some addrPos =>
        if match_ (address.take addrPos) (cidrMask.take maskPos) then
          matchCIDRHost ip6links inetPton (address.drop (addrPos + 1))
            (cidrMask.drop (maskPos + 1))
        else some false
    | _, _ => matchCIDRHost ip6links inetPton address cidrMask
  else matchCIDRHost ip6links inetPton address cidrMask

end MatchCIDR

end Hottpd
