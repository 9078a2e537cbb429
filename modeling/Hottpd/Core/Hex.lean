import Hottpd.Core.Uri

/-!
# Hexadecimal text: `hex`

`hex` writes two characters for each byte into a static buffer of `MAXBUF` bytes and
returns what is in it up to the NUL. How many bytes it is given is not looked at.
-/

namespace Hottpd

open Bytes

/-- `hexbuf[i++] = c`, where the bytes before `i` are the ones written; `none` where `i` is behind
the end of the buffer. -/
def putHex (maxbuf : Nat) (hexbuf : Bytes) (c : UInt8) : Option Bytes :=
  if hexbuf.length < maxbuf then some (hexbuf ++ [c]) else none

def hexChar (n : UInt8) : UInt8 := (str "0123456789abcdef").getD n.toNat 0

/-- The loop body. -/
def putByte (maxbuf : Nat) (hexbuf : Bytes) (b : UInt8) : Option Bytes :=
  (putHex maxbuf hexbuf (hexChar (b / 16))).bind fun hexbuf =>
    putHex maxbuf hexbuf (hexChar (b % 16))

def hex (maxbuf : Nat) (raw : Bytes) : Option Bytes :=
  if raw = [] then some []
  else
    (raw.foldlM (putByte maxbuf) []).bind fun hexbuf =>
      (putHex maxbuf hexbuf 0).map cstr

/-- `unhexchar` on one pair of characters after the other. -/
def unhexPairs : Bytes → Option Bytes
  | [] => some []
  | [_] => none
  | a :: b :: rest => (unhexchar a b).bind fun v => (unhexPairs rest).map (v :: ·)

end Hottpd
