import Hottpd.Core.ConfigReader
import Hottpd.Core.ModuleManager
import Hottpd.Core.Ports

/-!
# Numbers and booleans in the configuration

There are two readers of a typed value. `ConfValueInteger` and `ConfValueBool`
look the value up and convert it on their own; `ServerConfig::Read` has the
value copied to a buffer, and asks a `ValueItem` for it. The products of an
`int` are those of 32 bits.
-/

namespace Hottpd

open Bytes

/-- A sign in front of a number: whether it is a minus, and what is behind it. -/
def takeSign : Bytes → Bool × Bytes
  | 45 :: rest => (true, rest)
  | 43 :: rest => (false, rest)
  | rest => (false, rest)

/-- `stream >> result` for an `int`: it fails where there are no digits or the number is out of
range. -/
def extractInt (s : Bytes) : Option Int :=
  let (negative, rest) := takeSign (s.dropWhile isspace)
  let n : Int := if negative then -digits rest else digits rest
  if rest.takeWhile isdigit = [] ∨ n < -2 ^ 31 ∨ 2 ^ 31 ≤ n then none else some n

def isxdigit (b : UInt8) : Bool := isdigit b ∨ (65 ≤ toupper b ∧ toupper b ≤ 70)

def xdigit (b : UInt8) : Nat := if isdigit b then b.toNat - 48 else (toupper b).toNat - 55

/-- The value of the hexadecimal digits a string starts with. -/
def xdigits (s : Bytes) : Nat :=
  (s.takeWhile isxdigit).foldl (fun n b => n * 16 + xdigit b) 0

/-- A `0x` in front of a hexadecimal digit is passed over. -/
def dropHexPrefix : Bytes → Bytes
  | 48 :: x :: b :: rest =>
      if toupper x = 88 ∧ isxdigit b = true then b :: rest else 48 :: x :: b :: rest
  | s => s

/-- `strtol(s, &endptr, 16)` with a 64-bit `long`, or `none` where `endptr` is left at `s`. -/
def strtolHex (s : Bytes) : Option Int :=
  let (negative, rest) := takeSign ((cstr s).dropWhile isspace)
  let rest := dropHexPrefix rest
  if rest.takeWhile isxdigit = [] then none
  else some (if negative then max (-(xdigits rest)) (-2 ^ 63) else min (xdigits rest) (2 ^ 63 - 1))

/-- How many times the letter at the end multiplies by 1024. -/
def denominator (value : Bytes) : Nat :=
  match value.getLast?.map toupper with
  | some 75 => 1
  | some 77 => 2
  | some 71 => 3
  | _ => 0

/-- `result * 1024`, this many times over. -/
def scale : Nat → Int → Int
  | 0, result => result
  | n + 1, result => scale n (toInt (result * 1024))

/-- What `ConfValueInteger` makes of a value, or `none` where it returns false. -/
def convertInteger (value : Bytes) : Option Int :=
  (extractInt value).bind fun result =>
    if str "0x" <+: value then (strtolHex (value.drop 2)).map toInt
    else some (scale (denominator value) result)

/-- `ConfValueInteger`: the result, or `none` where it returns false. Where no value is found
the stream is empty. -/
def confValueInteger (target : ConfigDataHash) (tag var default_value : Bytes) (index : Int) :
    Option Int × ConfigDataHash :=
  let (value, target) := confValue target tag var default_value index false
  (value.bind convertInteger, target)

def confValueBool (target : ConfigDataHash) (tag var default_value : Bytes) (index : Int) :
    Bool × ConfigDataHash :=
  let (value, target) := confValue target tag var default_value index false
  (value = some (str "yes") ∨ value = some (str "true") ∨ value = some (str "1"), target)

/-! ## `ValueItem` -/

/-- The text of a value; all are made from C strings. -/
structure ValueItem where
  v : Bytes

namespace ValueItem

def getInteger (item : ValueItem) : Int := if item.v = [] then 0 else atoiInt item.v

/-- `GetString`, as the C string that is read there. -/
def getString (item : ValueItem) : Bytes := cstr item.v

def getBool (item : ValueItem) : Bool :=
  item.getInteger ≠ 0 ∨ item.v = str "yes" ∨ item.v = str "true"

/-- `Set` of an `int`. -/
def setInteger (value : Int) : ValueItem := ⟨convToStr value⟩

end ValueItem

/-- The value of a setting, by way of the buffer `item` of `MAXBUF` bytes. -/
def readItem (maxbuf : Nat) (target : ConfigDataHash) (tag var default_value : Bytes)
    (allowNewlines : Bool) : ValueItem × ConfigDataHash :=
  let (value, target) := confValue target tag var default_value 0 allowNewlines
  (⟨strlcpy (value.getD []) maxbuf⟩, target)

end Hottpd
