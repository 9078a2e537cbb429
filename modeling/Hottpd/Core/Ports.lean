import Hottpd.Lib.Bytes

/-!
# Listening ports

`BindPorts` makes the list of listeners agree with the `bind` sections of the
configuration. The ports of a section are read by `portparser`, which returns
one number a call and works through a range on the way; its words come from a
`sepstream`, which splits at commas.

A listener is an object that is kept or deleted, so it has an address `id`. The
bytes of a C string buffer are those before its NUL.
-/

namespace Hottpd

open Bytes

/-! ## `sepstream` -/

/-- The iterators are positions in `tokens`. -/
structure SepStream where
  tokens : Bytes
  lastStartingPosition : Nat
  n : Nat
  sep : UInt8
deriving DecidableEq

def SepStream.new (source : Bytes) (separator : UInt8) : SepStream := ⟨source, 0, 0, separator⟩

/-- The first position from `n` on that holds the separator or the last byte. -/
def stopFrom (sep : UInt8) : Nat → Bytes → Option Nat
  | _, [] => none
  | n, b :: rest => if b = sep ∨ rest = [] then some n else stopFrom sep (n + 1) rest

/-- The token without the separators at its end. -/
def dropTrailing (sep : UInt8) (token : Bytes) : Bytes :=
  (token.reverse.dropWhile (· == sep)).reverse

/-- `sepstream::GetToken`: the token, and whether tokens remain. -/
def SepStream.getToken (s : SepStream) : Bytes × Bool × SepStream :=
  match stopFrom s.sep s.n (s.tokens.drop s.n) with
  | none => ([], false, { s with n := s.tokens.length })
  | some n =>
      let atEnd := n + 1 = s.tokens.length
      let stop := if atEnd then n + 1 else n
      -- at the end the iterator stays on the last byte
      let n' := if atEnd then n else n + 1
      let token := dropTrailing s.sep ((s.tokens.take stop).drop s.lastStartingPosition)
      let n' := if token = [] then n' + 1 else n'
      (token, decide (n' ≠ s.tokens.length), { s with lastStartingPosition := n + 1, n := n' })

/-! ## `portparser` -/

/-- A `long` cut to a 32-bit `int`. -/
def toInt (n : Int) : Int := (n + 2 ^ 31) % 2 ^ 32 - 2 ^ 31

/-- `atoi` where its value is used as an `int`. -/
def atoiInt (s : Bytes) : Int := toInt (strtol s)

structure PortParser where
  sep : SepStream
  inRange : Int
  rangeBegin : Int
  rangeEnd : Int
  overlapped : Bool
  overlapSet : List Int
deriving DecidableEq

def PortParser.new (source : Bytes) (allowOverlapped : Bool) : PortParser where
  sep := SepStream.new source 44
  inRange := 0
  rangeBegin := 0
  rangeEnd := 0
  overlapped := allowOverlapped
  overlapSet := []

def PortParser.overlaps (val : Int) (p : PortParser) : Bool × PortParser :=
  if p.overlapped = false then (false, p)
  else if val ∈ p.overlapSet then (true, p)
  else (false, { p with overlapSet := val :: p.overlapSet })

/-- `while (Overlaps(in_range) && in_range <= range_end) in_range++`; the fuel
is the length of what is left of the range. -/
def PortParser.skipRange : Nat → PortParser → PortParser
  | 0, p => p
  | fuel + 1, p =>
      let (taken, p) := p.overlaps p.inRange
      if taken ∧ p.inRange ≤ p.rangeEnd then
        skipRange fuel { p with inRange := p.inRange + 1 }
      else p

/-- The words before one that overlaps nothing; `none` if there is none. The
fuel is the number of bytes, and each word takes one. -/
def PortParser.skipWords : Nat → Bytes → PortParser → Option Bytes × PortParser
  | 0, _, p => (none, p)
  | fuel + 1, x, p =>
      let (taken, p) := p.overlaps (atoiInt x)
      if taken then
        let (x, more, sep) := p.sep.getToken
        if more then skipWords fuel x { p with sep := sep } else (none, { p with sep := sep })
      else (some x, p)

/-- The second half of `portparser::GetToken`: a new word. -/
def PortParser.nextWord (p : PortParser) : Int × PortParser :=
  let (x, _, sep) := p.sep.getToken
  let p := { p with sep := sep }
  if x = [] then (0, p)
  else
    match p.skipWords (p.sep.tokens.length + 1) x with
    | (none, p) => (0, p)
    | (some x, p) =>
        match rfind 45 x with
        | none => (atoiInt x, p)
        | some dash =>
            let sbegin := atoiInt (x.take dash)
            let send := atoiInt (x.drop (dash + 1))
            let p := { p with rangeBegin := sbegin, rangeEnd := send }
            if 0 < sbegin ∧ 0 < send ∧ sbegin < 65536 ∧ send < 65536 ∧ sbegin < send then
              (sbegin, { p with inRange := sbegin })
            -- assume its just the one port
            else (sbegin, p)

/-- `portparser::GetToken`. -/
def PortParser.getToken (p : PortParser) : Int × PortParser :=
  if 0 < p.inRange then
    let p := { p with inRange := p.inRange + 1 }
    if p.inRange ≤ p.rangeEnd then
      let (taken, p) := p.overlaps p.inRange
      if taken = false then (p.inRange, p)
      else
        let p := p.skipRange ((p.rangeEnd - p.inRange).toNat + 2)
        if p.inRange ≤ p.rangeEnd then (p.inRange, p) else p.nextWord
    else { p with inRange := 0 }.nextWord
  else p.nextWord

/-! ## `BindPorts` -/

structure ListenSocket where
  id : Nat
  bindAddr : Bytes
  bindPort : Int
deriving DecidableEq

/-- What a listener listens on: `GetIP` and `GetPort`. -/
def ListenSocket.pair (l : ListenSocket) : Bytes × Int := (l.bindAddr, l.bindPort)

/-- A `bind` section: the values of `port` and `address`, empty if not there. -/
structure BindSection where
  port : Bytes
  address : Bytes

structure BindState where
  /-- `Config->ports`. -/
  ports : List ListenSocket
  oldPorts : List (Bytes × Int)
  bound : Nat
  portsFound : Nat
  failedPorts : List (Bytes × Int)
  /-- The listeners deleted so far, and the address of the next new object. -/
  deleted : List ListenSocket
  next : Nat
deriving DecidableEq

/-- `strlcpy` into a buffer of this size. -/
def strlcpy (value : Bytes) (length : Nat) : Bytes := (cstr value).take (length - 1)

section BindPorts

-- `bind addr port` says whether the socket of a new listener can be bound
variable (maxbuf : Nat) (bind : Bytes → Int → Bool)

/-- Whether there is a listener for the pair already; each one found takes an
entry off the copy of the old ports. -/
def findListener (pair : Bytes × Int) :
    List ListenSocket → List (Bytes × Int) → Bool × List (Bytes × Int)
  | [], old => (false, old)
  | n :: rest, old =>
      if n.pair = pair then (true, (findListener pair rest (old.erase pair)).2)
      else findListener pair rest old

/-- The body of the loop over the ports of a section. -/
def bindPort (addr : Bytes) (portno : Int) (s : BindState) : BindState :=
  let (skip, old) := findListener (addr, portno) s.ports s.oldPorts
  let s := { s with oldPorts := old }
  if skip then s
  else
    let ll : ListenSocket := ⟨s.next, addr, portno⟩
    let s := { s with portsFound := s.portsFound + 1, next := s.next + 1 }
    if bind addr portno then { s with bound := s.bound + 1, ports := s.ports ++ [ll] }
    else { s with failedPorts := s.failedPorts ++ [(addr, portno)] }

/-- The loop over the ports of a section; `none` if the fuel does not last. -/
def bindRange (addr : Bytes) : Nat → PortParser → BindState → Option BindState
  | 0, _, _ => none
  | fuel + 1, p, s =>
      let (portno, p) := p.getToken
      if portno = 0 then some s
      else bindRange addr fuel p (bindPort bind addr portno s)

/-- The address as it is compared and bound. -/
def bindAddress (value : Bytes) : Bytes :=
  let addr := strlcpy value maxbuf
  if addr.head? = some 42 then [] else addr

def bindSections (fuel : Nat) : List BindSection → BindState → Option BindState
  | [], s => some s
  | sect :: rest, s =>
      match bindRange bind (bindAddress maxbuf sect.address) fuel
          (PortParser.new (strlcpy sect.port maxbuf) false) s with
      | none => none
      | some s => bindSections fuel rest s

/-- Delete the first listener for the pair. -/
def closeOld (s : BindState) (pair : Bytes × Int) : BindState :=
  match s.ports.find? (·.pair = pair) with
  | none => s
  | some n => { s with ports := s.ports.eraseP (·.pair = pair), deleted := s.deleted ++ [n] }

/-- `InspIRCd::BindPorts` on these listeners, with new objects from address
`next` on. -/
def bindPorts (fuel : Nat) (config : List BindSection) (ports : List ListenSocket)
    (next : Nat) : Option BindState :=
  let startedWithNothing := ports = []
  let s : BindState := {
    ports := ports
    oldPorts := ports.map ListenSocket.pair
    bound := 0
    portsFound := 0
    failedPorts := []
    deleted := []
    next := next }
  match bindSections maxbuf bind fuel config s with
  | none => none
  | some s => some (if startedWithNothing then s else s.oldPorts.foldl closeOld s)

end BindPorts

end Hottpd
