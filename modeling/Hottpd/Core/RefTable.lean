import Hottpd.Core.Engines

/-!
# The array `ref`

The engines as they were, but with the array as long as it is. An access outside of the
array is `none`, and so is an operation that makes one.
-/

namespace Hottpd

/-- `EventHandler* ref[MAX_DESCRIPTORS]` -/
structure RefTable (maxDescriptors : Nat) where
  entries : List (Option Handler)
  length_eq : entries.length = maxDescriptors

variable {maxDescriptors : Nat}

namespace RefTable

/-- All entries are NULL. -/
def empty : RefTable maxDescriptors := ⟨List.replicate maxDescriptors none, List.length_replicate⟩

/-- `ref[fd]` -/
def entry (ref : RefTable maxDescriptors) (fd : Int) : Option (Option Handler) :=
  if fd < 0 then none else ref.entries[fd.toNat]?

/-- `ref[fd] = eh` -/
def assign (ref : RefTable maxDescriptors) (fd : Int) (eh : Option Handler) :
    Option (RefTable maxDescriptors) :=
  if fd < 0 ∨ maxDescriptors ≤ fd then none
  else some ⟨ref.entries.set fd.toNat eh, List.length_set.trans ref.length_eq⟩

/-! ## `SocketEngine` -/

def hasFd (fd : Int) (ref : RefTable maxDescriptors) : Option Bool :=
  if inRange maxDescriptors fd = false then some false else (ref.entry fd).map Option.isSome

def getRef (fd : Int) (ref : RefTable maxDescriptors) : Option (Option Handler) :=
  if inRange maxDescriptors fd = false then some none else ref.entry fd

end RefTable

/-- `SocketEngine::BoundsCheckFd`, where `none` is NULL. -/
def SocketEngine.boundsCheckFd (maxDescriptors : Nat) (eh : Option Handler) : Bool :=
  match eh with
  | none => false
  | some eh => if eh.fd < 0 ∨ maxDescriptors < eh.fd then false else true

/-! ## `SelectEngine` -/

structure SelectTable (maxDescriptors : Nat) where
  ref : RefTable maxDescriptors
  currentSetSize : Int
  fds : SortedMap (id : Int → Int) Int

namespace SelectTable

def addFd (fdSetsize : Int) (eh : Handler) (e : SelectTable maxDescriptors) :
    Option (Bool × SelectTable maxDescriptors) :=
  if inRange maxDescriptors eh.fd = false then some (false, e)
  else if fdSetsize - e.currentSetSize ≤ 1 then some (false, e)
  else
    (e.ref.entry eh.fd).bind fun owner =>
      if owner.isSome then some (false, e)
      else
        (e.ref.assign eh.fd (some eh)).map fun ref =>
          (true, ⟨ref, e.currentSetSize + 1, e.fds.insert eh.fd eh.fd⟩)

def delFd (eh : Handler) (_force : Bool) (e : SelectTable maxDescriptors) :
    Option (Bool × SelectTable maxDescriptors) :=
  if inRange maxDescriptors eh.fd = false then some (false, e)
  else
    (e.ref.assign eh.fd none).map fun ref =>
      (true, ⟨ref, e.currentSetSize - 1, (e.fds.erase eh.fd).insert eh.fd 0⟩)

end SelectTable

/-! ## `EPollEngine` -/

structure EPollTable (maxDescriptors : Nat) where
  ref : RefTable maxDescriptors
  currentSetSize : Int
  kernel : Int → Option EpollMask

namespace EPollTable

def addFd (eh : Handler) (e : EPollTable maxDescriptors) :
    Option (Bool × EPollTable maxDescriptors) :=
  if inRange maxDescriptors eh.fd = false then some (false, e)
  else if maxDescriptors - e.currentSetSize ≤ 1 then some (false, e)
  else
    (e.ref.entry eh.fd).bind fun owner =>
      if owner.isSome then some (false, e)
      else if (e.kernel eh.fd).isSome then some (false, e)
      else
        (e.ref.assign eh.fd (some eh)).map fun ref =>
          (true, ⟨ref, e.currentSetSize + 1, Function.update e.kernel eh.fd (some eh.mask)⟩)

def delFd (eh : Handler) (force : Bool) (e : EPollTable maxDescriptors) :
    Option (Bool × EPollTable maxDescriptors) :=
  if inRange maxDescriptors eh.fd = false then some (false, e)
  else if e.kernel eh.fd = none ∧ force = false then some (false, e)
  else
    (e.ref.assign eh.fd none).map fun ref =>
      (true, ⟨ref, e.currentSetSize - 1, Function.update e.kernel eh.fd none⟩)

end EPollTable

end Hottpd
