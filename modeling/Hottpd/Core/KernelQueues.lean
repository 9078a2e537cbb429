import Hottpd.Core.Engines

/-!
# The kqueue and ports engines

Both leave the list of descriptors to the kernel, as the epoll engine does. A kqueue
has a note for each descriptor and filter, which stays until it is deleted or, with
`EV_ONESHOT`, until it has been reported. A port has one association for each
descriptor, which goes with every report.

`DispatchEvents` takes an array of reports from the kernel and works them off one
by one; what the handlers do in between are steps of their own. Every descriptor is
taken to be open.
-/

namespace Hottpd

/-! ## `KQueueEngine` -/

/-- `EVFILT_READ` and `EVFILT_WRITE` -/
inductive KFilter where
  | read
  | write
deriving DecidableEq

/-- The value of the constant in the header, of 16 bits as the field for it. -/
def KFilter.value : KFilter → BitVec 16
  | .read => -1
  | .write => -2

def evAdd : BitVec 16 := 0x0001

def evOneshot : BitVec 16 := 0x0010

def evEof : BitVec 16 := 0x8000

structure KQueueEngine where
  ref : Int → Option Handler
  currentSetSize : Int
  /-- The kernel's notes, and of each whether it is for one report. -/
  kernel : Int → KFilter → Option Bool

def KQueueEngine.new : KQueueEngine where
  ref _ := none
  currentSetSize := 0
  kernel _ _ := none

/-- The filter a handler is registered for. -/
def Handler.filter (eh : Handler) : KFilter := if eh.readable then .read else .write

/-- A note in the kernel, with a report to be made or none. -/
def setNote (fd : Int) (filter : KFilter) (note : Option Bool)
    (kernel : Int → KFilter → Option Bool) : Int → KFilter → Option Bool :=
  Function.update kernel fd (Function.update (kernel fd) filter note)

section KQueue

variable (maxDescriptors : Nat)

def KQueueEngine.getRemainingFds (e : KQueueEngine) : Int := maxDescriptors - e.currentSetSize

def KQueueEngine.addFd (eh : Handler) (e : KQueueEngine) : Bool × KQueueEngine :=
  if inRange maxDescriptors eh.fd = false then (false, e)
  else if e.getRemainingFds maxDescriptors ≤ 1 then (false, e)
  else if (e.ref eh.fd).isSome then (false, e)
  else
    -- `EV_ADD` of a note that is there writes over it
    (true, {
      kernel := setNote eh.fd eh.filter (some false) e.kernel
      ref := Function.update e.ref eh.fd (some eh)
      currentSetSize := e.currentSetSize + 1 })

def KQueueEngine.delFd (eh : Handler) (force : Bool) (e : KQueueEngine) : Bool × KQueueEngine :=
  if inRange maxDescriptors eh.fd = false then (false, e)
  -- `EV_DELETE` fails with `ENOENT`
  else if e.kernel eh.fd .write = none ∧ e.kernel eh.fd .read = none ∧ force = false then (false, e)
  else
    (true, {
      kernel := setNote eh.fd .write none (setNote eh.fd .read none e.kernel)
      ref := Function.update e.ref eh.fd none
      currentSetSize := e.currentSetSize - 1 })

def KQueueEngine.wantWrite (eh : Handler) (e : KQueueEngine) : KQueueEngine :=
  { e with kernel := setNote eh.fd .write (some true) e.kernel }

end KQueue

/-- What the loop reads of a report. -/
structure KEvent where
  ident : Int
  flags : BitVec 16
deriving DecidableEq

/-! ## `PortsEngine` -/

/-- The bits `POLLRDNORM` and `POLLWRNORM` of a mask. -/
structure PollMask where
  rdnorm : Bool
  wrnorm : Bool
deriving DecidableEq

structure PortsEngine where
  ref : Int → Option Handler
  currentSetSize : Int
  /-- The descriptors associated with the port, and for what. -/
  kernel : Int → Option PollMask

def PortsEngine.new : PortsEngine where
  ref _ := none
  currentSetSize := 0
  kernel _ := none

section Ports

variable (maxDescriptors : Nat)

def PortsEngine.getRemainingFds (e : PortsEngine) : Int := maxDescriptors - e.currentSetSize

def PortsEngine.addFd (eh : Handler) (e : PortsEngine) : Bool × PortsEngine :=
  if inRange maxDescriptors eh.fd = false then (false, e)
  else if e.getRemainingFds maxDescriptors ≤ 1 then (false, e)
  else if (e.ref eh.fd).isSome then (false, e)
  else
    (true, {
      ref := Function.update e.ref eh.fd (some eh)
      kernel := Function.update e.kernel eh.fd (some ⟨eh.readable, !eh.readable⟩)
      currentSetSize := e.currentSetSize + 1 })

/-- `PortsEngine::DelFd`; neither `force` nor the answer of `port_dissociate` is looked at. -/
def PortsEngine.delFd (eh : Handler) (_force : Bool) (e : PortsEngine) : Bool × PortsEngine :=
  if inRange maxDescriptors eh.fd = false then (false, e)
  else
    (true, {
      kernel := Function.update e.kernel eh.fd none
      currentSetSize := e.currentSetSize - 1
      ref := Function.update e.ref eh.fd none })

/-- An association that is there is written over. -/
def PortsEngine.wantWrite (eh : Handler) (e : PortsEngine) : PortsEngine :=
  { e with kernel := Function.update e.kernel eh.fd (some ⟨false, true⟩) }

end Ports

/-- What the loop reads of a report; with neither bit it is that of an error. -/
structure PortEvent where
  object : Int
  events : PollMask
deriving DecidableEq

/-! ## Dispatching -/

/-- An engine at work. `events` is what is left of the array of `DispatchEvents`. The last
two are ours: the descriptors whose handler has asked for a write event and got none yet, and
the call that has just been made. -/
structure Dispatching (E R : Type) where
  engine : E
  events : List R
  wants : Int → Bool
  called : Option (Int × Handler × EventType)

/-- What happens to an engine, with the reports that a poll returns. -/
inductive QueueEvent (R : Type) where
  | addFd (eh : Handler)
  | delFd (eh : Handler) (force : Bool)
  | wantWrite (eh : Handler)
  | poll (reports : List R)
  /-- A turn of the loop. -/
  | call

namespace Dispatching

variable {E R : Type}

/-- A descriptor changes hands. -/
def registered (fd : Int) (result : Bool × E) (d : Dispatching E R) : Dispatching E R :=
  { d with
    engine := result.2
    called := none
    wants := if result.1 then Function.update d.wants fd false else d.wants }

def asked (fd : Int) (engine : E) (d : Dispatching E R) : Dispatching E R :=
  { d with engine := engine, wants := Function.update d.wants fd true, called := none }

/-- A handler is called; an error is an answer to one who waits to write as well. -/
def deliver (eh : Handler) (fd : Int) (event : EventType) (d : Dispatching E R) :
    Dispatching E R :=
  { d with
    wants := if event = .read then d.wants else Function.update d.wants fd false
    called := some (fd, eh, event) }

end Dispatching

/-- What a kqueue may report: a note for each report, the flags that are left of it, and
`EV_EOF` where the other end is gone. Whether `EV_ADD` is still among the flags is up to the
kernel. -/
structure KReport where
  ident : Int
  filter : KFilter
  add : Bool
  eof : Bool
deriving DecidableEq

def KReport.event (r : KReport) (oneshot : Bool) : KEvent where
  ident := r.ident
  flags :=
    (if r.add then evAdd else 0) ||| (if oneshot then evOneshot else 0)
      ||| (if r.eof then evEof else 0)

section Run

variable (maxDescriptors : Nat)

/-- The reports as events, and the notes that are left; `none` where there is no note. -/
def kernelReports : List KReport → (Int → KFilter → Option Bool) →
    Option (List KEvent × (Int → KFilter → Option Bool))
  | [], kernel => some ([], kernel)
  | r :: reports, kernel =>
      match kernel r.ident r.filter with
      | none => none
      | some oneshot =>
          if reports.any fun r' => r'.ident = r.ident ∧ r'.filter = r.filter then none
          else
            let kernel := if oneshot then setNote r.ident r.filter none kernel else kernel
            (kernelReports reports kernel).map fun (events, kernel) =>
              (r.event oneshot :: events, kernel)

/-- One turn of the loop of `KQueueEngine::DispatchEvents`. -/
def Dispatching.kqueueTurn (ke : KEvent) (d : Dispatching KQueueEngine KEvent) :
    Dispatching KQueueEngine KEvent :=
  if ke.flags &&& evEof ≠ 0 then
    match d.engine.ref ke.ident with
    | some eh => d.deliver eh ke.ident .error
    | none => d
  -- a test of the flags with the value of a filter
  else if ke.flags &&& KFilter.write.value ≠ 0 then
    let d := { d with engine := { d.engine with
      kernel := setNote ke.ident .read (some false) d.engine.kernel } }
    match d.engine.ref ke.ident with
    | some eh => d.deliver eh ke.ident .write
    | none => d
  else
    match d.engine.ref ke.ident with
    | some eh => d.deliver eh ke.ident .read
    | none => d

/-- One event; `none` where it cannot come. -/
def kqueueStep (d : Dispatching KQueueEngine KEvent) :
    QueueEvent KReport → Option (Dispatching KQueueEngine KEvent)
  | .addFd eh => some (d.registered eh.fd (d.engine.addFd maxDescriptors eh))
  | .delFd eh force => some (d.registered eh.fd (d.engine.delFd maxDescriptors eh force))
  | .wantWrite eh => some (d.asked eh.fd (d.engine.wantWrite eh))
  | .poll reports =>
      if d.events = [] then
        (kernelReports reports d.engine.kernel).map fun (events, kernel) =>
          { d with
            engine := { d.engine with kernel := kernel }
            events := events
            called := none }
      else none
  | .call =>
      match d.events with
      | [] => none
      | ke :: rest => some ({ d with events := rest, called := none }.kqueueTurn ke)

/-- What a port may report: descriptors that are associated, each once, with events they are
associated for. -/
def reportable (kernel : Int → Option PollMask) (reports : List PortEvent) : Bool :=
  (reports.map PortEvent.object).Nodup ∧ ∀ r ∈ reports, (kernel r.object).any fun m =>
    (r.events.rdnorm → m.rdnorm) ∧ (r.events.wrnorm → m.wrnorm)

/-- One turn of the loop of `PortsEngine::DispatchEvents`. -/
def Dispatching.portsTurn (ev : PortEvent) (d : Dispatching PortsEngine PortEvent) :
    Dispatching PortsEngine PortEvent :=
  match d.engine.ref ev.object with
  | none => d
  | some eh =>
      let d := { d with engine := { d.engine with
        kernel := Function.update d.engine.kernel ev.object (some ⟨true, false⟩) } }
      d.deliver eh ev.object (if ev.events.rdnorm then .read else .write)

def portsStep (d : Dispatching PortsEngine PortEvent) :
    QueueEvent PortEvent → Option (Dispatching PortsEngine PortEvent)
  | .addFd eh => some (d.registered eh.fd (d.engine.addFd maxDescriptors eh))
  | .delFd eh force => some (d.registered eh.fd (d.engine.delFd maxDescriptors eh force))
  | .wantWrite eh => some (d.asked eh.fd (d.engine.wantWrite eh))
  | .poll reports =>
      if d.events = [] ∧ reportable d.engine.kernel reports then
        some { d with
          engine := { d.engine with
            kernel := fun fd =>
              if fd ∈ reports.map PortEvent.object then none else d.engine.kernel fd }
          events := reports
          called := none }
      else none
  | .call =>
      match d.events with
      | [] => none
      | ev :: rest => some ({ d with events := rest, called := none }.portsTurn ev)

end Run

end Hottpd
