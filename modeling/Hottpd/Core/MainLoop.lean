import Hottpd.Core.Culls
import Hottpd.Core.Listeners
import Hottpd.Core.TimerQueue

/-!
# The main loop

`InspIRCd::Run` reads the clock, times out old connections once in a number of
turns, looks at the timers in a turn that comes in a new second, lets the socket
engine dispatch what is ready, destroys the connections given up, and acts on
the signal that has been caught. Code of modules runs in most of this, and a
signal is caught anywhere, so `Run` is taken step by step as well: `place` says
where it is, and the connections, the timers and the listeners take the steps of
their own.

`clock`, `caught` and `acted` are ours.
-/

namespace Hottpd

def SIGHUP : Int := 1

def SIGTERM : Int := 15

/-- Where `Run` is. -/
inductive Place where
  /-- In the constructor: modules are loaded, `mysig` is not set. -/
  | starting
  /-- At the top of the loop. -/
  | top
  /-- In the modules' `OnGarbageCollect`. -/
  | collecting
  /-- In `TickTimers`, or behind it. -/
  | ticking
  /-- In the modules' `OnBackgroundTimer`. -/
  | background
  /-- In `DispatchEvents`. -/
  | dispatching
  /-- In `Apply`, or behind it. -/
  | culling
  /-- At `if (this->s_signal)`. -/
  | signals
  /-- In the modules' `OnGracefulShutdown`, or behind `SignalHandler`. -/
  | handled
  | exited (status : Int)
  /-- A listener has been deleted a second time. What comes of that is undefined, and the process
  is taken to die of it. -/
  | crashed
deriving DecidableEq

/-- Whether the process is at its end. -/
def Place.ended : Place → Bool
  | .exited _ | .crashed => true
  | .starting | .top | .collecting | .ticking | .background | .dispatching | .culling | .signals
  | .handled => false

/-- What `Run` reads of the configuration. -/
structure RunConfig where
  limits : Limits
  timeoutCullFrequency : Int

structure Process where
  server : Server
  timers : TimerQueue
  listening : Listening
  /-- `TIME`. -/
  time : Int
  times : Int
  sSignal : Int
  place : Place
  /-- What `TIME` has been in the turns so far, the last turn first. -/
  clock : List Int
  /-- The signals that `SetSignal` has been called with. -/
  caught : List Int
  /-- Those that `SignalHandler` has been called with. -/
  acted : List Int

def Process.start (time : Int) (listening : Listening) : Process where
  server := .new
  timers := .new
  listening := listening
  time := time
  times := 1
  sSignal := 0
  place := .starting
  clock := []
  caught := []
  acted := []

/-- What happens next. -/
inductive LoopEvent where
  /-- `time(NULL)` is called at the top of the loop. -/
  | clock (now : Int)
  /-- `Run` goes on. -/
  | next
  /-- The process catches a signal. -/
  | signal (sig : Int)
  /-- The engine finds a listener readable. -/
  | readable (id : Nat)
  /-- A turn of the accept loop; `now` is the clock for the connection's `age`. -/
  | accept (now : Int) (answer : Accepted)
  /-- The engine calls a connection's `HandleEvent`. -/
  | socketEvent (c : Nat)
  /-- Code of the core or of a module calls `Delete`. -/
  | delete (c : Nat)
  /-- Code of a module has to do with a timer. -/
  | timer (e : TimerEvent)
deriving DecidableEq

/-- Whether `Apply` is in a module's `OnConnectionDisconnect`. -/
def Pc.inModule : Pc → Bool
  | .inHandler _ _ => true
  | .idle | .accepting | .culling | .handlers _ _ => false

/-- Whether code of modules runs here. -/
def Process.runsCode (p : Process) : Bool :=
  match p.place with
  | .starting | .collecting | .background | .dispatching | .handled => true
  | .ticking => p.timers.ticking.isSome
  | .culling => p.server.pc.inModule
  | .top | .signals | .exited _ | .crashed => false

/-- What a module can do with a timer. -/
def TimerEvent.byModule : TimerEvent → Bool
  | .add _ | .del _ | .cancelRepeat _ => true
  | .tickTimers _ | .next => false

/-- Where `Run` gets to once listeners have been deleted. -/
def Listening.reaches (place : Place) (s : Listening) : Place :=
  if s.destroyed.Nodup then place else .crashed

/-- `Exit`. -/
def Process.exit (status : Int) (p : Process) : Process :=
  { p with
    listening := p.listening.exit
    place := p.listening.exit.reaches (.exited status) }

/-- `SignalHandler`, up to the modules' `OnGracefulShutdown`. -/
def Process.signalHandler (sig : Int) (p : Process) : Process :=
  let p := { p with acted := p.acted ++ [sig] }
  if sig = SIGHUP then
    { p with
      listening := p.listening.gracefulShutdown
      place := p.listening.gracefulShutdown.reaches .handled }
  else if sig = SIGTERM then p.exit sig
  else { p with place := .handled }

section Loop

variable (cfg : RunConfig) (std : TimerSort)

/-- `Run` up to the test for a new second. -/
def Process.timeOuts (now : Int) (p : Process) : Process :=
  let p := { p with time := now, times := p.times + 1, clock := now :: p.clock }
  if cfg.timeoutCullFrequency < p.times then
    { p with
      times := 1
      server := p.server.localConnections.foldl (timeOut cfg.limits now) p.server }
  else p

/-- The call of `TickTimers`. -/
def Process.tickTimers (p : Process) : Option Process :=
  (p.timers.step std (.tickTimers p.time)).map fun timers =>
    { p with timers := timers, place := .ticking }

/-- The turn up to the first code of a module. -/
def Process.turn (now : Int) (p : Process) : Option Process :=
  let oldtime := p.time
  let p := p.timeOuts cfg now
  if now = oldtime then some { p with place := .dispatching }
  else if p.listening.shuttingDown ∧ p.server.localConnections.length = 0 then some (p.exit 0)
  else if now % 3600 = 0 then some { p with place := .collecting }
  else p.tickTimers std

/-- `Run` goes on from where it is. -/
def Process.next (p : Process) : Option Process :=
  match p.place with
  | .starting => some { p with place := .top }
  | .top | .exited _ | .crashed => none
  | .collecting => p.tickTimers std
  | .ticking =>
      if p.timers.loop.isSome then
        (p.timers.step std .next).map fun timers => { p with timers := timers }
      else if p.time % 5 = 0 then some { p with place := .background }
      else some { p with place := .dispatching }
  | .background => some { p with place := .dispatching }
  | .dispatching =>
      (p.server.step cfg.limits .apply).map fun server =>
        { p with server := server, place := .culling }
  | .culling =>
      if p.server.pc = .idle then some { p with place := .signals }
      else (p.server.step cfg.limits .applyNext).map fun server => { p with server := server }
  | .signals =>
      if p.sSignal = 0 then some { p with place := .top } else some (p.signalHandler p.sSignal)
  | .handled => some { p with sSignal := 0, place := .top }

/-- A turn of the accept loop. The `age` of the connection it makes is not `TIME`. -/
def Process.accept (now : Int) (a : Accepted) (p : Process) : Option Process :=
  (p.server.step cfg.limits (.accept p.time a)).map fun server =>
    { p with server := server.modify p.server.next fun o => { o with age := now } }

/-- The engine watches a listener until it is destroyed. -/
def Listening.watches (id : Nat) (s : Listening) : Bool :=
  id ∈ s.ports.map ListenSocket.id && id ∉ s.destroyed

/-- `none` is what cannot happen here. -/
def Process.step (p : Process) : LoopEvent → Option Process
  | .clock now => if p.place = .top then p.turn cfg std now else none
  | .next => p.next cfg std
  | .signal sig =>
      match p.place with
      | .starting | .exited _ | .crashed => none
      | _ =>
          if sig = SIGHUP ∨ sig = SIGTERM then
            some { p with sSignal := sig, caught := p.caught ++ [sig] }
          else none
  | .readable id =>
      if p.place = .dispatching ∧ p.listening.watches id then
        (p.server.step cfg.limits .readable).map fun server => { p with server := server }
      else none
  | .accept now a => if p.place = .dispatching then p.accept cfg now a else none
  | .socketEvent c =>
      if p.place = .dispatching then
        (p.server.step cfg.limits (.socketEvent p.time c)).map fun server =>
          { p with server := server }
      else none
  | .delete c =>
      if p.runsCode then
        (p.server.step cfg.limits (.delete c)).map fun server => { p with server := server }
      else none
  | .timer e =>
      if p.runsCode ∧ e.byModule then
        (p.timers.step std e).map fun timers => { p with timers := timers }
      else none

/-- The process behind these events. -/
def Process.run (time : Int) (listening : Listening) (es : List LoopEvent) : Option Process :=
  Runs.run (Process.step cfg std) (Process.start time listening) es

end Loop

end Hottpd
