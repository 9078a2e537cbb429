import Hottpd.Lib.Runs
import Hottpd.Core.Ports

/-!
# The listeners and the signals

`Config->ports` is filled by `BindPorts` and given up by three others: a SIGHUP
shuts down gracefully and closes what listens, a SIGTERM exits, and `Cleanup`,
which `Exit` calls, closes what listens as well. Signals are noted by a flag and
handled by the main loop, so none comes in the middle of another event.

A listener is known by its address `id`, which no later object gets again. What
is read of a listener that is gone is what it last held.
-/

namespace Hottpd

open Bytes

structure Listening where
  /-- `Config->ports`. -/
  ports : List ListenSocket
  /-- The listeners `~ListenSocket` ran for, in the order of the calls. -/
  destroyed : List Nat
  next : Nat
  shuttingDown : Bool
  exited : Bool
deriving DecidableEq

def Listening.new : Listening where
  ports := []
  destroyed := []
  next := 0
  shuttingDown := false
  exited := false

/-- The loop over the ports that `GracefulShutdown` and `Cleanup` share. -/
def Listening.deleteAll (s : Listening) : Listening :=
  { s with destroyed := s.destroyed ++ s.ports.map ListenSocket.id }

/-- `InspIRCd::GracefulShutdown`. The entries stay. -/
def Listening.gracefulShutdown (s : Listening) : Listening :=
  { s.deleteAll with shuttingDown := true }

/-- `InspIRCd::Cleanup`. -/
def Listening.cleanup (s : Listening) : Listening := { s.deleteAll with ports := [] }

/-- `InspIRCd::Exit`. -/
def Listening.exit (s : Listening) : Listening := { s.cleanup with exited := true }

/-- What happens to the listeners. A `BindPorts` comes with the `bind` sections,
with the answers of the sockets, and with a bound on the ports of a section. -/
inductive Signal where
  | bindPorts (fuel : Nat) (config : List BindSection) (bind : Bytes → Int → Bool)
  | sighup
  | sigterm
  | cleanup

section Signals

variable (maxbuf : Nat)

/-- One event; `none` where there is none after it: the process has ended, or
`BindPorts` does not get through the ports. -/
def Listening.signal (s : Listening) (e : Signal) : Option Listening :=
  if s.exited then none
  else
    match e with
    | .bindPorts fuel config bind =>
        (Hottpd.bindPorts maxbuf bind fuel config s.ports s.next).map fun b =>
          { s with
            ports := b.ports
            destroyed := s.destroyed ++ b.deleted.map ListenSocket.id
            next := b.next }
    | .sighup => some s.gracefulShutdown
    | .sigterm => some s.exit
    | .cleanup => some s.cleanup

/-- The life of the process. -/
def Listening.run (es : List Signal) : Option Listening :=
  Runs.run (Listening.signal maxbuf) Listening.new es

end Signals

end Hottpd
