import Hottpd.Core.Exec

/-!
# A world to run in

Environments that can be evaluated: a document root where every path names
a file with the same content, but for the directories listed, and a socket
that is told beforehand what to accept.
-/

namespace Hottpd

open Bytes

/-- The settings of the sample configuration that matter here. -/
def smallConfig : Config where
  docRoot := str "/www"
  maxPostBody := 1024
  keepAliveMax := 30
  noAtime := false
  followSymLinks := true
  mimeType _ := str "text/plain"

def smallWorld (dirs : List Bytes) (content : Bytes) (send : Nat → SendRes) : Env where
  cfg := smallConfig
  os := {
    send := send
    mmap := fun _ => true
    stat := fun _ _ path =>
      .ok ⟨if path ∈ dirs then .dir else .reg, content.length, 0⟩
    openFile := fun _ _ _ => .ok ()
    content := fun _ => content
    asctime := fun _ => str "Thu Jan  1 00:00:00 1970\n"
    geteuid := 0 }
  maxDescriptors := 64
  fd := 5
  fd_lt := by decide

/-- A socket with room for everything. -/
def eager : Nat → SendRes := fun _ => .took 65536

/-- A socket that takes `n` bytes at first and everything later. -/
def slowStart (n : Nat) : Nat → SendRes
  | 0 => .took n
  | _ + 1 => .took 65536

/-- A client that sends these chunks, with room to write after each of them. -/
def chunks (texts : List String) : List Event :=
  texts.flatMap fun t => [.read (.data (str t)), .write]

/-- A module that takes every request it is asked about. -/
def takesAll : Module Unit where
  onPreRequest m _ _ _ _ _ := (m, ⟨some 1, [], fun h => absurd rfl h⟩)
  onBufferFlushed m _ := m
  handleEvent m _ := (m, [])

/-- A run without modules. -/
def plainRun (env : Env) (texts : List String) : St Unit :=
  run env ([] : List (Module Unit)) () (chunks texts)

end Hottpd
