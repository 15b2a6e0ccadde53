import PaminMemory.Foundation.Parties
import PaminMemory.Foundation.Runs

/-!
# The socket of a workspace

The commands that ask, the servers that serve, and the one file between them.  Nothing keeps
two processes off that file: a server probes it, removes it and binds it, a client that
replaces a server waits for it to go and removes it, and each of these is a step of its own.
-/

namespace PaminMemory
namespace Serving

open Foundation

/--
How far a server process has come.  A look at the socket, and the answer to a stop, are
remembered by how often the socket had been bound by then.
-/
inductive Phase where
  | opening
  | probed (looked : Nat)
  | cleared
  | serving
  | stopping (answered : Nat) (removed : Bool)
  | gone
deriving DecidableEq, Repr

def Phase.listens : Phase -> Bool
  | Phase.serving => true
  | Phase.stopping _ _ => true
  | _ => false

structure Server where
  wire : String
  phase : Phase
deriving DecidableEq, Repr

/--
How far a call of `ask` has come.  `again` is set from the replacement of a server on, and
`child` is the server a client that won the spawn lock has started.
-/
inductive Asking where
  | connecting
  | spawning (again : Bool)
  | starting (again : Bool)
  | awaiting (again : Bool) (child : Option Nat)
  | reconnecting (again : Bool)
  | talking (again : Bool) (server looked : Nat)
  | replacing (server looked : Nat)
  | leaving (server looked peer : Nat)
  | waiting (peer : Option Nat) (looked : Nat)
  | sweeping (peer : Option Nat) (looked : Nat)
  | done
deriving DecidableEq, Repr

structure Client where
  stop : Bool
  version : String
  wire : String
  asking : Asking
deriving DecidableEq, Repr

/--
The server the socket file leads to, whether the spawn lock is there, how often the socket
has been bound, and the processes.  `mismatched` lists which server answered which client
with a Mismatch, and `replaced` which server answered the stop of which replacing client.
-/
structure Workspace where
  file : Option Nat
  spawnLock : Bool
  binds : Nat
  servers : List (Nat × Server)
  clients : List (Nat × Client)
  mismatched : List (Nat × Nat)
  replaced : List (Nat × Nat)
deriving DecidableEq, Repr

namespace Workspace

def cold : Workspace :=
  { file := none, spawnLock := false, binds := 0, servers := [], clients := [], mismatched := []
    replaced := [] }

/-- The server a connection to the socket reaches; a dead one's leftover file leads to none. -/
def listener (s : Workspace) : Option Nat :=
  s.file.filter fun id => (partyOf s.servers id).any fun server => server.phase.listens

def serves (s : Workspace) (id : Nat) : Bool :=
  (partyOf s.servers id).any fun server => server.phase = Phase.serving

def setServer (id : Nat) (server : Server) (phase : Phase) (s : Workspace) : Workspace :=
  { s with servers := setParty id { server with phase := phase } s.servers }

def setAsking (id : Nat) (client : Client) (asking : Asking) (s : Workspace) : Workspace :=
  { s with clients := setParty id { client with asking := asking } s.clients }

def removeFile (s : Workspace) : Workspace := { s with file := none }

def setLock (held : Bool) (s : Workspace) : Workspace := { s with spawnLock := held }

def addServer (id : Nat) (wire : String) (s : Workspace) : Workspace :=
  { s with servers := s.servers ++ [(id, { wire := wire, phase := Phase.opening })] }

def addClient (id : Nat) (client : Client) (s : Workspace) : Workspace :=
  { s with clients := s.clients ++ [(id, client)] }

/-!
## The server
-/

def probe (id : Nat) (server : Server) (s : Workspace) : Workspace :=
  match s.listener with
  | some _ => s.setServer id server Phase.gone
  | none => s.setServer id server (Phase.probed s.binds)

def bind (id : Nat) (server : Server) (s : Workspace) : Workspace :=
  match s.file with
  | some _ => s.setServer id server Phase.gone
  | none =>
      ({ s with file := some id, binds := s.binds + 1 } : Workspace).setServer id server
        Phase.serving

/-- A stop is answered whatever build it is from; the file and the process go afterwards. -/
def answerStop (id : Nat) (server : Server) (s : Workspace) : Workspace :=
  match server.phase with
  | Phase.serving => s.setServer id server (Phase.stopping s.binds false)
  | _ => s

/-!
## The client
-/

def connect (id : Nat) (client : Client) (s : Workspace) : Workspace :=
  match s.listener with
  | some server => s.setAsking id client (Asking.talking false server s.binds)
  | none =>
      if client.stop then
        s.setAsking id client Asking.done
      else
        s.setAsking id client (Asking.spawning false)

def lock (id : Nat) (client : Client) (again : Bool) (s : Workspace) : Workspace :=
  if s.spawnLock then
    s.setAsking id client (Asking.awaiting again none)
  else
    (s.setLock true).setAsking id client (Asking.starting again)

def unlock (child : Option Nat) (s : Workspace) : Workspace :=
  if child.isSome then s.setLock false else s

def reconnect (id : Nat) (client : Client) (again : Bool) (s : Workspace) : Workspace :=
  match s.listener with
  | some server => s.setAsking id client (Asking.talking again server s.binds)
  | none => s.setAsking id client Asking.done

/--
The server answers, as its executable identifies it now; the client compares with what it
would start now.  The one it would start, of another protocol, is not replaced, and neither
is a replacement.
-/
def answer (id : Nat) (client : Client) (again : Bool) (peer looked : Nat) (server : Server)
    (ours version : String) (s : Workspace) : Workspace :=
  if client.stop then
    (s.answerStop peer server).setAsking id client Asking.done
  else if client.version = ours ∧ client.wire = server.wire then
    s.setAsking id client Asking.done
  else
    let answered := { s with mismatched := s.mismatched ++ [(id, peer)] }
    if again ∨ ours = version ∧ server.wire ≠ client.wire then
      answered.setAsking id client Asking.done
    else
      answered.setAsking id client (Asking.replacing peer looked)

def turn (id : Nat) (client : Client) (server looked : Nat) (s : Workspace) : Workspace :=
  match s.listener with
  | some peer => s.setAsking id client (Asking.leaving server looked peer)
  | none => s.setAsking id client (Asking.waiting none s.binds)

def farewell (id : Nat) (client : Client) (looked peer : Nat) (server : Server)
    (s : Workspace) : Workspace :=
  ({ s.answerStop peer server with replaced := s.replaced ++ [(id, peer)] } : Workspace).setAsking
    id client (Asking.waiting (some peer) looked)

end Workspace

/-!
## Steps
-/

inductive ServerStep where
  | probe
  | clear
  | bind
  | unlink
  | exit
  | die
deriving DecidableEq, Repr

/--
A step of a call.  `broken` is an exchange that fails, `waitOut` the deadline of the wait for
the file to go, and `fail` an error or the death of the process, which leaves the files as
they are.
-/
inductive ClientStep where
  | connect
  | lock
  | start (child : Nat) (wire : String)
  | refused
  | listening
  | giveUp
  | reconnect
  | answer (ours version : String)
  | turn
  | farewell
  | broken
  | seeGone
  | waitOut
  | sweep
  | fail
deriving DecidableEq, Repr

/-- A server is started by hand, a command asks, or a process takes its next step. -/
inductive Action where
  | serve (id : Nat) (wire : String)
  | ask (id : Nat) (stop : Bool) (version wire : String)
  | server (id : Nat) (step : ServerStep)
  | client (id : Nat) (step : ClientStep)
deriving DecidableEq, Repr

def serverStep (s : Workspace) (id : Nat) (server : Server) : ServerStep -> Option Workspace
  | ServerStep.probe =>
      match server.phase with
      | Phase.opening => some (s.probe id server)
      | _ => none
  | ServerStep.clear =>
      match server.phase with
      | Phase.probed _ => some (s.removeFile.setServer id server Phase.cleared)
      | _ => none
  | ServerStep.bind =>
      match server.phase with
      | Phase.cleared => some (s.bind id server)
      | _ => none
  | ServerStep.unlink =>
      match server.phase with
      | Phase.stopping answered _ =>
          some (s.removeFile.setServer id server (Phase.stopping answered true))
      | _ => none
  | ServerStep.exit =>
      match server.phase with
      | Phase.stopping _ true => some (s.setServer id server Phase.gone)
      | _ => none
  | ServerStep.die => some (s.setServer id server Phase.gone)

def peerOf (s : Workspace) (peer : Nat) : Option Server :=
  (partyOf s.servers peer).filter fun server => server.phase.listens

def clientStep (s : Workspace) (id : Nat) (client : Client) : ClientStep -> Option Workspace
  | ClientStep.connect =>
      match client.asking with
      | Asking.connecting => some (s.connect id client)
      | _ => none
  | ClientStep.lock =>
      match client.asking with
      | Asking.spawning again => some (s.lock id client again)
      | _ => none
  | ClientStep.start child wire =>
      match client.asking, partyOf s.servers child with
      | Asking.starting again, none =>
          some ((s.addServer child wire).setAsking id client (Asking.awaiting again (some child)))
      | _, _ => none
  | ClientStep.refused =>
      match client.asking with
      | Asking.starting _ => some ((s.setLock false).setAsking id client Asking.done)
      | _ => none
  | ClientStep.listening =>
      match client.asking, s.listener with
      | Asking.awaiting again child, some _ =>
          some ((s.unlock child).setAsking id client (Asking.reconnecting again))
      | _, _ => none
  | ClientStep.giveUp =>
      match client.asking with
      | Asking.awaiting _ child => some ((s.unlock child).setAsking id client Asking.done)
      | _ => none
  | ClientStep.reconnect =>
      match client.asking with
      | Asking.reconnecting again => some (s.reconnect id client again)
      | _ => none
  | ClientStep.answer ours version =>
      match client.asking with
      | Asking.talking again peer looked =>
          (peerOf s peer).map fun server =>
            s.answer id client again peer looked server ours version
      | _ => none
  | ClientStep.turn =>
      match client.asking with
      | Asking.replacing server looked => some (s.turn id client server looked)
      | _ => none
  | ClientStep.farewell =>
      match client.asking with
      | Asking.leaving _ looked peer =>
          (peerOf s peer).map fun server => s.farewell id client looked peer server
      | _ => none
  | ClientStep.broken =>
      match client.asking with
      | Asking.leaving _ looked peer =>
          some (s.setAsking id client (Asking.waiting (some peer) looked))
      | _ => none
  | ClientStep.seeGone =>
      match client.asking, s.file with
      | Asking.waiting _ _, none => some (s.setAsking id client (Asking.sweeping none s.binds))
      | _, _ => none
  | ClientStep.waitOut =>
      match client.asking with
      | Asking.waiting peer looked => some (s.setAsking id client (Asking.sweeping peer looked))
      | _ => none
  | ClientStep.sweep =>
      match client.asking with
      | Asking.sweeping _ _ =>
          some (s.removeFile.setAsking id client (Asking.spawning true))
      | _ => none
  | ClientStep.fail => some (s.setAsking id client Asking.done)

def step (s : Workspace) : Action -> Option Workspace
  | Action.serve id wire =>
      if (partyOf s.servers id).isNone then some (s.addServer id wire) else none
  | Action.ask id stop version wire =>
      if (partyOf s.clients id).isNone then
        some (s.addClient id
          { stop := stop, version := version, wire := wire, asking := Asking.connecting })
      else
        none
  | Action.server id taken => (partyOf s.servers id).bind fun server => serverStep s id server taken
  | Action.client id taken => (partyOf s.clients id).bind fun client => clientStep s id client taken

end Serving
end PaminMemory
