import PaminMemory.Foundation.Looks
import PaminMemory.Serving.Socket

/-!
# A live server keeps its socket

A removal of the socket file, and a stop a client sends to replace a server, rest on an
earlier look at the socket.  Where no server has bound it since that look, the file leads to
every live server, and no server is replaced that did not answer with a Mismatch.
-/

namespace PaminMemory
namespace Serving

open Foundation

/--
The file leads to each server that has bound the socket, answered no stop and not died; and
who answered the stop of a replacing client had answered that client with a Mismatch.
-/
structure Kept (s : Workspace) : Prop where
  leads : forall id, s.serves id = true -> s.file = some id
  stops : s.replaced ⊆ s.mismatched

instance decidableKept (s : Workspace) : Decidable (Kept s) :=
  decidable_of_iff ((forall entry, entry ∈ s.servers -> s.serves entry.1 = true ->
      s.file = some entry.1) ∧ s.replaced ⊆ s.mismatched) (by
    constructor
    · rintro ⟨hleads, hstops⟩
      refine ⟨?_, hstops⟩
      intro id hserves
      rcases Option.any_eq_true _ _ |>.mp hserves with ⟨server, hserver, _⟩
      exact hleads (id, server) (mem_of_partyOf hserver) hserves
    · intro h
      exact ⟨fun entry _ => h.leads entry.1, h.stops⟩)

/-!
## What a step rests on
-/

def serverFresh (s : Workspace) : Phase -> ServerStep -> Bool
  | Phase.probed looked, ServerStep.clear => looked = s.binds
  | Phase.stopping answered _, ServerStep.unlink => answered = s.binds
  | _, _ => true

/--
A client that comes to stop a server finds nobody, or what it found before; and the file it
removes is the one it last saw, of a server that has answered its stop or died.
-/
def clientFresh (s : Workspace) : Asking -> ClientStep -> Bool
  | Asking.replacing _ looked, ClientStep.turn => s.listener.isNone || looked = s.binds
  | Asking.sweeping peer looked, ClientStep.sweep => looked = s.binds && !peer.any s.serves
  | _, _ => true

def fresh (s : Workspace) : Action -> Bool
  | Action.server id taken =>
      (partyOf s.servers id).all fun server => serverFresh s server.phase taken
  | Action.client id taken =>
      (partyOf s.clients id).all fun client => clientFresh s client.asking taken
  | _ => true

/-!
## What the processes know
-/

def Vacant (s : Workspace) : Prop := forall id, s.serves id = false

def LeadsOnly (s : Workspace) (server : Nat) : Prop := forall id, s.file = some id -> id = server

def Phase.Knows (s : Workspace) : Phase -> Prop
  | Phase.probed looked => Seen s.binds looked (Vacant s)
  | Phase.stopping answered _ => Seen s.binds answered (Vacant s)
  | _ => True

def Asking.Knows (s : Workspace) (id : Nat) : Asking -> Prop
  | Asking.talking _ server looked => Seen s.binds looked (LeadsOnly s server)
  | Asking.replacing server looked =>
      (id, server) ∈ s.mismatched ∧ Seen s.binds looked (LeadsOnly s server)
  | Asking.leaving server looked peer =>
      peer = server ∧ (id, server) ∈ s.mismatched ∧ Seen s.binds looked (LeadsOnly s server)
  | Asking.waiting peer looked =>
      Seen s.binds looked (forall server, s.serves server = true -> peer = some server)
  | Asking.sweeping peer looked =>
      Seen s.binds looked (forall server, s.serves server = true -> peer = some server)
  | _ => True

structure Sound (s : Workspace) : Prop where
  kept : Kept s
  servers : forall entry, entry ∈ s.servers -> entry.2.phase.Knows s
  clients : forall entry, entry ∈ s.clients -> entry.2.asking.Knows s entry.1

/--
Nobody has bound the socket in between: the file leads where it led or is gone, nobody has
begun to serve, and no Mismatch is forgotten.
-/
structure Calm (s t : Workspace) : Prop where
  binds : t.binds = s.binds
  file : forall id, t.file = some id -> s.file = some id
  serves : forall id, t.serves id = true -> s.serves id = true
  mismatched : s.mismatched ⊆ t.mismatched

section Knowing

variable {s t : Workspace} {id looked : Nat}

theorem Vacant.calm (h : Vacant s) (hcalm : Calm s t) : Vacant t := by
  intro server
  cases hserves : t.serves server with
  | false => rfl
  | true => exact absurd (hcalm.serves server hserves) (by rw [h server]; exact Bool.false_ne_true)

theorem seen_calm {fact fact' : Prop} (h : Seen s.binds looked fact) (hcalm : Calm s t)
    (himp : fact -> fact') : Seen t.binds looked fact' := by
  rw [hcalm.binds]
  exact h.kept himp

theorem Phase.knows_calm {phase : Phase} (h : phase.Knows s) (hcalm : Calm s t) :
    phase.Knows t := by
  cases phase with
  | probed looked => exact seen_calm h hcalm fun hvacant => hvacant.calm hcalm
  | stopping answered removed => exact seen_calm h hcalm fun hvacant => hvacant.calm hcalm
  | _ => exact True.intro

theorem leadsOnly_calm {server : Nat} (h : LeadsOnly s server) (hcalm : Calm s t) :
    LeadsOnly t server :=
  fun id hfile => h id (hcalm.file id hfile)

theorem Asking.knows_calm {asking : Asking} (h : asking.Knows s id) (hcalm : Calm s t) :
    asking.Knows t id := by
  cases asking with
  | talking again server looked => exact seen_calm h hcalm fun honly => leadsOnly_calm honly hcalm
  | replacing server looked =>
      exact ⟨hcalm.mismatched h.1, seen_calm h.2 hcalm fun honly => leadsOnly_calm honly hcalm⟩
  | leaving server looked peer =>
      exact ⟨h.1, hcalm.mismatched h.2.1,
        seen_calm h.2.2 hcalm fun honly => leadsOnly_calm honly hcalm⟩
  | waiting peer looked =>
      exact seen_calm h hcalm fun hpeer server hserves => hpeer server (hcalm.serves server hserves)
  | sweeping peer looked =>
      exact seen_calm h hcalm fun hpeer server hserves => hpeer server (hcalm.serves server hserves)
  | _ => exact True.intro

theorem Phase.knows_bound {phase : Phase} (h : phase.Knows s) (hbound : s.binds < t.binds) :
    phase.Knows t := by
  cases phase with
  | probed looked => exact h.counted hbound
  | stopping answered removed => exact h.counted hbound
  | _ => exact True.intro

theorem Asking.knows_bound {asking : Asking} (h : asking.Knows s id) (hbound : s.binds < t.binds)
    (hmismatched : s.mismatched ⊆ t.mismatched) : asking.Knows t id := by
  cases asking with
  | talking again server looked => exact h.counted hbound
  | replacing server looked => exact ⟨hmismatched h.1, h.2.counted hbound⟩
  | leaving server looked peer => exact ⟨h.1, hmismatched h.2.1, h.2.2.counted hbound⟩
  | waiting peer looked => exact h.counted hbound
  | sweeping peer looked => exact h.counted hbound
  | _ => exact True.intro

end Knowing

/-!
## What each change of the state keeps
-/

section Changes

variable {s : Workspace} {id : Nat}

theorem serves_iff : s.serves id = true <->
    exists server, partyOf s.servers id = some server ∧ server.phase = Phase.serving := by
  unfold Workspace.serves
  rw [Option.any_eq_true]
  constructor
  · rintro ⟨server, hserver, hphase⟩
    exact ⟨server, hserver, of_decide_eq_true hphase⟩
  · rintro ⟨server, hserver, hphase⟩
    exact ⟨server, hserver, decide_eq_true hphase⟩

theorem serves_setServer {server : Server} {phase : Phase} {other : Nat}
    (h : (s.setServer id server phase).serves other = true) :
    other = id ∧ phase = Phase.serving ∨ other ≠ id ∧ s.serves other = true := by
  rcases serves_iff.mp h with ⟨found, hfound, hphase⟩
  rcases some_of_setParty hfound with ⟨hid, hnew⟩ | ⟨hne, hold⟩
  · rw [hnew] at hphase
    exact Or.inl ⟨hid, hphase⟩
  · exact Or.inr ⟨hne, serves_iff.mpr ⟨found, hold, hphase⟩⟩

theorem vacant_setServer (h : Kept s) (hserves : s.serves id = true) {server : Server}
    {phase : Phase} (hphase : phase ≠ Phase.serving) : Vacant (s.setServer id server phase) := by
  intro other
  cases hother : (s.setServer id server phase).serves other with
  | false => rfl
  | true =>
      rcases serves_setServer hother with ⟨_, hserving⟩ | ⟨hne, hserving⟩
      · exact absurd hserving hphase
      · have hfile := h.leads id hserves
        rw [h.leads other hserving] at hfile
        exact absurd (Option.some.inj hfile) hne

theorem calm_setServer {server : Server} {phase : Phase} (hphase : phase ≠ Phase.serving) :
    Calm s (s.setServer id server phase) := by
  refine ⟨rfl, fun _ hfile => hfile, ?_, List.Subset.refl _⟩
  intro other hserves
  rcases serves_setServer hserves with ⟨_, hserving⟩ | ⟨_, hserving⟩
  · exact absurd hserving hphase
  · exact hserving

theorem Sound.setServer (h : Sound s) {server : Server} {phase : Phase}
    (hphase : phase ≠ Phase.serving) (hknows : phase.Knows (s.setServer id server phase)) :
    Sound (s.setServer id server phase) := by
  have hcalm : Calm s (s.setServer id server phase) := calm_setServer hphase
  refine ⟨⟨?_, h.kept.stops⟩, ?_, ?_⟩
  · intro other hserves
    exact h.kept.leads other (hcalm.serves other hserves)
  · exact forall_moved (fun entry hentry => Phase.knows_calm (h.servers entry hentry) hcalm) hknows
  · exact fun entry hentry => Asking.knows_calm (h.clients entry hentry) hcalm

theorem Sound.setAsking (h : Sound s) {client : Client} {asking : Asking}
    (hknows : asking.Knows s id) : Sound (s.setAsking id client asking) := by
  have hcalm : Calm s (s.setAsking id client asking) :=
    ⟨rfl, fun _ hfile => hfile, fun _ hserves => hserves, List.Subset.refl _⟩
  refine ⟨⟨h.kept.leads, h.kept.stops⟩, h.servers, ?_⟩
  exact forall_moved (fun entry hentry => Asking.knows_calm (h.clients entry hentry) hcalm)
    (Asking.knows_calm hknows hcalm)

theorem calm_removeFile (s : Workspace) : Calm s s.removeFile :=
  ⟨rfl, (fun _ hfile => nomatch hfile), fun _ hserves => hserves, List.Subset.refl _⟩

theorem Sound.removeFile (h : Sound s) (hvacant : Vacant s) : Sound s.removeFile := by
  have hcalm := calm_removeFile s
  refine ⟨⟨?_, h.kept.stops⟩, ?_, ?_⟩
  · intro server hserves
    exact absurd hserves (by rw [(hvacant.calm hcalm) server]; exact Bool.false_ne_true)
  · exact fun entry hentry => Phase.knows_calm (h.servers entry hentry) hcalm
  · exact fun entry hentry => Asking.knows_calm (h.clients entry hentry) hcalm

theorem Sound.setLock (h : Sound s) (held : Bool) : Sound (s.setLock held) := by
  have hcalm : Calm s (s.setLock held) :=
    ⟨rfl, fun _ hfile => hfile, fun _ hserves => hserves, List.Subset.refl _⟩
  refine ⟨⟨h.kept.leads, h.kept.stops⟩, ?_, ?_⟩
  · exact fun entry hentry => Phase.knows_calm (h.servers entry hentry) hcalm
  · exact fun entry hentry => Asking.knows_calm (h.clients entry hentry) hcalm

theorem Sound.unlock (h : Sound s) (child : Option Nat) : Sound (s.unlock child) := by
  cases child with
  | none => exact h
  | some started => exact h.setLock false

theorem calm_addServer (wire : String) : Calm s (s.addServer id wire) := by
  refine ⟨rfl, fun _ hfile => hfile, ?_, List.Subset.refl _⟩
  intro other hserves
  rcases serves_iff.mp hserves with ⟨found, hfound, hphase⟩
  rcases some_of_joined hfound with ⟨_, hnew⟩ | hold
  · rw [hnew] at hphase
    cases hphase
  · exact serves_iff.mpr ⟨found, hold, hphase⟩

theorem Sound.addServer (h : Sound s) (wire : String) : Sound (s.addServer id wire) := by
  have hcalm : Calm s (s.addServer id wire) := calm_addServer wire
  refine ⟨⟨?_, h.kept.stops⟩, ?_, ?_⟩
  · intro other hserves
    exact h.kept.leads other (hcalm.serves other hserves)
  · exact forall_joined (fun entry hentry => Phase.knows_calm (h.servers entry hentry) hcalm)
      True.intro
  · exact fun entry hentry => Asking.knows_calm (h.clients entry hentry) hcalm

theorem Sound.addClient (h : Sound s) {client : Client} (hnew : client.asking = Asking.connecting) :
    Sound (s.addClient id client) := by
  have hcalm : Calm s (s.addClient id client) :=
    ⟨rfl, fun _ hfile => hfile, fun _ hserves => hserves, List.Subset.refl _⟩
  refine ⟨⟨h.kept.leads, h.kept.stops⟩, h.servers, ?_⟩
  refine forall_joined (fun entry hentry => Asking.knows_calm (h.clients entry hentry) hcalm) ?_
  rw [hnew]
  exact True.intro

theorem Sound.bind (h : Sound s) (server : Server) : Sound (s.bind id server) := by
  unfold Workspace.bind
  cases hfile : s.file with
  | some other => exact h.setServer (by decide) True.intro
  | none =>
      refine ⟨⟨?_, h.kept.stops⟩, ?_, ?_⟩
      · intro other hserves
        rcases serves_setServer hserves with ⟨hid, _⟩ | ⟨_, hserving⟩
        · rw [hid]
          rfl
        · have hleads := h.kept.leads other hserving
          rw [hfile] at hleads
          cases hleads
      · exact forall_moved (fun entry hentry =>
          Phase.knows_bound (h.servers entry hentry) (Nat.lt_succ_self s.binds)) True.intro
      · exact fun entry hentry => Asking.knows_bound (h.clients entry hentry)
          (Nat.lt_succ_self s.binds) (List.Subset.refl _)

theorem Sound.answerStop (h : Sound s) {server : Server}
    (hserver : partyOf s.servers id = some server) : Sound (s.answerStop id server) := by
  cases hphase : server.phase with
  | serving =>
      simp only [Workspace.answerStop, hphase]
      have hserves : s.serves id = true := serves_iff.mpr ⟨server, hserver, hphase⟩
      refine h.setServer (Phase.noConfusion) ?_
      exact Seen.now (vacant_setServer h.kept hserves Phase.noConfusion)
  | _ =>
      simp only [Workspace.answerStop, hphase]
      exact h

theorem Sound.note (h : Sound s) (answered : Nat × Nat) :
    Sound { s with mismatched := s.mismatched ++ [answered] } := by
  have hmore : s.mismatched ⊆ s.mismatched ++ [answered] := List.subset_append_left _ _
  have hcalm : Calm s { s with mismatched := s.mismatched ++ [answered] } :=
    ⟨rfl, fun _ hfile => hfile, fun _ hserves => hserves, hmore⟩
  refine ⟨⟨h.kept.leads, List.Subset.trans h.kept.stops hmore⟩, ?_, ?_⟩
  · exact fun entry hentry => Phase.knows_calm (h.servers entry hentry) hcalm
  · exact fun entry hentry => Asking.knows_calm (h.clients entry hentry) hcalm

theorem Sound.replace (h : Sound s) {pair : Nat × Nat} (hpair : pair ∈ s.mismatched) :
    Sound { s with replaced := s.replaced ++ [pair] } := by
  have hcalm : Calm s { s with replaced := s.replaced ++ [pair] } :=
    ⟨rfl, fun _ hfile => hfile, fun _ hserves => hserves, List.Subset.refl _⟩
  refine ⟨⟨h.kept.leads, ?_⟩, ?_, ?_⟩
  · exact List.append_subset.mpr ⟨h.kept.stops, List.cons_subset.mpr ⟨hpair, List.nil_subset _⟩⟩
  · exact fun entry hentry => Phase.knows_calm (h.servers entry hentry) hcalm
  · exact fun entry hentry => Asking.knows_calm (h.clients entry hentry) hcalm

end Changes

/-!
## What a connection finds
-/

section Connections

variable {s : Workspace} {id peer looked : Nat}

theorem file_of_listener (h : s.listener = some peer) : s.file = some peer :=
  (Option.filter_eq_some_iff.mp h).1

theorem leadsOnly_of_listener (h : s.listener = some peer) : LeadsOnly s peer := by
  intro id hfile
  rw [file_of_listener h] at hfile
  exact (Option.some.inj hfile).symm

theorem vacant_of_listener (hkept : Kept s) (h : s.listener = none) : Vacant s := by
  intro id
  cases hserves : s.serves id with
  | false => rfl
  | true =>
      rcases serves_iff.mp hserves with ⟨server, hserver, hphase⟩
      have hlistens : (partyOf s.servers id).any (fun server => server.phase.listens) = true := by
        rw [hserver, Option.any_some, hphase]
        rfl
      have hfound : s.listener = some id :=
        Option.filter_eq_some_iff.mpr ⟨hkept.leads id hserves, hlistens⟩
      rw [h] at hfound
      cases hfound

theorem vacant_of_file (hkept : Kept s) (h : s.file = none) : Vacant s := by
  intro id
  cases hserves : s.serves id with
  | false => rfl
  | true =>
      have hfile := hkept.leads id hserves
      rw [h] at hfile
      cases hfile

theorem expects_of_vacant (h : Vacant s) (expected : Option Nat) :
    forall server, s.serves server = true -> expected = some server := by
  intro server hserves
  rw [h server] at hserves
  cases hserves

theorem expects_of_leadsOnly (hkept : Kept s) (h : LeadsOnly s peer) :
    forall server, s.serves server = true -> some peer = some server := by
  intro server hserves
  rw [h server (hkept.leads server hserves)]

theorem Sound.probe (h : Sound s) (server : Server) : Sound (s.probe id server) := by
  unfold Workspace.probe
  cases hlistener : s.listener with
  | some other => exact h.setServer Phase.noConfusion True.intro
  | none =>
      have hvacant := vacant_of_listener h.kept hlistener
      refine h.setServer Phase.noConfusion ?_
      exact Seen.now (hvacant.calm (calm_setServer Phase.noConfusion))

theorem Sound.connect (h : Sound s) (client : Client) : Sound (s.connect id client) := by
  unfold Workspace.connect
  cases hlistener : s.listener with
  | some server => exact h.setAsking (Seen.now (leadsOnly_of_listener hlistener))
  | none =>
      cases hstop : client.stop with
      | true => exact h.setAsking True.intro
      | false => exact h.setAsking True.intro

theorem Sound.reconnect (h : Sound s) (client : Client) (again : Bool) :
    Sound (s.reconnect id client again) := by
  unfold Workspace.reconnect
  cases hlistener : s.listener with
  | some server => exact h.setAsking (Seen.now (leadsOnly_of_listener hlistener))
  | none => exact h.setAsking True.intro

theorem Sound.lock (h : Sound s) (client : Client) (again : Bool) :
    Sound (s.lock id client again) := by
  unfold Workspace.lock
  split
  · exact h.setAsking True.intro
  · exact (h.setLock true).setAsking True.intro

theorem Sound.answer (h : Sound s) (client : Client) (again : Bool) {server : Server}
    (hserver : partyOf s.servers peer = some server)
    (hknows : Seen s.binds looked (LeadsOnly s peer)) (ours version : String) :
    Sound (s.answer id client again peer looked server ours version) := by
  unfold Workspace.answer
  split
  · exact (h.answerStop hserver).setAsking True.intro
  · split
    · exact h.setAsking True.intro
    · have hnoted := h.note (id, peer)
      dsimp only
      split
      · exact hnoted.setAsking True.intro
      · exact hnoted.setAsking ⟨List.mem_append_right _ (List.mem_singleton_self _), hknows⟩

/--
Whoever a client reaches when it comes to ask for the stop is the server that answered it, if
nobody has bound the socket since it connected to that one.
-/
theorem Sound.turn (h : Sound s) (client : Client) {server : Nat}
    (hmismatched : (id, server) ∈ s.mismatched) (hknows : Seen s.binds looked (LeadsOnly s server))
    (hfresh : s.listener.isNone = true ∨ looked = s.binds) :
    Sound (s.turn id client server looked) := by
  unfold Workspace.turn
  cases hlistener : s.listener with
  | none =>
      have hvacant := vacant_of_listener h.kept hlistener
      exact h.setAsking (Seen.now (expects_of_vacant hvacant none))
  | some peer =>
      have hlooked : looked = s.binds := by
        rw [hlistener] at hfresh
        exact hfresh.resolve_left Bool.false_ne_true
      have hpeer := hknows.still hlooked peer (file_of_listener hlistener)
      exact h.setAsking ⟨hpeer, hmismatched, hknows⟩

theorem calm_answerStop (s : Workspace) (server : Server) : Calm s (s.answerStop peer server) := by
  unfold Workspace.answerStop
  split
  · exact calm_setServer Phase.noConfusion
  · exact ⟨rfl, fun _ hfile => hfile, fun _ hserves => hserves, List.Subset.refl _⟩

theorem answerStop_replaced (s : Workspace) (server : Server) :
    (s.answerStop peer server).replaced = s.replaced := by
  unfold Workspace.answerStop
  split
  · rfl
  · rfl

theorem Sound.farewell (h : Sound s) (client : Client) {server : Server}
    (hserver : partyOf s.servers peer = some server) (hmismatched : (id, peer) ∈ s.mismatched)
    (hknows : Seen s.binds looked (LeadsOnly s peer)) :
    Sound (s.farewell id client looked peer server) := by
  have hcalm : Calm s (s.answerStop peer server) := calm_answerStop s server
  have hreplaced := (h.answerStop hserver).replace (hcalm.mismatched hmismatched)
  rw [answerStop_replaced] at hreplaced
  refine hreplaced.setAsking ?_
  have hwaits : (Asking.waiting (some peer) looked).Knows s id :=
    hknows.kept (expects_of_leadsOnly h.kept)
  have hstill := Asking.knows_calm hwaits hcalm
  exact hstill

theorem vacant_of_sweep {expected : Option Nat}
    (h : forall server, s.serves server = true -> expected = some server)
    (hgone : expected.any s.serves = false) : Vacant s := by
  intro server
  cases hserves : s.serves server with
  | false => rfl
  | true =>
      rw [h server hserves, Option.any_some, hserves] at hgone
      cases hgone

end Connections

/-!
## A step, and a run
-/

section Steps

variable {s t : Workspace} {id : Nat}

theorem sound_serverStep (h : Sound s) {server : Server}
    (hserver : partyOf s.servers id = some server) {taken : ServerStep}
    (hfresh : serverFresh s server.phase taken = true)
    (hstep : serverStep s id server taken = some t) : Sound t := by
  have hknows : server.phase.Knows s := h.servers (id, server) (mem_of_partyOf hserver)
  cases taken with
  | probe =>
      cases hphase : server.phase with
      | opening =>
          simp only [serverStep, hphase, Option.some.injEq] at hstep
          rw [← hstep]
          exact h.probe server
      | _ => simp [serverStep, hphase] at hstep
  | clear =>
      cases hphase : server.phase with
      | probed looked =>
          simp only [serverStep, hphase, Option.some.injEq] at hstep
          rw [hphase] at hfresh hknows
          rw [← hstep]
          have hvacant : Vacant s := hknows.still (of_decide_eq_true hfresh)
          exact (h.removeFile hvacant).setServer Phase.noConfusion True.intro
      | _ => simp [serverStep, hphase] at hstep
  | bind =>
      cases hphase : server.phase with
      | cleared =>
          simp only [serverStep, hphase, Option.some.injEq] at hstep
          rw [← hstep]
          exact h.bind server
      | _ => simp [serverStep, hphase] at hstep
  | unlink =>
      cases hphase : server.phase with
      | stopping answered removed =>
          simp only [serverStep, hphase, Option.some.injEq] at hstep
          rw [hphase] at hfresh hknows
          rw [← hstep]
          have hremoved := h.removeFile (hknows.still (of_decide_eq_true hfresh))
          refine hremoved.setServer Phase.noConfusion ?_
          have hstill : (Phase.stopping answered true).Knows s.removeFile :=
            Phase.knows_calm hknows (calm_removeFile s)
          exact Phase.knows_calm hstill (calm_setServer Phase.noConfusion)
      | _ => simp [serverStep, hphase] at hstep
  | exit =>
      cases hphase : server.phase with
      | stopping answered removed =>
          cases removed with
          | false => simp [serverStep, hphase] at hstep
          | true =>
              simp only [serverStep, hphase, Option.some.injEq] at hstep
              rw [← hstep]
              exact h.setServer Phase.noConfusion True.intro
      | _ => simp [serverStep, hphase] at hstep
  | die =>
      simp only [serverStep, Option.some.injEq] at hstep
      rw [← hstep]
      exact h.setServer Phase.noConfusion True.intro

theorem sound_clientStep (h : Sound s) {client : Client}
    (hclient : partyOf s.clients id = some client) {taken : ClientStep}
    (hfresh : clientFresh s client.asking taken = true)
    (hstep : clientStep s id client taken = some t) : Sound t := by
  have hknows : client.asking.Knows s id := h.clients (id, client) (mem_of_partyOf hclient)
  cases taken with
  | connect =>
      cases hasking : client.asking with
      | connecting =>
          simp only [clientStep, hasking, Option.some.injEq] at hstep
          rw [← hstep]
          exact h.connect client
      | _ => simp [clientStep, hasking] at hstep
  | lock =>
      cases hasking : client.asking with
      | spawning again =>
          simp only [clientStep, hasking, Option.some.injEq] at hstep
          rw [← hstep]
          exact h.lock client again
      | _ => simp [clientStep, hasking] at hstep
  | start child wire =>
      cases hasking : client.asking with
      | starting again =>
          cases hchild : partyOf s.servers child with
          | some other => simp [clientStep, hasking, hchild] at hstep
          | none =>
              simp only [clientStep, hasking, hchild, Option.some.injEq] at hstep
              rw [← hstep]
              exact (h.addServer wire).setAsking True.intro
      | _ => simp [clientStep, hasking] at hstep
  | refused =>
      cases hasking : client.asking with
      | starting again =>
          simp only [clientStep, hasking, Option.some.injEq] at hstep
          rw [← hstep]
          exact (h.setLock false).setAsking True.intro
      | _ => simp [clientStep, hasking] at hstep
  | listening =>
      cases hasking : client.asking with
      | awaiting again child =>
          cases hlistener : s.listener with
          | none => simp [clientStep, hasking, hlistener] at hstep
          | some server =>
              simp only [clientStep, hasking, hlistener, Option.some.injEq] at hstep
              rw [← hstep]
              exact (h.unlock child).setAsking True.intro
      | _ => simp [clientStep, hasking] at hstep
  | giveUp =>
      cases hasking : client.asking with
      | awaiting again child =>
          simp only [clientStep, hasking, Option.some.injEq] at hstep
          rw [← hstep]
          exact (h.unlock child).setAsking True.intro
      | _ => simp [clientStep, hasking] at hstep
  | reconnect =>
      cases hasking : client.asking with
      | reconnecting again =>
          simp only [clientStep, hasking, Option.some.injEq] at hstep
          rw [← hstep]
          exact h.reconnect client again
      | _ => simp [clientStep, hasking] at hstep
  | answer ours version =>
      cases hasking : client.asking with
      | talking again peer looked =>
          rw [hasking] at hknows
          simp only [clientStep, hasking] at hstep
          rcases Option.map_eq_some_iff.mp hstep with ⟨server, hpeer, hanswer⟩
          rw [← hanswer]
          have hserver := (Option.filter_eq_some_iff.mp hpeer).1
          exact h.answer client again hserver hknows ours version
      | _ => simp [clientStep, hasking] at hstep
  | turn =>
      cases hasking : client.asking with
      | replacing server looked =>
          simp only [clientStep, hasking, Option.some.injEq] at hstep
          rw [hasking] at hfresh hknows
          rw [← hstep]
          have hlooked : s.listener.isNone = true ∨ looked = s.binds :=
            (Bool.or_eq_true_iff.mp hfresh).imp_right of_decide_eq_true
          exact h.turn client hknows.1 hknows.2 hlooked
      | _ => simp [clientStep, hasking] at hstep
  | farewell =>
      cases hasking : client.asking with
      | leaving server looked peer =>
          rw [hasking] at hknows
          rcases hknows with ⟨rfl, hmismatched, honly⟩
          simp only [clientStep, hasking] at hstep
          rcases Option.map_eq_some_iff.mp hstep with ⟨server, hpeer, hfarewell⟩
          rw [← hfarewell]
          have hserver := (Option.filter_eq_some_iff.mp hpeer).1
          exact h.farewell client hserver hmismatched honly
      | _ => simp [clientStep, hasking] at hstep
  | broken =>
      cases hasking : client.asking with
      | leaving server looked peer =>
          rw [hasking] at hknows
          rcases hknows with ⟨rfl, _, honly⟩
          simp only [clientStep, hasking, Option.some.injEq] at hstep
          rw [← hstep]
          exact h.setAsking (honly.kept (expects_of_leadsOnly h.kept))
      | _ => simp [clientStep, hasking] at hstep
  | seeGone =>
      cases hasking : client.asking with
      | waiting peer looked =>
          cases hfile : s.file with
          | some server => simp [clientStep, hasking, hfile] at hstep
          | none =>
              simp only [clientStep, hasking, hfile, Option.some.injEq] at hstep
              rw [← hstep]
              have hvacant := vacant_of_file h.kept hfile
              exact h.setAsking (Seen.now (expects_of_vacant hvacant none))
      | _ => simp [clientStep, hasking] at hstep
  | waitOut =>
      cases hasking : client.asking with
      | waiting peer looked =>
          rw [hasking] at hknows
          simp only [clientStep, hasking, Option.some.injEq] at hstep
          rw [← hstep]
          exact h.setAsking hknows
      | _ => simp [clientStep, hasking] at hstep
  | sweep =>
      cases hasking : client.asking with
      | sweeping peer looked =>
          simp only [clientStep, hasking, Option.some.injEq] at hstep
          rw [hasking] at hfresh hknows
          rw [← hstep]
          rcases Bool.and_eq_true_iff.mp hfresh with ⟨hlooked, hgone⟩
          have hvacant := vacant_of_sweep (hknows.still (of_decide_eq_true hlooked))
            (Bool.not_eq_true' _ |>.mp hgone)
          exact (h.removeFile hvacant).setAsking True.intro
      | _ => simp [clientStep, hasking] at hstep
  | fail =>
      simp only [clientStep, Option.some.injEq] at hstep
      rw [← hstep]
      exact h.setAsking True.intro

theorem sound_step : PreservedWhen step (fun s taken => fresh s taken = true) Sound := by
  intro s taken t h hfresh hstep
  cases taken with
  | serve id wire =>
      simp only [step, Option.ite_none_right_eq_some, Option.some.injEq] at hstep
      rw [← hstep.2]
      exact h.addServer wire
  | ask id stop version wire =>
      simp only [step, Option.ite_none_right_eq_some, Option.some.injEq] at hstep
      rw [← hstep.2]
      exact h.addClient rfl
  | server id taken =>
      rcases Option.bind_eq_some_iff.mp hstep with ⟨server, hserver, htaken⟩
      simp only [fresh, hserver, Option.all_some] at hfresh
      exact sound_serverStep h hserver hfresh htaken
  | client id taken =>
      rcases Option.bind_eq_some_iff.mp hstep with ⟨client, hclient, htaken⟩
      simp only [fresh, hclient, Option.all_some] at hfresh
      exact sound_clientStep h hclient hfresh htaken

theorem sound_cold : Sound Workspace.cold := by
  refine ⟨⟨?_, List.Subset.refl _⟩, ?_, ?_⟩
  · intro id hserves
    cases hserves
  · intro entry hentry
    cases hentry
  · intro entry hentry
    cases hentry

end Steps

/--
While every process acts on a look since which nobody has bound the socket, a live server
keeps its socket, and only servers that answered with a Mismatch are replaced.
-/
theorem kept_of_fresh {actions : List Action} {s : Workspace}
    (hfresh : Along step (fun s taken => fresh s taken = true) Workspace.cold actions)
    (hrun : RunFrom step Workspace.cold actions = some s) : Kept s :=
  (runFrom_preservedWhen sound_step sound_cold hfresh hrun).kept

def starting (id : Nat) : List Action :=
  [Action.server id ServerStep.probe, Action.server id ServerStep.clear,
    Action.server id ServerStep.bind]

def refused (id : Nat) : List Action :=
  [Action.ask id false "2" "2", Action.client id ClientStep.connect,
    Action.client id (ClientStep.answer "1" "2")]

def replacement (id old new : Nat) : List Action :=
  [Action.client id ClientStep.turn, Action.client id ClientStep.farewell,
    Action.server old ServerStep.unlink, Action.server old ServerStep.exit,
    Action.client id ClientStep.seeGone, Action.client id ClientStep.sweep,
    Action.client id ClientStep.lock, Action.client id (ClientStep.start new "2")] ++
    starting new ++
    [Action.client id ClientStep.listening, Action.client id ClientStep.reconnect,
      Action.client id (ClientStep.answer "2" "2")]

def replacedOnce : List Action :=
  [Action.serve 0 "1"] ++ starting 0 ++ refused 0 ++ replacement 0 0 1

theorem kept_of_replacedOnce :
    exists s, RunFrom step Workspace.cold replacedOnce = some s ∧ s.serves 1 = true ∧ Kept s := by
  have hrun : exists s, RunFrom step Workspace.cold replacedOnce = some s ∧ s.serves 1 = true :=
    ⟨_, rfl, by decide +kernel⟩
  rcases hrun with ⟨s, hrun, hserves⟩
  exact ⟨s, hrun, hserves, kept_of_fresh (by decide +kernel) hrun⟩

/-- Two servers are started at once, and the second removes the socket the first has bound. -/
def startedTwice : List Action :=
  [Action.serve 0 "1", Action.serve 1 "1", Action.server 0 ServerStep.probe,
    Action.server 1 ServerStep.probe, Action.server 0 ServerStep.clear,
    Action.server 0 ServerStep.bind, Action.server 1 ServerStep.clear]

/-- Two commands of a new build are refused; the second stops what the first has started. -/
def replacedTwice : List Action :=
  [Action.serve 0 "1"] ++ starting 0 ++ refused 0 ++ refused 1 ++ replacement 0 0 1 ++
    [Action.client 1 ClientStep.turn, Action.client 1 ClientStep.farewell]

theorem started_twice_loses_its_socket :
    (exists s, RunFrom step Workspace.cold startedTwice = some s ∧
      s.serves 0 = true ∧ s.file = none) ∧
    exists s, RunFrom step Workspace.cold replacedTwice = some s ∧ ¬s.replaced ⊆ s.mismatched := by
  constructor
  · exact ⟨_, rfl, by decide +kernel⟩
  · exact ⟨_, rfl, by decide +kernel⟩

end Serving
end PaminMemory
