import Mathlib.Data.List.MinMax
import PaminMemory.Foundation.Parties
import PaminMemory.Foundation.Runs

/-!
# The registry of open values

One lock over the map, and one over each slot.  Whether an entry is in use is read off two
reference counts, and a reference is dropped under neither lock; so the steps below are as
small as what another caller can see between them.
-/

namespace PaminMemory
namespace Opening

open Foundation

structure Entry where
  slot : Nat
  used : Nat
  lastAt : Nat
deriving DecidableEq, Repr

inductive Request (key : Type _) where
  | getOrOpen (k : key)
  | takeThen (k : key)
  | opened (k : key) (counts : Bool)
  | closeIdle (idle : Nat)
deriving DecidableEq, Repr

def Request.key? {key : Type _} : Request key -> Option key
  | Request.getOrOpen k => some k
  | Request.takeThen k => some k
  | Request.opened k _ => some k
  | Request.closeIdle _ => none

/--
How far a caller has come.  While it makes room or closes what is idle it holds the lock of
the map, with the keys it has not looked at yet and what it found of the others.
-/
inductive Phase (key : Type _) where
  | asked
  | makingRoom (left idle busy : List key)
  | closing (left idle : List key)
  | queued (slot : Nat)
  | inside (slot : Nat)
  | opening (slot : Nat)
  | draining (slot value : Nat)
  | deleting (slot : Nat)
  | leaving (slot : Nat)
deriving DecidableEq, Repr

namespace Phase

variable {key : Type _}

/-!
## What the map and the slots say
-/

def mapped : Phase key -> Bool
  | makingRoom _ _ _ => true
  | closing _ _ => true
  | _ => false

def slot? : Phase key -> Option Nat
  | queued slot => some slot
  | inside slot => some slot
  | opening slot => some slot
  | draining slot _ => some slot
  | deleting slot => some slot
  | leaving slot => some slot
  | _ => none

def guard? : Phase key -> Option Nat
  | inside slot => some slot
  | opening slot => some slot
  | draining slot _ => some slot
  | deleting slot => some slot
  | _ => none

def value? : Phase key -> Option Nat
  | draining _ value => some value
  | _ => none

end Phase

structure Call (key : Type _) where
  request : Request key
  phase : Phase key
deriving DecidableEq, Repr

/--
The map, what the slots hold, the references the callers were given, and the callers that
have not returned.  `opened` lists the key each value was opened for.
-/
structure Registry (key : Type _) where
  capacity : Nat
  slots : List (key × Entry)
  uses : Nat
  contents : List (Nat × Nat)
  handles : List Nat
  opened : List (Nat × key)
  calls : List (Nat × Call key)
  nextSlot : Nat
  nextValue : Nat
deriving DecidableEq, Repr

namespace Registry

variable {key : Type _} [DecidableEq key]

/-!
## A registry

It is read by what its map lists, what its slots hold and who holds on to what.
-/

def withCapacity (key : Type _) (capacity : Nat) : Registry key :=
  { capacity := capacity, slots := [], uses := 0, contents := [], handles := [], opened := []
    calls := [], nextSlot := 0, nextValue := 0 }

def keys (s : Registry key) : List key := s.slots.map Prod.fst

def entryOf (s : Registry key) (k : key) : Option Entry :=
  (s.slots.find? fun row => row.1 = k).map Prod.snd

def contentOf (s : Registry key) (slot : Nat) : Option Nat :=
  (s.contents.find? fun row => row.1 = slot).map Prod.snd

def slotCount (s : Registry key) (slot : Nat) : Nat :=
  (s.slots.filter fun row => row.2.slot = slot).length +
    (s.calls.filter fun row => row.2.phase.slot? = some slot).length

/-- The references to a value: the slots', those given out, and one being taken out. -/
def valueCount (s : Registry key) (value : Nat) : Nat :=
  (s.contents.filter fun row => row.2 = value).length + s.handles.count value +
    (s.calls.filter fun row => row.2.phase.value? = some value).length

def guarded (s : Registry key) (slot : Nat) : Bool :=
  s.calls.any fun row => row.2.phase.guard? = some slot

def mapHeld (s : Registry key) : Bool :=
  s.calls.any fun row => row.2.phase.mapped

def isUnused (s : Registry key) (entry : Entry) : Bool :=
  if s.slotCount entry.slot ≠ 1 then
    false
  else if s.guarded entry.slot then
    false
  else
    match s.contentOf entry.slot with
    | none => true
    | some value => s.valueCount value = 1

def release (s : Registry key) : Registry key :=
  { s with contents := s.contents.filter fun row => 0 < s.slotCount row.1 }

def setPhase (id : Nat) (call : Call key) (phase : Phase key) (s : Registry key) :
    Registry key :=
  { s with calls := setParty id { call with phase := phase } s.calls }

def dismiss (id : Nat) (s : Registry key) : Registry key :=
  { s with calls := dropParty id s.calls }

/-- Counts a use of a key: the last of the eviction order, and wanted now. -/
def stamp (k : key) (now : Nat) (s : Registry key) : Registry key :=
  { s with
    slots := s.slots.map fun row =>
      if row.1 = k then (row.1, { row.2 with used := s.uses, lastAt := now }) else row }

def remove (gone : List key) (s : Registry key) : Registry key :=
  ({ s with slots := s.slots.filter fun row => row.1 ∉ gone } : Registry key).release

def pass (s : Registry key) : List key :=
  if s.capacity <= s.slots.length then s.keys else []

/-!
## What is closed to make room
-/

def oldest (s : Registry key) (idle : List key) : Option key :=
  idle.argmin fun k => ((s.entryOf k).map Entry.used).getD 0

def enter (id : Nat) (call : Call key) (now : Nat) (s : Registry key) : Registry key :=
  let use := fun k : key =>
    let counted := { s with uses := s.uses + 1 }
    match s.entryOf k with
    | some entry => (stamp k now counted).setPhase id call (Phase.queued entry.slot)
    | none => counted.setPhase id call (Phase.makingRoom s.pass [] [])
  match call.request with
  | Request.getOrOpen k => use k
  | Request.takeThen k => use k
  | Request.opened k counts =>
      match s.entryOf k with
      | none => s.dismiss id
      | some entry =>
          let counted := if counts then stamp k now { s with uses := s.uses + 1 } else s
          counted.setPhase id call (Phase.queued entry.slot)
  | Request.closeIdle _ => s.setPhase id call (Phase.closing s.keys [])

def aged (s : Registry key) (request : Request key) (now : Nat) (k : key) : Bool :=
  match request, s.entryOf k with
  | Request.closeIdle idle, some entry => idle <= now - entry.lastAt
  | _, _ => false

def unused (s : Registry key) (k : key) : Bool :=
  match s.entryOf k with
  | none => false
  | some entry => s.isUnused entry

/-!
## The steps of a caller
-/

def insert (id : Nat) (call : Call key) (k : key) (now : Nat) (s : Registry key) :
    Registry key :=
  { s with
    slots := s.slots ++ [(k, { slot := s.nextSlot, used := s.uses, lastAt := now })]
    nextSlot := s.nextSlot + 1
    calls := setParty id { call with phase := Phase.queued s.nextSlot } s.calls }

def proceed (id : Nat) (call : Call key) (slot : Nat) (s : Registry key) : Registry key :=
  match call.request, s.contentOf slot with
  | Request.takeThen _, some value =>
      ({ s with contents := s.contents.filter fun row => row.1 ≠ slot } : Registry key).setPhase
        id call (Phase.draining slot value)
  | Request.takeThen _, none => s.setPhase id call (Phase.deleting slot)
  | Request.getOrOpen _, none => s.setPhase id call (Phase.opening slot)
  | _, some value =>
      ({ s with handles := s.handles ++ [value] } : Registry key).setPhase id call
        (Phase.leaving slot)
  | _, none => s.setPhase id call (Phase.leaving slot)

/-- An open that succeeded: its value goes in the slot, and to the caller. -/
def fill (id : Nat) (call : Call key) (k : key) (slot : Nat) (s : Registry key) :
    Registry key :=
  ({ s with
      contents := s.contents ++ [(slot, s.nextValue)]
      handles := s.handles ++ [s.nextValue]
      opened := s.opened ++ [(s.nextValue, k)]
      nextValue := s.nextValue + 1 } : Registry key).setPhase id call (Phase.leaving slot)

end Registry

/-- One step of a caller, or of one who was given a value. -/
inductive Action (key : Type _) where
  | ask (id : Nat) (request : Request key)
  | enter (id : Nat) (now : Nat)
  | inspect (id : Nat) (now : Nat)
  | conclude (id : Nat) (now : Nat)
  | acquire (id : Nat)
  | proceed (id : Nat)
  | finish (id : Nat) (succeeds : Bool)
  | drained (id : Nat)
  | giveUp (id : Nat)
  | leave (id : Nat)
  | clone (value : Nat)
  | drop (value : Nat)

section Step

variable {key : Type _} [DecidableEq key]

def inspected (s : Registry key) (call : Call key) (now : Nat) : Option (Phase key) :=
  match call.phase with
  | Phase.makingRoom (k :: left) idle busy =>
      if s.unused k then
        some (Phase.makingRoom left (idle ++ [k]) busy)
      else
        some (Phase.makingRoom left idle (busy ++ [k]))
  | Phase.closing (k :: left) idle =>
      if s.aged call.request now k && s.unused k then
        some (Phase.closing left (idle ++ [k]))
      else
        some (Phase.closing left idle)
  | _ => none

/-- Ends a pass: closes what was found, or adds the entry there is room for. -/
def concluded (s : Registry key) (id : Nat) (call : Call key) (now : Nat) :
    Option (Registry key) :=
  match call.phase with
  | Phase.makingRoom [] idle _ =>
      match s.oldest idle with
      | some oldest =>
          let closed := s.remove [oldest]
          some (closed.setPhase id call (Phase.makingRoom closed.pass [] []))
      | none => call.request.key?.map fun k => s.insert id call k now
  | Phase.closing [] idle => some ((s.remove idle).dismiss id)
  | _ => none

/-- Asks for the lock of a slot; a caller that only peeks does not wait for it. -/
def acquired (s : Registry key) (call : Call key) : Option (Phase key) :=
  match call.phase with
  | Phase.queued slot =>
      match call.request with
      | Request.opened _ _ =>
          some (if s.guarded slot then Phase.leaving slot else Phase.inside slot)
      | _ => if s.guarded slot then none else some (Phase.inside slot)
  | _ => none

def finished (s : Registry key) (id : Nat) (call : Call key) (succeeds : Bool) :
    Option (Registry key) :=
  match call.phase with
  | Phase.opening slot =>
      if succeeds then
        call.request.key?.map fun k => s.fill id call k slot
      else
        some (s.setPhase id call (Phase.leaving slot))
  | Phase.deleting slot => some (s.setPhase id call (Phase.leaving slot))
  | _ => none

def step (s : Registry key) : Action key -> Option (Registry key)
  | Action.ask id request =>
      if (partyOf s.calls id).isNone then
        some { s with calls := s.calls ++ [(id, { request := request, phase := Phase.asked })] }
      else
        none
  | Action.enter id now =>
      (partyOf s.calls id).bind fun call =>
        if call.phase = Phase.asked && !s.mapHeld then some (s.enter id call now) else none
  | Action.inspect id now =>
      (partyOf s.calls id).bind fun call =>
        (inspected s call now).map fun phase => s.setPhase id call phase
  | Action.conclude id now =>
      (partyOf s.calls id).bind fun call => concluded s id call now
  | Action.acquire id =>
      (partyOf s.calls id).bind fun call =>
        (acquired s call).map fun phase => s.setPhase id call phase
  | Action.proceed id =>
      (partyOf s.calls id).bind fun call =>
        match call.phase with
        | Phase.inside slot => some (s.proceed id call slot)
        | _ => none
  | Action.finish id succeeds =>
      (partyOf s.calls id).bind fun call => finished s id call succeeds
  | Action.drained id =>
      (partyOf s.calls id).bind fun call =>
        match call.phase with
        | Phase.draining slot value =>
            if s.valueCount value = 1 then
              some (s.setPhase id call (Phase.deleting slot))
            else
              none
        | _ => none
  | Action.giveUp id =>
      (partyOf s.calls id).bind fun call =>
        match call.phase with
        | Phase.draining slot value =>
            if 1 < s.valueCount value then
              some (({ s with contents := s.contents ++ [(slot, value)] } : Registry key).setPhase
                id call (Phase.leaving slot))
            else
              none
        | _ => none
  | Action.leave id =>
      (partyOf s.calls id).bind fun call =>
        match call.phase with
        | Phase.leaving _ => some (s.dismiss id).release
        | _ => none
  | Action.clone value =>
      if value ∈ s.handles then some { s with handles := s.handles ++ [value] } else none
  | Action.drop value =>
      if value ∈ s.handles then some { s with handles := s.handles.erase value } else none

end Step

end Opening
end PaminMemory
