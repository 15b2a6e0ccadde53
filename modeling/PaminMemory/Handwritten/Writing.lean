import Mathlib.Logic.Relation
import PaminMemory.Foundation.Parties
import PaminMemory.Foundation.Runs
import PaminMemory.Ingest.Ingest

/-!
# Ingests and writes by hand

One ingest of a project runs at a time, statement by statement, and may die before any of them.
Between its statements sections of its files are written by hand.  A write by hand is one
transaction: what its statements see is what was committed when they ran, and what they write
is seen when it commits.
-/

namespace PaminMemory
namespace Handwritten

open Foundation Foundation.Program
open Ingest
open Topics (Restates Retired SourceKind Worthless)

/-!
## The ledger, and what is under way
-/

structure Hand where
  write : Write
  /-- The records that its last statement found to delete. -/
  taken : List (String × String)
  sourced : Bool
  /-- The records stored since. -/
  missed : List (String × String)
deriving DecidableEq, Repr

structure Progress where
  /-- The files whose records it forgot before it wrote their sections. -/
  forgot : List String
  /-- Each record stored when it took a section off the surface, with the section. -/
  off : List ((String × String) × String)
  /-- The topics written by hand since it last looked at them or wrote them. -/
  overwritten : List String
  /-- The records it stored of files it cut, until it looks a second time. -/
  fresh : List (String × String)
deriving DecidableEq, Repr

def Progress.none : Progress := { forgot := [], off := [], overwritten := [], fresh := [] }

/-- What is committed, the writes by hand under way, and what the ingest under way has done. -/
structure World where
  ledger : Ledger
  hands : List (Nat × Hand)
  progress : Progress

/-!
## Writing by hand
-/

/-- The records that the last statement of a write deletes: that of the file it is a section of,
for a topic that was there. -/
def World.takes (world : World) (write : Write) : List (String × String) :=
  if write.promoted && (world.ledger.topics.lookup write.topic).isSome then
    world.ledger.fileRecordsOf write.topic
  else
    []

/-- A write waits for another to the same topic, and for one that deletes the same record. -/
def World.holdsBack (world : World) (write : Write) : Bool :=
  world.hands.any fun entry =>
    decide (entry.2.write.topic = write.topic) ||
      entry.2.taken.any fun key => key ∈ world.takes write

def World.committed (world : World) (hand : Hand) : World :=
  let filed := world.ledger.writeFrom hand.write SourceKind.manual none
  { world with
    ledger := { filed with records := filed.records.forget hand.taken }
    progress :=
      if hand.write.promoted then
        { world.progress with overwritten := hand.write.topic :: world.progress.overwritten }
      else
        world.progress }

inductive Stroke where
  /-- Its statements run. -/
  | write (id : Nat) (write : Write)
  | commit (id : Nat)
  | rollBack (id : Nat)
deriving DecidableEq, Repr

def World.dropHand (world : World) (id : Nat) : World :=
  { world with hands := dropParty id world.hands }

def World.stroke (world : World) : Stroke -> Option World
  | Stroke.write id write =>
      if (partyOf world.hands id).isSome || world.holdsBack write then
        none
      else
        some { world with
          hands := world.hands ++ [(id,
            { write := write, taken := world.takes write
              sourced := world.ledger.sourceAt SourceKind.file write.topic, missed := [] })] }
  | Stroke.commit id =>
      (partyOf world.hands id).map fun hand => (world.committed hand).dropHand id
  | Stroke.rollBack id => (partyOf world.hands id).map fun _ => world.dropHand id

/-!
## The statements of an ingest
-/

def locks : Call -> List String
  | Call.renameSection old new _ => [old, new]
  | Call.writeFrom write _ _ => if write.promoted then [write.topic] else []
  | Call.retireSection topic _ => [topic]
  | _ => []

def rewrites (ledger : Ledger) (key : String × String) : Call -> Bool
  | Call.forgetRecordsOfFiles files => key.2 ∈ files
  | Call.forgetFileRecords keys => key ∈ keys
  | Call.putFileRecords records => key ∈ records.map FileRecord.key
  | Call.forgetFileRecordsWrittenSince settled since =>
      settled.any fun entry => entry.1 = key && decide (ledger.WrittenSince entry.2 since)
  | _ => false

def World.waits (world : World) (call : Call) : Bool :=
  world.hands.any fun entry =>
    (entry.2.write.promoted && decide (entry.2.write.topic ∈ locks call)) ||
      entry.2.taken.any fun key => rewrites world.ledger key call

def World.storedWith (world : World) (topic : String) : List ((String × String) × String) :=
  world.ledger.records.map fun record => (record.key, topic)

def Progress.freshOf (progress : Progress) (records : Records) : List (String × String) :=
  (records.filter fun record => record.file ∈ progress.forgot).map FileRecord.key

def World.progressAfter (world : World) : Call -> Progress
  | Call.forgetRecordsOfFiles files => { world.progress with forgot := files }
  | Call.currentContent topic =>
      { world.progress with overwritten := world.progress.overwritten.filter (· ≠ topic) }
  | Call.writeFrom write _ _ =>
      { world.progress with
        overwritten := world.progress.overwritten.filter fun topic =>
          !write.promoted || topic ≠ write.topic }
  | Call.retireSection topic seen =>
      if (world.ledger.retireSection topic seen).1 = Retired.retired then
        { world.progress with off := world.storedWith topic ++ world.progress.off }
      else
        world.progress
  | Call.renameSection old new seen =>
      if (world.ledger.renameSection old new seen).1 then
        { world.progress with off := world.storedWith old ++ world.progress.off }
      else
        world.progress
  | Call.putFileRecords records =>
      { world.progress with fresh := world.progress.freshOf records }
  | Call.forgetFileRecordsWrittenSince _ _ => { world.progress with fresh := [] }
  | _ => world.progress

def Hand.misses (keys : List (String × String)) (hand : Hand) : Hand :=
  { hand with missed := hand.missed ++ keys }

def World.handsAfter (world : World) : Call -> List (Nat × Hand)
  | Call.putFileRecords records =>
      world.hands.map fun entry =>
        (entry.1, entry.2.misses (world.progress.freshOf records))
  | _ => world.hands

def respond (call : Call) (world : World) : call.reply × World :=
  ((answer call world.ledger).1,
    { ledger := (answer call world.ledger).2, hands := world.handsAfter call
      progress := world.progressAfter call })

/-!
## Runs
-/

structure System where
  world : World
  running : Option (Calls Ingested)

inductive Action where
  | start (request : Request)
  /-- The ingest makes its next call. -/
  | call
  | finish
  | die
  | hand (stroke : Stroke)

def System.empty : System :=
  { world := { ledger := Ledger.empty, hands := [], progress := Progress.none }
    running := none }

def World.rest (world : World) : World := { world with progress := Progress.none }

def step (cutter : Cutter) (s : System) : Action -> Option System
  | Action.start request =>
      match s.running with
      | none => some { world := s.world.rest, running := some (ingest cutter request) }
      | some _ => none
  | Action.call =>
      match s.running with
      | some (Program.ask call next) =>
          if s.world.waits call then
            none
          else
            some
              { world := (respond call s.world).2
                running := some (next (respond call s.world).1) }
      | _ => none
  | Action.finish =>
      match s.running with
      | some (Program.done _) => some { world := s.world.rest, running := none }
      | _ => none
  | Action.die => s.running.map fun _ => { world := s.world.rest, running := none }
  | Action.hand stroke => (s.world.stroke stroke).map fun world => { s with world := world }

/-!
## What a record vouches for
-/

def Said (ledger : Ledger) (named : Section) : Prop :=
  exists current, ledger.current named.name = some current ∧
    Restates current.content named.content

structure CutInto (cutter : Cutter) (record : FileRecord) (sections : List Section) : Prop where
  text : exists text, cutter.contentHash text = record.contentHash ∧
    Numbered (cutter.unnamed record.build record.file text) sections
  names : forall named, named ∈ sections -> cutter.Names record.file named.name

/-- Each section of the record's text is held by the filter or said by its topic. -/
def Vouched (cutter : Cutter) (ledger : Ledger) (record : FileRecord) : Prop :=
  exists sections, CutInto cutter record sections ∧ forall named, named ∈ sections ->
    Worthless named.content ∨ Said ledger named

def SectionOf (cutter : Cutter) (record : FileRecord) (topic : String) : Prop :=
  exists sections, CutInto cutter record sections ∧ exists named, named ∈ sections ∧
    named.name = topic ∧ ¬Worthless named.content

/-!
## When it does
-/

/-- No section of one file is named as one of another. -/
structure NamedApart (cutter : Cutter) (files : Set String) : Prop where
  belongs : forall {file name}, file ∈ files -> cutter.Names file name ->
    belongs name file = true
  alone : forall {file other name}, file ∈ files -> cutter.Names file name -> other ∈ files ->
    Ingest.belongs name other = true -> other = file

structure GivenApart (files : Set String) (request : Request) : Prop where
  found : forall seen, seen ∈ request.found -> seen.file.name ∈ files
  once : (request.found.map fun seen => seen.file.name).Nodup
  gone : forall file seen, file ∈ request.deleted -> seen ∈ request.found ->
    file.name ≠ seen.file.name

/-- A write by hand to a section of a recorded file found the section's file source there, and
the record, unless the ingest that stored it has yet to look a second time. -/
def MayCommit (cutter : Cutter) (world : World) (hand : Hand) : Prop :=
  hand.write.promoted = true -> forall record, record ∈ world.ledger.records ->
    SectionOf cutter record hand.write.topic -> record.key ∈ world.progress.fresh ∨
      (hand.sourced = true ∧ record.key ∉ hand.missed)

def MayStroke (cutter : Cutter) (world : World) : Stroke -> Prop
  | Stroke.commit id =>
      forall hand, partyOf world.hands id = some hand -> MayCommit cutter world hand
  | _ => True

/-- A record that is refreshed is still stored, and a write by hand that the second look is for
was recorded since then. -/
def MayCall (cutter : Cutter) (world : World) : Call -> Prop
  | Call.putFileRecords records =>
      forall record, record ∈ records -> record.file ∈ world.progress.forgot ∨
        exists stored, stored ∈ world.ledger.records ∧ stored.Like record
  | Call.forgetFileRecordsWrittenSince settled since =>
      forall entry, entry ∈ settled -> entry.2 ∈ world.progress.overwritten ->
        (exists record, record ∈ world.ledger.records ∧ record.key = entry.1 ∧
          SectionOf cutter record entry.2) -> world.ledger.WrittenSince entry.2 since
  | _ => True

/-- No record is stored of a file that the ingest took a section off the surface of, nor, before
it looks a second time, one of a file with a section written by hand meanwhile. -/
structure MayStop (cutter : Cutter) (world : World) : Prop where
  off : forall record, record ∈ world.ledger.records -> forall topic,
    (record.key, topic) ∈ world.progress.off -> ¬SectionOf cutter record topic
  fresh : forall record, record ∈ world.ledger.records -> record.key ∈ world.progress.fresh ->
    forall topic, topic ∈ world.progress.overwritten -> ¬SectionOf cutter record topic

def Assumed (cutter : Cutter) (files : Set String) (s : System) : Action -> Prop
  | Action.start request => GivenApart files request
  | Action.call =>
      forall call next, s.running = some (Program.ask call next) -> MayCall cutter s.world call
  | Action.finish => MayStop cutter s.world
  | Action.die => MayStop cutter s.world
  | Action.hand stroke => MayStroke cutter s.world stroke

end Handwritten
end PaminMemory
