import PaminMemory.Index.Documents
import PaminMemory.Jobs.Rounds
import PaminMemory.Topics.Surface
import PaminMemory.Topics.Writes

/-!
# Rebuilding an index beside its drains

A rebuild reads what every topic says, and later takes an index that started empty
and writes all of it.  Drains of the same engine sync single topics meanwhile: each
reads and writes under one lock, which the rebuild does not take.
-/

namespace PaminMemory
namespace Rebuild

open Foundation Index
open Topics (Current Memories)

/-- How far a rebuild is. -/
inductive Phase where
  | opened
  | gathered (states : Memories)
  | returned

inductive Stage where
  | idle
  | syncing (read : List (TopicId × Option Current)) (stored : List TopicId)
deriving DecidableEq, Repr

abbrev Drain := Jobs.Round Stage

/-- The outbox, what topics say, the index of the engine, and what runs on it. -/
structure System where
  outbox : Jobs.Outbox
  memories : Memories
  documents : Documents
  /-- The drain that holds the index syncs. -/
  syncing : Option Nat
  unflushed : List Jobs.Job
  phase : Phase
  drains : List (Nat × Drain)

def System.empty : System :=
  { outbox := Jobs.Outbox.empty, memories := ∅, documents := Documents.empty
    syncing := none, unflushed := [], phase := Phase.opened, drains := [] }

def syncWork (project : ProjectId) (topic : TopicId) : Jobs.Work :=
  { project := project, kind := Jobs.JobKind.syncTopicIndex, subject := some topic }

section Model

variable (cut : TopicId -> String -> Cut) (project : ProjectId)

def spansFor (topic : TopicId) : Option Current -> List Span
  | none => []
  | some current => (cut topic current.content).val

def spansOf (memories : Memories) (topic : TopicId) : List Span :=
  spansFor cut topic (memories.lookup topic)

/-- One statement, transaction or call of the index. -/
inductive Action where
  | write (now : Instant) (kind : Topics.SourceKind) (found : Bool) (topic : TopicId)
      (current : Current) (drawn : Topics.Drawn)
  | retire (now : Instant) (topic : TopicId) (jobs : IndexJobId × IndexJobId)
  | claim (id : Nat) (now : Instant) (worker : String) (batch : Nat)
      (kinds : List Jobs.JobKind) (locked : List IndexJobId)
  | sync (id : Nat) (batch : List Jobs.Job)
  | skip (id : Nat) (topic : TopicId)
  | store (id : Nat) (topic : TopicId)
  | synced (id : Nat)
  | flush
  | complete (id : Nat) (jobs : List Jobs.Job)
  | fail (id : Nat) (now : Instant) (job : Jobs.Job) (error : String)
  | stop (id : Nat)
  | die (id : Nat)
  | replay (now : Instant)
  | reopen
  | gather
  | rebuild

def System.settle (s : System) (statement : Jobs.Statement) : Option System :=
  (Jobs.step s.outbox statement).map fun outbox => { s with outbox := outbox }

def System.released (s : System) (id : Nat) : Option Nat :=
  if s.syncing = some id then none else s.syncing

def System.write (s : System) (now : Instant) (kind : Topics.SourceKind) (found : Bool)
    (topic : TopicId) (current : Current) (drawn : Topics.Drawn) : Option System :=
  (s.settle (Jobs.Statement.enqueue now project (some topic)
    (Topics.owedBy kind found drawn))).map fun t =>
      { t with memories := s.memories.insert topic current }

/-- Takes a topic off the surface; one that says nothing stays as it is. -/
def System.retire (s : System) (now : Instant) (topic : TopicId)
    (jobs : IndexJobId × IndexJobId) : Option System :=
  if topic ∈ s.memories then
    (s.settle (Jobs.Statement.enqueue now project (some topic)
      [(jobs.1, Jobs.JobKind.syncTopicIndex), (jobs.2, Jobs.JobKind.deriveMentions)])).map
        fun t => { t with memories := s.memories.erase topic }
  else
    none

def System.claim (s : System) (id : Nat) (now : Instant) (worker : String) (batch : Nat)
    (kinds : List Jobs.JobKind) (locked : List IndexJobId) : Option System :=
  if id ∈ s.drains.map Prod.fst then
    none
  else
    (s.settle (Jobs.Statement.claim now project worker batch kinds locked)).map fun t =>
      { t with
        drains := s.drains ++
          [(id,
            { worker := worker
              jobs := (Jobs.claim now project worker batch kinds locked s.outbox.queue).2
              batch := [], stage := Stage.idle, done := [] })] }

def subjects (batch : List Jobs.Job) : List TopicId :=
  batch.filterMap fun job => job.work.subject

def System.sync (s : System) (id : Nat) (batch : List Jobs.Job) : Option System :=
  match partyOf s.drains id with
  | none => none
  | some drain =>
      if s.syncing = none ∧ drain.stage = Stage.idle ∧ batch ⊆ drain.jobs ∧
          forall job, job ∈ batch -> job.work.kind = Jobs.JobKind.syncTopicIndex then
        some
          { s with
            syncing := some id
            drains := setParty id
              { drain with
                batch := batch
                stage := Stage.syncing
                  ((subjects batch).map fun topic => (topic, s.memories.lookup topic)) [] }
              s.drains }
      else
        none

def System.settleTopic (s : System) (id : Nat) (topic : TopicId)
    (write : Option Current -> Option Documents) : Option System :=
  match partyOf s.drains id with
  | some { worker, jobs, batch, stage := Stage.syncing read stored, done } =>
      (read.lookup topic).bind fun current => (write current).map fun documents =>
        { s with
          documents := documents
          drains := setParty id
            { worker, jobs, batch, stage := Stage.syncing read (topic :: stored), done }
            s.drains }
  | _ => none

def System.skip (s : System) (id : Nat) (topic : TopicId) : Option System :=
  s.settleTopic id topic fun
    | none => none
    | some current =>
        if s.documents topic = (cut topic current.content).val then
          some s.documents
        else
          none

def System.store (s : System) (id : Nat) (topic : TopicId) : Option System :=
  s.settleTopic id topic fun
    | none => some (s.documents.delete topic)
    | some current => some (s.documents.replace topic (cut topic current.content))

def System.synced (s : System) (id : Nat) : Option System :=
  match partyOf s.drains id with
  | some { worker, jobs, batch, stage := Stage.syncing _ stored, done } =>
      let finished := batch.filter fun job =>
        job.work.subject.any fun topic => decide (topic ∈ stored)
      some
        { s with
          syncing := s.released id
          unflushed := s.unflushed ++ finished
          drains := setParty id
            { worker, jobs, batch := [], stage := Stage.idle, done := done ++ finished }
            s.drains }
  | _ => none

def writeAll (states : Memories) (documents : Documents) : Documents :=
  states.entries.foldl
    (fun documents entry => documents.writeSpans entry.1 (cut entry.1 entry.2.content).val)
    documents

def step (s : System) : Action -> Option System
  | Action.write now kind found topic current drawn =>
      s.write project now kind found topic current drawn
  | Action.retire now topic jobs => s.retire project now topic jobs
  | Action.claim id now worker batch kinds locked =>
      s.claim project id now worker batch kinds locked
  | Action.sync id batch => s.sync id batch
  | Action.skip id topic => s.skip cut id topic
  | Action.store id topic => s.store cut id topic
  | Action.synced id => s.synced id
  | Action.flush => some { s with unflushed := [] }
  | Action.complete id jobs =>
      (partyOf s.drains id).bind fun drain =>
        if jobs ⊆ drain.done ∧ forall job, job ∈ jobs -> job ∉ s.unflushed then
          s.settle (Jobs.Statement.complete drain.worker jobs)
        else
          none
  | Action.fail id now job error =>
      (partyOf s.drains id).bind fun drain =>
        if job ∈ drain.jobs then
          s.settle (Jobs.Statement.fail now drain.worker job error)
        else
          none
  | Action.stop id =>
      (partyOf s.drains id).map fun drain =>
        { s with
          syncing := s.released id
          drains := setParty id { drain with batch := [], stage := Stage.idle } s.drains }
  | Action.die id =>
      some { s with syncing := s.released id, drains := dropParty id s.drains }
  | Action.replay now => s.settle (Jobs.Statement.replay now project)
  | Action.reopen =>
      some
        { s with
          documents := Documents.empty, syncing := none, unflushed := []
          phase := Phase.opened, drains := [] }
  | Action.gather =>
      match s.phase with
      | Phase.opened => some { s with phase := Phase.gathered s.memories }
      | _ => none
  | Action.rebuild =>
      match s.phase with
      | Phase.gathered states =>
          some
            { s with documents := writeAll cut states s.documents, phase := Phase.returned }
      | _ => none

/-!
## What the index should hold
-/

/-- The index holds the spans of what a topic says, and nothing else of it. -/
def Exact (s : System) (topic : TopicId) : Prop :=
  s.documents topic = spansOf cut s.memories topic

/-- No index sync is pending, in progress or waiting for a flush. -/
def Quiet (s : System) : Prop :=
  (forall row, row ∈ s.outbox.queue -> row.work.project = project ->
    row.work.kind ≠ Jobs.JobKind.syncTopicIndex) ∧ s.unflushed = []

instance (s : System) : Decidable (Quiet project s) := by
  unfold Quiet
  infer_instance

def Stage.Unsettled (topic : TopicId) : Stage -> Prop
  | idle => True
  | syncing _ stored => topic ∉ stored

instance (topic : TopicId) : DecidablePred (Stage.Unsettled topic) := by
  intro stage
  cases stage <;> (unfold Stage.Unsettled; infer_instance)

def Resync (s : System) (topic : TopicId) : Prop :=
  Jobs.Owed (Jobs.Round.Before (Stage.Unsettled topic)) s.outbox.queue s.drains
    (syncWork project topic)

instance (s : System) (topic : TopicId) : Decidable (Resync project s topic) := by
  unfold Resync
  infer_instance

/-- A rebuild writes of a topic what it says now, or what its own sync is to replace. -/
def InOrder (s : System) : Action -> Prop
  | Action.rebuild =>
      match s.phase with
      | Phase.gathered states =>
          forall entry, entry ∈ states.entries ->
            (cut entry.1 entry.2.content).val = spansOf cut s.memories entry.1 ∨
              Resync project s entry.1
      | _ => True
  | _ => True

instance (s : System) : DecidablePred (InOrder cut project s) := by
  intro action
  cases action <;> unfold InOrder
  case rebuild =>
    cases s.phase <;> infer_instance
  all_goals infer_instance

end Model

end Rebuild
end PaminMemory
