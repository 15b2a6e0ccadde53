import PaminMemory.Index.Rebuild

/-!
# Index syncs and the flushes that cover them

A write, a retirement and a rename each owe the index a topic.  A drain claims what is owed,
reads what the topics say and writes it, all under one lock, and completes a claim only after
a flush has covered its write: one of its own, or one made later for everything applied.
-/

namespace PaminMemory
namespace Syncing

open Foundation
open Topics (Current Memories)
open Rebuild (syncWork subjects)

inductive Owed where
  | everything
  | whatAMemoryNeeds
deriving DecidableEq, Repr

def Owed.kinds : Owed -> List Jobs.JobKind
  | everything => Jobs.JobKind.all
  | whatAMemoryNeeds => Jobs.JobKind.urgent

/-- What a topic's writes have left in the index. -/
inductive Entry where
  | nothing
  | whole (current : Current) (name : String)
  | part
deriving DecidableEq, Repr

inductive Stage where
  | claimed
  /-- Holds the lock, and has read what the topics say and some of their names. -/
  | syncing (states : List (TopicId × Option Current)) (names : List (TopicId × String))
      (settled : List TopicId)
  /-- Has these writes in the index. -/
  | written (applied : List Jobs.Job)
  | flushed (done : List Jobs.Job)
deriving DecidableEq, Repr

structure Drain where
  owed : Owed
  jobs : List Jobs.Job
  stage : Stage
deriving DecidableEq, Repr

structure Flusher where
  waiting : List Jobs.Job
  covered : Bool
deriving DecidableEq, Repr

/-- One engine's project: the ledger, the index, and what runs on it. -/
structure System where
  outbox : Jobs.Outbox
  memories : Memories
  names : TopicId -> String
  /-- The name this process claims under. -/
  worker : String
  buffered : TopicId -> Entry
  /-- What of it is durable. -/
  durable : TopicId -> Entry
  lock : Option Nat
  /-- Claims held open by writes the index has and the disk does not. -/
  unflushed : List Jobs.Job
  drains : List (Nat × Drain)
  flushers : List (Nat × Flusher)

def System.opened (worker : String) : System :=
  { outbox := Jobs.Outbox.empty, memories := ∅, names := fun _ => "", worker := worker
    buffered := fun _ => Entry.nothing, durable := fun _ => Entry.nothing, lock := none
    unflushed := [], drains := [], flushers := [] }

def entryOf (current : Option Current) (name : String) : Entry :=
  match current with
  | none => Entry.nothing
  | some current => Entry.whole current name

def System.said (s : System) (topic : TopicId) : Entry :=
  entryOf (s.memories.lookup topic) (s.names topic)

def Drain.syncs (drain : Drain) : List Jobs.Job :=
  drain.jobs.filter fun job => job.work.kind = Jobs.JobKind.syncTopicIndex

def Drain.settling (drain : Drain) (settled : List TopicId) : List Jobs.Job :=
  drain.syncs.filter fun job => job.work.subject.any fun topic => decide (topic ∈ settled)

def wanted (states : List (TopicId × Option Current)) (names : List (TopicId × String))
    (topic : TopicId) : Option Entry :=
  match states.lookup topic with
  | none => none
  | some none => some Entry.nothing
  | some (some current) => (names.lookup topic).map fun name => Entry.whole current name

/-!
## The statements

A claim, each read of a round, each settling and each flush is a transaction of its own; a caller's
write is one.
-/

/-- One statement, transaction or call of the index. -/
inductive Action where
  | write (now : Instant) (kind : Topics.SourceKind) (found : Bool) (topic : TopicId)
      (current : Current) (name : String) (drawn : Topics.Drawn)
  | retire (now : Instant) (topic : TopicId) (jobs : IndexJobId × IndexJobId)
  | rename (now : Instant) (topic : TopicId) (name : String) (job : IndexJobId)
  | replay (now : Instant)
  | claim (id : Nat) (now : Instant) (owed : Owed) (batch : Nat) (locked : List IndexJobId)
  | unread (id : Nat)
  | read (id : Nat)
  | readNames (id : Nat) (topics : List TopicId)
  | skip (id : Nat) (topic : TopicId)
  | store (id : Nat) (topic : TopicId)
  | storePart (id : Nat) (topic : TopicId) (touched : Bool)
  | release (id : Nat)
  | flush (id : Nat)
  | fail (id : Nat) (now : Instant) (job : Jobs.Job) (error : String)
  | complete (id : Nat) (reads : List Jobs.Job)
  | leave (id : Nat)
  | take (id : Nat)
  | flushTaken (id : Nat)
  | completeTaken (id : Nat)
  | leaveTaken (id : Nat)
  | persist (topics : List TopicId)
  | restart (worker : String) (kept torn : List TopicId)

section Model

variable (project : ProjectId)

def System.settle (s : System) (statement : Jobs.Statement) : Option System :=
  (Jobs.step s.outbox statement).map fun outbox => { s with outbox := outbox }

def System.released (s : System) (id : Nat) : Option Nat :=
  if s.lock = some id then none else s.lock

/-- A promoted write; one that finds no topic creates it under its name. -/
def System.write (s : System) (now : Instant) (kind : Topics.SourceKind) (found : Bool)
    (topic : TopicId) (current : Current) (name : String) (drawn : Topics.Drawn) :
    Option System :=
  (s.settle (Jobs.Statement.enqueue now project (some topic)
    (Topics.owedBy kind found drawn))).map fun t =>
      { t with
        memories := s.memories.insert topic current
        names := if found then s.names else Function.update s.names topic name }

/-- Takes a topic off the surface; one that says nothing stays as it is. -/
def System.retire (s : System) (now : Instant) (topic : TopicId)
    (jobs : IndexJobId × IndexJobId) : Option System :=
  if topic ∈ s.memories then
    (s.settle (Jobs.Statement.enqueue now project (some topic)
      [(jobs.1, Jobs.JobKind.syncTopicIndex), (jobs.2, Jobs.JobKind.deriveMentions)])).map
        fun t => { t with memories := s.memories.erase topic }
  else
    none

def System.rename (s : System) (now : Instant) (topic : TopicId) (name : String)
    (job : IndexJobId) : Option System :=
  (s.settle (Jobs.Statement.enqueue now project (some topic)
    [(job, Jobs.JobKind.syncTopicIndex)])).map
      fun t => { t with names := Function.update s.names topic name }

/-!
## A round of an index sync
-/

def System.claim (s : System) (id : Nat) (now : Instant) (owed : Owed) (batch : Nat)
    (locked : List IndexJobId) : Option System :=
  if id ∈ s.drains.map Prod.fst then
    none
  else
    (s.settle (Jobs.Statement.claim now project s.worker batch owed.kinds locked)).map fun t =>
      { t with
        drains := s.drains ++
          [(id,
            { owed := owed
              jobs := (Jobs.claim now project s.worker batch owed.kinds locked
                s.outbox.queue).2
              stage := Stage.claimed })] }

def System.moveDrain (s : System) (id : Nat) (next : Drain -> Option (System × Stage)) :
    Option System :=
  (partyOf s.drains id).bind fun drain => (next drain).map fun moved =>
    { moved.1 with drains := setParty id { drain with stage := moved.2 } s.drains }

/-- Takes up no topic: none is owed, or reading what they say failed. -/
def System.unread (s : System) (id : Nat) : Option System :=
  s.moveDrain id fun drain =>
    match drain.stage with
    | Stage.claimed => some (s, Stage.written [])
    | _ => none

def System.read (s : System) (id : Nat) : Option System :=
  s.moveDrain id fun drain =>
    match s.lock, drain.stage with
    | none, Stage.claimed =>
        some
          ({ s with lock := some id },
            Stage.syncing
              ((subjects drain.syncs).map fun topic => (topic, s.memories.lookup topic)) [] [])
    | _, _ => none

def System.readNames (s : System) (id : Nat) (topics : List TopicId) : Option System :=
  s.moveDrain id fun drain =>
    match drain.stage with
    | Stage.syncing states names settled =>
        some
          (s, Stage.syncing states ((topics.map fun topic => (topic, s.names topic)) ++ names)
            settled)
    | _ => none

def resettle (topic : TopicId) (done : Bool) (settled : List TopicId) : List TopicId :=
  if done then topic :: settled else settled.filter fun other => other ≠ topic

def System.settleTopic (s : System) (id : Nat) (topic : TopicId)
    (write : Entry -> Option (Entry × Bool)) : Option System :=
  s.moveDrain id fun drain =>
    match drain.stage with
    | Stage.syncing states names settled =>
        (wanted states names topic).bind fun entry => (write entry).map fun written =>
          ({ s with buffered := Function.update s.buffered topic written.1 },
            Stage.syncing states names (resettle topic written.2 settled))
    | _ => none

def System.skip (s : System) (id : Nat) (topic : TopicId) : Option System :=
  s.settleTopic id topic fun entry =>
    if s.buffered topic = entry then some (entry, true) else none

def System.store (s : System) (id : Nat) (topic : TopicId) : Option System :=
  s.settleTopic id topic fun entry => some (entry, true)

/-- A write that fails; over the same entry, what it got to changes nothing. -/
def System.storePart (s : System) (id : Nat) (topic : TopicId) (touched : Bool) :
    Option System :=
  s.settleTopic id topic fun entry =>
    if touched ∧ s.buffered topic ≠ entry then
      some (Entry.part, false)
    else
      some (s.buffered topic, false)

/-- Lets go of the lock.  Who owes everything flushes next; others leave that to a flusher. -/
def System.release (s : System) (id : Nat) : Option System :=
  s.moveDrain id fun drain =>
    match drain.stage, drain.owed with
    | Stage.syncing _ _ settled, Owed.everything =>
        some ({ s with lock := s.released id }, Stage.written (drain.settling settled))
    | Stage.syncing _ _ settled, Owed.whatAMemoryNeeds =>
        some
          ({ s with
              lock := s.released id, unflushed := s.unflushed ++ drain.settling settled },
            Stage.flushed [])
    | _, _ => none

/-!
## The flushes and the end of the process
-/

def System.flush (s : System) (id : Nat) : Option System :=
  s.moveDrain id fun drain =>
    match drain.stage with
    | Stage.written [] => some (s, Stage.flushed [])
    | Stage.written applied => some ({ s with durable := s.buffered }, Stage.flushed applied)
    | _ => none

def System.fail (s : System) (id : Nat) (now : Instant) (job : Jobs.Job) (error : String) :
    Option System :=
  (partyOf s.drains id).bind fun drain =>
    match drain.stage with
    | Stage.flushed done =>
        if job ∈ drain.jobs ∧ job ∉ done then
          s.settle (Jobs.Statement.fail now s.worker job error)
        else
          none
    | _ => none

def System.complete (s : System) (id : Nat) (reads : List Jobs.Job) : Option System :=
  (partyOf s.drains id).bind fun drain =>
    match drain.stage with
    | Stage.flushed done =>
        if reads ⊆ drain.jobs ∧
            forall job, job ∈ reads -> job.work.kind ≠ Jobs.JobKind.syncTopicIndex then
          (s.settle (Jobs.Statement.complete s.worker (done ++ reads))).map fun t =>
            { t with drains := dropParty id s.drains }
        else
          none
    | _ => none

def System.take (s : System) (id : Nat) : Option System :=
  if id ∈ s.flushers.map Prod.fst ∨ s.unflushed = [] then
    none
  else
    some
      { s with
        unflushed := []
        flushers := s.flushers ++ [(id, { waiting := s.unflushed, covered := false })] }

def System.flushTaken (s : System) (id : Nat) : Option System :=
  (partyOf s.flushers id).map fun flusher =>
    { s with
      durable := s.buffered
      flushers := setParty id { flusher with covered := true } s.flushers }

def System.completeTaken (s : System) (id : Nat) : Option System :=
  (partyOf s.flushers id).bind fun flusher =>
    if flusher.covered then
      (s.settle (Jobs.Statement.complete s.worker flusher.waiting)).map fun t =>
        { t with flushers := dropParty id s.flushers }
    else
      none

/-- The process ends; of what no flush has covered, some is there and some in part. -/
def System.restart (s : System) (worker : String) (kept torn : List TopicId) : System :=
  { s with
    worker := worker
    buffered := fun topic =>
      if topic ∈ torn ∧ s.buffered topic ≠ s.durable topic then Entry.part
      else if topic ∈ kept then s.buffered topic
      else s.durable topic
    lock := none, unflushed := [], drains := [], flushers := [] }

def step (s : System) : Action -> Option System
  | Action.write now kind found topic current name drawn =>
      s.write project now kind found topic current name drawn
  | Action.retire now topic jobs => s.retire project now topic jobs
  | Action.rename now topic name job => s.rename project now topic name job
  | Action.replay now => s.settle (Jobs.Statement.replay now project)
  | Action.claim id now owed batch locked => s.claim project id now owed batch locked
  | Action.unread id => s.unread id
  | Action.read id => s.read id
  | Action.readNames id topics => s.readNames id topics
  | Action.skip id topic => s.skip id topic
  | Action.store id topic => s.store id topic
  | Action.storePart id topic touched => s.storePart id topic touched
  | Action.release id => s.release id
  | Action.flush id => s.flush id
  | Action.fail id now job error => s.fail id now job error
  | Action.complete id reads => s.complete id reads
  | Action.leave id => some { s with lock := s.released id, drains := dropParty id s.drains }
  | Action.take id => s.take id
  | Action.flushTaken id => s.flushTaken id
  | Action.completeTaken id => s.completeTaken id
  | Action.leaveTaken id => some { s with flushers := dropParty id s.flushers }
  | Action.persist topics =>
      some
        { s with
          durable := fun topic => if topic ∈ topics then s.buffered topic else s.durable topic }
  | Action.restart worker kept torn => some (s.restart worker kept torn)

/-- No index sync of the topic is owed. -/
def Synced (s : System) (topic : TopicId) : Prop :=
  ¬ Jobs.Pending s.outbox.queue (syncWork project topic)

instance (s : System) (topic : TopicId) : Decidable (Synced project s topic) := by
  unfold Synced
  infer_instance

end Model

end Syncing
end PaminMemory
