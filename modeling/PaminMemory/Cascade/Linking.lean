import Mathlib.Data.Fintype.Basic
import PaminMemory.Cascade.Derive

/-!
# Rounds that read names and rounds that read the index

A mention is found from either end.  Restating a memory looks its content up among
the names there are; backfilling a new topic asks the index for the memories whose
content holds its name.  The index is written by a third kind of job, and a drain
runs all three.
-/

namespace PaminMemory
namespace Linking

open Foundation PaminMemory.Graph
open Topics (Current Memories currentStatesOf)
open Cascade (Found namedNow mention claims asks keeping deriveWork)

inductive Pass where
  | restate
  | link
deriving DecidableEq, Repr

inductive Stage where
  | idle
  | syncing (read : List (TopicId × Option Current)) (stored : List TopicId)
  | read (states : List (TopicId × Current))
  | measured (states : List (TopicId × Current)) (widest : Nat)
  | probed (candidates : List (TopicId × List TopicId))
  | found (pass : Pass) (found : List Found)
  | looked (pass : Pass) (found : List Found) (read : Ledger)
  | asserted (found : List Found)
  | retracting (found : List Found) (snapshot : Ledger)
deriving DecidableEq, Repr

def Stage.links : Stage -> List Found
  | found _ links => links
  | looked _ links _ => links
  | asserted links => links
  | retracting links _ => links
  | _ => []

abbrev Drain := Jobs.Round Stage

/-- The outbox, what topics say, what the index holds, the edges and the rounds. -/
structure System where
  outbox : Jobs.Outbox
  memories : Memories
  /-- What the index holds of each topic. -/
  documents : Memories
  ledger : Ledger
  /-- The drain that holds the index syncs. -/
  syncing : Option Nat
  drains : List (Nat × Drain)

def System.empty : System :=
  { outbox := Jobs.Outbox.empty, memories := ∅, documents := ∅, ledger := []
    syncing := none, drains := [] }

def backfillWork (project : ProjectId) (topic : TopicId) : Jobs.Work :=
  { project := project, kind := Jobs.JobKind.backfillMentions, subject := some topic }

def subjects (batch : List Jobs.Job) : List TopicId :=
  batch.filterMap fun job => job.work.subject

/-!
## What a round reads
-/

section Model

variable (naming : String -> List TopicId) (width : TopicId -> Nat) (project : ProjectId)

def named (memories : Memories) (topic : TopicId) : List TopicId :=
  match memories.lookup topic with
  | none => []
  | some current =>
      namedNow topic ((naming current.content).filter fun other => other ∈ memories)

def widestTopicName (memories : Memories) : Nat :=
  memories.keys.foldr (fun topic widest => max (width topic) widest) 0

def namesMatching (memories : Memories) (widest : Nat) (states : List (TopicId × Current)) :
    List Found :=
  states.map fun entry =>
    { topic := entry.1, state := entry.2.state
      named := namedNow entry.1 ((naming entry.2.content).filter fun other =>
        other ∈ memories ∧ width other <= widest) }

def namingCandidates (memories : Memories) (candidates : List (TopicId × List TopicId)) :
    List Found :=
  candidates.flatMap fun entry => entry.2.eraseDups.filterMap fun memory =>
    (memories.lookup memory).bind fun current =>
      if memory ≠ entry.1 ∧ entry.1 ∈ naming current.content then
        some { topic := memory, state := current.state, named := [entry.1] }
      else
        none

def Recalls (documents : Memories) (batch : List Jobs.Job)
    (returned : TopicId -> List TopicId) : Prop :=
  forall topic, topic ∈ subjects batch -> forall document, document ∈ documents.entries ->
    topic ∈ naming document.2.content -> document.1 ∈ returned topic

instance (documents : Memories) (batch : List Jobs.Job) (returned : TopicId -> List TopicId) :
    Decidable (Recalls naming documents batch returned) := by
  unfold Recalls
  infer_instance

/-- One statement, transaction or call of the index. -/
inductive Action where
  | write (now : Instant) (topic : TopicId) (current : Current) (drawn : Topics.Drawn)
  | claim (id : Nat) (now : Instant) (worker : String) (batch : Nat)
      (kinds : List Jobs.JobKind) (locked : List IndexJobId)
  | sync (id : Nat) (batch : List Jobs.Job)
  | store (id : Nat) (topic : TopicId)
  | synced (id : Nat)
  | read (id : Nat) (batch : List Jobs.Job)
  | measure (id : Nat)
  | lookup (id : Nat)
  | probe (id : Nat) (batch : List Jobs.Job) (returned : TopicId -> List TopicId)
  | weigh (id : Nat)
  | look (id : Nat)
  | assert (id : Nat) (clock : Nat -> Instant)
      (drawn : Nat -> RelationshipId × RelationshipVersionId)
  | retract (id : Nat)
  | close (id : Nat) (now : Instant)
  | complete (id : Nat) (jobs : List Jobs.Job)
  | fail (id : Nat) (now : Instant) (job : Jobs.Job) (error : String)
  | stop (id : Nat)
  | die (id : Nat)
  | replay (now : Instant)

/-!
## The statements of a round

A round reads names or the index, and asserts and closes edges one statement at a time; writes
and other rounds come between.
-/

def System.settle (s : System) (statement : Jobs.Statement) : Option System :=
  (Jobs.step s.outbox statement).map fun outbox => { s with outbox := outbox }

def System.advance (s : System) (id : Nat) (next : Drain -> Option Drain) : Option System :=
  (partyOf s.drains id).bind fun drain => (next drain).map fun moved =>
    { s with drains := setParty id moved s.drains }

def System.released (s : System) (id : Nat) : Option Nat :=
  if s.syncing = some id then none else s.syncing

def Drain.start (drain : Drain) (kind : Jobs.JobKind) (batch : List Jobs.Job)
    (stage : Stage) : Option Drain :=
  if drain.stage = Stage.idle ∧ batch ⊆ drain.jobs ∧
      forall job, job ∈ batch -> job.work.kind = kind then
    some { drain with batch := batch, stage := stage }
  else
    none

def Drain.move (drain : Drain) (next : Stage -> Option Stage) : Option Drain :=
  (next drain.stage).map fun stage => { drain with stage := stage }

def Drain.settled (drain : Drain) (finished : List Jobs.Job) : Drain :=
  { drain with batch := [], stage := Stage.idle, done := drain.done ++ finished }

def System.write (s : System) (now : Instant) (topic : TopicId) (current : Current)
    (drawn : Topics.Drawn) : Option System :=
  (s.settle (Jobs.Statement.enqueue now project (some topic)
    (Topics.owedBy Topics.SourceKind.manual (decide (topic ∈ s.memories)) drawn))).map
      fun t => { t with memories := s.memories.insert topic current }

def System.claim (s : System) (id : Nat) (now : Instant) (worker : String) (batch : Nat)
    (kinds : List Jobs.JobKind) (locked : List IndexJobId) : Option System :=
  if id ∈ s.drains.map Prod.fst then
    none
  else
    (s.settle (Jobs.Statement.claim now project worker batch kinds locked)).map fun t =>
      { t with
        drains := s.drains ++
          [(id,
            { worker := worker
              jobs := (Jobs.claim now project worker batch kinds locked s.outbox.queue).2
              batch := [], stage := Stage.idle, done := [] })] }

def System.sync (s : System) (id : Nat) (batch : List Jobs.Job) : Option System :=
  if s.syncing = none then
    (s.advance id fun drain => drain.start Jobs.JobKind.syncTopicIndex batch
      (Stage.syncing ((subjects batch).map fun topic => (topic, s.memories.lookup topic))
        [])).map fun t => { t with syncing := some id }
  else
    none

def System.store (s : System) (id : Nat) (topic : TopicId) : Option System :=
  match partyOf s.drains id with
  | some { worker, jobs, batch, stage := Stage.syncing read stored, done } =>
      (read.lookup topic).map fun current =>
        { s with
          documents :=
            match current with
            | none => s.documents.erase topic
            | some current => s.documents.insert topic current
          drains := setParty id
            { worker, jobs, batch, stage := Stage.syncing read (topic :: stored), done }
            s.drains }
  | _ => none

def System.synced (s : System) (id : Nat) : Option System :=
  (s.advance id fun drain =>
    match drain.stage with
    | Stage.syncing _ stored => some (drain.settled (drain.batch.filter fun job =>
        job.work.subject.any fun topic => decide (topic ∈ stored)))
    | _ => none).map fun t => { t with syncing := s.released id }

/-- Asserts what was found; a round that backfills is done then. -/
def System.assert (s : System) (id : Nat) (clock : Nat -> Instant)
    (drawn : Nat -> RelationshipId × RelationshipVersionId) : Option System :=
  match partyOf s.drains id with
  | some { worker, jobs, batch, stage := Stage.looked pass found read, done } =>
      (assertAfter clock (asks drawn (claims found)) read s.ledger).map fun final =>
        { s with
          ledger := final.1
          drains := setParty id
            (match pass with
            | Pass.restate => { worker, jobs, batch, stage := Stage.asserted found, done }
            | Pass.link =>
                { worker, jobs, batch := [], stage := Stage.idle, done := done ++ batch })
            s.drains }
  | _ => none

def System.close (s : System) (id : Nat) (now : Instant) : Option System :=
  match partyOf s.drains id with
  | some { worker, jobs, batch, stage := Stage.retracting found snapshot, done } =>
      some
        { s with
          ledger := s.ledger.map (closeSeen snapshot
            (Closing.derived now EdgeKind.mentions (keeping found)))
          drains := setParty id
            { worker, jobs, batch := [], stage := Stage.idle, done := done ++ batch }
            s.drains }
  | _ => none

def step (s : System) : Action -> Option System
  | Action.write now topic current drawn => s.write project now topic current drawn
  | Action.claim id now worker batch kinds locked =>
      s.claim project id now worker batch kinds locked
  | Action.sync id batch => s.sync id batch
  | Action.store id topic => s.store id topic
  | Action.synced id => s.synced id
  | Action.read id batch =>
      s.advance id fun drain => drain.start Jobs.JobKind.deriveMentions batch
        (Stage.read (currentStatesOf s.memories (subjects batch)))
  | Action.measure id =>
      s.advance id fun drain => drain.move fun
        | Stage.read states => some (Stage.measured states (widestTopicName width s.memories))
        | _ => none
  | Action.lookup id =>
      s.advance id fun drain => drain.move fun
        | Stage.measured states widest =>
            some (Stage.found Pass.restate
              (namesMatching naming width s.memories widest states))
        | _ => none
  | Action.probe id batch returned =>
      if Recalls naming s.documents batch returned then
        s.advance id fun drain => drain.start Jobs.JobKind.backfillMentions batch
          (Stage.probed (((subjects batch).filter fun topic => topic ∈ s.memories).map
            fun topic => (topic, returned topic)))
      else
        none
  | Action.weigh id =>
      s.advance id fun drain => drain.move fun
        | Stage.probed candidates =>
            some (Stage.found Pass.link (namingCandidates naming s.memories candidates))
        | _ => none
  | Action.look id =>
      s.advance id fun drain => drain.move fun
        | Stage.found pass found => some (Stage.looked pass found s.ledger)
        | _ => none
  | Action.assert id clock drawn => s.assert id clock drawn
  | Action.retract id =>
      s.advance id fun drain => drain.move fun
        | Stage.asserted found => some (Stage.retracting found s.ledger)
        | _ => none
  | Action.close id now => s.close id now
  | Action.complete id jobs =>
      (partyOf s.drains id).bind fun drain =>
        if jobs ⊆ drain.done then
          s.settle (Jobs.Statement.complete drain.worker jobs)
        else
          none
  | Action.fail id now job error =>
      (partyOf s.drains id).bind fun drain =>
        if job ∈ drain.jobs then
          s.settle (Jobs.Statement.fail now drain.worker job error)
        else
          none
  | Action.stop id =>
      (s.advance id fun drain => some (drain.settled [])).map fun t =>
        { t with syncing := s.released id }
  | Action.die id =>
      some { s with syncing := s.released id, drains := dropParty id s.drains }
  | Action.replay now => s.settle (Jobs.Statement.replay now project)

/-!
## What the edges should be
-/

def Linked (ledger : Ledger) (memory other : TopicId) : Bool :=
  (mention memory other).any ledger.derives

/-- Every topic mentions the topics its current content names. -/
def MentionsNamed (s : System) : Prop :=
  forall memory other,
    Linked s.ledger memory other = true <-> other ∈ named naming s.memories memory

/-- No index sync, derivation or backfill is owed, and no round has one. -/
def Quiet (s : System) : Prop :=
  (forall row, row ∈ s.outbox.queue -> row.work.project = project ->
    row.work.kind ∉ Jobs.JobKind.urgent) ∧
    forall entry, entry ∈ s.drains -> forall job, job ∈ entry.2.jobs ->
      job.work.kind ∉ Jobs.JobKind.urgent

instance (s : System) : Decidable (Quiet project s) := by
  unfold Quiet
  infer_instance

def Pairs (found : List Found) (memory other : TopicId) : Prop :=
  exists link, link ∈ found ∧ link.topic = memory ∧ other ∈ link.named

instance (found : List Found) (memory other : TopicId) :
    Decidable (Pairs found memory other) := by
  unfold Pairs
  infer_instance

def Stage.Brings (memory other : TopicId) : Stage -> Prop
  | measured _ widest => width other <= widest
  | probed candidates =>
      exists entry, entry ∈ candidates ∧ entry.1 = other ∧ memory ∈ entry.2
  | found _ links => Pairs links memory other
  | looked _ links seen => Pairs links memory other ∧ Linked seen memory other = false
  | asserted _ => False
  | retracting _ _ => False
  | _ => True

def Stage.Retracts : Stage -> Prop
  | retracting _ _ => False
  | _ => True

instance (memory other : TopicId) : DecidablePred (Stage.Brings width memory other) := by
  intro stage
  cases stage <;> (unfold Stage.Brings; infer_instance)

instance : DecidablePred Stage.Retracts := by
  intro stage
  cases stage <;> (unfold Stage.Retracts; infer_instance)

/-!
## What may be in between
-/

def Owed (ready : Stage -> Prop) (s : System) (work : Jobs.Work) : Prop :=
  Jobs.Owed (Jobs.Round.Before ready) s.outbox.queue s.drains work

instance (ready : Stage -> Prop) [DecidablePred ready] (s : System) (work : Jobs.Work) :
    Decidable (Owed ready s work) := by
  unfold Owed
  infer_instance

def Coming (s : System) (memory other : TopicId) : Prop :=
  Owed (Stage.Brings width memory other) s (deriveWork project memory) ∨
    Owed (Stage.Brings width memory other) s (backfillWork project other)

instance (s : System) (memory other : TopicId) :
    Decidable (Coming width project s memory other) := by
  unfold Coming
  infer_instance

/--
A round asserts what is named now, or before the memory's own round retracts; it
retracts what is not named now, or still to be asserted; and a probe that holds its
claim returns the memories that name its topic, unless their mentions are there or
their own rounds will find them.
-/
def InOrder (s : System) : Action -> Prop
  | Action.assert id _ _ =>
      forall entry, entry ∈ s.drains -> entry.1 = id ->
        forall link, link ∈ entry.2.stage.links -> forall other, other ∈ link.named ->
          other ∈ named naming s.memories link.topic ∨
            Owed Stage.Retracts s (deriveWork project link.topic)
  | Action.close id _ =>
      forall entry, entry ∈ s.drains -> entry.1 = id ->
        forall link, link ∈ entry.2.stage.links ->
          forall other, other ∈ named naming s.memories link.topic ->
            other ∈ link.named ∨ Coming width project s link.topic other
  | Action.probe id batch returned =>
      forall entry, entry ∈ s.drains -> entry.1 = id -> forall job, job ∈ batch ->
        Jobs.Holds s.outbox.queue entry.2.worker job ->
          forall memory, memory ∈ s.memories.keys -> forall topic, topic ∈ subjects [job] ->
            topic ∈ named naming s.memories memory ->
              memory ∈ returned topic ∨ Linked s.ledger memory topic = true ∨
                Owed (Stage.Brings width memory topic) s (deriveWork project memory)
  | _ => True

instance (s : System) : DecidablePred (InOrder naming width project s) := by
  intro action
  cases action <;> (unfold InOrder; infer_instance)

end Model

end Linking
end PaminMemory
