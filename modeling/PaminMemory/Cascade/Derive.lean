import PaminMemory.Cascade.Restate
import PaminMemory.Jobs.Rounds
import PaminMemory.Topics.Surface
import PaminMemory.Topics.Writes

/-!
# Derive rounds of concurrent drains

A drain claims jobs, reads what their topics say, looks at the edges already
there, asserts, retracts and completes what its claims still hold.  Each is a
statement or a transaction of its own, and any number of drains take them in any
order with the writes.
-/

namespace PaminMemory
namespace Cascade

open Foundation PaminMemory.Graph
open Topics (Current)

inductive Stage where
  | idle
  | read (found : List Found)
  | looked (found : List Found) (read : Ledger)
  | asserted (found : List Found)
  | retracting (found : List Found) (snapshot : Ledger)
deriving DecidableEq, Repr

def Stage.found : Stage -> List Found
  | idle => []
  | read found => found
  | looked found _ => found
  | asserted found => found
  | retracting found _ => found

abbrev Drain := Jobs.Round Stage

/-- The outbox, what topics say, the edges, and the rounds under way. -/
structure System where
  outbox : Jobs.Outbox
  contents : TopicId -> Option Current
  ledger : Ledger
  drains : List (Nat × Drain)

def System.empty : System :=
  { outbox := Jobs.Outbox.empty, contents := fun _ => none, ledger := [], drains := [] }

def deriveWork (project : ProjectId) (topic : TopicId) : Jobs.Work :=
  { project := project, kind := Jobs.JobKind.deriveMentions, subject := some topic }

section Model

variable (naming : String -> List TopicId) (project : ProjectId)

def namedBy (contents : TopicId -> Option Current) (topic : TopicId) : List TopicId :=
  match contents topic with
  | none => []
  | some current => namedNow topic (naming current.content)

def foundNow (contents : TopicId -> Option Current) (batch : List Jobs.Job) : List Found :=
  batch.filterMap fun job =>
    job.work.subject.bind fun topic =>
      (contents topic).map fun current =>
        { topic := topic, state := current.state
          named := namedBy naming contents topic }

/-- One statement or transaction. -/
inductive Action where
  | write (now : Instant) (topic : TopicId) (current : Current) (drawn : Topics.Drawn)
  | claim (id : Nat) (now : Instant) (worker : String) (batch : Nat)
      (kinds : List Jobs.JobKind) (locked : List IndexJobId)
  | read (id : Nat) (batch : List Jobs.Job)
  | look (id : Nat)
  | assert (id : Nat) (clock : Nat -> Instant)
      (drawn : Nat -> RelationshipId × RelationshipVersionId)
  | retract (id : Nat)
  | close (id : Nat) (now : Instant)
  | complete (id : Nat)
  | fail (id : Nat) (now : Instant) (job : Jobs.Job) (error : String)
  | stop (id : Nat)
  | die (id : Nat)
  | replay (now : Instant)

def System.settle (s : System) (statement : Jobs.Statement)
    (drains : List (Nat × Drain)) : Option System :=
  match Jobs.step s.outbox statement with
  | none => none
  | some outbox => some { s with outbox := outbox, drains := drains }

def System.moved (s : System) (id : Nat) (drain : Drain) : System :=
  { s with drains := setParty id drain s.drains }

/-- A promoted write: the state, the pointer to it and the work it owes. -/
def System.write (s : System) (now : Instant) (topic : TopicId) (current : Current)
    (drawn : Topics.Drawn) : Option System :=
  match Jobs.step s.outbox (Jobs.Statement.enqueue now project (some topic)
      (Topics.owedBy Topics.SourceKind.manual (s.contents topic).isSome drawn)) with
  | none => none
  | some outbox =>
      some { s with outbox := outbox, contents := Function.update s.contents topic (some current) }

def System.claim (s : System) (id : Nat) (now : Instant) (worker : String) (batch : Nat)
    (kinds : List Jobs.JobKind) (locked : List IndexJobId) : Option System :=
  if id ∈ s.drains.map Prod.fst then
    none
  else
    s.settle (Jobs.Statement.claim now project worker batch kinds locked)
      (s.drains ++
        [(id,
          { worker := worker
            jobs := (Jobs.claim now project worker batch kinds locked s.outbox.queue).2
            batch := [], stage := Stage.idle, done := [] })])

def step (s : System) : Action -> Option System
  | Action.write now topic current drawn => s.write project now topic current drawn
  | Action.claim id now worker batch kinds locked =>
      s.claim project id now worker batch kinds locked
  | Action.read id batch =>
      match partyOf s.drains id with
      | none => none
      | some drain =>
          if drain.stage = Stage.idle ∧ batch ⊆ drain.jobs ∧
              forall job, job ∈ batch -> job.work.kind = Jobs.JobKind.deriveMentions then
            some (s.moved id
              { drain with
                batch := batch, stage := Stage.read (foundNow naming s.contents batch) })
          else
            none
  | Action.look id =>
      match partyOf s.drains id with
      | some { worker, jobs, batch, stage := Stage.read found, done } =>
          some (s.moved id
            { worker, jobs, batch, stage := Stage.looked found s.ledger, done })
      | _ => none
  | Action.assert id clock drawn =>
      match partyOf s.drains id with
      | some { worker, jobs, batch, stage := Stage.looked found read, done } =>
          match assertAfter clock (asks drawn (claims found)) read s.ledger with
          | none => none
          | some (final, _) =>
              some { s.moved id { worker, jobs, batch, stage := Stage.asserted found, done } with
                ledger := final }
      | _ => none
  | Action.retract id =>
      match partyOf s.drains id with
      | some { worker, jobs, batch, stage := Stage.asserted found, done } =>
          some (s.moved id
            { worker, jobs, batch, stage := Stage.retracting found s.ledger, done })
      | _ => none
  | Action.close id now =>
      match partyOf s.drains id with
      | some { worker, jobs, batch, stage := Stage.retracting found snapshot, done } =>
          some
            { s.moved id { worker, jobs, batch := [], stage := Stage.idle, done := done ++ batch } with
              ledger := s.ledger.map (closeSeen snapshot
                (Closing.derived now EdgeKind.mentions (keeping found))) }
      | _ => none
  | Action.complete id =>
      match partyOf s.drains id with
      | none => none
      | some drain =>
          s.settle (Jobs.Statement.complete drain.worker drain.done) (dropParty id s.drains)
  | Action.fail id now job error =>
      match partyOf s.drains id with
      | none => none
      | some drain =>
          if job ∈ drain.jobs then
            s.settle (Jobs.Statement.fail now drain.worker job error) s.drains
          else
            none
  | Action.stop id =>
      match partyOf s.drains id with
      | none => none
      | some drain => some (s.moved id { drain with batch := [], stage := Stage.idle })
  | Action.die id => some { s with drains := dropParty id s.drains }
  | Action.replay now => s.settle (Jobs.Statement.replay now project) s.drains

/-!
## What a topic's edges should be
-/

/-- The derived mentions out of the topic are those its current content names. -/
def MentionsCurrent (s : System) (topic : TopicId) : Prop :=
  forall edge, Mentions topic edge ->
    (s.ledger.derives edge = true <-> edge.toTopic ∈ namedBy naming s.contents topic)

/-- Nothing is owed for the topic's mentions, and no round has them. -/
def Quiet (s : System) (topic : TopicId) : Prop :=
  ¬ Jobs.Pending s.outbox.queue (deriveWork project topic) ∧
    forall entry, entry ∈ s.drains -> forall job, job ∈ entry.2.jobs ->
      job.work ≠ deriveWork project topic

def Stage.looking : Stage -> List TopicId
  | idle => []
  | read _ => []
  | stage => stage.found.map Found.topic

def Stage.shutting : Stage -> List TopicId
  | retracting found _ => found.map Found.topic
  | _ => []

def Drain.Looked (drain : Drain) (job : Jobs.Job) (topic : TopicId) : Prop :=
  job ∈ drain.done ∨ topic ∈ drain.stage.looking

def Drain.Retracted (drain : Drain) (job : Jobs.Job) (topic : TopicId) : Prop :=
  job ∈ drain.done ∨ topic ∈ drain.stage.shutting

instance (drain : Drain) (job : Jobs.Job) (topic : TopicId) :
    Decidable (drain.Looked job topic) := by
  unfold Drain.Looked
  infer_instance

instance (drain : Drain) (job : Jobs.Job) (topic : TopicId) :
    Decidable (drain.Retracted job topic) := by
  unfold Drain.Retracted
  infer_instance

instance (s : System) (topic : TopicId) : Decidable (Quiet project s topic) := by
  unfold Quiet
  infer_instance

def OwedBefore (past : Drain -> Jobs.Job -> TopicId -> Prop) (s : System)
    (topic : TopicId) : Prop :=
  Jobs.Owed (fun drain job => ¬ past drain job topic) s.outbox.queue s.drains
    (deriveWork project topic)

instance (past : Drain -> Jobs.Job -> TopicId -> Prop)
    [forall drain job topic, Decidable (past drain job topic)] (s : System)
    (topic : TopicId) : Decidable (OwedBefore project past s topic) := by
  unfold OwedBefore
  infer_instance

/--
A round asserts only what its topics name now, or before the round that will settle
the topic retracts; it retracts nothing they name now, or before the round that will
settle the topic looks.
-/
def InOrder (s : System) : Action -> Prop
  | Action.assert id _ _ =>
      forall entry, entry ∈ s.drains -> entry.1 = id ->
        forall memory, memory ∈ entry.2.stage.found ->
          memory.named ⊆ namedBy naming s.contents memory.topic ∨
            OwedBefore project Drain.Retracted s memory.topic
  | Action.close id _ =>
      forall entry, entry ∈ s.drains -> entry.1 = id ->
        forall memory, memory ∈ entry.2.stage.found ->
          namedBy naming s.contents memory.topic ⊆ memory.named ∨
            OwedBefore project Drain.Looked s memory.topic
  | _ => True

instance (s : System) : forall action, Decidable (InOrder naming project s action)
  | Action.assert id _ _ =>
      inferInstanceAs (Decidable (forall entry, entry ∈ s.drains -> entry.1 = id ->
        forall memory, memory ∈ entry.2.stage.found ->
          memory.named ⊆ namedBy naming s.contents memory.topic ∨
            OwedBefore project Drain.Retracted s memory.topic))
  | Action.close id _ =>
      inferInstanceAs (Decidable (forall entry, entry ∈ s.drains -> entry.1 = id ->
        forall memory, memory ∈ entry.2.stage.found ->
          namedBy naming s.contents memory.topic ⊆ memory.named ∨
            OwedBefore project Drain.Looked s memory.topic))
  | Action.write _ _ _ _ => isTrue True.intro
  | Action.claim _ _ _ _ _ _ => isTrue True.intro
  | Action.read _ _ => isTrue True.intro
  | Action.look _ => isTrue True.intro
  | Action.retract _ => isTrue True.intro
  | Action.complete _ => isTrue True.intro
  | Action.fail _ _ _ _ => isTrue True.intro
  | Action.stop _ => isTrue True.intro
  | Action.die _ => isTrue True.intro
  | Action.replay _ => isTrue True.intro

end Model

end Cascade
end PaminMemory
