import PaminMemory.Foundation.Runs
import PaminMemory.Topics.Store

/-!
# The transactions of the ledger

What the engine runs as one transaction each, and the runs of any number of them.
-/

namespace PaminMemory
namespace Topics

open Foundation

structure Write where
  topic : String
  content : String
  contentHash : String
  verdict : FilterDecision
  reason : String
  promoted : Bool
  language : Option String
  languageConfidence : Option Binary32
  observedAt : Instant
  validFrom : Option Instant
  validTo : Option Instant

/-- What a write recorded. -/
structure Recorded where
  sourceVersion : Nat
  state : Option TopicState
deriving DecidableEq, Repr

/-- The source that a topic's evidence of a kind is filed under. -/
def locator (kind : SourceKind) (topic : String) : String :=
  match kind with
  | SourceKind.manual => "manual:" ++ topic
  | SourceKind.file => "file:" ++ topic

def Write.evidence (request : Write) : Evidence :=
  { content := request.content, contentHash := request.contentHash
    decision := request.verdict, reason := request.reason
    language := request.language, languageConfidence := request.languageConfidence }

/-- Finds the source of a write, or creates it, and records its root. -/
def sourceFor (kind : SourceKind) (root : Option String) (topic : String) (id : SourceId)
    (store : Store) : Store × SourceId × Bool :=
  let ensured := ensureSourceCreated kind (locator kind topic) id store
  match root with
  | none => ensured
  | some root => (setSourceRoot ensured.2.1 root ensured.1, ensured.2)

/-- Locks the topic of a promoted write or creates it; says whether it was found. -/
def topicFor (segment : String -> List String) (now : Instant) (kind : SourceKind)
    (name : String) (id : TopicId) (store : Store) : Store × LockedTopic × Bool :=
  match lockTopic name store with
  | some locked => (store, locked, true)
  | none =>
      match kind with
      | SourceKind.file =>
          let created := createTopicUnnamed now id name store
          (created.1, created.2, false)
      | SourceKind.manual =>
          let created := createTopicNamed now id name (" ".intercalate (segment name))
            (segment name).length store
          (created.1, created.2, false)

def owedBy (kind : SourceKind) (found : Bool) (drawn : Drawn) :
    List (IndexJobId × Jobs.JobKind) :=
  let always := [(drawn.sync, Jobs.JobKind.syncTopicIndex),
    (drawn.derive, Jobs.JobKind.deriveMentions)]
  if !found && kind ≠ SourceKind.file then
    always ++ [(drawn.backfill, Jobs.JobKind.backfillMentions)]
  else
    always

def nameFirst (segment : String -> List String) (now : Instant) (project : ProjectId)
    (kind : SourceKind) (name : String) (first created : Bool) (job : IndexJobId)
    (store : Store) : Store :=
  if kind = SourceKind.manual && first && !created then
    match nameTopic name (" ".intercalate (segment name)) (segment name).length store with
    | (named, none) => named
    | (named, some topic) =>
        { named with
          jobs := Jobs.enqueueAll now project (some topic)
            [(job, Jobs.JobKind.backfillMentions)] named.jobs }
  else
    store

def writeFrom (segment : String -> List String) (now : Instant) (project : ProjectId)
    (request : Write) (kind : SourceKind) (root : Option String) (drawn : Drawn)
    (store : Store) : Option (Store × Recorded) :=
  let sourced := sourceFor kind root request.topic drawn.source store
  let source := sourced.2.1
  let first := sourced.2.2
  if request.promoted then
    let obtained := topicFor segment now kind request.topic drawn.topic sourced.1
    let found := obtained.2.2
    let created := !found && kind = SourceKind.manual
    match appendPromoted now project source request.evidence
        { topic := obtained.2.1, observedAt := request.observedAt
          validFrom := request.validFrom, validTo := request.validTo
          owed := owedBy kind found drawn } drawn obtained.1 with
    | none => none
    | some (written, version, state) =>
        some (nameFirst segment now project kind request.topic first created drawn.backfill
            written, { sourceVersion := version.version, state := some state })
  else
    match appendEvidence now source request.evidence drawn sourced.1 with
    | none => none
    | some (written, version) =>
        some (nameFirst segment now project kind request.topic first false drawn.backfill
            written, { sourceVersion := version.version, state := none })

inductive Retired where
  | retired
  | kept
  | changed
  | absent
deriving DecidableEq, Repr

def retireSection (now : Instant) (project : ProjectId) (topic : String)
    (seen : TopicStateId) (jobs : IndexJobId × IndexJobId) (store : Store) :
    Store × Retired :=
  match lockTopic topic store with
  | none => (store, Retired.absent)
  | some locked =>
      match locked.current with
      | none => (store, Retired.absent)
      | some current =>
          if current ≠ seen then
            (store, Retired.changed)
          else if sourceAt (locator SourceKind.manual topic) store then
            (store, Retired.kept)
          else
            let done := retireTopic now project locked.topic jobs store
            (done.1, if done.2 then Retired.retired else Retired.absent)

def renameSection (now : Instant) (project : ProjectId) (names : String × String)
    (seen : TopicStateId) (job : IndexJobId) (store : Store) : Store × Bool :=
  match lockTopic names.1 store with
  | none => (store, false)
  | some locked =>
      if locked.current ≠ some seen || sourceAt (locator SourceKind.manual names.1) store then
        (store, false)
      else
        renameTopic now project locked.topic names
          (locator SourceKind.file names.1, locator SourceKind.file names.2) job store

/-!
# Runs
-/

/-- One transaction, with the values its caller binds. -/
inductive Action where
  | write (now : Instant) (request : Write) (kind : SourceKind) (root : Option String)
      (drawn : Drawn)
  | deleteState (now : Instant) (topic : TopicId) (version : Nat)
  | retire (now : Instant) (topic : TopicId) (jobs : IndexJobId × IndexJobId)
  | rename (now : Instant) (topic : TopicId) (names locators : String × String)
      (job : IndexJobId)
  | retireSection (now : Instant) (topic : String) (seen : TopicStateId)
      (jobs : IndexJobId × IndexJobId)
  | renameSection (now : Instant) (names : String × String) (seen : TopicStateId)
      (job : IndexJobId)

/-- The identifiers a write draws were never drawn before. -/
def Unused (store : Store) (drawn : Drawn) : Prop :=
  drawn.source ∉ store.sources.map Source.id ∧
    drawn.version ∉ store.sourceVersions.map SourceVersion.id ∧
      drawn.span ∉ store.spans.map SourceSpan.id ∧
        drawn.topic ∉ store.topics.map Topic.id ∧
          drawn.state ∉ store.states.map TopicState.id

instance (store : Store) (drawn : Drawn) : Decidable (Unused store drawn) := by
  unfold Unused
  infer_instance

/-- Runs one transaction; a write draws identifiers nothing has used. -/
def step (segment : String -> List String) (project : ProjectId) (store : Store) :
    Action -> Option Store
  | Action.write now request kind root drawn =>
      if Unused store drawn then
        (writeFrom segment now project request kind root drawn store).map Prod.fst
      else
        none
  | Action.deleteState now topic version =>
      some (softDeleteTopicState now topic version store).1
  | Action.retire now topic jobs => some (retireTopic now project topic jobs store).1
  | Action.rename now topic names locators job =>
      some (renameTopic now project topic names locators job store).1
  | Action.retireSection now topic seen jobs =>
      some (PaminMemory.Topics.retireSection now project topic seen jobs store).1
  | Action.renameSection now names seen job =>
      some (PaminMemory.Topics.renameSection now project names seen job store).1

end Topics
end PaminMemory
