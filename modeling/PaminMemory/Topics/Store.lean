import PaminMemory.Foundation.Binary32
import PaminMemory.Foundation.Numbered
import PaminMemory.Jobs.Queue

/-!
# The topic ledger

One project's sources, evidence, topics and their states.  Evidence and states
are appended and never rewritten; a deletion only marks a state.  What a topic
says now is a pointer on the topic's row.
-/

namespace PaminMemory
namespace Topics

open Foundation

inductive SourceKind where
  | manual
  | file
deriving DecidableEq, Repr

inductive FilterDecision where
  | promoted
  | filtered
deriving DecidableEq, Repr

structure Source where
  id : SourceId
  kind : SourceKind
  locator : String
  root : Option String
deriving DecidableEq, Repr

/-- Evidence: what was written, and the filter's verdict on it. -/
structure SourceVersion where
  id : SourceVersionId
  sourceId : SourceId
  version : Nat
  content : String
  contentHash : String
  filterDecision : FilterDecision
  filterReason : String
  recordedAt : Instant
deriving DecidableEq, Repr

structure SourceSpan where
  id : SourceSpanId
  sourceVersionId : SourceVersionId
  byteStart : Nat
  byteEnd : Nat
  detectedLanguage : Option String
  languageConfidence : Option Binary32
  ordered : byteStart <= byteEnd
deriving DecidableEq, Repr

structure TopicState where
  id : TopicStateId
  topicId : TopicId
  version : Nat
  sourceSpanId : SourceSpanId
  observedAt : Instant
  recordedAt : Instant
  validFrom : Option Instant
  validTo : Option Instant
  supersedes : Option TopicStateId
  deletedAt : Option Instant
deriving DecidableEq, Repr

/-- A topic's row; the table admits a pointer and its version together or neither. -/
structure Topic where
  id : TopicId
  name : String
  createdAt : Instant
  currentStateId : Option TopicStateId
  currentVersion : Option Nat
  whole : currentStateId.isNone = currentVersion.isNone
deriving DecidableEq, Repr

structure TopicAlias where
  name : String
  topicId : TopicId
  renamedAt : Instant
deriving DecidableEq, Repr

structure TopicName where
  topicId : TopicId
  nameKey : String
  tokenCount : Int
deriving DecidableEq, Repr

/-- The tables of one project that a write to a topic touches. -/
structure Store where
  sources : List Source
  sourceVersions : List SourceVersion
  spans : List SourceSpan
  topics : List Topic
  states : List TopicState
  aliases : List TopicAlias
  names : List TopicName
  jobs : Jobs.Queue
deriving DecidableEq, Repr

namespace Store

def empty : Store :=
  { sources := [], sourceVersions := [], spans := [], topics := [], states := [],
    aliases := [], names := [], jobs := [] }

/-- The evidence of a source, in the order it was written. -/
def evidenceOf (store : Store) (source : SourceId) : List SourceVersion :=
  store.sourceVersions.filter fun version => version.sourceId = source

def statesOf (store : Store) (topic : TopicId) : List TopicState :=
  store.states.filter fun state => state.topicId = topic

end Store

def MAX_VERSION : Nat := 2147483647

/-!
# Sources and evidence
-/

/-- Finds the source at a locator, or creates it; says whether it was created. -/
def ensureSourceCreated (kind : SourceKind) (locator : String) (id : SourceId)
    (store : Store) : Store × SourceId × Bool :=
  match store.sources.find? fun source => source.locator = locator with
  | some source => (store, source.id, false)
  | none =>
      ({ store with
          sources := store.sources ++
            [{ id := id, kind := kind, locator := locator, root := none }] }, id, true)

def setSourceRoot (source : SourceId) (root : String) (store : Store) : Store :=
  { store with
    sources := store.sources.map fun row =>
      if row.id = source then { row with root := some root } else row }

def sourceAt (locator : String) (store : Store) : Bool :=
  store.sources.any fun source => source.locator = locator

structure Evidence where
  content : String
  contentHash : String
  decision : FilterDecision
  reason : String
  language : Option String
  languageConfidence : Option Binary32

structure Drawn where
  source : SourceId
  version : SourceVersionId
  span : SourceSpanId
  topic : TopicId
  state : TopicStateId
  sync : IndexJobId
  derive : IndexJobId
  backfill : IndexJobId
deriving DecidableEq, Repr

def wholeSpan (evidence : Evidence) (drawn : Drawn) : SourceSpan :=
  { id := drawn.span, sourceVersionId := drawn.version, byteStart := 0
    byteEnd := evidence.content.utf8ByteSize, detectedLanguage := evidence.language
    languageConfidence := evidence.languageConfidence, ordered := Nat.zero_le _ }

/-- Numbers and appends a version of a source, and the span over all of it. -/
def appendEvidence (now : Instant) (source : SourceId) (evidence : Evidence) (drawn : Drawn)
    (store : Store) : Option (Store × SourceVersion) :=
  let number := nextNumber SourceVersion.version (store.evidenceOf source)
  if MAX_VERSION < number then
    none
  else
    let version : SourceVersion :=
      { id := drawn.version, sourceId := source, version := number
        content := evidence.content, contentHash := evidence.contentHash
        filterDecision := evidence.decision, filterReason := evidence.reason
        recordedAt := now }
    some
      ({ store with
          sourceVersions := store.sourceVersions ++ [version]
          spans := store.spans ++ [wholeSpan evidence drawn] }, version)

/-!
# Topics and states
-/

def Topic.pointAt (state : Option TopicState) (topic : Topic) : Topic :=
  { topic with
    currentStateId := state.map TopicState.id
    currentVersion := state.map TopicState.version
    whole := by cases state with
      | none => rfl
      | some state => rfl }

def pointAt (topic : TopicId) (state : Option TopicState) (store : Store) : Store :=
  { store with
    topics := store.topics.map fun row => if row.id = topic then row.pointAt state else row }

structure LockedTopic where
  topic : TopicId
  current : Option TopicStateId
deriving DecidableEq, Repr

def lockedTopic (topic : Topic) : LockedTopic :=
  { topic := topic.id, current := topic.currentStateId }

def lockTopic (name : String) (store : Store) : Option LockedTopic :=
  (store.topics.find? fun topic => topic.name = name).map lockedTopic

def asInt16 (tokens : Nat) : Int := (tokens : Int).bmod 65536

def createTopic (now : Instant) (id : TopicId) (name : String)
    (named : Option (String × Nat)) (store : Store) : Store × LockedTopic :=
  match lockTopic name store with
  | some locked => (store, locked)
  | none =>
      let topic : Topic :=
        { id := id, name := name, createdAt := now, currentStateId := none
          currentVersion := none, whole := rfl }
      let filed : List TopicName :=
        match named with
        | none => []
        | some (key, tokens) =>
            [{ topicId := id, nameKey := key, tokenCount := asInt16 tokens }]
      ({ store with topics := store.topics ++ [topic], names := store.names ++ filed },
        lockedTopic topic)

def createTopicNamed (now : Instant) (id : TopicId) (name key : String) (tokens : Nat)
    (store : Store) : Store × LockedTopic :=
  createTopic now id name (some (key, tokens)) store

def createTopicUnnamed (now : Instant) (id : TopicId) (name : String) (store : Store) :
    Store × LockedTopic :=
  createTopic now id name none store

def nameTopic (name key : String) (tokens : Nat) (store : Store) :
    Store × Option TopicId :=
  match store.topics.find? fun topic => topic.name = name with
  | none => (store, none)
  | some topic =>
      if store.names.any fun filed => filed.topicId = topic.id then
        (store, none)
      else
        ({ store with
            names := store.names ++
              [{ topicId := topic.id, nameKey := key, tokenCount := min tokens 32767 }] },
          some topic.id)

structure Promotion where
  topic : LockedTopic
  observedAt : Instant
  validFrom : Option Instant
  validTo : Option Instant
  owed : List (IndexJobId × Jobs.JobKind)

def appendPromoted (now : Instant) (project : ProjectId) (source : SourceId)
    (evidence : Evidence) (promotion : Promotion) (drawn : Drawn) (store : Store) :
    Option (Store × SourceVersion × TopicState) :=
  match appendEvidence now source evidence drawn store with
  | none => none
  | some (recorded, version) =>
      let number := nextNumber TopicState.version (store.statesOf promotion.topic.topic)
      if MAX_VERSION < number then
        none
      else
        let state : TopicState :=
          { id := drawn.state, topicId := promotion.topic.topic, version := number
            sourceSpanId := drawn.span, observedAt := promotion.observedAt, recordedAt := now
            validFrom := promotion.validFrom, validTo := promotion.validTo
            supersedes := promotion.topic.current, deletedAt := none }
        let appended := { recorded with states := recorded.states ++ [state] }
        let pointed := pointAt promotion.topic.topic (some state) appended
        some
          ({ pointed with
              jobs := Jobs.enqueueAll now project (some promotion.topic.topic) promotion.owed
                pointed.jobs }, version, state)

/-!
# Deletions
-/

def TopicState.survives (state : TopicState) : Bool := state.deletedAt = none

def Store.newest (store : Store) (topic : TopicId) : Option TopicState :=
  ((store.statesOf topic).filter TopicState.survives).argmax TopicState.version

def deleteStates (now : Instant) (topic : TopicId) (picks : TopicState -> Bool)
    (store : Store) : Store :=
  { store with
    states := store.states.map fun state =>
      if state.topicId = topic && picks state && state.survives then
        { state with deletedAt := some now }
      else
        state }

def deletesAny (topic : TopicId) (picks : TopicState -> Bool) (store : Store) : Bool :=
  store.states.any fun state => state.topicId = topic && picks state && state.survives

def softDeleteTopicState (now : Instant) (topic : TopicId) (version : Nat) (store : Store) :
    Store × Bool :=
  let picks := fun state : TopicState => decide (state.version = version)
  if deletesAny topic picks store then
    let deleted := deleteStates now topic picks store
    (pointAt topic (deleted.newest topic) deleted, true)
  else
    (store, false)

def retireTopic (now : Instant) (project : ProjectId) (topic : TopicId)
    (jobs : IndexJobId × IndexJobId) (store : Store) : Store × Bool :=
  if deletesAny topic (fun _ => true) store then
    let cleared := pointAt topic none (deleteStates now topic (fun _ => true) store)
    ({ cleared with
        jobs := Jobs.enqueueAll now project (some topic)
          [(jobs.1, Jobs.JobKind.syncTopicIndex), (jobs.2, Jobs.JobKind.deriveMentions)]
          cleared.jobs }, true)
  else
    (store, false)

def repairCurrentStatePointers (store : Store) : Store × Nat :=
  let moved := fun topic : Topic =>
    (topic.currentStateId, topic.currentVersion) ≠
      ((store.newest topic.id).map TopicState.id, (store.newest topic.id).map TopicState.version)
  ({ store with
      topics := store.topics.map fun topic =>
        if moved topic then topic.pointAt (store.newest topic.id) else topic },
    (store.topics.filter fun topic => moved topic).length)

/-!
# Names
-/

/--
Renames a topic and files its source under the new locator; the name it had stays
as an alias.  Nothing changes when the new name or locator is taken.
-/
def renameTopic (now : Instant) (project : ProjectId) (topic : TopicId)
    (names : String × String) (locators : String × String) (job : IndexJobId)
    (store : Store) : Store × Bool :=
  if (store.topics.any fun row => row.name = names.2) || sourceAt locators.2 store then
    (store, false)
  else
    let kept := (store.aliases.filter fun row => row.name ≠ names.2).filter fun row =>
      row.name ≠ names.1
    ({ store with
        topics := store.topics.map fun row =>
          if row.id = topic then { row with name := names.2 } else row
        sources := store.sources.map fun row =>
          if row.locator = locators.1 then { row with locator := locators.2 } else row
        aliases := kept ++ [{ name := names.1, topicId := topic, renamedAt := now }]
        jobs := Jobs.enqueueAll now project (some topic)
          [(job, Jobs.JobKind.syncTopicIndex)] store.jobs }, true)

def findTopic (name : String) (store : Store) : Option Topic :=
  match store.topics.find? fun topic => topic.name = name with
  | some topic => some topic
  | none =>
      (store.aliases.find? fun row => row.name = name).bind fun row =>
        store.topics.find? fun topic => topic.id = row.topicId

end Topics
end PaminMemory
