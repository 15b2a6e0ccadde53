import Mathlib.Data.List.AList
import PaminMemory.Foundation.Programs
import PaminMemory.Ingest.Records
import PaminMemory.Topics.Surface
import PaminMemory.Topics.Writes

/-!
# What an ingest reads and writes

The sources, topics and file records of one project, with what each statement or transaction
of an ingest does to them.
-/

namespace PaminMemory
namespace Ingest

open Foundation
open Topics (Current Retired SourceKind)

/-- A version of a source: the text recorded, by its hash, and when. -/
structure Evidence where
  contentHash : String
  recordedAt : Instant
deriving DecidableEq, Repr

structure Source where
  root : Option String
  versions : List Evidence
deriving DecidableEq, Repr

/-- The tables, a source keyed by what its locator spells and a topic by its name. -/
structure Ledger where
  sources : AList fun _ : SourceKind × String => Source
  topics : AList fun _ : String => Option Current
  records : Records
  /-- How many states have been written. -/
  states : Nat

namespace Ledger

def empty : Ledger := { sources := ∅, topics := ∅, records := [], states := 0 }

def current (ledger : Ledger) (topic : String) : Option Current :=
  (ledger.topics.lookup topic).join

def currentContent (ledger : Ledger) (topic : String) : Option String :=
  (ledger.current topic).map Current.content

def rootOf (ledger : Ledger) (topic : String) : Option String :=
  (ledger.sources.lookup (SourceKind.file, topic)).bind Source.root

def sourceAt (ledger : Ledger) (kind : SourceKind) (topic : String) : Bool :=
  (ledger.sources.lookup (kind, topic)).isSome

end Ledger

/-!
# Reading
-/

structure FileTopic where
  name : String
  current : TopicStateId
  root : Option String
deriving DecidableEq, Repr

namespace Ledger

def fileTopicsUnder (ledger : Ledger) (lows : List String) : List FileTopic :=
  ledger.sources.entries.filterMap fun entry =>
    if entry.1.1 = SourceKind.file && lows.any fun low => inRange low entry.1.2 then
      (ledger.current entry.1.2).map fun current =>
        { name := entry.1.2, current := current.state, root := entry.2.root }
    else
      none

def countFileTopicsUnder (ledger : Ledger) (low : String) : Nat :=
  (ledger.fileTopicsUnder [low]).length

def currentNamed (ledger : Ledger) (names : List String) : List (String × Current) :=
  names.filterMap fun name => (ledger.current name).map fun current => (name, current)

/-- The hash of the newest evidence of a source. -/
def latestHashAt (ledger : Ledger) (kind : SourceKind) (topic : String) : Option String :=
  (ledger.sources.lookup (kind, topic)).bind fun source =>
    source.versions.getLast?.map Evidence.contentHash

end Ledger

/-!
# Writing
-/

structure Write where
  topic : String
  content : String
  contentHash : String
  promoted : Bool
  recordedAt : Instant
deriving DecidableEq, Repr

namespace Ledger

def writeFrom (ledger : Ledger) (write : Write) (kind : SourceKind) (root : Option String) :
    Ledger :=
  let found := (ledger.sources.lookup (kind, write.topic)).getD { root := none, versions := [] }
  let source : Source :=
    { root := root <|> found.root
      versions := found.versions ++
        [{ contentHash := write.contentHash, recordedAt := write.recordedAt }] }
  let filed := { ledger with sources := ledger.sources.insert (kind, write.topic) source }
  if write.promoted then
    { filed with
      topics := ledger.topics.insert write.topic
        (some { state := ledger.states, content := write.content })
      states := ledger.states + 1 }
  else
    filed

/-- Records the directory of one section that has a source. -/
def setRootAt (root : String) (ledger : Ledger) (topic : String) : Ledger :=
  match ledger.sources.lookup (SourceKind.file, topic) with
  | none => ledger
  | some source =>
      { ledger with
        sources := ledger.sources.insert (SourceKind.file, topic)
          { source with root := some root } }

def setRootsAt (ledger : Ledger) (topics : List String) (root : String) : Ledger :=
  topics.foldl (setRootAt root) ledger

/-- Takes a section only files wrote off the surface, while it says what the ingest saw. -/
def retireSection (ledger : Ledger) (topic : String) (seen : TopicStateId) :
    Retired × Ledger :=
  match ledger.current topic with
  | none => (Retired.absent, ledger)
  | some current =>
      if current.state ≠ seen then
        (Retired.changed, ledger)
      else if ledger.sourceAt SourceKind.manual topic then
        (Retired.kept, ledger)
      else
        (Retired.retired, { ledger with topics := ledger.topics.insert topic none })

/-- A topic and its file source under a new name. -/
def moved (ledger : Ledger) (old new : String) (current : Current) : Ledger :=
  { ledger with
    topics := (ledger.topics.erase old).insert new (some current)
    sources :=
      match ledger.sources.lookup (SourceKind.file, old) with
      | none => ledger.sources
      | some source =>
          (ledger.sources.erase (SourceKind.file, old)).insert (SourceKind.file, new) source }

def renameSection (ledger : Ledger) (old new : String) (seen : TopicStateId) :
    Bool × Ledger :=
  match ledger.current old with
  | none => (false, ledger)
  | some current =>
      if current.state ≠ seen || ledger.sourceAt SourceKind.manual old then
        (false, ledger)
      else if (ledger.topics.lookup new).isSome || ledger.sourceAt SourceKind.file new then
        (false, ledger)
      else
        (true, ledger.moved old new current)

def WrittenSince (ledger : Ledger) (topic : String) (since : Instant) : Prop :=
  exists source, ledger.sources.lookup (SourceKind.manual, topic) = some source ∧
    exists version, version ∈ source.versions ∧ since <= version.recordedAt

instance (ledger : Ledger) (topic : String) (since : Instant) :
    Decidable (ledger.WrittenSince topic since) :=
  match h : ledger.sources.lookup (SourceKind.manual, topic) with
  | none => isFalse (by simp [WrittenSince, h])
  | some source =>
      decidable_of_iff (source.versions.any fun version => since <= version.recordedAt)
        (by simp [WrittenSince, h])

def forgetFileRecordsWrittenSince (ledger : Ledger)
    (settled : List ((String × String) × String)) (since : Instant) : Ledger :=
  { ledger with
    records := ledger.records.filter fun record =>
      !settled.any fun entry =>
        entry.1 = record.key && decide (ledger.WrittenSince entry.2 since) }

def namedFrom (topic file : String) : Bool :=
  topic = file || (file.toList ++ SEPARATOR).isPrefixOf topic.toList ||
    (file.toList ++ NUMBER).isPrefixOf topic.toList

/-- The records that a hand write to a topic forgets: those of the file it was cut from. -/
def fileRecordsOf (ledger : Ledger) (topic : String) : List (String × String) :=
  (ledger.records.filter fun record =>
    ledger.rootOf topic = some record.root && namedFrom topic record.file).map FileRecord.key

end Ledger

/-!
# Calls
-/

/-- The statements and transactions of an ingest. -/
inductive Call where
  | fileRecordsOf (keys : List (String × String))
  | forgetRecordsOfFiles (files : List String)
  | fileRecordsUnder (root low : String)
  | countFileTopicsUnder (low : String)
  | fileTopicsUnder (lows : List String)
  | currentNamed (names : List String)
  | renameSection (old new : String) (seen : TopicStateId)
  | currentContent (topic : String)
  | latestHashAt (kind : SourceKind) (topic : String)
  | writeFrom (write : Write) (kind : SourceKind) (root : Option String)
  | setRootsAt (topics : List String) (root : String)
  | retireSection (topic : String) (seen : TopicStateId)
  | forgetFileRecords (keys : List (String × String))
  | putFileRecords (records : Records)
  | forgetFileRecordsWrittenSince (settled : List ((String × String) × String))
      (since : Instant)
deriving DecidableEq, Repr

@[reducible] def Call.reply : Call -> Type
  | fileRecordsOf _ => Records
  | forgetRecordsOfFiles _ => Unit
  | fileRecordsUnder _ _ => Records
  | countFileTopicsUnder _ => Nat
  | fileTopicsUnder _ => List FileTopic
  | currentNamed _ => List (String × Current)
  | renameSection _ _ _ => Bool
  | currentContent _ => Option String
  | latestHashAt _ _ => Option String
  | writeFrom _ _ _ => Unit
  | setRootsAt _ _ => Unit
  | retireSection _ _ => Retired
  | forgetFileRecords _ => Unit
  | putFileRecords _ => Unit
  | forgetFileRecordsWrittenSince _ _ => Unit

def answer : (call : Call) -> Ledger -> call.reply × Ledger
  | Call.fileRecordsOf keys, ledger => (ledger.records.of keys, ledger)
  | Call.forgetRecordsOfFiles files, ledger =>
      ((), { ledger with records := ledger.records.forgetFiles files })
  | Call.fileRecordsUnder root low, ledger => (ledger.records.startingWith root low, ledger)
  | Call.countFileTopicsUnder low, ledger => (ledger.countFileTopicsUnder low, ledger)
  | Call.fileTopicsUnder lows, ledger => (ledger.fileTopicsUnder lows, ledger)
  | Call.currentNamed names, ledger => (ledger.currentNamed names, ledger)
  | Call.renameSection old new seen, ledger => ledger.renameSection old new seen
  | Call.currentContent topic, ledger => (ledger.currentContent topic, ledger)
  | Call.latestHashAt kind topic, ledger => (ledger.latestHashAt kind topic, ledger)
  | Call.writeFrom write kind root, ledger => ((), ledger.writeFrom write kind root)
  | Call.setRootsAt topics root, ledger => ((), ledger.setRootsAt topics root)
  | Call.retireSection topic seen, ledger => ledger.retireSection topic seen
  | Call.forgetFileRecords keys, ledger =>
      ((), { ledger with records := ledger.records.forget keys })
  | Call.putFileRecords records, ledger =>
      ((), { ledger with records := ledger.records.put records })
  | Call.forgetFileRecordsWrittenSince settled since, ledger =>
      ((), ledger.forgetFileRecordsWrittenSince settled since)

abbrev Calls (α : Type) := Program Call Call.reply α

/-!
# What each write changes
-/

namespace Ledger

theorem current_writeFrom (ledger : Ledger) (write : Write) (kind : SourceKind)
    (root : Option String) (topic : String) :
    (ledger.writeFrom write kind root).current topic =
      if write.promoted = true ∧ topic = write.topic then
        some { state := ledger.states, content := write.content }
      else
        ledger.current topic := by
  unfold writeFrom current
  by_cases hpromoted : write.promoted = true
  · by_cases htopic : topic = write.topic
    · subst htopic
      simp [hpromoted]
    · simp [hpromoted, htopic, AList.lookup_insert_ne htopic]
  · simp [hpromoted]

@[simp] theorem records_writeFrom (ledger : Ledger) (write : Write) (kind : SourceKind)
    (root : Option String) : (ledger.writeFrom write kind root).records = ledger.records := by
  unfold writeFrom
  by_cases hpromoted : write.promoted = true
  · simp [hpromoted]
  · simp [hpromoted]

/-- The source a write files its evidence under, with the evidence in it. -/
def filedBy (ledger : Ledger) (write : Write) (kind : SourceKind) (root : Option String) :
    Source :=
  let found := (ledger.sources.lookup (kind, write.topic)).getD { root := none, versions := [] }
  { root := root <|> found.root
    versions := found.versions ++
      [{ contentHash := write.contentHash, recordedAt := write.recordedAt }] }

theorem sources_writeFrom (ledger : Ledger) (write : Write) (kind : SourceKind)
    (root : Option String) :
    (ledger.writeFrom write kind root).sources =
      ledger.sources.insert (kind, write.topic) (ledger.filedBy write kind root) := by
  unfold writeFrom filedBy
  by_cases hpromoted : write.promoted = true
  · simp [hpromoted]
  · simp [hpromoted]

theorem current_retired (ledger : Ledger) (topic other : String) :
    ({ ledger with topics := ledger.topics.insert topic none } : Ledger).current other =
      if other = topic then none else ledger.current other := by
  unfold current
  by_cases htopic : other = topic
  · subst htopic
    simp
  · simp [htopic, AList.lookup_insert_ne htopic]

theorem retireSection_cases (ledger : Ledger) (topic : String) (seen : TopicStateId) :
    (ledger.retireSection topic seen = (Retired.absent, ledger) ∧
        ledger.current topic = none) ∨
      (exists current, ledger.current topic = some current ∧ current.state ≠ seen ∧
        ledger.retireSection topic seen = (Retired.changed, ledger)) ∨
      (ledger.sourceAt SourceKind.manual topic = true ∧
        ledger.retireSection topic seen = (Retired.kept, ledger)) ∨
      ledger.retireSection topic seen =
        (Retired.retired, { ledger with topics := ledger.topics.insert topic none }) := by
  unfold retireSection
  cases hcurrent : ledger.current topic with
  | none => exact Or.inl ⟨rfl, rfl⟩
  | some current =>
      by_cases hseen : current.state = seen
      · by_cases hmanual : ledger.sourceAt SourceKind.manual topic = true
        · simp [hseen, hmanual]
        · simp [hseen, hmanual]
      · simp [hseen]

theorem current_moved (ledger : Ledger) (old new : String) (moving : Current)
    (topic : String) :
    (ledger.moved old new moving).current topic =
      if topic = new then some moving
      else if topic = old then none
      else ledger.current topic := by
  unfold moved current
  by_cases hnew : topic = new
  · subst hnew
    simp
  · by_cases hold : topic = old
    · subst hold
      simp [hnew, AList.lookup_insert_ne hnew]
    · simp [hnew, hold, AList.lookup_insert_ne hnew, AList.lookup_erase_ne hold]

theorem renameSection_cases (ledger : Ledger) (old new : String) (seen : TopicStateId) :
    ledger.renameSection old new seen = (false, ledger) ∨
      exists current, ledger.current old = some current ∧ current.state = seen ∧
        ledger.topics.lookup new = none ∧
        ledger.sources.lookup (SourceKind.file, new) = none ∧
        ledger.renameSection old new seen = (true, ledger.moved old new current) := by
  unfold renameSection
  cases hcurrent : ledger.current old with
  | none => exact Or.inl rfl
  | some current =>
      change (if (decide (current.state ≠ seen) ||
          ledger.sourceAt SourceKind.manual old) = true then _ else _) = _ ∨ _
      cases hkept : decide (current.state ≠ seen) || ledger.sourceAt SourceKind.manual old with
      | true => exact Or.inl rfl
      | false =>
          cases htaken :
              (ledger.topics.lookup new).isSome || ledger.sourceAt SourceKind.file new with
          | true => exact Or.inl rfl
          | false =>
              rw [Bool.or_eq_false_iff] at hkept htaken
              apply Or.inr
              exists current
              constructor
              · rfl
              constructor
              · simpa using hkept.1
              constructor
              · simpa using htaken.1
              constructor
              · simpa [sourceAt] using htaken.2
              · simp [hkept.1, hkept.2]

theorem current_setRootAt (root : String) (ledger : Ledger) (topic : String) :
    (setRootAt root ledger topic).topics = ledger.topics ∧
      (setRootAt root ledger topic).records = ledger.records := by
  unfold setRootAt
  cases ledger.sources.lookup (SourceKind.file, topic) with
  | none => exact ⟨rfl, rfl⟩
  | some source => exact ⟨rfl, rfl⟩

theorem tables_setRootsAt (ledger : Ledger) (topics : List String) (root : String) :
    (ledger.setRootsAt topics root).topics = ledger.topics ∧
      (ledger.setRootsAt topics root).records = ledger.records := by
  unfold setRootsAt
  induction topics generalizing ledger with
  | nil => exact ⟨rfl, rfl⟩
  | cons topic rest ih =>
      have hhere := current_setRootAt root ledger topic
      have hlater := ih (setRootAt root ledger topic)
      exact ⟨hlater.1.trans hhere.1, hlater.2.trans hhere.2⟩

theorem mem_fileTopicsUnder {ledger : Ledger} {lows : List String} {topic : FileTopic} :
    topic ∈ ledger.fileTopicsUnder lows <->
      (exists low, low ∈ lows ∧ inRange low topic.name = true) ∧
        exists source current,
          ledger.sources.lookup (SourceKind.file, topic.name) = some source ∧
            ledger.current topic.name = some current ∧ topic.current = current.state ∧
              topic.root = source.root := by
  unfold fileTopicsUnder
  rw [List.mem_filterMap]
  constructor
  · intro h
    obtain ⟨⟨⟨kind, name⟩, source⟩, hmem, hentry⟩ := h
    by_cases hrange : kind = SourceKind.file ∧ lows.any fun low => inRange low name
    · obtain ⟨rfl, hlow⟩ := hrange
      simp only [hlow, decide_true, Bool.and_self, if_true, Option.map_eq_some_iff] at hentry
      obtain ⟨current, hcurrent, rfl⟩ := hentry
      obtain ⟨low, hin, hrange⟩ := List.any_eq_true.mp hlow
      exact ⟨⟨low, hin, hrange⟩, source, current, AList.mem_lookup_iff.mpr hmem, hcurrent,
        rfl, rfl⟩
    · simp only [Bool.and_eq_true, decide_eq_true_eq, hrange, if_false, reduceCtorEq] at hentry
  · intro h
    obtain ⟨⟨low, hin, hrange⟩, source, current, hsource, hcurrent, hstate, hroot⟩ := h
    exists ⟨(SourceKind.file, topic.name), source⟩
    constructor
    · exact AList.mem_lookup_iff.mp hsource
    · have hlow : lows.any (fun low => inRange low topic.name) = true :=
        List.any_eq_true.mpr ⟨low, hin, hrange⟩
      simp only [hlow, decide_true, Bool.and_self, if_true, hcurrent, Option.map_some]
      cases topic
      simp_all

end Ledger

end Ingest
end PaminMemory
