import PaminMemory.Ingest.Looking

/-!
# The ingest

One ingest as the program of calls it makes: it loads the records of the files found, looks at
the files, forgets the records of those it cut, writes their sections, retires what is gone,
writes the records, and looks once more for what was written by hand meanwhile.
-/

namespace PaminMemory
namespace Ingest

open Foundation Foundation.Program
open Topics (Current Rejection Retired SourceKind judge)

structure Request where
  build : String
  started : Instant
  found : List Seen
  trees : List Tree
  skipped : List String
  /-- Files known to be gone, by whoever noticed. -/
  deleted : List File
  there : String -> Bool
  /-- The stat of a path when its file has been recorded, if it has one. -/
  later : String -> Option Stat
  /-- The order the sections are recorded in; they run at once. -/
  schedule : List Nat

/-!
## Recording sections
-/

inductive Remembered where
  | unchanged
  | written
  | held
deriving DecidableEq, Repr

section Recording

variable (cutter : Cutter) (now : Instant)

def Section.write (named : Section) (promoted : Bool) : Write :=
  { topic := named.name, content := named.content
    contentHash := cutter.contentHash named.content, promoted := promoted, recordedAt := now }

def writeSection (named : Section) (root : String) (promoted : Bool) : Calls Unit :=
  make (Call.writeFrom (named.write cutter now promoted) SourceKind.file (some root))

def holdSection (named : Section) (root : String) (current : Option String) :
    Calls Remembered := do
  let last : Option String ←
    if current.isNone then make (Call.latestHashAt SourceKind.file named.name) else pure none
  if last = some (cutter.contentHash named.content) then
    pure Remembered.unchanged
  else do
    writeSection cutter now named root false
    pure Remembered.held

/-- Records a section, unless it says what its topic does or what was last held under it. -/
def rememberSection (named : Section) (root : String) : Calls Remembered := do
  let current : Option String ← make (Call.currentContent named.name)
  match judge named.content current with
  | none => do
      writeSection cutter now named root true
      pure Remembered.written
  | some Rejection.restatement => pure Remembered.unchanged
  | some _ => holdSection cutter now named root current

abbrev Rooted := Section × String

def candidates (gone : List Gone) (said : List (String × Current)) : List (Gone × String) :=
  (gone.filter Gone.retirable).filterMap fun gone =>
    (said.lookup gone.name).map fun current => (gone, current.content)

def newSections (sections : List Rooted) (known : List String) : List Section :=
  (sections.map Prod.fst).filter fun named => named.name ∉ known

def moves (new : List Section) (candidates : List (Gone × String)) : List (Gone × Section) :=
  (cutter.pairs (new.map Section.content) (candidates.map Prod.snd)).filterMap fun pair =>
    match candidates[pair.2]?, new[pair.1]? with
    | some (gone, _), some named => some (gone, named)
    | _, _ => none

def renamed (sections : List Rooted) (known : List String) (gone : List Gone) :
    Calls (List (String × String)) := do
  let new := newSections sections known
  if new.isEmpty || !gone.any Gone.retirable then
    pure []
  else do
    let said : List (String × Current) ←
      make (Call.currentNamed ((gone.filter Gone.retirable).map Gone.name))
    let moves := moves cutter new (candidates gone said)
    let done : List Bool ← forEach (fun move : Gone × Section =>
      make (Call.renameSection move.1.name move.2.name move.1.current)) moves
    pure ((moves.zip done).filterMap fun move =>
      if move.2 then some (move.1.1.name, move.1.2.name) else none)

structure Outcome where
  written : Nat
  unchanged : Nat
  held : Nat
  removed : List String
  missing : List String
  renamed : List (String × String)
  /-- Sections whose topic changed under this ingest, so it left them be. -/
  changed : List String

def Outcome.nothing : Outcome :=
  { written := 0, unchanged := 0, held := 0, removed := [], missing := [], renamed := []
    changed := [] }

def arranged {α : Type} : List Nat -> List α -> List α
  | [], entries => entries
  | i :: schedule, entries =>
      match entries[i]? with
      | none => arranged schedule entries
      | some entry => entry :: arranged schedule (entries.eraseIdx i)

def retireAll (seen : List (String × TopicStateId)) :
    Calls (List ((String × TopicStateId) × Retired)) := do
  let retired : List Retired ← forEach (fun topic : String × TopicStateId =>
    make (Call.retireSection topic.1 topic.2)) seen
  pure (seen.zip retired)

def namesOf (retired : List ((String × TopicStateId) × Retired)) (outcome : Retired) :
    List String :=
  (retired.filter fun entry => entry.2 = outcome).map fun entry => entry.1.1

def namesAt (unchanged : List Rooted) (root : String) : List String :=
  (unchanged.filter fun rooted => rooted.2 = root).map fun rooted => rooted.1.name

def emptied (known : List FileTopic) (held : List Rooted) : List FileTopic :=
  held.filterMap fun rooted => known.find? fun topic => topic.name = rooted.1.name

/--
Records the sections, after renaming the gone ones found under a new name, and retires the
rest: those their files no longer have, and those the filter now holds.
-/
def record (schedule : List Nat) (sections : List Rooted) (known : List FileTopic)
    (gone : List Gone) : Calls Outcome := do
  let renames ← renamed cutter sections (known.map FileTopic.name) gone
  let gone := gone.filter fun gone => gone.name ∉ renames.map Prod.fst
  let sections := arranged schedule sections
  let remembered : List Remembered ← forEach (fun rooted : Rooted =>
    rememberSection cutter now rooted.1 rooted.2) sections
  let came := sections.zip remembered
  let unchanged := (came.filter fun entry => entry.2 = Remembered.unchanged).map Prod.fst
  let held := (came.filter fun entry => entry.2 = Remembered.held).map Prod.fst
  let _ : List Unit ← forEach (fun root : String =>
    make (Call.setRootsAt (namesAt unchanged root) root)) (unchanged.map Prod.snd).eraseDups
  let retired ← retireAll
    ((gone.filter Gone.retirable).map fun gone => (gone.name, gone.current))
  let emptied ← retireAll ((emptied known held).map fun topic => (topic.name, topic.current))
  pure
    { written := (came.filter fun entry => entry.2 = Remembered.written).length
      unchanged := unchanged.length, held := held.length
      removed := namesOf retired Retired.retired ++ namesOf emptied Retired.retired
      missing := ((gone.filter fun gone => !gone.retirable).map Gone.name) ++
        namesOf retired Retired.kept ++ namesOf retired Retired.changed
      renamed := renames
      changed := namesOf retired Retired.changed ++ namesOf emptied Retired.changed }

end Recording

/-!
## What left the trees
-/

def Tree.low (tree : Tree) : String := tree.name ++ "/"

def leftTree (records : Records) (found : List (String × String)) :
    List (String × String) × Nat :=
  ((records.map FileRecord.key).filter fun key => key ∉ found,
    (records.map FileRecord.sections).sum)

def Tree.unrecorded (tree : Tree) (unrecorded : List File) : Bool :=
  unrecorded.any fun file => file.root = tree.root && under file.name tree.name

/--
The names to look for what left a tree under: the files that left it, or all of the tree when
more sections are on the surface under it than its records account for.
-/
def lowsOf (unrecorded : List File) (tree : Tree) (left : List (String × String) × Nat) :
    Calls (List String) :=
  if tree.unrecorded unrecorded then
    pure [tree.low]
  else do
    let count : Nat ← make (Call.countFileTopicsUnder tree.low)
    pure (if left.2 < count then [tree.low] else left.1.map Prod.snd)

/-!
## The whole of it
-/

structure Read where
  file : File
  record : Option FileRecord
  sections : List Section

def wanted (cut : Cut) (recorded : List FileTopic) : List String :=
  let bases := (cut.sections.map Unnamed.base).eraseDups
  let earlier := ((recorded.filter fun topic =>
    belongs topic.name cut.file.name &&
      bases.any fun base => (number topic.name base).isSome)).map FileTopic.name
  let repeated := bases.length < cut.sections.length
  let renumbered := earlier.any fun name => bases.any fun base =>
    (number name base).any fun n => 1 < n
  if repeated || renumbered then earlier else []

/-- The sections of a file named, against what its sections said when it was last ingested. -/
def namedRead (cutter : Cutter) (recorded : List FileTopic) (said : List (String × Current))
    (cut : Cut) : Read :=
  let previous := (wanted cut recorded).filterMap fun name =>
    (said.lookup name).map fun current => { name := name, content := current.content }
  { file := cut.file, record := cut.record, sections := cutter.named cut.sections previous }

/-- The records of the read files whose stat is still what it was before they were read. -/
def stillAsRead (later : String -> Option Stat) (read : List Read) : Records :=
  read.filterMap fun read =>
    match read.record, later read.file.path with
    | some record, some now =>
        if now.sameFile record then
          some { record with sections := min read.sections.length 4294967295 }
        else
          none
    | _, _ => none

def Read.topics (read : Read) : List ((String × String) × String) :=
  read.sections.map fun named => (read.file.key, named.name)

def MARGIN : Int := seconds 60

structure Ingested where
  files : Nat
  sections : Nat
  written : Nat
  unchanged : Nat
  held : Nat
  removed : List String
  missing : List String
  renamed : List (String × String)
  skipped : List String

def Looking.cut (looking : Looking) (deleted : List File) : List Cut :=
  looking.read ++ deleted.map fun file => { file := file, record := none, sections := [] }

def Looking.keys (looking : Looking) (deleted : List File) : List (String × String) :=
  (looking.cut deleted).map (fun cut => cut.file.key) ++
    looking.unchanged.map (fun entry => entry.1.key) ++ looking.unread.map File.key

def Looking.looked (looking : Looking) (request : Request) : Looked :=
  { read := (looking.cut request.deleted).map Cut.file
    unchanged := looking.unchanged.map Prod.fst, unread := looking.unread
    trees := request.trees, there := request.there }

def rooted (read : List Read) : List Rooted :=
  read.flatMap fun read => read.sections.map fun named => (named, read.file.root)

def recordAny (cutter : Cutter) (request : Request) (read : List Read)
    (recorded : List FileTopic) (gone : List Gone) : Calls Outcome :=
  if (rooted read).isEmpty && !gone.any Gone.retirable then
    pure { Outcome.nothing with missing := gone.map Gone.name }
  else
    record cutter request.started request.schedule (rooted read) recorded gone

def Outcome.unsettled (outcome : Outcome) (file : String) : Bool :=
  (outcome.changed ++ outcome.missing).any fun name => belongs name file

def finish (request : Request) (looking : Looking)
    (left : List (List (String × String) × Nat)) (read : List Read) (outcome : Outcome) :
    Calls Unit := do
  let left := (((request.trees.zip left).filter fun entry => entry.1.whole).flatMap
      fun entry => entry.2.1) ++ request.deleted.map File.key
  let settled := read.filter fun read => !outcome.unsettled read.file.name
  make (Call.forgetFileRecords (left.filter fun key => !outcome.unsettled key.2).eraseDups)
  make (Call.putFileRecords (stillAsRead request.later settled ++ looking.refreshed))
  make (Call.forgetFileRecordsWrittenSince (settled.flatMap Read.topics)
    (request.started - MARGIN))

structure Ready where
  looking : Looking
  left : List (List (String × String) × Nat)
  recorded : List FileTopic
  read : List Read
  gone : List Gone

def begin (cutter : Cutter) (request : Request) : Calls Looking := do
  let records : Records ← make
    (Call.fileRecordsOf (request.found.map fun seen => seen.file.key))
  let looking := look cutter request.build records request.found
  make (Call.forgetRecordsOfFiles
    ((looking.cut request.deleted).map fun cut => cut.file.name))
  pure looking

def leaves (request : Request) (looking : Looking) :
    Calls (List (List (String × String) × Nat) × List String) := do
  let under : List Records ← forEach
    (fun tree : Tree => make (Call.fileRecordsUnder tree.root tree.low)) request.trees
  let left := under.map fun records => leftTree records (looking.keys request.deleted)
  let lows : List (List String) ← forEach
    (fun entry : Tree × (List (String × String) × Nat) =>
      lowsOf looking.unrecorded entry.1 entry.2)
    (request.trees.zip left)
  pure (left, (looking.cut request.deleted).map (fun cut => cut.file.name) ++ lows.flatten)

def compared (cutter : Cutter) (request : Request) (looking : Looking)
    (left : List (List (String × String) × Nat)) (lows : List String) : Calls Ready := do
  let cut := looking.cut request.deleted
  let topics : List FileTopic ← make (Call.fileTopicsUnder lows)
  let recorded := inPlay topics (cut.map fun cut => cut.file.name) request.trees
  let said : List (String × Current) ← make
    (Call.currentNamed (cut.flatMap fun cut => wanted cut recorded))
  let read := cut.map (namedRead cutter recorded said)
  pure
    { looking := looking, left := left, recorded := recorded, read := read
      gone := gone (looking.looked request) ((rooted read).map Prod.fst) recorded }

/-- Ingests what was found, and takes the files known to be gone as read and found empty. -/
def ingest (cutter : Cutter) (request : Request) : Calls Ingested := do
  let looking ← begin cutter request
  let (left, lows) ← leaves request looking
  let ready ← compared cutter request looking left lows
  let outcome ← recordAny cutter request ready.read ready.recorded ready.gone
  finish request ready.looking ready.left ready.read outcome
  let unchanged := (looking.unchanged.map Prod.snd).sum
  pure
    { files := looking.read.length + looking.unchanged.length
      sections := (rooted ready.read).length + unchanged, written := outcome.written
      unchanged := outcome.unchanged + unchanged, held := outcome.held
      removed := outcome.removed.insertionSort fun left right => left <= right
      missing := outcome.missing.insertionSort fun left right => left <= right
      renamed := outcome.renamed, skipped := looking.skipped ++ request.skipped }

end Ingest
end PaminMemory
