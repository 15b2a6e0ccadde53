import PaminMemory.Foundation.Runs
import PaminMemory.Ingest.Recording

/-!
# Histories of one tree

A history of one tree is its ingests, each with the files that stand when it runs.  A record
stands for what its file's sections say unless it has outlived a change of them.
-/

namespace PaminMemory
namespace Ingest

open Foundation Foundation.Program
open Topics (Current Restates SourceKind Worthless)

abbrev Disk := List (File × String)

/-- One ingest of a history, and after how many calls it dies, if it does. -/
structure Visit where
  disk : Disk
  request : Request
  calls : Option Nat

/--
The ledger between two ingests, with the names of the files whose record has outlived a change
of their sections: what an ingest that dies after retiring them leaves.
-/
structure Watched where
  ledger : Ledger
  outlived : List String

def changed (before after : Ledger) (file : String) : Bool :=
  (before.topics.keys ++ after.topics.keys).any fun name =>
    belongs name file && decide (before.current name ≠ after.current name)

def outlivedBy (before after : Ledger) (outlived : List String) : List String :=
  (after.records.filter fun record =>
    (before.records.any fun other => other.Like record) &&
      (record.file ∈ outlived || changed before after record.file)).map FileRecord.file

section Histories

variable (cutter : Cutter)

def visited (ledger : Ledger) (visit : Visit) : Ledger :=
  match visit.calls with
  | none => ((ingest cutter visit.request).run answer ledger).2
  | some calls => diesAfter answer calls (ingest cutter visit.request) ledger

def visit (watched : Watched) (visit : Visit) : Option Watched :=
  let ledger := visited cutter watched.ledger visit
  some { ledger := ledger
         outlived := outlivedBy watched.ledger ledger watched.outlived }

variable (root : String) (files : Set String)

/-- The names of sections are read back as their own files', and no two files' clash. -/
structure ReadBack : Prop where
  walked : forall {file}, file ∈ files -> walkedKind file = true
  among : forall {file name}, file ∈ files -> cutter.Names file name -> file ∈ filesOf name
  back : forall {file name}, file ∈ files -> cutter.Names file name -> fileOf name = file
  alone : forall {file other name}, file ∈ files -> cutter.Names file name -> other ∈ files ->
    belongs name other = true -> other = file

/-- What a visit shows is what stands: one tree of readable files, from one root. -/
structure Shows (visit : Visit) : Prop where
  placed : forall {file text}, (file, text) ∈ visit.disk -> file.root = root ∧ file.name ∈ files
  apart : forall {file text other text'}, (file, text) ∈ visit.disk ->
    (other, text') ∈ visit.disk -> file.name = other.name -> file = other ∧ text = text'
  found : forall {seen}, seen ∈ visit.request.found -> exists stat text,
    (seen.file, text) ∈ visit.disk ∧ seen.stat = Except.ok stat ∧ seen.text = Except.ok text
  once : forall {seen other}, seen ∈ visit.request.found -> other ∈ visit.request.found ->
    seen.file.name = other.file.name -> seen = other
  walked : forall {tree}, tree ∈ visit.request.trees -> tree.whole = true ->
    forall {file text}, (file, text) ∈ visit.disk -> file.root = tree.root ->
      under file.name tree.name = true -> exists seen, seen ∈ visit.request.found ∧
        seen.file = file
  deleted : forall {file}, file ∈ visit.request.deleted -> file.root = root ∧
    file.name ∈ files ∧ forall {other text}, (other, text) ∈ visit.disk ->
      other.name ≠ file.name

/-- The sections on the surface of one file, as its text is cut. -/
structure Holds (ledger : Ledger) (build file text : String) (sections : List Section) :
    Prop where
  numbered : Numbered (cutter.unnamed build file text) sections
  ofFile : forall {named}, named ∈ sections -> belongs named.name file = true
  said : forall {named}, named ∈ sections -> ¬Worthless named.content ->
    exists current, ledger.current named.name = some current ∧
      Restates current.content named.content
  only : forall {name current}, belongs name file = true ->
    ledger.current name = some current ->
      exists named, named ∈ sections ∧ named.name = name ∧ ¬Worthless named.content

def Says (ledger : Ledger) (record : FileRecord) : Prop :=
  exists text sections, cutter.contentHash text = record.contentHash ∧
    Holds cutter ledger record.build record.file text sections

def Worthy (ledger : Ledger) (request : Request) : Prop :=
  forall move, move ∈ movesOf cutter (begun cutter request ledger)
    (rooted (reads cutter request ledger)) (playing cutter request ledger)
      (leftBehind cutter request ledger) -> ¬Worthless move.2.content

/-- What a record that has outlived nothing says is on the surface. -/
structure Kept (watched : Watched) : Prop where
  ours : Ours cutter root files watched.ledger
  stands : forall {record}, record ∈ watched.ledger.records ->
    record.file ∉ watched.outlived -> Says cutter watched.ledger record

/-- A ledger an ingest can leave: each record is of an earlier one, or says what is. -/
structure Standing (ledger s : Ledger) : Prop where
  ours : Ours cutter root files s
  records : forall {record}, record ∈ s.records ->
    (exists earlier, earlier ∈ ledger.records ∧ earlier.Like record) ∨ Says cutter s record

end Histories

/-!
## What an ingest is given to record
-/

section Recording

variable {cutter : Cutter} {root : String} {files : Set String} {ledger : Ledger}
  {visit : Visit}

theorem ours_begun (h : Ours cutter root files ledger) :
    Ours cutter root files (begun cutter visit.request ledger) :=
  ours_congr h rfl rfl

theorem ReadBack.file_eq (h : ReadBack cutter files) {file other name : String}
    (hfile : file ∈ files) (hnames : cutter.Names file name) (hother : other ∈ files)
    (hamong : other ∈ filesOf name) : other = file :=
  h.alone hfile hnames hother (by simpa [filesOf] using (List.mem_filter.mp hamong).2)

theorem ReadBack.belongs (h : ReadBack cutter files) {file name : String}
    (hfile : file ∈ files) (hnames : cutter.Names file name) :
    PaminMemory.Ingest.belongs name file = true :=
  (List.mem_filter.mp (h.among hfile hnames)).2

inductive CutOf (cutter : Cutter) (request : Request) (cut : Cut) : Prop where
  | read (seen : Seen) (stat : Stat) (text : String) (hseen : seen ∈ request.found)
      (htext : seen.text = Except.ok text) (hfile : cut.file = seen.file)
      (hrecord : cut.record =
        some (stat.recorded seen.file (cutter.contentHash text) request.build))
      (hsections : cut.sections = cutter.unnamed request.build seen.file.name text)
  | deleted (hdeleted : cut.file ∈ request.deleted) (hrecord : cut.record = none)
      (hsections : cut.sections = [])

theorem cutOf_look {request : Request} {records : Records} {cut : Cut}
    (h : cut ∈ (look cutter request.build records request.found).cut request.deleted) :
    CutOf cutter request cut := by
  cases List.mem_append.mp h with
  | inl hread =>
      obtain ⟨seen, stat, text, hseen, htext, hfile, hrecord, hsections⟩ := mem_read hread
      exact CutOf.read seen stat text hseen htext hfile hrecord hsections
  | inr hdeleted =>
      obtain ⟨file, hfile, rfl⟩ := List.mem_map.mp hdeleted
      exact CutOf.deleted hfile rfl rfl

theorem cutOf_cuts {cut : Cut} (h : cut ∈ cuts cutter visit.request ledger) :
    CutOf cutter visit.request cut := cutOf_look h

structure ReadFrom (cutter : Cutter) (visit : Visit) (ledger : Ledger) (seen : Seen)
    (said : String) (read : Read) : Prop where
  found : seen ∈ visit.request.found
  text : seen.text = Except.ok said
  among : read ∈ reads cutter visit.request ledger
  ofFile : read.file = seen.file
  recorded : exists stat : Stat, read.record =
    some (stat.recorded seen.file (cutter.contentHash said) visit.request.build)
  cut : Numbered (cutter.unnamed visit.request.build seen.file.name said) read.sections
  names : forall {named}, named ∈ read.sections -> cutter.Names seen.file.name named.name

structure CutFrom (cutter : Cutter) (visit : Visit) (ledger : Ledger) (entry : Rooted)
    (seen : Seen) (said : String) (read : Read) : Prop
    extends ReadFrom cutter visit ledger seen said read where
  inSections : entry.1 ∈ read.sections
  fromRoot : entry.2 = seen.file.root

theorem reads_eq : exists said, reads cutter visit.request ledger =
    (cuts cutter visit.request ledger).map
      (namedRead cutter (playing cutter visit.request ledger) said) :=
  ⟨_, rfl⟩

theorem readFrom {read : Read} (h : read ∈ reads cutter visit.request ledger) :
    (exists seen text, ReadFrom cutter visit ledger seen text read) ∨
      (read.file ∈ visit.request.deleted ∧ read.record = none ∧ read.sections = []) := by
  obtain ⟨said, hreads⟩ : exists said, reads cutter visit.request ledger = _ := reads_eq
  obtain ⟨cut, hcut, hread⟩ := List.mem_map.mp (hreads ▸ h)
  cases cutOf_cuts hcut with
  | read seen stat text hseen htext hfile hrecord hsections =>
      have hnumbered := cutter.named_numbered visit.request.build seen.file.name text
      obtain ⟨previous, hfrom⟩ : exists previous, read.sections =
          cutter.named (cutter.unnamed visit.request.build seen.file.name text) previous := by
        rw [← hread, namedRead, hsections]
        exact ⟨_, rfl⟩
      apply Or.inl
      exists seen, text
      constructor
      · exact hseen
      · exact htext
      · exact h
      · rw [← hread, ← hfile]
        rfl
      · exact ⟨stat, by rw [← hread, ← hrecord]; rfl⟩
      · rw [hfrom]
        exact hnumbered previous
      · intro named hnamed
        rw [hfrom] at hnamed
        exact ⟨visit.request.build, text, previous, List.mem_map.mpr ⟨named, hnamed, rfl⟩⟩
  | deleted hdeleted hrecord hsections =>
      apply Or.inr
      rw [← hread, namedRead, hsections, cutter.named_nil]
      exact ⟨hdeleted, hrecord, rfl⟩

theorem cutFrom {entry : Rooted} (h : entry ∈ rooted (reads cutter visit.request ledger)) :
    exists seen text read, CutFrom cutter visit ledger entry seen text read := by
  obtain ⟨read, hread, hentry⟩ := List.mem_flatMap.mp h
  obtain ⟨named, hnamed, rfl⟩ := List.mem_map.mp hentry
  cases readFrom hread with
  | inl hfrom =>
      obtain ⟨seen, text, hfrom⟩ := hfrom
      exact ⟨seen, text, read, hfrom, hnamed, congrArg File.root hfrom.ofFile⟩
  | inr hdeleted =>
      rw [hdeleted.2.2] at hnamed
      exact absurd hnamed List.not_mem_nil

theorem readFrom_of_cut (hshows : Shows root files visit) {cut : Cut}
    (hcut : cut ∈ cuts cutter visit.request ledger) {seen : Seen} {text : String}
    (hseen : seen ∈ visit.request.found) (htext : seen.text = Except.ok text)
    (hfile : cut.file = seen.file) :
    exists read, ReadFrom cutter visit ledger seen text read := by
  obtain ⟨said, hreads⟩ : exists said, reads cutter visit.request ledger = _ := reads_eq
  have hmem : namedRead cutter (playing cutter visit.request ledger) said cut ∈
      reads cutter visit.request ledger := hreads ▸ List.mem_map.mpr ⟨cut, hcut, rfl⟩
  cases readFrom hmem with
  | inl hfrom =>
      obtain ⟨other, text', hfrom⟩ := hfrom
      have hsame : other = seen :=
        hshows.once hfrom.found hseen (congrArg File.name (hfrom.ofFile.symm.trans hfile))
      have htext' := hfrom.text
      rw [hsame, htext, Except.ok.injEq] at htext'
      rw [hsame, ← htext'] at hfrom
      exact ⟨_, hfrom⟩
  | inr hdeleted =>
      obtain ⟨_, _, hdisk, _⟩ := hshows.found hseen
      exact absurd (congrArg File.name hfile.symm) ((hshows.deleted hdeleted.1).2.2 hdisk)

theorem sections_of_cut (hshows : Shows root files visit) {cut : Cut}
    (hcut : cut ∈ cuts cutter visit.request ledger) {seen : Seen} {text : String}
    (hseen : seen ∈ visit.request.found) (htext : seen.text = Except.ok text)
    (hfile : cut.file = seen.file) :
    cut.sections = cutter.unnamed visit.request.build seen.file.name text := by
  cases cutOf_cuts hcut with
  | read other stat said hother hsaid hcutFile hrecord hsections =>
      have hsame : other = seen :=
        hshows.once hother hseen (congrArg File.name (hcutFile.symm.trans hfile))
      rw [hsections, hsame]
      rw [hsame, htext] at hsaid
      cases hsaid
      rfl
  | deleted hdeleted hrecord hsections =>
      obtain ⟨stat, said, hdisk, _⟩ := hshows.found hseen
      exact absurd (congrArg File.name hfile.symm) ((hshows.deleted hdeleted).2.2 hdisk)

theorem sections_of_read (hshows : Shows root files visit) {seen seen' : Seen}
    {text text' : String} {read read' : Read}
    (h : ReadFrom cutter visit ledger seen text read)
    (h' : ReadFrom cutter visit ledger seen' text' read')
    (hname : seen.file.name = seen'.file.name) :
    seen = seen' ∧ read.sections = read'.sections := by
  have hseen := hshows.once h.found h'.found hname
  constructor
  · exact hseen
  · obtain ⟨said, hreads⟩ : exists said, reads cutter visit.request ledger = _ := reads_eq
    obtain ⟨cut, hcut, rfl⟩ := List.mem_map.mp (hreads ▸ h.among)
    obtain ⟨cut', hcut', rfl⟩ := List.mem_map.mp (hreads ▸ h'.among)
    have hfile : cut.file = cut'.file :=
      (h.ofFile.trans (congrArg Seen.file hseen)).trans h'.ofFile.symm
    have hsections : cut.sections = cut'.sections := by
      rw [sections_of_cut hshows hcut h.found h.text h.ofFile,
        sections_of_cut hshows hcut' h.found h.text (hfile.symm.trans h.ofFile)]
    unfold namedRead wanted
    rw [hfile, hsections]

theorem ReadFrom.inFiles (hshows : Shows root files visit) {seen : Seen} {text : String}
    {read : Read} (h : ReadFrom cutter visit ledger seen text read) :
    seen.file.name ∈ files := by
  obtain ⟨stat, said, hdisk, _⟩ := hshows.found h.found
  exact (hshows.placed hdisk).2

theorem ReadFrom.inCuts {seen : Seen} {text : String} {read : Read}
    (h : ReadFrom cutter visit ledger seen text read) :
    seen.file.name ∈ cutNames cutter visit.request ledger := by
  obtain ⟨said, hreads⟩ : exists said, reads cutter visit.request ledger = _ := reads_eq
  obtain ⟨cut, hcut, hcutRead⟩ := List.mem_map.mp (hreads ▸ h.among)
  apply List.mem_map.mpr
  exists cut
  constructor
  · exact hcut
  · rw [← h.ofFile, ← hcutRead]
    rfl

theorem mem_playing (hours : Ours cutter root files ledger) {name : String}
    {current : Current} (hcurrent : ledger.current name = some current)
    (hlow : exists low, low ∈ lows cutter visit.request ledger ∧ inRange low name = true)
    (hplay : (exists file, file ∈ filesOf name ∧ file ∈ cutNames cutter visit.request ledger) ∨
      exists tree, tree ∈ visit.request.trees ∧ under name tree.name = true) :
    exists topic, topic ∈ playing cutter visit.request ledger ∧ topic.name = name ∧
      topic.root = some root ∧ topic.current = current.state := by
  obtain ⟨source, hsource, hroot⟩ := Option.bind_eq_some_iff.mp (hours.filed hcurrent)
  exists { name := name, current := current.state, root := some root }
  constructor
  · apply mem_inPlay.mpr
    constructor
    · apply Ledger.mem_fileTopicsUnder.mpr
      exact ⟨hlow, source, current, hsource, hcurrent, rfl, hroot.symm⟩
    · exact hplay
  · exact ⟨rfl, rfl, rfl⟩

theorem playing_of_cut (hours : Ours cutter root files ledger) {file name : String}
    {current : Current} (hcurrent : ledger.current name = some current)
    (hfile : file ∈ cutNames cutter visit.request ledger) (hamong : file ∈ filesOf name) :
    exists topic, topic ∈ playing cutter visit.request ledger ∧ topic.name = name ∧
      topic.root = some root ∧ topic.current = current.state := by
  apply mem_playing hours hcurrent
  · exists file
    constructor
    · exact List.mem_append_left _ hfile
    · exact inRange_of_belongs (List.mem_filter.mp hamong).2
  · exact Or.inl ⟨file, hamong, hfile⟩

theorem rooted_apart (hback : ReadBack cutter files) (hshows : Shows root files visit)
    {entry other : Rooted} (hentry : entry ∈ rooted (reads cutter visit.request ledger))
    (hother : other ∈ rooted (reads cutter visit.request ledger))
    (hname : entry.1.name = other.1.name) : entry = other := by
  obtain ⟨seen, text, read, hfrom⟩ := cutFrom hentry
  obtain ⟨seen', text', read', hfrom'⟩ := cutFrom hother
  have hfile : seen.file.name = seen'.file.name :=
    hback.alone (hfrom'.inFiles hshows) (hfrom'.names hfrom'.inSections)
      (hfrom.inFiles hshows)
      (hname ▸ hback.belongs (hfrom.inFiles hshows) (hfrom.names hfrom.inSections))
  obtain ⟨hseen, hsections⟩ :=
    sections_of_read hshows hfrom.toReadFrom hfrom'.toReadFrom hfile
  have hsame : entry.1 = other.1 :=
    List.inj_on_of_nodup_map hfrom.cut.apart hfrom.inSections
      (hsections ▸ hfrom'.inSections) hname
  exact Prod.ext hsame ((hfrom.fromRoot.trans (by rw [hseen])).trans hfrom'.fromRoot.symm)

theorem says_of_playing {topic : FileTopic}
    (h : topic ∈ playing cutter visit.request ledger) :
    exists current, ledger.current topic.name = some current ∧
      topic.current = current.state := by
  obtain ⟨_, _, current, _, hcurrent, hstate, _⟩ :=
    Ledger.mem_fileTopicsUnder.mp (mem_inPlay.mp h).1
  exact ⟨current, hcurrent, hstate⟩

theorem says_of_leftBehind {behind : Gone}
    (h : behind ∈ leftBehind cutter visit.request ledger) :
    exists current, ledger.current behind.name = some current ∧
      behind.current = current.state := by
  obtain ⟨topic, _, htopic, _, _, _, _, hname, hstate⟩ := mem_gone.mp h
  rw [hname, hstate]
  exact says_of_playing htopic

theorem unchanged_of_leftBehind (hours : Ours cutter root files ledger) {behind : Gone}
    (h : behind ∈ leftBehind cutter visit.request ledger) {name : String}
    (hname : behind.name = name) :
    anyOf ((sights cutter visit.request ledger).looked visit.request).unchanged root name =
      false := by
  obtain ⟨topic, topicRoot, htopic, htopicRoot, _, hunchanged, _, hbehind, _⟩ := mem_gone.mp h
  obtain ⟨_, source, current, hsource, hcurrent, _, hroot⟩ :=
    Ledger.mem_fileTopicsUnder.mp (mem_inPlay.mp htopic).1
  have hfiled : source.root = some root := by
    have hrootOf := (ours_begun hours).filed hcurrent
    rwa [Ledger.rootOf, hsource] at hrootOf
  rw [hroot, hfiled, Option.some.injEq] at htopicRoot
  rw [htopicRoot, ← hname, hbehind]
  exact hunchanged

theorem leftBehind_apart {behind : Gone} {entry : Rooted}
    (h : behind ∈ leftBehind cutter visit.request ledger)
    (hentry : entry ∈ rooted (reads cutter visit.request ledger)) :
    behind.name ≠ entry.1.name := by
  obtain ⟨topic, _, _, _, hnot, _, _, hname, _⟩ := mem_gone.mp h
  intro hsame
  apply hnot
  rw [← hname, hsame]
  exact List.mem_map.mpr ⟨entry.1, List.mem_map.mpr ⟨entry, hentry, rfl⟩, rfl⟩

theorem given_begun (hback : ReadBack cutter files) (hshows : Shows root files visit)
    (hours : Ours cutter root files ledger) (hworthy : Worthy cutter ledger visit.request) :
    Given cutter root files (begun cutter visit.request ledger)
      (rooted (reads cutter visit.request ledger)) (playing cutter visit.request ledger)
      (leftBehind cutter visit.request ledger) := by
  constructor
  · exact ours_begun hours
  · intro entry hentry
    obtain ⟨seen, text, read, hfrom⟩ := cutFrom hentry
    obtain ⟨stat, said, hdisk, _⟩ := hshows.found hfrom.found
    exact hfrom.fromRoot.trans (hshows.placed hdisk).1
  · intro entry hentry
    obtain ⟨seen, text, read, hfrom⟩ := cutFrom hentry
    exact ⟨seen.file.name, hfrom.inFiles hshows, hfrom.names hfrom.inSections⟩
  · exact fun hentry hother => rooted_apart hback hshows hentry hother
  · intro entry current hentry hcurrent
    obtain ⟨seen, text, read, hfrom⟩ := cutFrom hentry
    obtain ⟨topic, htopic, hname, _⟩ := playing_of_cut hours hcurrent hfrom.inCuts
      (hback.among (hfrom.inFiles hshows) (hfrom.names hfrom.inSections))
    exact ⟨topic, htopic, hname⟩
  · exact says_of_playing
  · exact says_of_leftBehind
  · exact leftBehind_apart
  · exact fun hmove => hworthy _ hmove

theorem mem_leftBehind {name : String} {topic : FileTopic}
    (htopic : topic ∈ playing cutter visit.request ledger) (hname : topic.name = name)
    (hroot : topic.root = some root)
    (hnot : forall entry, entry ∈ rooted (reads cutter visit.request ledger) ->
      entry.1.name ≠ name)
    (hunchanged : anyOf ((sights cutter visit.request ledger).looked visit.request).unchanged
      root name = false)
    (hretirable : retirable ((sights cutter visit.request ledger).looked visit.request)
      root name = some true) :
    exists behind, behind ∈ leftBehind cutter visit.request ledger ∧ behind.name = name ∧
      behind.retirable = true := by
  exists { name := name, current := topic.current, retirable := true }
  constructor
  · apply mem_gone.mpr
    subst hname
    exists topic, root
    constructor
    · exact htopic
    constructor
    · exact hroot
    constructor
    · intro hcut
      obtain ⟨named, hnamed, hsame⟩ := List.mem_map.mp hcut
      obtain ⟨entry, hentry, rfl⟩ := List.mem_map.mp hnamed
      exact hnot entry hentry hsame
    · exact ⟨hunchanged, hretirable, rfl, rfl⟩
  · exact ⟨rfl, rfl⟩

/-!
## What it leaves of the files read
-/

/-- The ledger an ingest of a visit leaves once it has recorded. -/
abbrev RecordedBy (cutter : Cutter) (root : String) (files : Set String) (ledger : Ledger)
    (visit : Visit) (s : Ledger) : Prop :=
  Recorded cutter root files (begun cutter visit.request ledger)
    (rooted (reads cutter visit.request ledger)) (leftBehind cutter visit.request ledger) s

theorem kept_or_none {sections : List Rooted} {gone : List Gone} {s : Ledger}
    (h : During cutter root files ledger sections gone s) {name : String}
    (hnot : forall entry, entry ∈ sections -> entry.1.name ≠ name) :
    s.current name = ledger.current name ∨ s.current name = none := by
  by_cases hgone : exists behind, behind ∈ gone ∧ behind.retirable = true ∧ behind.name = name
  · obtain ⟨behind, hbehind, hretirable, rfl⟩ := hgone
    exact h.goneOr hbehind hretirable
  · apply Or.inl
    apply h.others hnot
    exact fun behind hbehind hretirable hname => hgone ⟨behind, hbehind, hretirable, hname⟩

theorem placed_of_cut (hshows : Shows root files visit) {cut : Cut}
    (h : cut ∈ cuts cutter visit.request ledger) :
    cut.file.root = root ∧ cut.file.name ∈ files := by
  cases cutOf_cuts h with
  | read seen stat text hseen htext hfile hrecord hsections =>
      obtain ⟨_, _, hdisk, _⟩ := hshows.found hseen
      exact hfile ▸ hshows.placed hdisk
  | deleted hdeleted hrecord hsections =>
      have hgone := hshows.deleted hdeleted
      exact ⟨hgone.1, hgone.2.1⟩

theorem placed_of_unchanged (hshows : Shows root files visit) {entry : File × Nat}
    (h : entry ∈ (sights cutter visit.request ledger).unchanged) :
    entry.1.root = root ∧ entry.1.name ∈ files ∧
      exists text, (entry.1, text) ∈ visit.disk := by
  obtain ⟨seen, record, hseen, hfile, _⟩ := mem_unchanged h
  obtain ⟨_, text, hdisk, _⟩ := hshows.found hseen
  rw [← hfile] at hdisk
  exact ⟨(hshows.placed hdisk).1, (hshows.placed hdisk).2, text, hdisk⟩

theorem cut_ne_unchanged (hshows : Shows root files visit) {cut : Cut}
    (hcut : cut ∈ cuts cutter visit.request ledger) {entry : File × Nat}
    (hentry : entry ∈ (sights cutter visit.request ledger).unchanged) :
    cut.file.name ≠ entry.1.name := by
  cases List.mem_append.mp hcut with
  | inl hread =>
      exact read_ne_unchanged (fun _ _ hseen hother => hshows.once hseen hother) hread hentry
  | inr hdeleted =>
      obtain ⟨file, hfile, rfl⟩ := List.mem_map.mp hdeleted
      obtain ⟨_, _, text, hdisk⟩ := placed_of_unchanged hshows hentry
      exact fun hname => (hshows.deleted hfile).2.2 hdisk hname.symm

theorem anyOf_unchanged (hback : ReadBack cutter files) (hshows : Shows root files visit)
    {file name : String} (hfile : file ∈ files) (hnames : cutter.Names file name)
    (hnot : forall entry, entry ∈ (sights cutter visit.request ledger).unchanged ->
      file ≠ entry.1.name) :
    anyOf ((sights cutter visit.request ledger).looked visit.request).unchanged root name =
      false := by
  rw [Bool.eq_false_iff]
  intro hany
  obtain ⟨other, hother, _, hamong⟩ := anyOf_eq_true.mp hany
  obtain ⟨entry, hentry, rfl⟩ := List.mem_map.mp hother
  have hplaced := placed_of_unchanged hshows hentry
  exact hnot entry hentry (hback.file_eq hfile hnames hplaced.2.1 hamong).symm

theorem file_of_current (hback : ReadBack cutter files) (hours : Ours cutter root files ledger)
    {name file : String} {current : Current} (hcurrent : ledger.current name = some current)
    (hfile : file ∈ files) (hbelongs : belongs name file = true) : cutter.Names file name := by
  obtain ⟨other, hother, hnames⟩ := hours.named hcurrent
  rw [hback.alone hother hnames hfile hbelongs]
  exact hnames

theorem none_of_cut (hback : ReadBack cutter files) (hshows : Shows root files visit)
    (hours : Ours cutter root files ledger) {s : Ledger}
    (hs : RecordedBy cutter root files ledger visit s) {cut : Cut}
    (hcut : cut ∈ cuts cutter visit.request ledger) {name : String}
    (hbelongs : belongs name cut.file.name = true)
    (hnot : forall entry, entry ∈ rooted (reads cutter visit.request ledger) ->
      entry.1.name ≠ name) : s.current name = none := by
  obtain ⟨hroot, hfile⟩ := placed_of_cut hshows hcut
  cases kept_or_none hs.toDuring hnot with
  | inr hnone => exact hnone
  | inl hkept =>
      cases hbefore : ledger.current name with
      | none => exact hkept.trans hbefore
      | some current =>
          have hnames := file_of_current hback hours hbefore hfile hbelongs
          have hamong := hback.among hfile hnames
          obtain ⟨topic, htopic, hname, htopicRoot, _⟩ := playing_of_cut hours hbefore
            (List.mem_map.mpr ⟨cut, hcut, rfl⟩) hamong
          have hread : retirable
              ((sights cutter visit.request ledger).looked visit.request) root name =
                some true := by
            apply retirable_of_read
            apply anyOf_eq_true.mpr
            exact ⟨cut.file, List.mem_map.mpr ⟨cut, hcut, rfl⟩, hroot, hamong⟩
          obtain ⟨behind, hbehind, hbehindName, hretirable⟩ :=
            mem_leftBehind htopic hname htopicRoot hnot
              (anyOf_unchanged hback hshows hfile hnames
                fun entry hentry => cut_ne_unchanged hshows hcut hentry) hread
          rw [← hbehindName]
          exact hs.retired hbehind hretirable

theorem holds_of_recorded (hback : ReadBack cutter files) (hshows : Shows root files visit)
    (hours : Ours cutter root files ledger) {s : Ledger}
    (hs : RecordedBy cutter root files ledger visit s) {seen : Seen} {text : String}
    {read : Read} (hread : ReadFrom cutter visit ledger seen text read) :
    Holds cutter s visit.request.build seen.file.name text read.sections := by
  have hfile := hread.inFiles hshows
  constructor
  · exact hread.cut
  · exact fun hnamed => hback.belongs hfile (hread.names hnamed)
  · intro named hnamed hworthy
    have hentry : (named, read.file.root) ∈ rooted (reads cutter visit.request ledger) :=
      List.mem_flatMap.mpr ⟨read, hread.among, List.mem_map.mpr ⟨named, hnamed, rfl⟩⟩
    exact hs.said hentry hworthy
  · intro name current hbelongs hcurrent
    by_cases hcut : exists entry, entry ∈ rooted (reads cutter visit.request ledger) ∧
        entry.1.name = name
    · obtain ⟨entry, hentry, rfl⟩ := hcut
      obtain ⟨other, said, read', hfrom⟩ := cutFrom hentry
      have hsame : seen.file.name = other.file.name :=
        hback.alone (hfrom.inFiles hshows) (hfrom.names hfrom.inSections) hfile hbelongs
      obtain ⟨_, hsections⟩ := sections_of_read hshows hread hfrom.toReadFrom hsame
      exists entry.1
      constructor
      · exact hsections ▸ hfrom.inSections
      constructor
      · rfl
      · intro hworthless
        rw [hs.held hentry hworthless] at hcurrent
        cases hcurrent
    · obtain ⟨cut, hcutMem, hcutName⟩ := List.mem_map.mp hread.inCuts
      have hnone := none_of_cut hback hshows hours hs hcutMem (hcutName ▸ hbelongs)
        fun entry hentry hname => hcut ⟨entry, hentry, hname⟩
      rw [hnone] at hcurrent
      cases hcurrent

/-!
## What it leaves of the records
-/

structure Finished (cutter : Cutter) (root : String) (files : Set String) (ledger : Ledger)
    (visit : Visit) (s : Ledger) : Prop
    extends Standing cutter root files ledger s where
  recorded : exists t, RecordedBy cutter root files ledger visit t ∧
    forall name, s.current name = t.current name

theorem Holds.congr {s t : Ledger} {build file text : String} {sections : List Section}
    (h : Holds cutter s build file text sections)
    (hcurrent : forall name, belongs name file = true -> t.current name = s.current name) :
    Holds cutter t build file text sections where
  numbered := h.numbered
  ofFile := h.ofFile
  said := by
    intro named hnamed hworthy
    rw [hcurrent _ (h.ofFile hnamed)]
    exact h.said hnamed hworthy
  only := by
    intro name current hbelongs hstated
    rw [hcurrent name hbelongs] at hstated
    exact h.only hbelongs hstated

theorem FileRecord.Like.trans {first second third : FileRecord} (h : first.Like second)
    (h' : second.Like third) : first.Like third :=
  ⟨h.1.trans h'.1, h.2.1.trans h'.2.1, h.2.2.trans h'.2.2⟩

theorem standing_during {sections : List Rooted} {gone : List Gone} {s : Ledger}
    (h : During cutter root files (begun cutter visit.request ledger) sections gone s) :
    Standing cutter root files ledger s where
  ours := h.ours
  records := by
    intro record hrecord
    rw [h.records] at hrecord
    exact Or.inl ⟨record, (List.mem_filter.mp hrecord).1, rfl, rfl, rfl⟩

theorem finished_records {s : Ledger} (h : Finished cutter root files ledger visit s)
    {records : Records} (hrecords : forall {record}, record ∈ records -> record ∈ s.records ∨
      (exists earlier, earlier ∈ ledger.records ∧ earlier.Like record) ∨
        Says cutter s record) :
    Finished cutter root files ledger visit { s with records := records } where
  ours := ours_congr h.ours rfl rfl
  records := by
    intro record hrecord
    have hkept : (exists earlier, earlier ∈ ledger.records ∧ earlier.Like record) ∨
        Says cutter s record := by
      cases hrecords hrecord with
      | inl hthere => exact h.records hthere
      | inr hput => exact hput
    cases hkept with
    | inl hlike => exact Or.inl hlike
    | inr hstated =>
        obtain ⟨text, sections, hhash, hholds⟩ := hstated
        exact Or.inr ⟨text, sections, hhash, hholds.congr fun _ _ => rfl⟩
  recorded := h.recorded

theorem says_of_stillAsRead (hback : ReadBack cutter files) (hshows : Shows root files visit)
    (hours : Ours cutter root files ledger) {s : Ledger}
    (hs : Finished cutter root files ledger visit s) {settled : List Read}
    (hsettled : forall read, read ∈ settled -> read ∈ reads cutter visit.request ledger)
    {record : FileRecord} (h : record ∈ stillAsRead visit.request.later settled) :
    Says cutter s record := by
  obtain ⟨read, hread, hrecord⟩ := List.mem_filterMap.mp h
  obtain ⟨t, ht, hcurrent⟩ := hs.recorded
  cases readFrom (hsettled read hread) with
  | inr hdeleted =>
      rw [hdeleted.2.1] at hrecord
      cases hrecord
  | inl hfrom =>
      obtain ⟨seen, text, hfrom⟩ := hfrom
      obtain ⟨stat, hstat⟩ := hfrom.recorded
      rw [hstat] at hrecord
      cases hnow : visit.request.later read.file.path with
      | none => simp [hnow] at hrecord
      | some now =>
          simp only [hnow] at hrecord
          split at hrecord
          next =>
            cases hrecord
            exact ⟨text, read.sections, rfl,
              (holds_of_recorded hback hshows hours ht hfrom).congr fun name _ =>
                hcurrent name⟩
          next => cases hrecord

theorem finish_ensures (hback : ReadBack cutter files) (hshows : Shows root files visit)
    (hours : Ours cutter root files ledger) (outcome : Outcome) :
    (finish visit.request (sights cutter visit.request ledger)
        (leaving cutter visit.request ledger) (reads cutter visit.request ledger)
        outcome).Ensures (alone (Standing cutter root files ledger))
      (Finished cutter root files ledger visit)
      fun _ => Finished cutter root files ledger visit := by
  have hstands : forall s, Finished cutter root files ledger visit s ->
      Standing cutter root files ledger s := fun s hs => hs.toStanding
  have hforget : forall keys : List (String × String),
      (make (Call.forgetFileRecords keys) : Calls Unit).Ensures
        (alone (Standing cutter root files ledger)) (Finished cutter root files ledger visit)
        fun _ => Finished cutter root files ledger visit := by
    intro keys
    apply alone_make hstands
    · intro s hs
      exact finished_records hs fun hrecord => Or.inl (List.mem_filter.mp hrecord).1
    · exact fun _ => hstands
  have hput : forall settled : List Read,
      (forall read, read ∈ settled -> read ∈ reads cutter visit.request ledger) ->
      (make (Call.putFileRecords (stillAsRead visit.request.later settled ++
        (sights cutter visit.request ledger).refreshed)) : Calls Unit).Ensures
        (alone (Standing cutter root files ledger)) (Finished cutter root files ledger visit)
        fun _ => Finished cutter root files ledger visit := by
    intro settled hsettled
    apply alone_make hstands
    · intro s hs
      apply finished_records hs
      intro record hrecord
      cases List.mem_append.mp hrecord with
      | inl hkept => exact Or.inl (List.mem_filter.mp hkept).1
      | inr hnew =>
          apply Or.inr
          obtain ⟨new, hmem, rfl⟩ := List.mem_map.mp hnew
          cases List.mem_append.mp hmem with
          | inl hread =>
              have hstated := says_of_stillAsRead hback hshows hours hs hsettled hread
              exact Or.inr hstated
          | inr hrefreshed =>
              obtain ⟨earlier, hearlier, hlike⟩ := like_of_refreshed hrefreshed
              exact Or.inl ⟨earlier, mem_of hearlier, hlike⟩
    · exact fun _ => hstands
  have hagain : forall settled since,
      (make (Call.forgetFileRecordsWrittenSince settled since) : Calls Unit).Ensures
        (alone (Standing cutter root files ledger)) (Finished cutter root files ledger visit)
        fun _ => Finished cutter root files ledger visit := by
    intro settled since
    apply alone_make hstands
    · intro s hs
      exact finished_records hs fun hrecord => Or.inl (List.mem_filter.mp hrecord).1
    · exact fun _ => hstands
  apply ensures_bind (hforget _)
  intro _
  apply ensures_bind (hput _ fun read hread => (List.mem_filter.mp hread).1)
  intro _
  exact hagain _ _

theorem ingest_finishes (hback : ReadBack cutter files) (hshows : Shows root files visit)
    (hours : Ours cutter root files ledger) (hworthy : Worthy cutter ledger visit.request) :
    (ingest cutter visit.request).Ensures (alone (Standing cutter root files ledger))
      (fun s => s = ledger) fun _ => Finished cutter root files ledger visit := by
  have hgiven := given_begun hback hshows hours hworthy
  have hdies : forall s, During cutter root files (begun cutter visit.request ledger)
      (rooted (reads cutter visit.request ledger)) (leftBehind cutter visit.request ledger) s ->
        Standing cutter root files ledger s := fun s hs => standing_during hs
  apply ingest_ensures
  · exact ⟨hours, fun hrecord => Or.inl ⟨_, hrecord, rfl, rfl, rfl⟩⟩
  · exact hdies _ (during_begun hgiven)
  · apply ensures_mono (recordAny_ensures hgiven hdies) (fun _ h => h)
    intro outcome s hs
    exact (⟨hdies s hs.toDuring, s, hs, fun _ => rfl⟩ :
      Finished cutter root files ledger visit s)
  · exact finish_ensures hback hshows hours
  · exact fun s hs => hs.toStanding

theorem standing_visited (hback : ReadBack cutter files) (hshows : Shows root files visit)
    (hours : Ours cutter root files ledger) (hworthy : Worthy cutter ledger visit.request) :
    Standing cutter root files ledger (visited cutter ledger visit) := by
  have hensures := ingest_finishes hback hshows hours hworthy ledger rfl
  unfold visited
  cases visit.calls with
  | none => exact (run_after (fun _ _ => True.intro) hensures).toStanding
  | some calls => exact diesAfter_dies (fun _ _ => True.intro) calls hensures

theorem current_of_unchanged {before after : Ledger} {file name : String}
    (h : changed before after file = false) (hbelongs : belongs name file = true) :
    after.current name = before.current name := by
  by_cases hmem : name ∈ before.topics.keys ++ after.topics.keys
  · have hname := List.any_eq_false.mp h name hmem
    rw [hbelongs, Bool.true_and, decide_eq_true_eq, ne_eq, not_not] at hname
    exact hname.symm
  · rw [List.mem_append, ← AList.mem_keys, ← AList.mem_keys, not_or] at hmem
    unfold Ledger.current
    rw [AList.lookup_eq_none.mpr hmem.1, AList.lookup_eq_none.mpr hmem.2]

theorem kept_visit (hback : ReadBack cutter files) {watched after : Watched}
    (hshows : Shows root files visit) (hworthy : Worthy cutter watched.ledger visit.request)
    (h : Kept cutter root files watched)
    (hvisit : Ingest.visit cutter watched visit = some after) :
    Kept cutter root files after := by
  have hstanding := standing_visited hback hshows h.ours hworthy
  cases hvisit
  constructor
  · exact hstanding.ours
  · intro record hrecord hnot
    cases hstanding.records hrecord with
    | inr hstated => exact hstated
    | inl hlike =>
        obtain ⟨earlier, hearlier, hlike⟩ := hlike
        have hsame : earlier.file = record.file := congrArg Prod.snd hlike.1
        have hstands : ¬(record.file ∈ watched.outlived ∨
            changed watched.ledger (visited cutter watched.ledger visit) record.file = true) := by
          intro houtlived
          apply hnot
          apply List.mem_map.mpr
          exists record
          constructor
          · apply List.mem_filter.mpr
            constructor
            · exact hrecord
            · rw [Bool.and_eq_true, List.any_eq_true, Bool.or_eq_true, decide_eq_true_eq]
              exact ⟨⟨earlier, hearlier, by simpa using hlike⟩, houtlived⟩
          · rfl
        rw [not_or, Bool.not_eq_true] at hstands
        obtain ⟨text, sections, hhash, hholds⟩ := h.stands hearlier (hsame ▸ hstands.1)
        rw [hlike.2.1, hlike.2.2, hsame] at *
        exact ⟨text, sections, hhash, hholds.congr fun name hbelongs =>
          current_of_unchanged hstands.2 hbelongs⟩

end Recording

end Ingest
end PaminMemory
