import Mathlib.Algebra.GroupWithZero.Nat
import PaminMemory.Ingest.Ledger
import PaminMemory.Ingest.Sections

/-!
# Looking at files

What each file found came to against its record, and which of the sections recorded earlier
the files no longer have.
-/

namespace PaminMemory
namespace Ingest

structure Seen where
  file : File
  stat : Except String Stat
  text : Except String String

inductive Sight where
  /-- Found and not read. -/
  | unread (why : String)
  | trusted (sections : Nat)
  /-- Read, and found to say what its record does: the record with the new stat. -/
  | same (record : FileRecord)
  | cut (unrecorded : Bool) (record : FileRecord) (sections : List Unnamed)

/-- What a file read came to: what its record says, or its sections. -/
def sightOf (cutter : Cutter) (build : String) (record : Option FileRecord) (file : File)
    (stat : Stat) (text : String) : Sight :=
  let fresh := stat.recorded file (cutter.contentHash text) build
  match record.filter fun record =>
      record.contentHash = fresh.contentHash && record.build = build with
  | some record => Sight.same { fresh with sections := record.sections }
  | none => Sight.cut record.isNone fresh (cutter.unnamed build file.name text)

def sight (cutter : Cutter) (build : String) (record : Option FileRecord) (seen : Seen) :
    Sight :=
  match seen.stat with
  | Except.error why => Sight.unread why
  | Except.ok stat =>
      if record.any fun record => trusted build record stat then
        Sight.trusted ((record.map FileRecord.sections).getD 0)
      else
        match seen.text with
        | Except.error why => Sight.unread why
        | Except.ok text => sightOf cutter build record seen.file stat text

/-- A file read, with what its record will say and its sections; or one known to be gone. -/
structure Cut where
  file : File
  record : Option FileRecord
  sections : List Unnamed

structure Looking where
  read : List Cut
  unchanged : List (File × Nat)
  refreshed : List FileRecord
  unread : List File
  unrecorded : List File
  skipped : List String

def recordOf (records : Records) (file : File) : Option FileRecord :=
  records.find? fun record => record.key = file.key

def look (cutter : Cutter) (build : String) (records : Records) (found : List Seen) :
    Looking :=
  let sights := found.map fun seen =>
    (seen.file, sight cutter build (recordOf records seen.file) seen)
  { read := sights.filterMap fun
      | (file, Sight.cut _ record sections) =>
          some { file := file, record := some record, sections := sections }
      | _ => none
    unchanged := sights.filterMap fun
      | (file, Sight.trusted sections) => some (file, sections)
      | (file, Sight.same record) => some (file, record.sections)
      | _ => none
    refreshed := sights.filterMap fun
      | (_, Sight.same record) => some record
      | _ => none
    unread := sights.filterMap fun
      | (file, Sight.unread _) => some file
      | _ => none
    unrecorded := sights.filterMap fun
      | (file, Sight.cut true _ _) => some file
      | _ => none
    skipped := sights.filterMap fun
      | (file, Sight.unread why) => some (file.path ++ ": " ++ why)
      | _ => none }

theorem mem_of {records : Records} {keys : List (String × String)} {record : FileRecord}
    (h : record ∈ records.of keys) : record ∈ records := by
  obtain ⟨key, _, hmem⟩ := List.mem_flatMap.mp h
  exact (List.mem_filter.mp hmem).1

theorem recordOf_some {records : Records} {file : File} {record : FileRecord}
    (h : recordOf records file = some record) :
    record ∈ records ∧ record.key = file.key :=
  ⟨List.mem_of_find?_eq_some h, by simpa using List.find?_some h⟩

inductive Sees (cutter : Cutter) (build : String) (record : Option FileRecord) (seen : Seen) :
    Sight -> Prop where
  | unread {why : String}
      (hwhy : seen.stat = Except.error why ∨ seen.text = Except.error why) :
      Sees cutter build record seen (Sight.unread why)
  | trusted {found : FileRecord} {stat : Stat} (hrecord : record = some found)
      (hstat : seen.stat = Except.ok stat) (htrusted : trusted build found stat = true) :
      Sees cutter build record seen (Sight.trusted found.sections)
  | same {found : FileRecord} {stat : Stat} {text : String} (hrecord : record = some found)
      (htext : seen.text = Except.ok text)
      (hhash : found.contentHash = cutter.contentHash text) (hbuild : found.build = build) :
      Sees cutter build record seen
        (Sight.same { stat.recorded seen.file (cutter.contentHash text) build with
          sections := found.sections })
  | cut {stat : Stat} {text : String} (htext : seen.text = Except.ok text) :
      Sees cutter build record seen
        (Sight.cut record.isNone (stat.recorded seen.file (cutter.contentHash text) build)
          (cutter.unnamed build seen.file.name text))

theorem sees_sightOf {cutter : Cutter} {build : String} {record : Option FileRecord}
    {seen : Seen} (stat : Stat) {text : String} (htext : seen.text = Except.ok text) :
    Sees cutter build record seen (sightOf cutter build record seen.file stat text) := by
  unfold sightOf
  dsimp only
  split
  next found hfilter =>
    obtain ⟨hrecord, hsame⟩ := Option.filter_eq_some_iff.mp hfilter
    rw [Bool.and_eq_true, decide_eq_true_eq, decide_eq_true_eq] at hsame
    exact Sees.same hrecord htext hsame.1 hsame.2
  next => exact Sees.cut htext

theorem sees_sight (cutter : Cutter) (build : String) (record : Option FileRecord)
    (seen : Seen) : Sees cutter build record seen (sight cutter build record seen) := by
  unfold sight
  cases hstat : seen.stat with
  | error why => exact Sees.unread (Or.inl hstat)
  | ok stat =>
      by_cases htrusted : (record.any fun record => trusted build record stat) = true
      · cases record with
        | none => cases htrusted
        | some found =>
            rw [Option.any_some] at htrusted
            simp only [Option.any_some, htrusted, if_true]
            exact Sees.trusted rfl hstat htrusted
      · simp only [htrusted, Bool.false_eq_true, if_false]
        cases htext : seen.text with
        | error why => exact Sees.unread (Or.inr htext)
        | ok text => exact sees_sightOf stat htext

section Looks

variable {cutter : Cutter} {build : String} {records : Records} {found : List Seen}

theorem mem_read {cut : Cut} (h : cut ∈ (look cutter build records found).read) :
    exists (seen : Seen) (stat : Stat) (text : String),
      seen ∈ found ∧ seen.text = Except.ok text ∧ cut.file = seen.file ∧
      cut.record = some (stat.recorded seen.file (cutter.contentHash text) build) ∧
        cut.sections = cutter.unnamed build seen.file.name text := by
  obtain ⟨entry, hentry, hcut⟩ := List.mem_filterMap.mp h
  obtain ⟨seen, hseen, rfl⟩ := List.mem_map.mp hentry
  have hsees := sees_sight cutter build (recordOf records seen.file) seen
  generalize sight cutter build (recordOf records seen.file) seen = came at hcut hsees
  cases hsees with
  | unread hwhy => cases hcut
  | trusted hrecord hstat htrusted => cases hcut
  | same hrecord htext hhash hbuild => cases hcut
  | cut htext =>
      cases hcut
      exact ⟨seen, _, _, hseen, htext, rfl, rfl, rfl⟩

theorem mem_unchanged {entry : File × Nat}
    (h : entry ∈ (look cutter build records found).unchanged) :
    exists seen record, seen ∈ found ∧ entry.1 = seen.file ∧ record ∈ records ∧
      record.key = seen.file.key ∧
        ((exists stat, seen.stat = Except.ok stat ∧ trusted build record stat = true) ∨
          exists text, seen.text = Except.ok text ∧
            record.contentHash = cutter.contentHash text ∧ record.build = build) := by
  obtain ⟨given, hgiven, hentry⟩ := List.mem_filterMap.mp h
  obtain ⟨seen, hseen, rfl⟩ := List.mem_map.mp hgiven
  have hsees := sees_sight cutter build (recordOf records seen.file) seen
  generalize sight cutter build (recordOf records seen.file) seen = came at hentry hsees
  cases hsees with
  | unread hwhy => cases hentry
  | trusted hrecord hstat htrusted =>
      cases hentry
      obtain ⟨hmem, hkey⟩ := recordOf_some hrecord
      exact ⟨seen, _, hseen, rfl, hmem, hkey, Or.inl ⟨_, hstat, htrusted⟩⟩
  | same hrecord htext hhash hbuild =>
      cases hentry
      obtain ⟨hmem, hkey⟩ := recordOf_some hrecord
      exact ⟨seen, _, hseen, rfl, hmem, hkey, Or.inr ⟨_, htext, hhash, hbuild⟩⟩
  | cut htext => cases hentry

theorem read_ne_unchanged
    (hapart : forall seen other, seen ∈ found -> other ∈ found ->
      seen.file.name = other.file.name -> seen = other) {cut : Cut}
    (hcut : cut ∈ (look cutter build records found).read) {entry : File × Nat}
    (hentry : entry ∈ (look cutter build records found).unchanged) :
    cut.file.name ≠ entry.1.name := by
  intro hname
  obtain ⟨read, hread, hcutIs⟩ := List.mem_filterMap.mp hcut
  obtain ⟨seen, hseen, rfl⟩ := List.mem_map.mp hread
  obtain ⟨kept, hkept, hentryIs⟩ := List.mem_filterMap.mp hentry
  obtain ⟨other, hother, rfl⟩ := List.mem_map.mp hkept
  cases hsight : sight cutter build (recordOf records seen.file) seen with
  | cut unrecorded fresh sections =>
      rw [hsight] at hcutIs
      cases hcutIs
      cases hlook : sight cutter build (recordOf records other.file) other with
      | cut _ _ _ =>
          rw [hlook] at hentryIs
          cases hentryIs
      | unread _ =>
          rw [hlook] at hentryIs
          cases hentryIs
      | trusted _ =>
          rw [hlook] at hentryIs
          cases hentryIs
          rw [hapart seen other hseen hother hname, hlook] at hsight
          cases hsight
      | same _ =>
          rw [hlook] at hentryIs
          cases hentryIs
          rw [hapart seen other hseen hother hname, hlook] at hsight
          cases hsight
  | unread _ =>
      rw [hsight] at hcutIs
      cases hcutIs
  | trusted _ =>
      rw [hsight] at hcutIs
      cases hcutIs
  | same _ =>
      rw [hsight] at hcutIs
      cases hcutIs

theorem like_of_refreshed {fresh : FileRecord}
    (h : fresh ∈ (look cutter build records found).refreshed) :
    exists record, record ∈ records ∧ record.Like fresh := by
  obtain ⟨given, hgiven, hfresh⟩ := List.mem_filterMap.mp h
  obtain ⟨seen, hseen, rfl⟩ := List.mem_map.mp hgiven
  have hsees := sees_sight cutter build (recordOf records seen.file) seen
  generalize sight cutter build (recordOf records seen.file) seen = came at hfresh hsees
  cases hsees with
  | unread hwhy => cases hfresh
  | trusted hrecord hstat htrusted => cases hfresh
  | same hrecord htext hhash hbuild =>
      cases hfresh
      obtain ⟨hmem, hkey⟩ := recordOf_some hrecord
      exact ⟨_, hmem, hkey, hhash, hbuild⟩
  | cut htext => cases hfresh

theorem unchanged_of_refreshed {fresh : FileRecord}
    (h : fresh ∈ (look cutter build records found).refreshed) :
    exists entry, entry ∈ (look cutter build records found).unchanged ∧
      fresh.key = entry.1.key := by
  rcases List.mem_filterMap.mp h with ⟨given, hgiven, hfresh⟩
  rcases List.mem_map.mp hgiven with ⟨seen, hseen, rfl⟩
  have hsees := sees_sight cutter build (recordOf records seen.file) seen
  cases hsight : sight cutter build (recordOf records seen.file) seen with
  | same record =>
      rw [hsight] at hfresh hgiven hsees
      cases hfresh
      refine ⟨_, List.mem_filterMap.mpr ⟨_, hgiven, rfl⟩, ?_⟩
      cases hsees
      rfl
  | unread why =>
      rw [hsight] at hfresh
      cases hfresh
  | trusted sections =>
      rw [hsight] at hfresh
      cases hfresh
  | cut unrecorded record sections =>
      rw [hsight] at hfresh
      cases hfresh

theorem mem_unread {file : File} (h : file ∈ (look cutter build records found).unread) :
    exists seen why, seen ∈ found ∧ file = seen.file ∧
      (seen.stat = Except.error why ∨ seen.text = Except.error why) := by
  obtain ⟨given, hgiven, hfile⟩ := List.mem_filterMap.mp h
  obtain ⟨seen, hseen, rfl⟩ := List.mem_map.mp hgiven
  have hsees := sees_sight cutter build (recordOf records seen.file) seen
  generalize sight cutter build (recordOf records seen.file) seen = came at hfile hsees
  cases hsees with
  | unread hwhy =>
      cases hfile
      exact ⟨seen, _, hseen, rfl, hwhy⟩
  | trusted hrecord hstat htrusted => cases hfile
  | same hrecord htext hhash hbuild => cases hfile
  | cut htext => cases hfile

theorem look_all {seen : Seen} (h : seen ∈ found) :
    (exists cut, cut ∈ (look cutter build records found).read ∧ cut.file = seen.file) ∨
      (exists entry, entry ∈ (look cutter build records found).unchanged ∧
        entry.1 = seen.file) ∨
        seen.file ∈ (look cutter build records found).unread := by
  have hmem : (seen.file, sight cutter build (recordOf records seen.file) seen) ∈
      found.map fun seen =>
        (seen.file, sight cutter build (recordOf records seen.file) seen) :=
    List.mem_map.mpr ⟨seen, h, rfl⟩
  cases hsight : sight cutter build (recordOf records seen.file) seen with
  | cut unrecorded fresh sections =>
      rw [hsight] at hmem
      exact Or.inl ⟨_, List.mem_filterMap.mpr ⟨_, hmem, rfl⟩, rfl⟩
  | trusted sections =>
      rw [hsight] at hmem
      exact Or.inr (Or.inl ⟨_, List.mem_filterMap.mpr ⟨_, hmem, rfl⟩, rfl⟩)
  | same fresh =>
      rw [hsight] at hmem
      exact Or.inr (Or.inl ⟨_, List.mem_filterMap.mpr ⟨_, hmem, rfl⟩, rfl⟩)
  | unread why =>
      rw [hsight] at hmem
      exact Or.inr (Or.inr (List.mem_filterMap.mpr ⟨_, hmem, rfl⟩))

end Looks

/-!
# Sections that are gone
-/

def inPlay (recorded : List FileTopic) (files : List String) (trees : List Tree) :
    List FileTopic :=
  recorded.filter fun topic =>
    ((filesOf topic.name).any fun file => file ∈ files) ||
      trees.any fun tree => under topic.name tree.name

structure Gone where
  name : String
  current : TopicStateId
  /-- Whether this ingest can say it is gone rather than out of its reach. -/
  retirable : Bool
deriving DecidableEq, Repr

structure Looked where
  read : List File
  unchanged : List File
  unread : List File
  trees : List Tree
  /-- Whether a path is there at all. -/
  there : String -> Bool

def anyOf (files : List File) (root name : String) : Bool :=
  (filesOf name).any fun file => (root, file) ∈ files.map File.key

/-- Whether a section not cut again can be retired; `none` when it is not to be listed. -/
def retirable (looked : Looked) (root name : String) : Option Bool :=
  if anyOf looked.read root name then
    some true
  else
    let file := fileOf name
    if (root, file) ∈ looked.unread.map File.key || !walkedKind file then
      none
    else
      match looked.trees.filter fun tree => tree.root = root && under file tree.name with
      | [] => none
      | trees => some (trees.any Tree.whole && !looked.there (onDisk root file))

/-- The recorded sections that are not among the cut ones and would have been cut again. -/
def gone (looked : Looked) (cut : List Section) (recorded : List FileTopic) : List Gone :=
  let found := recorded.filterMap fun topic =>
    if topic.name ∈ cut.map Section.name then
      none
    else
      match topic.root with
      | none => none
      | some root =>
          if anyOf looked.unchanged root topic.name then
            none
          else
            (retirable looked root topic.name).map fun retirable =>
              { name := topic.name, current := topic.current, retirable := retirable }
  found.insertionSort fun left right => left.name <= right.name

theorem mem_inPlay {recorded : List FileTopic} {files : List String} {trees : List Tree}
    {topic : FileTopic} :
    topic ∈ inPlay recorded files trees <-> topic ∈ recorded ∧
      ((exists file, file ∈ filesOf topic.name ∧ file ∈ files) ∨
        exists tree, tree ∈ trees ∧ under topic.name tree.name = true) := by
  simp [inPlay, List.any_eq_true]

theorem anyOf_eq_true {files : List File} {root name : String} :
    anyOf files root name = true <->
      exists file, file ∈ files ∧ file.root = root ∧ file.name ∈ filesOf name := by
  simp only [anyOf, List.any_eq_true, decide_eq_true_eq, List.mem_map, File.key]
  constructor
  · intro h
    obtain ⟨candidate, hcandidate, file, hfile, hkey⟩ := h
    cases hkey
    exact ⟨file, hfile, rfl, hcandidate⟩
  · intro h
    obtain ⟨file, hfile, hroot, hname⟩ := h
    exact ⟨file.name, hname, file, hfile, by rw [hroot]⟩

theorem mem_gone {looked : Looked} {cut : List Section} {recorded : List FileTopic}
    {behind : Gone} :
    behind ∈ gone looked cut recorded <-> exists topic root, topic ∈ recorded ∧
      topic.root = some root ∧ topic.name ∉ cut.map Section.name ∧
        anyOf looked.unchanged root topic.name = false ∧
          retirable looked root topic.name = some behind.retirable ∧
            behind.name = topic.name ∧ behind.current = topic.current := by
  unfold gone
  rw [List.mem_insertionSort, List.mem_filterMap]
  constructor
  · intro h
    obtain ⟨topic, htopic, hbehind⟩ := h
    by_cases hcut : topic.name ∈ cut.map Section.name
    · simp [hcut] at hbehind
    · cases hroot : topic.root with
      | none => simp [hcut, hroot] at hbehind
      | some root =>
          cases hunchanged : anyOf looked.unchanged root topic.name with
          | true => simp [hcut, hroot, hunchanged] at hbehind
          | false =>
              simp only [hcut, hroot, hunchanged, if_false, Bool.false_eq_true,
                Option.map_eq_some_iff] at hbehind
              obtain ⟨can, hcan, rfl⟩ := hbehind
              exact ⟨topic, root, htopic, hroot, hcut, hunchanged, hcan, rfl, rfl⟩
  · intro h
    obtain ⟨topic, root, htopic, hroot, hcut, hunchanged, hcan, hname, hcurrent⟩ := h
    exists topic
    constructor
    · exact htopic
    · simp only [hcut, hroot, hunchanged, hcan, if_false, Bool.false_eq_true, Option.map_some]
      cases behind
      cases hname
      cases hcurrent
      rfl

theorem retirable_of_read {looked : Looked} {root name : String}
    (h : anyOf looked.read root name = true) : retirable looked root name = some true := by
  unfold retirable
  rw [if_pos h]

theorem retirable_of_left {looked : Looked} {root name : String}
    (hunread : (root, fileOf name) ∉ looked.unread.map File.key)
    (hwalked : walkedKind (fileOf name) = true) {tree : Tree} (htree : tree ∈ looked.trees)
    (hroot : tree.root = root) (hunder : under (fileOf name) tree.name = true)
    (hwhole : tree.whole = true) (hthere : looked.there (onDisk root (fileOf name)) = false) :
    retirable looked root name = some true := by
  unfold retirable
  by_cases hread : anyOf looked.read root name = true
  · rw [if_pos hread]
  · have hmem : tree ∈ looked.trees.filter fun tree =>
        tree.root = root && under (fileOf name) tree.name :=
      List.mem_filter.mpr ⟨htree, by simp [hroot, hunder]⟩
    simp only [hread, Bool.false_eq_true, if_false, hunread, decide_false, hwalked, Bool.not_true,
      Bool.or_self]
    cases htrees : looked.trees.filter fun tree =>
        tree.root = root && under (fileOf name) tree.name with
    | nil =>
        rw [htrees] at hmem
        exact absurd hmem List.not_mem_nil
    | cons first rest =>
        rw [htrees] at hmem
        have hany : (first :: rest).any Tree.whole = true :=
          List.any_eq_true.mpr ⟨tree, hmem, hwhole⟩
        simp [hany, hthere]

end Ingest
end PaminMemory
