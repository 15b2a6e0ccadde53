import PaminMemory.Foundation.Runs
import PaminMemory.Ingest.Histories

/-!
# An ingest mirrors its tree

After a whole ingest of a tree the sections on the surface are those of its files, when each
file's record, where it has one, stands for what the surface says, and what has no file and no
record is still looked for.
-/

namespace PaminMemory
namespace Ingest

open Foundation Foundation.Program
open Topics (Current Restates Worthless)

section Mirroring

variable (cutter : Cutter) (root : String) (files : Set String)

def Telling (ledger : Ledger) (request : Request) : Prop :=
  forall seen record stat text, seen ∈ request.found -> record ∈ ledger.records ->
    record.key = seen.file.key -> seen.stat = Except.ok stat -> seen.text = Except.ok text ->
      trusted request.build record stat = true ->
        record.contentHash = cutter.contentHash text

/-- What a history is assumed to be. -/
structure Assumed (watched : Watched) (visit : Visit) : Prop where
  shows : Shows root files visit
  telling : Telling cutter watched.ledger visit.request

def WholeOf (tree : String) (visit : Visit) : Prop :=
  visit.calls = none ∧ { name := tree, root := root, whole := true } ∈ visit.request.trees ∧
    forall given, given ∈ visit.request.trees -> given.whole = true

/--
The sections on the surface recorded from the root under the tree are those the tree's files
cut to, less those the filter holds, each saying what its file says.
-/
def Mirrors (tree build : String) (disk : Disk) (ledger : Ledger) : Prop :=
  exists sections : String -> List Section,
    (forall file text, (file, text) ∈ disk -> under file.name tree = true ->
      Numbered (cutter.unnamed build file.name text) (sections file.name)) ∧
    (forall name, ((exists current, ledger.current name = some current) ∧
        ledger.rootOf name = some root ∧ under (fileOf name) tree = true) <->
      exists file text named, (file, text) ∈ disk ∧ under file.name tree = true ∧
        named ∈ sections file.name ∧ named.name = name ∧ ¬Worthless named.content) ∧
    forall file text named current, (file, text) ∈ disk -> under file.name tree = true ->
      named ∈ sections file.name -> ¬Worthless named.content ->
        ledger.current named.name = some current -> Restates current.content named.content

/-- A whole ingest of the tree leaves its mirror. -/
def MirroredAfter (tree : String) (watched : Watched) (visited : Visit) : Prop :=
  WholeOf root tree visited -> forall after, visit cutter watched visited = some after ->
    Mirrors cutter root tree visited.request.build visited.disk after.ledger

/-!
## When it does
-/

/-- A record that an ingest goes by instead of reading the file, or cutting it. -/
def StandsFor (build : String) (record : FileRecord) (seen : Seen) : Prop :=
  (exists stat, seen.stat = Except.ok stat ∧ trusted build record stat = true) ∨
    exists text, seen.text = Except.ok text ∧ record.contentHash = cutter.contentHash text ∧
      record.build = build

def Orphan (tree : String) (disk : Disk) (ledger : Ledger) (name : String) : Prop :=
  (exists current, ledger.current name = some current) ∧ under (fileOf name) tree = true ∧
    forall file text, (file, text) ∈ disk -> file.name ≠ fileOf name

def Uncounted (tree : Tree) (request : Request) (ledger : Ledger) : Prop :=
  (((begun cutter request ledger).records.startingWith tree.root tree.low).map
    FileRecord.sections).sum < ledger.countFileTopicsUnder tree.low

inductive Sought (tree : Tree) (request : Request) (ledger : Ledger) (name : String) :
    Prop where
  | deleted {file : File} (hfile : file ∈ request.deleted) (hname : file.name = fileOf name)
  | recorded {record : FileRecord} (hrecord : record ∈ ledger.records)
      (hkey : record.key = (tree.root, fileOf name))
  | unrecorded {file : File} (hfile : file ∈ (sights cutter request ledger).unrecorded)
      (hroot : file.root = tree.root) (hunder : under file.name tree.name = true)
  | uncounted (huncounted : Uncounted cutter tree request ledger)

/-- What a whole ingest needs to leave its mirror. -/
structure Clear (tree : Tree) (watched : Watched) (visit : Visit) : Prop where
  /-- No file is left unread, or uncut, for a record that outlived its sections. -/
  records : forall {seen record}, seen ∈ visit.request.found ->
    record ∈ watched.ledger.records -> record.key = seen.file.key ->
      StandsFor cutter visit.request.build record seen -> record.file ∉ watched.outlived
  /-- The count, the records or what was deleted lead to every section whose file is gone. -/
  sought : forall {name}, Orphan tree.name visit.disk watched.ledger name ->
    Sought cutter tree visit.request watched.ledger name
  /-- No name goes on, under the tree, with the last character there is. -/
  ranged : forall {name}, Orphan tree.name visit.disk watched.ledger name ->
    inRange tree.low name = true
  /-- Nothing else stands where its file stood. -/
  bare : forall {name}, Orphan tree.name visit.disk watched.ledger name ->
    visit.request.there (onDisk root (fileOf name)) = false

/-- What every ingest needs, and a whole one besides. -/
structure Sound (tree : String) (watched : Watched) (visit : Visit) : Prop where
  worthy : Worthy cutter watched.ledger visit.request
  clear : WholeOf root tree visit ->
    Clear cutter root { name := tree, root := root, whole := true } watched visit

end Mirroring

section Proof

variable {cutter : Cutter} {root : String} {files : Set String} {visit : Visit}
  {watched : Watched} {tree : String}

theorem mem_lows_tree {ledger : Ledger} {given : Tree} (h : given ∈ visit.request.trees) :
    exists left, left = leftTree
        ((begun cutter visit.request ledger).records.startingWith given.root given.low)
        ((sights cutter visit.request ledger).keys visit.request.deleted) ∧
      forall low, low ∈ (if unknown cutter visit.request ledger given left then [given.low]
        else left.1.map Prod.snd) -> low ∈ lows cutter visit.request ledger := by
  exists leftTree
    ((begun cutter visit.request ledger).records.startingWith given.root given.low)
    ((sights cutter visit.request ledger).keys visit.request.deleted)
  constructor
  · rfl
  · intro low hlow
    apply List.mem_append_right
    apply List.mem_flatten.mpr
    refine ⟨_, List.mem_map.mpr ⟨(given, _), ?_, rfl⟩, hlow⟩
    unfold leaving
    rw [List.zip_map_right]
    exact List.mem_map.mpr ⟨(given, given), by simpa [List.zip_eq_zipWith] using h, rfl⟩

theorem startsWith_low {file : String} {given : Tree} (h : under file given.name = true) :
    given.low.toList.isPrefixOf file.toList = true := by
  obtain ⟨rest, hfile⟩ := under_iff.mp h
  rw [List.isPrefixOf_iff_prefix, Tree.low, String.toList_append, hfile]
  exact ⟨rest, by simp⟩

theorem mem_keys (hshows : Shows root files visit) {ledger : Ledger} {key : String × String}
    (h : key ∈ (sights cutter visit.request ledger).keys visit.request.deleted) :
    (exists file text, (file, text) ∈ visit.disk ∧ file.name = key.2) ∨
      exists file, file ∈ visit.request.deleted ∧ file.name = key.2 := by
  have hfound : forall {seen : Seen}, seen ∈ visit.request.found ->
      exists text, (seen.file, text) ∈ visit.disk := by
    intro seen hseen
    obtain ⟨_, text, hdisk, _⟩ := hshows.found hseen
    exact ⟨text, hdisk⟩
  rw [Looking.keys, List.mem_append, List.mem_append] at h
  cases h with
  | inl h =>
      cases h with
      | inl hcut =>
          obtain ⟨cut, hmem, rfl⟩ := List.mem_map.mp hcut
          cases cutOf_cuts hmem with
          | read seen stat text hseen htext hfile hrecord hsections =>
              obtain ⟨said, hdisk⟩ := hfound hseen
              exact Or.inl ⟨seen.file, said, hdisk, by rw [hfile]; rfl⟩
          | deleted hdeleted hrecord hsections => exact Or.inr ⟨cut.file, hdeleted, rfl⟩
      | inr hunchanged =>
          obtain ⟨entry, hmem, rfl⟩ := List.mem_map.mp hunchanged
          obtain ⟨_, _, text, hdisk⟩ := placed_of_unchanged hshows hmem
          exact Or.inl ⟨entry.1, text, hdisk, rfl⟩
  | inr hunread =>
      obtain ⟨file, hmem, rfl⟩ := List.mem_map.mp hunread
      obtain ⟨seen, _, hseen, rfl, _⟩ := mem_unread hmem
      obtain ⟨text, hdisk⟩ := hfound hseen
      exact Or.inl ⟨seen.file, text, hdisk, rfl⟩

theorem key_of_cut {ledger : Ledger} {cut : Cut} (h : cut ∈ cuts cutter visit.request ledger) :
    cut.file.key ∈ (sights cutter visit.request ledger).keys visit.request.deleted := by
  unfold Looking.keys
  rw [List.mem_append, List.mem_append]
  exact Or.inl (Or.inl (List.mem_map.mpr ⟨cut, h, rfl⟩))

theorem left_of_recorded (hshows : Shows root files visit) {ledger : Ledger} {given : Tree}
    {name : String} (horphan : Orphan given.name visit.disk ledger name) {record : FileRecord}
    (hrecord : record ∈ ledger.records) (hkey : record.key = (given.root, fileOf name)) :
    (exists file, file ∈ visit.request.deleted ∧ file.name = fileOf name) ∨
      (given.root, fileOf name) ∈ (leftTree
        ((begun cutter visit.request ledger).records.startingWith given.root given.low)
        ((sights cutter visit.request ledger).keys visit.request.deleted)).1 := by
  by_cases hknown : exists key, key ∈ (sights cutter visit.request ledger).keys
      visit.request.deleted ∧ key.2 = fileOf name
  · obtain ⟨key, hmem, hfile⟩ := hknown
    cases mem_keys hshows hmem with
    | inl hstands =>
        obtain ⟨file, text, hdisk, hname⟩ := hstands
        exact absurd (hname.trans hfile) (horphan.2.2 file text hdisk)
    | inr hgone =>
        obtain ⟨file, hdeleted, hname⟩ := hgone
        exact Or.inl ⟨file, hdeleted, hname.trans hfile⟩
  · apply Or.inr
    have hfile : record.file = fileOf name := congrArg Prod.snd hkey
    have hnotCut : record.file ∉ cutNames cutter visit.request ledger := by
      intro hcut
      obtain ⟨cut, hmem, hname⟩ := List.mem_map.mp hcut
      exact hknown ⟨cut.file.key, key_of_cut hmem, hname.trans hfile⟩
    have hkept : record ∈ (begun cutter visit.request ledger).records :=
      List.mem_filter.mpr ⟨hrecord, decide_eq_true hnotCut⟩
    have hstarts : record ∈ (begun cutter visit.request ledger).records.startingWith
        given.root given.low := by
      apply List.mem_filter.mpr
      constructor
      · exact hkept
      · rw [Bool.and_eq_true, decide_eq_true_eq, hfile]
        exact ⟨congrArg Prod.fst hkey, startsWith_low horphan.2.1⟩
    apply List.mem_filter.mpr
    constructor
    · exact List.mem_map.mpr ⟨record, hstarts, hkey⟩
    · exact decide_eq_true fun hmem => hknown ⟨_, hmem, rfl⟩

theorem lows_of_sought (hshows : Shows root files visit) {ledger : Ledger} {given : Tree}
    (htree : given ∈ visit.request.trees) {name : String}
    (hbelongs : belongs name (fileOf name) = true)
    (horphan : Orphan given.name visit.disk ledger name) (hrange : inRange given.low name = true)
    (h : Sought cutter given visit.request ledger name) :
    exists low, low ∈ lows cutter visit.request ledger ∧ inRange low name = true := by
  have hdeleted : forall {file : File}, file ∈ visit.request.deleted ->
      file.name = fileOf name ->
        exists low, low ∈ lows cutter visit.request ledger ∧ inRange low name = true := by
    intro file hfile hname
    have hlow : fileOf name ∈ lows cutter visit.request ledger := by
      apply List.mem_append_left
      apply List.mem_map.mpr
      exact ⟨_, List.mem_append_right _ (List.mem_map.mpr ⟨file, hfile, rfl⟩), hname⟩
    exact ⟨fileOf name, hlow, inRange_of_belongs hbelongs⟩
  obtain ⟨left, hleft, hlows⟩ := @mem_lows_tree cutter visit ledger given htree
  cases hunknown : unknown cutter visit.request ledger given left with
  | true =>
      exact ⟨given.low, hlows _ (by simp [hunknown]), hrange⟩
  | false =>
      rw [unknown, Bool.or_eq_false_iff, decide_eq_false_iff_not, hleft] at hunknown
      cases h with
      | deleted hfile hname => exact hdeleted hfile hname
      | unrecorded hfile hroot hunder =>
          have hany := List.any_eq_false.mp hunknown.1 _ hfile
          simp [hroot, hunder] at hany
      | uncounted huncounted => exact absurd huncounted hunknown.2
      | recorded hrecord hkey =>
          cases left_of_recorded hshows horphan hrecord hkey with
          | inl hgone =>
              obtain ⟨file, hfile, hname⟩ := hgone
              exact hdeleted hfile hname
          | inr hmem =>
              have hlow : fileOf name ∈ lows cutter visit.request ledger := by
                apply hlows
                rw [unknown, hunknown.1, hleft, decide_eq_false hunknown.2]
                exact List.mem_map.mpr ⟨_, hmem, rfl⟩
              exact ⟨fileOf name, hlow, inRange_of_belongs hbelongs⟩

/-!
## What a finished ingest says
-/

theorem holds_of_unchanged (hback : ReadBack cutter files)
    (hhash : Function.Injective cutter.contentHash)
    (hassumed : Assumed cutter root files watched visit)
    (hkept : Kept cutter root files watched)
    (hclear : Clear cutter root { name := tree, root := root, whole := true } watched visit)
    {s : Ledger} (hs : RecordedBy cutter root files watched.ledger visit s) {entry : File × Nat}
    (hentry : entry ∈ (sights cutter visit.request watched.ledger).unchanged) {text : String}
    (htext : (entry.1, text) ∈ visit.disk) :
    exists sections, Holds cutter s visit.request.build entry.1.name text sections := by
  have hshows := hassumed.shows
  obtain ⟨seen, record, hseen, hfile, hrecord, hkey, hstands⟩ := mem_unchanged hentry
  obtain ⟨stat, said, hdisk, hstat, hsaid⟩ := hshows.found hseen
  have hfileEq : record.file = entry.1.name := (congrArg Prod.snd hkey).trans (by rw [hfile]; rfl)
  have hsame : said = text := by
    rw [← hfile] at hdisk
    exact (hshows.apart hdisk htext rfl).2
  obtain ⟨hcontent, hbuild⟩ : record.contentHash = cutter.contentHash text ∧
      record.build = visit.request.build := by
    cases hstands with
    | inl htrusted =>
        obtain ⟨stat', hstat', htrusted⟩ := htrusted
        constructor
        · rw [← hsame]
          exact hassumed.telling seen record stat' said hseen (mem_of hrecord) hkey hstat' hsaid
            htrusted
        · rw [trusted, Bool.and_eq_true, Bool.and_eq_true, decide_eq_true_eq] at htrusted
          exact htrusted.1.1
    | inr hread =>
        obtain ⟨text', htext', hcontent, hbuild⟩ := hread
        rw [hsaid, Except.ok.injEq] at htext'
        exact ⟨by rw [hcontent, ← htext', hsame], hbuild⟩
  have hnot := hclear.records hseen (mem_of hrecord) hkey hstands
  obtain ⟨told, sections, htold, hholds⟩ := hkept.stands (mem_of hrecord) hnot
  rw [hhash (htold.trans hcontent), hbuild, hfileEq] at hholds
  exists sections
  apply hholds.congr
  intro name hbelongs
  have hplaced := placed_of_unchanged hshows hentry
  apply hs.others
  · intro cutEntry hcutEntry hname
    obtain ⟨other, _, read, hfrom⟩ := cutFrom hcutEntry
    obtain ⟨cut, hcut, hcutName⟩ := List.mem_map.mp hfrom.inCuts
    have halone := hback.alone (hfrom.inFiles hshows) (hfrom.names hfrom.inSections)
      hplaced.2.1 (hname ▸ hbelongs)
    exact cut_ne_unchanged hshows hcut hentry (hcutName.trans halone.symm)
  · intro behind hbehind hretirable hname
    obtain ⟨current, hcurrent, _⟩ := says_of_leftBehind hbehind
    rw [hname] at hcurrent
    have hamong := hback.among hplaced.2.1
      (file_of_current hback hkept.ours hcurrent hplaced.2.1 hbelongs)
    have hany : anyOf
        ((sights cutter visit.request watched.ledger).looked visit.request).unchanged root name =
          true :=
      anyOf_eq_true.mpr ⟨entry.1, List.mem_map.mpr ⟨entry, hentry, rfl⟩, hplaced.1, hamong⟩
    rw [unchanged_of_leftBehind hkept.ours hbehind hname] at hany
    cases hany

theorem holds_of_finished (hback : ReadBack cutter files)
    (hhash : Function.Injective cutter.contentHash)
    (hassumed : Assumed cutter root files watched visit)
    (hkept : Kept cutter root files watched) (hwhole : WholeOf root tree visit)
    (hclear : Clear cutter root { name := tree, root := root, whole := true } watched visit)
    {s : Ledger} (hs : RecordedBy cutter root files watched.ledger visit s) {file : File}
    {text : String} (htext : (file, text) ∈ visit.disk) (hunder : under file.name tree = true) :
    exists sections, Holds cutter s visit.request.build file.name text sections := by
  have hshows := hassumed.shows
  obtain ⟨seen, hseen, rfl⟩ :=
    hshows.walked hwhole.2.1 rfl htext (hshows.placed htext).1 hunder
  obtain ⟨stat, said, hdisk, hstat, hsaid⟩ := hshows.found hseen
  rw [(hshows.apart htext hdisk rfl).2]
  cases look_all hseen with
  | inl hread =>
      obtain ⟨cut, hcut, hfile⟩ := hread
      obtain ⟨read, hfrom⟩ := readFrom_of_cut hshows (List.mem_append_left _ hcut) hseen hsaid hfile
      exact ⟨read.sections, holds_of_recorded hback hshows hkept.ours hs hfrom⟩
  | inr hrest =>
      cases hrest with
      | inl hunchanged =>
          obtain ⟨entry, hentry, hfile⟩ := hunchanged
          rw [← hfile] at hdisk ⊢
          exact holds_of_unchanged hback hhash hassumed hkept hclear hs hentry hdisk
      | inr hunread =>
          obtain ⟨other, why, hother, hsame, hwhy⟩ := mem_unread hunread
          rw [← hshows.once hseen hother (congrArg File.name hsame), hstat, hsaid] at hwhy
          simp at hwhy

theorem none_unread (hshows : Shows root files visit) {ledger : Ledger} {file : File} :
    file ∉ (sights cutter visit.request ledger).unread := by
  intro hunread
  obtain ⟨seen, why, hseen, _, hwhy⟩ := mem_unread hunread
  obtain ⟨stat, text, _, hstat, htext⟩ := hshows.found hseen
  rw [hstat, htext] at hwhy
  simp at hwhy

theorem stands_of_finished (hback : ReadBack cutter files)
    (hshows : Shows root files visit) (hours : Ours cutter root files watched.ledger)
    (hwhole : WholeOf root tree visit)
    (hclear : Clear cutter root { name := tree, root := root, whole := true } watched visit)
    {s : Ledger} (hs : RecordedBy cutter root files watched.ledger visit s) {name : String}
    {current : Current} (hcurrent : s.current name = some current)
    (hunder : under (fileOf name) tree = true) :
    exists file text, (file, text) ∈ visit.disk ∧ file.name = fileOf name := by
  by_cases hstands : exists file text, (file, text) ∈ visit.disk ∧ file.name = fileOf name
  · exact hstands
  · have hgone : forall file text, (file, text) ∈ visit.disk -> file.name ≠ fileOf name :=
      fun file text hdisk hname => hstands ⟨file, text, hdisk, hname⟩
    obtain ⟨file, hfile, hnames⟩ := hs.ours.named hcurrent
    have hfileOf : fileOf name = file := hback.back hfile hnames
    have hbelongs := hback.belongs hfile hnames
    have hnot : forall entry, entry ∈ rooted (reads cutter visit.request watched.ledger) ->
        entry.1.name ≠ name := by
      intro entry hentry hname
      obtain ⟨seen, text, read, hfrom⟩ := cutFrom hentry
      obtain ⟨_, said, hdisk, _⟩ := hshows.found hfrom.found
      apply hgone _ _ hdisk
      rw [← hname]
      exact (hback.back (hfrom.inFiles hshows) (hfrom.names hfrom.inSections)).symm
    have hnone : s.current name = none := by
      cases kept_or_none hs.toDuring hnot with
      | inr hnone => exact hnone
      | inl hkept =>
          have horphan : Orphan tree visit.disk watched.ledger name :=
            ⟨⟨current, hkept ▸ hcurrent⟩, hunder, hgone⟩
          have hlow := lows_of_sought hshows hwhole.2.1 (hfileOf ▸ hbelongs) horphan
            (hclear.ranged horphan) (hclear.sought horphan)
          obtain ⟨topic, htopic, htopicName, htopicRoot, _⟩ := mem_playing hours
            (hkept ▸ hcurrent) hlow
            (Or.inr ⟨_, hwhole.2.1, under_of_belongs (hfileOf ▸ hbelongs) hunder⟩)
          have hunchanged : anyOf
              ((sights cutter visit.request watched.ledger).looked visit.request).unchanged
                root name = false := by
            apply anyOf_unchanged hback hshows hfile hnames
            intro entry hentry hname
            obtain ⟨_, _, text, hdisk⟩ := placed_of_unchanged hshows hentry
            exact hgone _ _ hdisk (hname.symm.trans hfileOf.symm)
          have hretirable : retirable
              ((sights cutter visit.request watched.ledger).looked visit.request) root name =
                some true := by
            apply retirable_of_left
            · intro hunread
              obtain ⟨other, hother, _⟩ := List.mem_map.mp hunread
              exact absurd hother (none_unread hshows)
            · exact hfileOf ▸ hback.walked hfile
            · exact hwhole.2.1
            · rfl
            · exact hunder
            · rfl
            · exact hclear.bare horphan
          obtain ⟨behind, hbehind, hbehindName, hcan⟩ :=
            mem_leftBehind htopic htopicName htopicRoot hnot hunchanged hretirable
          rw [← hbehindName]
          exact hs.retired hbehind hcan
    rw [hnone] at hcurrent
    cases hcurrent

theorem mirrors_of_finished (hback : ReadBack cutter files)
    (hhash : Function.Injective cutter.contentHash)
    (hassumed : Assumed cutter root files watched visit)
    (hkept : Kept cutter root files watched) (hwhole : WholeOf root tree visit)
    (hclear : Clear cutter root { name := tree, root := root, whole := true } watched visit)
    {s : Ledger} (hs : Finished cutter root files watched.ledger visit s) :
    Mirrors cutter root tree visit.request.build visit.disk s := by
  obtain ⟨t, ht, hcurrent⟩ := hs.recorded
  have hshows := hassumed.shows
  have hholds : forall name, exists sections, forall file text, (file, text) ∈ visit.disk ->
      under file.name tree = true -> file.name = name ->
        Holds cutter s visit.request.build name text sections := by
    intro name
    by_cases hstands : exists file text, (file, text) ∈ visit.disk ∧
        under file.name tree = true ∧ file.name = name
    · obtain ⟨file, text, hdisk, hunder, rfl⟩ := hstands
      obtain ⟨sections, hsections⟩ :=
        holds_of_finished hback hhash hassumed hkept hwhole hclear ht hdisk hunder
      exists sections
      intro other text' hother _ hname
      rw [← (hshows.apart hdisk hother hname.symm).2]
      exact hsections.congr fun name _ => hcurrent name
    · exact ⟨[], fun file text hdisk hunder hname =>
        absurd ⟨file, text, hdisk, hunder, hname⟩ hstands⟩
  choose sections hsections using hholds
  exists sections
  constructor
  · exact fun file text hdisk hunder => (hsections _ file text hdisk hunder rfl).numbered
  constructor
  · intro name
    constructor
    · intro h
      obtain ⟨⟨current, hstated⟩, _, hunder⟩ := h
      obtain ⟨file, text, hdisk, hname⟩ := stands_of_finished hback hshows hkept.ours hwhole
        hclear ht (hcurrent name ▸ hstated) hunder
      obtain ⟨other, hother, hnames⟩ := hs.ours.named hstated
      have hbelongs : belongs name file.name = true := by
        rw [hname, hback.back hother hnames]
        exact hback.belongs hother hnames
      obtain ⟨named, hnamed, hsame, hworthy⟩ :=
        (hsections _ file text hdisk (hname ▸ hunder) rfl).only hbelongs hstated
      exact ⟨file, text, named, hdisk, hname ▸ hunder, hnamed, hsame, hworthy⟩
    · intro h
      obtain ⟨file, text, named, hdisk, hunder, hnamed, rfl, hworthy⟩ := h
      have hfileHolds := hsections _ file text hdisk hunder rfl
      obtain ⟨current, hstated, _⟩ := hfileHolds.said hnamed hworthy
      have hplaced := hshows.placed hdisk
      have hnames := file_of_current hback hs.ours hstated hplaced.2 (hfileHolds.ofFile hnamed)
      exact ⟨⟨current, hstated⟩, hs.ours.filed hstated, hback.back hplaced.2 hnames ▸ hunder⟩
  · intro file text named current hdisk hunder hnamed hworthy hstated
    obtain ⟨said, hsaid, hrestates⟩ :=
      (hsections _ file text hdisk hunder rfl).said hnamed hworthy
    rw [hstated, Option.some.injEq] at hsaid
    rw [hsaid]
    exact hrestates

theorem mirrored_visit (hback : ReadBack cutter files)
    (hhash : Function.Injective cutter.contentHash)
    (hassumed : Assumed cutter root files watched visit)
    (hsound : Sound cutter root tree watched visit)
    (hkept : Kept cutter root files watched) :
    MirroredAfter cutter root tree watched visit := by
  intro hwhole after hafter
  have hensures := ingest_finishes hback hassumed.shows hkept.ours hsound.worthy watched.ledger rfl
  have hfinished := run_after (fun _ _ => True.intro) hensures
  have hmirrors := mirrors_of_finished hback hhash hassumed hkept hwhole (hsound.clear hwhole)
    hfinished
  cases hafter
  change Mirrors cutter root tree _ _ (visited cutter watched.ledger visit)
  unfold visited
  rw [hwhole.1]
  exact hmirrors

theorem mirrored_along (hback : ReadBack cutter files)
    (hhash : Function.Injective cutter.contentHash) {visits : List Visit}
    (hkept : Kept cutter root files watched)
    (hassumed : Along (Ingest.visit cutter) (Assumed cutter root files) watched visits)
    (hsound : Along (Ingest.visit cutter) (Sound cutter root tree) watched visits) :
    Along (Ingest.visit cutter) (MirroredAfter cutter root tree) watched visits := by
  induction visits generalizing watched with
  | nil => exact True.intro
  | cons here rest ih =>
      constructor
      · exact mirrored_visit hback hhash hassumed.1 hsound.1 hkept
      · intro after hafter
        exact ih (kept_visit hback hassumed.1.shows hsound.1.worthy hkept hafter)
          (hassumed.2 after hafter) (hsound.2 after hafter)

def Watched.start : Watched := { ledger := Ledger.empty, outlived := [] }

theorem kept_start : Kept cutter root files Watched.start where
  ours := ours_empty
  stands hrecord := absurd hrecord List.not_mem_nil

end Proof

/--
In a history whose ingests go by no record that has outlived its sections, and whose whole
ingests are led to every section of a file that is gone, each whole ingest mirrors the tree.
-/
theorem ingests_mirror_the_tree {cutter : Cutter} {root tree : String} {files : Set String}
    (hback : ReadBack cutter files) (hhash : Function.Injective cutter.contentHash)
    {visits : List Visit}
    (hassumed : Along (visit cutter) (Assumed cutter root files) Watched.start visits)
    (hsound : Along (visit cutter) (Sound cutter root tree) Watched.start visits) :
    Along (visit cutter) (MirroredAfter cutter root tree) Watched.start visits :=
  mirrored_along hback hhash kept_start hassumed hsound

/-!
## A file that died without a record
-/

def oneSection : Cutter where
  contentHash := id
  unnamed _ file text := if text = "" then [] else [{ base := file, content := text }]
  named cut _ := cut.map fun unnamed => { name := unnamed.base, content := unnamed.content }
  pairs _ _ := []
  named_nil _ := rfl
  named_numbered := by
    intro build file text previous
    by_cases hempty : text = ""
    · simp only [hempty, if_true, List.map_nil]
      exact ⟨List.Forall₂.nil, List.nodup_nil⟩
    · simp only [hempty, if_false, List.map_cons, List.map_nil]
      constructor
      · exact List.Forall₂.cons ⟨rfl, by rw [number_self]; rfl⟩ List.Forall₂.nil
      · simp

theorem names_oneSection {file name : String} (h : oneSection.Names file name) :
    name = file := by
  obtain ⟨build, text, previous, hname⟩ := h
  simp only [oneSection] at hname
  by_cases hempty : text = ""
  · simp [hempty] at hname
  · simpa [hempty] using hname

def note : File := { name := "w/h.md", path := "/w/h.md", root := "/w" }

def memo : File := { name := "w/a.md", path := "/w/a.md", root := "/w" }

def statOf (time : Int) : Stat :=
  { size := 2, modifiedNs := time, changedNs := time, inode := 1, readNs := time }

def foundAt (time : Int) (disk : Disk) : List Seen :=
  disk.map fun entry =>
    { file := entry.1, stat := Except.ok (statOf time), text := Except.ok entry.2 }

def treeAt (time : Int) (disk : Disk) (calls : Option Nat) : Visit where
  disk := disk
  request :=
    { build := "1", started := time, found := foundAt time disk
      trees := [{ name := "w", root := "/w", whole := true }], skipped := [], deleted := []
      there := fun _ => false, later := fun _ => some (statOf time), schedule := [] }
  calls := calls

/-- The memo is edited, an ingest dies before it has written it, and the memo is deleted. -/
def lostMemo : List Visit :=
  [treeAt 1 [(note, "ok"), (memo, "The deploy runs on Monday.")] none,
    treeAt 2 [(note, "ok"), (memo, "The deploy runs on Tuesday.")] (some 2),
    treeAt 3 [(note, "ok")] none]

def memoFiles : Set String := fun file => file = "w/h.md" ∨ file = "w/a.md"

theorem readBack_oneSection : ReadBack oneSection memoFiles := by
  constructor
  · intro file hfile
    cases hfile with
    | inl hfile => exact hfile ▸ by decide
    | inr hfile => exact hfile ▸ by decide
  · intro file name hfile hnames
    rw [names_oneSection hnames]
    cases hfile with
    | inl hfile => exact hfile ▸ by decide
    | inr hfile => exact hfile ▸ by decide
  · intro file name hfile hnames
    rw [names_oneSection hnames]
    cases hfile with
    | inl hfile => exact hfile ▸ by decide
    | inr hfile => exact hfile ▸ by decide
  · intro file other name hfile hnames hother hbelongs
    rw [names_oneSection hnames] at hbelongs
    cases hfile with
    | inl hfile =>
        cases hother with
        | inl hother => rw [hfile, hother]
        | inr hother =>
            rw [hfile, hother] at hbelongs
            exact absurd hbelongs (by decide)
    | inr hfile =>
        cases hother with
        | inl hother =>
            rw [hfile, hother] at hbelongs
            exact absurd hbelongs (by decide)
        | inr hother => rw [hfile, hother]

theorem shows_treeAt {time : Int} {disk : Disk} {calls : Option Nat}
    (hfiles : forall entry, entry ∈ disk -> entry.1 = note ∨ entry.1 = memo)
    (hapart : (disk.map fun entry => entry.1.name).Nodup) :
    Shows "/w" memoFiles (treeAt time disk calls) where
  placed hentry := by
    cases hfiles _ hentry with
    | inl hnote =>
        cases hnote
        exact ⟨rfl, Or.inl rfl⟩
    | inr hmemo =>
        cases hmemo
        exact ⟨rfl, Or.inr rfl⟩
  apart hentry hother hname := by
    have hsame := List.inj_on_of_nodup_map hapart hentry hother hname
    cases hsame
    exact ⟨rfl, rfl⟩
  found hseen := by
    obtain ⟨entry, hentry, rfl⟩ := List.mem_map.mp hseen
    exact ⟨statOf time, entry.2, hentry, rfl, rfl⟩
  once hseen hother hname := by
    obtain ⟨entry, hentry, rfl⟩ := List.mem_map.mp hseen
    obtain ⟨other, hotherEntry, rfl⟩ := List.mem_map.mp hother
    rw [List.inj_on_of_nodup_map hapart hentry hotherEntry hname]
  walked _ _ _ _ hdisk _ _ := ⟨_, List.mem_map.mpr ⟨_, hdisk, rfl⟩, rfl⟩
  deleted hdeleted := absurd hdeleted List.not_mem_nil

theorem telling_of_fresh {ledger : Ledger} {request : Request}
    (h : (ledger.records.all fun record => record.readNs <= record.modifiedNs) = true) :
    Telling oneSection ledger request := by
  intro seen record stat text _ hrecord _ _ _ htrusted
  have hfresh := List.all_eq_true.mp h record hrecord
  rw [decide_eq_true_eq] at hfresh
  rw [trusted, Bool.and_eq_true, decide_eq_true_eq] at htrusted
  have hread := lt_of_le_of_lt (le_max_left _ _) htrusted.2
  unfold RACY_NS at hread
  omega

theorem assumed_treeAt {time : Int} {disk : Disk} {calls : Option Nat} {watched : Watched}
    (hfiles : forall entry, entry ∈ disk -> entry.1 = note ∨ entry.1 = memo)
    (hapart : (disk.map fun entry => entry.1.name).Nodup)
    (hfresh : (watched.ledger.records.all fun record =>
      record.readNs <= record.modifiedNs) = true) :
    Assumed oneSection "/w" memoFiles watched (treeAt time disk calls) :=
  ⟨shows_treeAt hfiles hapart, telling_of_fresh hfresh⟩

def goneMemo : List Visit :=
  [treeAt 1 [(note, "ok"), (memo, "The deploy runs on Monday.")] none,
    treeAt 2 [(note, "ok")] none]

theorem orphan_of_keys {tree : String} {disk : Disk} {ledger : Ledger} {names : List String}
    (hkeys : ledger.topics.keys = names) {name : String} (h : Orphan tree disk ledger name) :
    name ∈ names := by
  obtain ⟨current, hcurrent⟩ := h.1
  rw [← hkeys, ← AList.mem_keys, ← AList.lookup_isSome]
  cases hlookup : ledger.topics.lookup name with
  | none =>
      unfold Ledger.current at hcurrent
      rw [hlookup] at hcurrent
      cases hcurrent
  | some _ => rfl

def bothIngested : Watched where
  ledger := visited oneSection Ledger.empty
    (treeAt 1 [(note, "ok"), (memo, "The deploy runs on Monday.")] none)
  outlived := []

theorem sound_goneMemo :
    Sound oneSection "/w" "w" bothIngested (treeAt 2 [(note, "ok")] none) := by
  have hmoves : movesOf oneSection
      (begun oneSection (treeAt 2 [(note, "ok")] none).request bothIngested.ledger)
      (rooted (reads oneSection (treeAt 2 [(note, "ok")] none).request bothIngested.ledger))
      (playing oneSection (treeAt 2 [(note, "ok")] none).request bothIngested.ledger)
      (leftBehind oneSection (treeAt 2 [(note, "ok")] none).request bothIngested.ledger) = [] := by
    decide
  have hkeys : bothIngested.ledger.topics.keys = ["w/a.md"] := by decide
  have hmemo : forall {name}, Orphan "w" [(note, "ok")] bothIngested.ledger name ->
      name = "w/a.md" :=
    fun horphan => List.mem_singleton.mp (orphan_of_keys hkeys horphan)
  constructor
  · intro move hmove
    rw [hmoves] at hmove
    cases hmove
  · intro _
    constructor
    case records => exact fun _ _ _ _ => List.not_mem_nil
    case sought =>
      intro name horphan
      rw [hmemo horphan]
      have hrecorded : exists record, record ∈ bothIngested.ledger.records ∧
          record.key = ("/w", fileOf "w/a.md") := by decide
      obtain ⟨record, hrecord, hkey⟩ := hrecorded
      exact Sought.recorded hrecord hkey
    case ranged =>
      intro name horphan
      rw [hmemo horphan]
      decide
    case bare => exact fun _ => rfl

theorem ingests_mirror_the_tree_of_a_note :
    Along (visit oneSection) (MirroredAfter oneSection "/w" "w") Watched.start goneMemo := by
  apply ingests_mirror_the_tree readBack_oneSection Function.injective_id
  · constructor
    · apply assumed_treeAt
      · simp
      · decide
      · rfl
    intro first hfirst
    cases hfirst
    constructor
    · apply assumed_treeAt
      · simp
      · decide
      · decide
    · exact fun _ _ => True.intro
  · constructor
    · constructor
      · intro move hmove
        exact absurd hmove List.not_mem_nil
      · intro _
        have hnone : forall {name}, ¬Orphan "w" [(note, "ok"), (memo, "The deploy runs on Monday.")]
            Watched.start.ledger name :=
          fun horphan => absurd (orphan_of_keys rfl horphan) List.not_mem_nil
        constructor
        · exact fun _ hrecord => absurd hrecord List.not_mem_nil
        · exact fun horphan => absurd horphan hnone
        · exact fun horphan => absurd horphan hnone
        · exact fun horphan => absurd horphan hnone
    intro first hfirst
    cases hfirst
    exact ⟨sound_goneMemo, fun _ _ => True.intro⟩

/-- The memo's section is on the surface when its file is gone. -/
theorem memo_outlives_its_file :
    exists (cutter : Cutter) (root tree : String) (files : Set String) (visits : List Visit),
      ReadBack cutter files ∧ Function.Injective cutter.contentHash ∧
        Along (visit cutter) (Assumed cutter root files) Watched.start visits ∧
          ¬Along (visit cutter) (MirroredAfter cutter root tree) Watched.start visits := by
  exists oneSection, "/w", "w", memoFiles, lostMemo
  constructor
  · exact readBack_oneSection
  constructor
  · exact Function.injective_id
  constructor
  · constructor
    · apply assumed_treeAt
      · simp
      · decide
      · rfl
    intro first hfirst
    cases hfirst
    constructor
    · apply assumed_treeAt
      · simp
      · decide
      · decide
    intro second hsecond
    cases hsecond
    constructor
    · apply assumed_treeAt
      · simp
      · decide
      · decide
    · exact fun _ _ => True.intro
  · intro h
    obtain ⟨sections, hnumbered, hexactly, _⟩ :=
      ((h.2 _ rfl).2 _ rfl).1 ⟨rfl, by decide, by decide⟩ _ rfl
    have hstated : exists current, (visited oneSection (visited oneSection (visited oneSection
        Ledger.empty (treeAt 1 [(note, "ok"), (memo, "The deploy runs on Monday.")] none))
          (treeAt 2 [(note, "ok"), (memo, "The deploy runs on Tuesday.")] (some 2)))
            (treeAt 3 [(note, "ok")] none)).current "w/a.md" = some current :=
      Option.isSome_iff_exists.mp (by decide)
    obtain ⟨file, text, named, hdisk, _, hnamed, hname, _⟩ :=
      (hexactly "w/a.md").mp ⟨hstated, by decide, by decide⟩
    cases List.mem_singleton.mp hdisk
    have heach := (hnumbered note "ok" List.mem_cons_self (by decide)).each
    change named ∈ sections note.name at hnamed
    generalize sections note.name = cut at heach hnamed
    cases heach with
    | cons hfirst hrest =>
        cases hrest
        cases List.mem_singleton.mp hnamed
        rw [hname] at hfirst
        exact absurd hfirst.2 (by decide)

end Ingest
end PaminMemory
