import PaminMemory.Ingest.Looking
import PaminMemory.Ingest.Parsing
import PaminMemory.Ingest.Places
import Mathlib.Data.List.Nodup

/-!
# Which sections are retired

A section is to be retired when the file it was cut from was read and no longer has it, or has
gone.  The file is read back from the section's name, and the section of one file can be taken
for another's.
-/

namespace PaminMemory
namespace Ingest

structure Earlier where
  topic : FileTopic
  own : Place
  belongs : belongs topic.name own.file.name = true
  rooted : forall root, topic.root = some root -> root = own.file.root

/-- What an ingest read, found and walked, and the sections recorded before it. -/
structure Ground where
  read : List (Place × List Section)
  unchanged : List Place
  unread : List Place
  walked : List Walk
  there : String -> Bool
  recorded : List Earlier
  apart : (recorded.map fun earlier => earlier.topic.name).Nodup

namespace Ground

def reads (ground : Ground) : List Place := ground.read.map Prod.fst

def cut (ground : Ground) : List Section := ground.read.flatMap Prod.snd

def looked (ground : Ground) : Looked :=
  { read := ground.reads.map Place.file
    unchanged := ground.unchanged.map Place.file
    unread := ground.unread.map Place.file
    trees := ground.walked.map Walk.tree
    there := ground.there }

def leftBehind (ground : Ground) : List Gone :=
  gone ground.looked ground.cut (ground.recorded.map Earlier.topic)

def Marked (ground : Ground) (earlier : Earlier) : Prop :=
  exists behind, behind ∈ ground.leftBehind ∧ behind.name = earlier.topic.name ∧
    behind.retirable = true

def WalkedWhole (ground : Ground) (place : Place) : Prop :=
  exists walk, walk ∈ ground.walked ∧ walk.whole = true ∧ walk.Holds place

/-!
## Files that left, and those that only look so
-/

structure Left (ground : Ground) (place : Place) : Prop where
  walked : ground.WalkedWhole place
  unfound : place ∉ ground.reads ∧ place ∉ ground.unchanged ∧ place ∉ ground.unread
  away : ground.there place.file.path = false

/-- The section's own file was read and has no section of its name. -/
structure Uncut (ground : Ground) (earlier : Earlier) : Prop where
  read : earlier.own ∈ ground.reads
  uncut : forall sections, (earlier.own, sections) ∈ ground.read ->
    earlier.topic.name ∉ sections.map Section.name

/-- No section is marked whose own file is not known to have lost it. -/
def Safe (ground : Ground) : Prop :=
  forall earlier, earlier ∈ ground.recorded -> ground.Marked earlier ->
    ground.Uncut earlier ∨ ground.Left earlier.own

/-- The section's own file is of a kind that is walked, and gone from a directory walked whole. -/
structure Lost (ground : Ground) (earlier : Earlier) : Prop where
  root : earlier.topic.root = some earlier.own.file.root
  walked : ground.WalkedWhole earlier.own
  kind : walkedKind earlier.own.file.path = true
  away : ground.there earlier.own.file.path = false
  unfound : earlier.own ∉ ground.unchanged ∧ earlier.own ∉ ground.unread
  uncut : forall sections, (earlier.own, sections) ∈ ground.read ->
    earlier.topic.name ∉ sections.map Section.name

/-- Every section of a file that is gone is marked. -/
def Complete (ground : Ground) : Prop :=
  forall earlier, earlier ∈ ground.recorded -> ground.Lost earlier -> ground.Marked earlier

end Ground

structure Earlier.Could (earlier : Earlier) (place : Place) : Prop where
  root : place.root = earlier.own.root
  name : place.file.name ∈ filesOf earlier.topic.name

namespace Ground

/-!
## What misleads
-/

structure Missing (ground : Ground) (root file : String) : Prop where
  unread : (root, file) ∉ (ground.unread.map Place.file).map File.key
  kind : walkedKind file = true
  walked : exists walk, walk ∈ ground.walked ∧ walk.whole = true ∧ walk.tree.root = root ∧
    under file walk.tree.name = true
  away : ground.there (onDisk root file) = false

/-- The section was not cut again, and could be of no file that is known not to have changed. -/
structure LookedAt (ground : Ground) (earlier : Earlier) : Prop where
  root : earlier.topic.root = some earlier.own.file.root
  uncut : earlier.topic.name ∉ ground.cut.map Section.name
  unlike : forall place, place ∈ ground.unchanged -> ¬ earlier.Could place

/-- How a section is taken for one of another file than its own. -/
inductive Mistaken (ground : Ground) (earlier : Earlier) : Prop where
  /-- Its own file stands, and another it could be of was read. -/
  | forRead {other : Place} (hlooked : ground.LookedAt earlier) (hread : other ∈ ground.reads)
      (hcould : earlier.Could other) (hown : earlier.own ∉ ground.reads)
      (hstands : ¬ ground.Left earlier.own)
  /-- Its own file stands, and the first it could be of is another, which is missing. -/
  | forMissing (hlooked : ground.LookedAt earlier)
      (hother : fileOf earlier.topic.name ≠ earlier.own.file.name)
      (hmissing : ground.Missing earlier.own.file.root (fileOf earlier.topic.name))
      (hown : earlier.own ∉ ground.reads) (hstands : ¬ ground.Left earlier.own)
  /-- Its own file is gone, and another was cut into a section of its name. -/
  | byCut {other : Place} {sections : List Section} (hlost : ground.Lost earlier)
      (hread : (other, sections) ∈ ground.read)
      (hcut : earlier.topic.name ∈ sections.map Section.name)
  /-- Its own file is gone, and another it could be of has not changed. -/
  | byUnchanged {other : Place} (hlost : ground.Lost earlier) (hunchanged : other ∈ ground.unchanged)
      (hcould : earlier.Could other)
  /-- Its own file is gone, and the first it could be of is another, which is not missing. -/
  | byFirst (hlost : ground.Lost earlier)
      (hother : fileOf earlier.topic.name ≠ earlier.own.file.name)
      (hmissing : ¬ ground.Missing earlier.own.file.root (fileOf earlier.topic.name))
      (hnone : forall place, place ∈ ground.reads -> ¬ earlier.Could place)
  /-- Its own file is gone, and was only under the root of the file system. -/
  | byRoot (hlost : ground.Lost earlier)
      (hfirst : fileOf earlier.topic.name = earlier.own.file.name)
      (hroot : earlier.own.root = [])
      (honly : forall walk, walk ∈ ground.walked -> walk.whole = true ->
        walk.Holds earlier.own -> walk.relative = [])
      (hnone : forall place, place ∈ ground.reads -> ¬ earlier.Could place)

variable {ground : Ground} {earlier : Earlier}

/-!
## What a name could be of
-/

theorem anyOf_could (places : List Place) (earlier : Earlier) :
    anyOf (places.map Place.file) earlier.own.file.root earlier.topic.name = true <->
      exists place, place ∈ places ∧ earlier.Could place := by
  rw [anyOf_eq_true]
  constructor
  · intro h
    rcases h with ⟨file, hfile, hroot, hname⟩
    rcases List.mem_map.mp hfile with ⟨place, hplace, rfl⟩
    exact ⟨place, hplace, absolute_injective hroot, hname⟩
  · intro h
    rcases h with ⟨place, hplace, hcould⟩
    exists place.file
    constructor
    · exact List.mem_map.mpr ⟨place, hplace, rfl⟩
    · exact ⟨congrArg absolute hcould.root, hcould.name⟩

theorem missing_of_retirable {root name : String}
    (h : retirable ground.looked root name = some true)
    (hread : ¬ anyOf ground.looked.read root name = true) :
    ground.Missing root (fileOf name) := by
  unfold retirable at h
  rw [if_neg hread] at h
  dsimp only at h
  split at h
  next => cases h
  next hpassed =>
    rw [Bool.or_eq_true, not_or, decide_eq_true_eq, Bool.not_eq_true', Bool.not_eq_false]
      at hpassed
    split at h
    next => cases h
    next htrees =>
      have hverdict := Option.some.inj h
      rw [Bool.and_eq_true, Bool.not_eq_true'] at hverdict
      rcases List.any_eq_true.mp hverdict.1 with ⟨tree, htree, hwhole⟩
      rcases List.mem_filter.mp htree with ⟨hmem, hunder⟩
      rcases List.mem_map.mp hmem with ⟨walk, hwalk, rfl⟩
      rw [Bool.and_eq_true, decide_eq_true_eq] at hunder
      constructor
      · exact hpassed.1
      · exact hpassed.2
      · exact ⟨walk, hwalk, hwhole, hunder.1, hunder.2⟩
      · exact hverdict.2

theorem retirable_of_missing {root name : String} (h : ground.Missing root (fileOf name)) :
    retirable ground.looked root name = some true := by
  rcases h.walked with ⟨walk, hwalk, hwhole, hroot, hunder⟩
  have htree : walk.tree ∈ ground.looked.trees := List.mem_map.mpr ⟨walk, hwalk, rfl⟩
  exact retirable_of_left h.unread h.kind htree hroot hunder hwhole h.away

theorem marked_iff (hrecorded : earlier ∈ ground.recorded) :
    ground.Marked earlier <-> ground.LookedAt earlier ∧
      ((exists place, place ∈ ground.reads ∧ earlier.Could place) ∨
        ground.Missing earlier.own.file.root (fileOf earlier.topic.name)) := by
  constructor
  · intro h
    rcases h with ⟨behind, hbehind, hname, hretirable⟩
    rcases mem_gone.mp hbehind with ⟨topic, root, htopic, hroot, hcut, hunchanged, hverdict,
      hbehindName, _⟩
    rcases List.mem_map.mp htopic with ⟨other, hother, rfl⟩
    have hsame : other = earlier :=
      List.inj_on_of_nodup_map ground.apart hother hrecorded (hbehindName.symm.trans hname)
    subst hsame
    have hown := other.rooted root hroot
    subst hown
    rw [hretirable] at hverdict
    constructor
    · constructor
      · exact hroot
      · exact hcut
      · intro place hplace hcould
        have hany := (anyOf_could ground.unchanged other).mpr ⟨place, hplace, hcould⟩
        exact Bool.false_ne_true (hunchanged.symm.trans hany)
    · cases hany : anyOf ground.looked.read other.own.file.root other.topic.name with
      | true => exact Or.inl ((anyOf_could ground.reads other).mp hany)
      | false =>
          apply Or.inr
          apply missing_of_retirable hverdict
          rw [hany]
          exact Bool.false_ne_true
  · intro h
    rcases h with ⟨hlooked, hwhy⟩
    have hverdict : retirable ground.looked earlier.own.file.root earlier.topic.name =
        some true := by
      cases hwhy with
      | inl hread => exact retirable_of_read ((anyOf_could ground.reads earlier).mpr hread)
      | inr hmissing => exact retirable_of_missing hmissing
    have hunchanged :
        anyOf ground.looked.unchanged earlier.own.file.root earlier.topic.name = false := by
      rw [Bool.eq_false_iff]
      intro hany
      rcases (anyOf_could ground.unchanged earlier).mp hany with ⟨place, hplace, hcould⟩
      exact hlooked.unlike place hplace hcould
    exists ⟨earlier.topic.name, earlier.topic.current, true⟩
    constructor
    · apply mem_gone.mpr
      exact ⟨earlier.topic, _, List.mem_map.mpr ⟨earlier, hrecorded, rfl⟩, hlooked.root,
        hlooked.uncut, hunchanged, hverdict, rfl, rfl⟩
    · exact ⟨rfl, rfl⟩

theorem mem_cut {place : Place} {sections : List Section}
    (hread : (place, sections) ∈ ground.read) {name : String}
    (hname : name ∈ sections.map Section.name) : name ∈ ground.cut.map Section.name := by
  rcases List.mem_map.mp hname with ⟨named, hnamed, rfl⟩
  apply List.mem_map.mpr
  exact ⟨named, List.mem_flatMap.mpr ⟨_, hread, hnamed⟩, rfl⟩

theorem could_own (hfirst : fileOf earlier.topic.name = earlier.own.file.name) :
    earlier.Could earlier.own where
  root := rfl
  name := hfirst ▸ fileOf_mem_filesOf earlier.topic.name

theorem not_unread {place : Place} (h : place ∉ ground.unread) :
    (place.file.root, place.file.name) ∉ (ground.unread.map Place.file).map File.key := by
  intro hmem
  rcases List.mem_map.mp hmem with ⟨file, hfile, hkey⟩
  rcases List.mem_map.mp hfile with ⟨other, hother, rfl⟩
  exact h (place_of_key hkey ▸ hother)

theorem left_of_missing {place : Place}
    (hmissing : ground.Missing place.file.root place.file.name)
    (hunread : place ∉ ground.reads) (hunchanged : place ∉ ground.unchanged) :
    ground.Left place := by
  constructor
  · rcases hmissing.walked with ⟨walk, hwalk, hwhole, hroot, hunder⟩
    have hsame : place.root = walk.root := (absolute_injective hroot).symm
    exists walk
    constructor
    · exact hwalk
    · constructor
      · exact hwhole
      · cases hdisk : walk.root with
        | cons first rest =>
            exact (under_file hsame (Or.inl (by simp [hdisk]))).mp hunder
        | nil =>
            cases hrelative : walk.relative with
            | cons first rest =>
                exact (under_file hsame (Or.inr (by simp [hrelative]))).mp hunder
            | nil =>
                have hempty : walk.tree.name = "" := by
                  simp [Walk.tree, nameAt, hdisk, hrelative, joined]
                rw [hempty, under_root (hsame.trans hdisk)] at hunder
                cases hunder
  · constructor
    · exact hunread
    · constructor
      · exact hunchanged
      · intro hmem
        apply hmissing.unread
        exact List.mem_map.mpr ⟨place.file, List.mem_map.mpr ⟨place, hmem, rfl⟩, rfl⟩
  · rw [← onDisk_file]
    exact hmissing.away

theorem missing_of_lost (hlost : ground.Lost earlier)
    (hnot : ¬ (earlier.own.root = [] ∧ forall walk, walk ∈ ground.walked -> walk.whole = true ->
      walk.Holds earlier.own -> walk.relative = [])) :
    ground.Missing earlier.own.file.root earlier.own.file.name where
  unread := not_unread hlost.unfound.2
  kind := by
    rw [walkedKind_file]
    exact hlost.kind
  walked := by
    by_cases hdisk : earlier.own.root = []
    · rw [not_and] at hnot
      have hsome := hnot hdisk
      simp only [not_forall] at hsome
      rcases hsome with ⟨walk, hwalk, hwhole, hholds, hrelative⟩
      exact ⟨walk, hwalk, hwhole, congrArg absolute hholds.1.symm,
        (under_file hholds.1 (Or.inr hrelative)).mpr hholds⟩
    · rcases hlost.walked with ⟨walk, hwalk, hwhole, hholds⟩
      exact ⟨walk, hwalk, hwhole, congrArg absolute hholds.1.symm,
        (under_file hholds.1 (Or.inl (hholds.1 ▸ hdisk))).mpr hholds⟩
  away := by
    rw [onDisk_file]
    exact hlost.away

theorem mistaken_of_marked (hrecorded : earlier ∈ ground.recorded)
    (hmarked : ground.Marked earlier)
    (hnot : ¬ (ground.Uncut earlier ∨ ground.Left earlier.own)) : ground.Mistaken earlier := by
  rcases (marked_iff hrecorded).mp hmarked with ⟨hlooked, hwhy⟩
  have hstands : ¬ ground.Left earlier.own := fun hleft => hnot (Or.inr hleft)
  have hown : earlier.own ∉ ground.reads := by
    intro hread
    apply hnot
    apply Or.inl
    exact ⟨hread, fun sections hsections hname => hlooked.uncut (mem_cut hsections hname)⟩
  cases hwhy with
  | inl hread =>
      rcases hread with ⟨other, hother, hcould⟩
      exact Mistaken.forRead hlooked hother hcould hown hstands
  | inr hmissing =>
      apply Mistaken.forMissing hlooked _ hmissing hown hstands
      intro hfirst
      apply hstands
      rw [hfirst] at hmissing
      apply left_of_missing hmissing hown
      exact fun hunchanged => hlooked.unlike _ hunchanged (could_own hfirst)

theorem mistaken_of_lost (hrecorded : earlier ∈ ground.recorded) (hlost : ground.Lost earlier)
    (hnot : ¬ ground.Marked earlier) : ground.Mistaken earlier := by
  by_cases hcut : earlier.topic.name ∈ ground.cut.map Section.name
  · rcases List.mem_map.mp hcut with ⟨named, hnamed, hname⟩
    rcases List.mem_flatMap.mp hnamed with ⟨⟨other, sections⟩, hread, hsections⟩
    exact Mistaken.byCut hlost hread (List.mem_map.mpr ⟨named, hsections, hname⟩)
  by_cases hunchanged : exists other, other ∈ ground.unchanged ∧ earlier.Could other
  · rcases hunchanged with ⟨other, hother, hcould⟩
    exact Mistaken.byUnchanged hlost hother hcould
  have hlooked : ground.LookedAt earlier := by
    constructor
    · exact hlost.root
    · exact hcut
    · exact fun place hplace hcould => hunchanged ⟨place, hplace, hcould⟩
  rw [marked_iff hrecorded, not_and, not_or] at hnot
  rcases hnot hlooked with ⟨hreads, hmissing⟩
  have hnone : forall place, place ∈ ground.reads -> ¬ earlier.Could place :=
    fun place hplace hcould => hreads ⟨place, hplace, hcould⟩
  by_cases hfirst : fileOf earlier.topic.name = earlier.own.file.name
  · have hroot := Classical.not_not.mp (mt (missing_of_lost hlost) (hfirst ▸ hmissing))
    exact Mistaken.byRoot hlost hfirst hroot.1 hroot.2 hnone
  · exact Mistaken.byFirst hlost hfirst hmissing hnone

theorem not_missing_under_root (hroot : earlier.own.root = [])
    (honly : forall walk, walk ∈ ground.walked -> walk.whole = true ->
      walk.Holds earlier.own -> walk.relative = []) :
    ¬ ground.Missing earlier.own.file.root earlier.own.file.name := by
  intro hmissing
  rcases hmissing.walked with ⟨walk, hwalk, hwhole, htree, hunder⟩
  have hsame : earlier.own.root = walk.root := (absolute_injective htree).symm
  have hrelative : walk.relative = [] := by
    by_cases hrelative : walk.relative = []
    · exact hrelative
    · exact honly walk hwalk hwhole ((under_file hsame (Or.inr hrelative)).mp hunder)
  have hempty : walk.tree.name = "" := by
    simp [Walk.tree, nameAt, hrelative, joined, ← hsame, hroot]
  rw [hempty, under_root hroot] at hunder
  cases hunder

theorem wrong_of_mistaken (hrecorded : earlier ∈ ground.recorded)
    (h : ground.Mistaken earlier) :
    (ground.Marked earlier ∧ ¬ (ground.Uncut earlier ∨ ground.Left earlier.own)) ∨
      (ground.Lost earlier ∧ ¬ ground.Marked earlier) := by
  have hunseen : earlier.own ∉ ground.reads -> ¬ ground.Left earlier.own ->
      ¬ (ground.Uncut earlier ∨ ground.Left earlier.own) := by
    intro hown hstands hwhy
    cases hwhy with
    | inl huncut => exact hown huncut.read
    | inr hleft => exact hstands hleft
  rw [marked_iff hrecorded]
  cases h with
  | forRead hlooked hread hcould hown hstands =>
      exact Or.inl ⟨⟨hlooked, Or.inl ⟨_, hread, hcould⟩⟩, hunseen hown hstands⟩
  | forMissing hlooked hother hmissing hown hstands =>
      exact Or.inl ⟨⟨hlooked, Or.inr hmissing⟩, hunseen hown hstands⟩
  | byCut hlost hread hcut =>
      exact Or.inr ⟨hlost, fun hmarked => hmarked.1.uncut (mem_cut hread hcut)⟩
  | byUnchanged hlost hunchanged hcould =>
      exact Or.inr ⟨hlost, fun hmarked => hmarked.1.unlike _ hunchanged hcould⟩
  | byFirst hlost hother hmissing hnone =>
      apply Or.inr
      constructor
      · exact hlost
      · intro hmarked
        cases hmarked.2 with
        | inl hread =>
            rcases hread with ⟨place, hplace, hcould⟩
            exact hnone place hplace hcould
        | inr hmiss => exact hmissing hmiss
  | byRoot hlost hfirst hroot honly hnone =>
      apply Or.inr
      constructor
      · exact hlost
      · intro hmarked
        cases hmarked.2 with
        | inl hread =>
            rcases hread with ⟨place, hplace, hcould⟩
            exact hnone place hplace hcould
        | inr hmiss => exact not_missing_under_root hroot honly (hfirst ▸ hmiss)

theorem retires_of_not_mistaken
    (h : forall earlier, earlier ∈ ground.recorded -> ¬ ground.Mistaken earlier) :
    ground.Safe ∧ ground.Complete := by
  constructor
  · intro earlier hrecorded hmarked
    by_cases hwhy : ground.Uncut earlier ∨ ground.Left earlier.own
    · exact hwhy
    · exact absurd (mistaken_of_marked hrecorded hmarked hwhy) (h earlier hrecorded)
  · intro earlier hrecorded hlost
    by_cases hmarked : ground.Marked earlier
    · exact hmarked
    · exact absurd (mistaken_of_lost hrecorded hlost hmarked) (h earlier hrecorded)

/-!
# When names do not mislead
-/

/-- What is retired is what is gone exactly when no section is taken for another file's. -/
theorem retires_what_is_gone_iff (ground : Ground) :
    (ground.Safe ∧ ground.Complete) <->
      forall earlier, earlier ∈ ground.recorded -> ¬ ground.Mistaken earlier := by
  constructor
  · intro h earlier hrecorded hmistaken
    cases wrong_of_mistaken hrecorded hmistaken with
    | inl hwrong => exact hwrong.2 (h.1 earlier hrecorded hwrong.1)
    | inr hwrong => exact hwrong.2 (h.2 earlier hrecorded hwrong.1)
  · exact retires_of_not_mistaken

end Ground

/-!
## A file that is read whole and cut otherwise
-/

def notes : Component :=
  { text := "notes", full := by decide, noSlash := by decide, noDots := by decide }

def short : Place where
  root := [notes]
  relative := [{ text := "a.md", full := by decide, noSlash := by decide, noDots := by decide }]
  below := by simp

def long : Place where
  root := [notes]
  relative :=
    [{ text := "a.md › b.md", full := by decide, noSlash := by decide, noDots := by decide }]
  below := by simp

def headed : Earlier where
  topic := { name := "notes/a.md › b.md › Usage", current := 1, root := some "/notes" }
  own := long
  belongs := by decide +kernel
  rooted := by
    intro root hroot
    cases hroot
    decide +kernel

def namedAlone : Ground where
  read := [(short, [{ name := "notes/a.md", content := "Text." }])]
  unchanged := []
  unread := []
  walked := []
  there _ := true
  recorded := [headed]
  apart := by simp

/-- Reading a file retires a section of another that was not looked at and is on disk. -/
theorem section_of_another_is_retired :
    ¬ forall ground : Ground, ground.Safe ∧ ground.Complete := by
  intro h
  have hmarked : namedAlone.Marked headed :=
    ⟨⟨headed.topic.name, headed.topic.current, true⟩, by decide +kernel, rfl, rfl⟩
  cases (h namedAlone).1 headed (List.mem_singleton.mpr rfl) hmarked with
  | inl huncut =>
      have hread : headed.own ∉ namedAlone.reads := by decide +kernel
      exact hread huncut.read
  | inr hleft => exact absurd hleft.away (by decide)

end Ingest
end PaminMemory
