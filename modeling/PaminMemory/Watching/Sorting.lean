import Mathlib.Data.Finset.Insert
import PaminMemory.Foundation.Memo
import PaminMemory.Ingest.Names
import PaminMemory.Settings.Paths

/-!
# Sorting what changed under a followed directory

The paths of a batch of events are sorted by listing the directory each is in, once.  What a
walk lists there is changed or is a directory to walk; what no longer has its name there is
gone.
-/

namespace PaminMemory
namespace Watching

open Foundation
open Ingest (EXTENSIONS)
open Settings (OsString OsUnit osString toStr)

inductive Component where
  | rootDir
  | curDir
  | parentDir
  | normal (name : OsString)
deriving DecidableEq, Repr

def Component.asOsStr : Component -> OsString
  | rootDir => osString "/"
  | curDir => osString "."
  | parentDir => osString ".."
  | normal name => name

/-- A path, as the parts by which paths are compared. -/
abbrev Path := List Component

namespace Path

def toOsString (path : Path) : OsString :=
  match path with
  | Component.rootDir :: rest =>
      osString "/" ++ [OsUnit.char '/'].intercalate (rest.map Component.asOsStr)
  | parts => [OsUnit.char '/'].intercalate (parts.map Component.asOsStr)

def parent (path : Path) : Option Path :=
  match path.getLast? with
  | none => none
  | some Component.rootDir => none
  | some _ => some path.dropLast

def fileName (path : Path) : Option OsString :=
  match path.getLast? with
  | some (Component.normal name) => some name
  | _ => none

def extension (path : Path) : Option OsString := do
  let name ← fileName path
  let ending := name.reverse.takeWhile fun unit => unit ≠ OsUnit.char '.'
  if ending.length + 1 < name.length then some ending.reverse else none

end Path

/-- A file as an ingest names it. -/
structure File where
  name : String
  path : Path
  root : String
deriving DecidableEq, Repr

/-- The file at a path, named from a root; `none` when a component of its name is not UTF-8. -/
def file (path root : Path) : Option File := do
  let relative := (path.dropPrefix? root).getD path
  let base ←
    match root.fileName with
    | none => some []
    | some name => (toStr name).map fun name => [name]
  let components ← relative.mapM fun component => toStr component.asOsStr
  let rootStr ← toStr root.toOsString
  some { name := "/".intercalate (base ++ components), path := path, root := rootStr }

/-- Whether a walk reads a file at a path: one with an extension of `EXTENSIONS`. -/
def walkedKind (path : Path) : Bool :=
  match path.extension.bind toStr with
  | none => false
  | some extension => EXTENSIONS.any fun known => known.toList = extension.toList.map Char.toLower

/-!
## Listings
-/

inductive ErrorKind where
  | notFound
  | notADirectory
  | other
deriving DecidableEq, Repr

/-- What a walk would find directly inside a directory, and the names of everything in it. -/
structure Listing where
  listed : Finset Path
  names : Finset OsString

structure Sorted where
  changed : List File
  deleted : List File
  newDirs : List Path
deriving DecidableEq, Repr

/-!
## One batch of paths
-/

def listingOf (listed : Except ErrorKind Listing) : Option Listing :=
  match listed with
  | Except.ok listing => some listing
  | Except.error ErrorKind.notFound => some { listed := ∅, names := ∅ }
  | Except.error ErrorKind.notADirectory => some { listed := ∅, names := ∅ }
  | Except.error ErrorKind.other => none

/-- The sorting as far as it has come: what it found, and the directories it listed. -/
structure Sorting where
  sorted : Sorted
  vanished : List Path
  listings : List (Path × Option Listing)

def Sorting.empty : Sorting where
  sorted := { changed := [], deleted := [], newDirs := [] }
  vanished := []
  listings := []

def present (listing : Listing) (path : Path) : Bool :=
  match path.fileName with
  | none => false
  | some name => name ∈ listing.names

section Sorting

variable (isDir : Path -> Bool) (list : Path -> Except ErrorKind Listing) (dirs : Finset Path)
  (root : Path)

def Sorting.put (sorting : Sorting) (listing : Listing) (path : Path) : Sorting :=
  let sorted := sorting.sorted
  if path ∈ listing.listed then
    if isDir path then
      { sorting with sorted := { sorted with newDirs := sorted.newDirs ++ [path] } }
    else
      match file path root with
      | some file => { sorting with sorted := { sorted with changed := sorted.changed ++ [file] } }
      | none => sorting
  else if ¬present listing path then
    if path ∈ dirs then
      { sorting with vanished := sorting.vanished ++ [path] }
    else
      match (file path root).filter fun _ => walkedKind path with
      | some file => { sorting with sorted := { sorted with deleted := sorted.deleted ++ [file] } }
      | none => sorting
  else
    sorting

def Sorting.turn (sorting : Sorting) (path : Path) : Sorting :=
  match path.parent with
  | none => sorting
  | some parent =>
      if parent ∉ dirs then
        sorting
      else
        let (listing, listings) :=
          remembered (fun directory => listingOf (list directory)) sorting.listings parent
        match listing with
        | none => { sorting with listings := listings }
        | some listing => { sorting with listings := listings }.put isDir dirs root listing path

def sortPaths (paths : List Path) : Sorting :=
  paths.foldl (Sorting.turn isDir list dirs root) Sorting.empty

def sortBy (paths : List Path) : Sorted × List Path :=
  let sorting := sortPaths isDir list dirs root paths
  (sorting.sorted, sorting.vanished)

end Sorting

namespace Disk

end Disk

/-!
## What a listing says of a path
-/

section Verdicts

variable (isDir : Path -> Bool) (list : Path -> Except ErrorKind Listing) (dirs : Finset Path)

def seen (path : Path) : Option Listing :=
  match path.parent with
  | none => none
  | some parent => if parent ∈ dirs then listingOf (list parent) else none

def isChanged (path : Path) : Bool :=
  (seen list dirs path).any fun listing => path ∈ listing.listed ∧ ¬isDir path

def isNewDir (path : Path) : Bool :=
  (seen list dirs path).any fun listing => path ∈ listing.listed ∧ isDir path

def isVanished (path : Path) : Bool :=
  (seen list dirs path).any fun listing =>
    path ∉ listing.listed ∧ ¬present listing path ∧ path ∈ dirs

def isDeleted (path : Path) : Bool :=
  (seen list dirs path).any fun listing =>
    path ∉ listing.listed ∧ ¬present listing path ∧ path ∉ dirs ∧ walkedKind path

/-- The paths found of a kind, in the order of the events; of files, those that can be named. -/
structure Agrees (root : Path) (paths : List Path) (sorted : Sorted) (vanished : List Path) :
    Prop where
  changed : sorted.changed =
    (paths.filter (isChanged isDir list dirs)).filterMap fun path => file path root
  deleted : sorted.deleted =
    (paths.filter (isDeleted list dirs)).filterMap fun path => file path root
  newDirs : sorted.newDirs = paths.filter (isNewDir isDir list dirs)
  vanished : vanished = paths.filter (isVanished list dirs)

end Verdicts

structure Adds (before after : Sorting) (changed deleted : List File)
    (newDirs vanished : List Path) : Prop where
  changed : after.sorted.changed = before.sorted.changed ++ changed
  deleted : after.sorted.deleted = before.sorted.deleted ++ deleted
  newDirs : after.sorted.newDirs = before.sorted.newDirs ++ newDirs
  vanished : after.vanished = before.vanished ++ vanished

/-!
## One path after another
-/

section Turns

variable {isDir : Path -> Bool} {list : Path -> Except ErrorKind Listing} {dirs : Finset Path}
  {root path : Path} {sorting : Sorting} {listing : Listing} {paths : List Path}

theorem adds_nothing {listings : List (Path × Option Listing)} :
    Adds sorting { sorting with listings := listings } [] [] [] [] where
  changed := (List.append_nil _).symm
  deleted := (List.append_nil _).symm
  newDirs := (List.append_nil _).symm
  vanished := (List.append_nil _).symm

theorem adds_of_listings {after : Sorting} {changed deleted : List File}
    {newDirs vanished : List Path} {listings : List (Path × Option Listing)}
    (h : Adds { sorting with listings := listings } after changed deleted newDirs vanished) :
    Adds sorting after changed deleted newDirs vanished where
  changed := h.changed
  deleted := h.deleted
  newDirs := h.newDirs
  vanished := h.vanished

theorem adds_put (hseen : seen list dirs path = some listing) :
    Adds sorting (sorting.put isDir dirs root listing path)
      (([path].filter (isChanged isDir list dirs)).filterMap fun path => file path root)
      (([path].filter (isDeleted list dirs)).filterMap fun path => file path root)
      ([path].filter (isNewDir isDir list dirs)) ([path].filter (isVanished list dirs)) := by
  simp only [isChanged, isDeleted, isNewDir, isVanished, List.filter_cons, List.filter_nil, hseen,
    Option.any_some, decide_eq_true_eq]
  unfold Sorting.put
  rcases Decidable.em (path ∈ listing.listed) with hlisted | hlisted
  · cases hdir : isDir path with
    | true => constructor <;> simp [hlisted]
    | false =>
        cases hfile : file path root with
        | none => constructor <;> simp [hlisted, hfile]
        | some named => constructor <;> simp [hlisted, hfile]
  · cases hpresent : present listing path with
    | true => constructor <;> simp [hlisted]
    | false =>
        rcases Decidable.em (path ∈ dirs) with hwalked | hwalked
        · constructor <;> simp [hlisted, hwalked]
        · cases hkind : walkedKind path with
          | false => constructor <;> simp [hlisted, hwalked]
          | true =>
              cases hfile : file path root with
              | none => constructor <;> simp [hlisted, hwalked, hfile]
              | some named => constructor <;> simp [hlisted, hwalked, hfile, Option.filter_some]

theorem adds_turn (hmemo : Remembers (fun dir => listingOf (list dir)) sorting.listings) :
    Adds sorting (sorting.turn isDir list dirs root path)
      (([path].filter (isChanged isDir list dirs)).filterMap fun path => file path root)
      (([path].filter (isDeleted list dirs)).filterMap fun path => file path root)
      ([path].filter (isNewDir isDir list dirs)) ([path].filter (isVanished list dirs)) := by
  have hnone : forall listings, seen list dirs path = none ->
      Adds sorting { sorting with listings := listings }
      (([path].filter (isChanged isDir list dirs)).filterMap fun path => file path root)
      (([path].filter (isDeleted list dirs)).filterMap fun path => file path root)
      ([path].filter (isNewDir isDir list dirs)) ([path].filter (isVanished list dirs)) := by
    intro listings hseen
    simp only [isChanged, isDeleted, isNewDir, isVanished, List.filter_cons, List.filter_nil,
      hseen, Option.any_none, Bool.false_eq_true, if_false, List.filterMap_nil]
    exact adds_nothing
  unfold Sorting.turn
  cases hparent : path.parent with
  | none =>
      apply hnone sorting.listings
      simp only [seen, hparent]
  | some parent =>
      dsimp only
      rcases Decidable.em (parent ∈ dirs) with hwalked | hwalked
      · rw [if_neg (not_not.mpr hwalked)]
        have hanswer : (remembered (fun dir => listingOf (list dir)) sorting.listings parent).1 =
            listingOf (list parent) := remembered_answer hmemo
        rcases hkept : remembered (fun dir => listingOf (list dir)) sorting.listings parent with
          ⟨answer, listings⟩
        rw [hkept] at hanswer
        have hseen : seen list dirs path = answer := by
          simp only [seen, hparent, if_pos hwalked, ← hanswer]
        cases answer with
        | none => exact hnone listings hseen
        | some listing => exact adds_of_listings (adds_put hseen)
      · rw [if_pos hwalked]
        apply hnone sorting.listings
        simp only [seen, hparent, if_neg hwalked]

theorem adds_trans {first second third : Sorting} {changed changed' deleted deleted' : List File}
    {newDirs newDirs' vanished vanished' : List Path}
    (h : Adds first second changed deleted newDirs vanished)
    (h' : Adds second third changed' deleted' newDirs' vanished') :
    Adds first third (changed ++ changed') (deleted ++ deleted') (newDirs ++ newDirs')
      (vanished ++ vanished') where
  changed := by rw [h'.changed, h.changed, List.append_assoc]
  deleted := by rw [h'.deleted, h.deleted, List.append_assoc]
  newDirs := by rw [h'.newDirs, h.newDirs, List.append_assoc]
  vanished := by rw [h'.vanished, h.vanished, List.append_assoc]

theorem remembers_turn (h : Remembers (fun dir => listingOf (list dir)) sorting.listings) :
    Remembers (fun dir => listingOf (list dir))
      (sorting.turn isDir list dirs root path).listings := by
  have hput : forall listing (sorting : Sorting),
      (sorting.put isDir dirs root listing path).listings = sorting.listings := by
    intro listing sorting
    unfold Sorting.put
    dsimp only
    repeat' split
    all_goals rfl
  unfold Sorting.turn
  cases path.parent with
  | none => exact h
  | some parent =>
      dsimp only
      rcases Decidable.em (parent ∈ dirs) with hwalked | hwalked
      · have hkept : Remembers (fun dir => listingOf (list dir))
            (remembered (fun dir => listingOf (list dir)) sorting.listings parent).2 :=
          remembered_keeps h
        rw [if_neg (not_not.mpr hwalked)]
        rcases hmemo : remembered (fun dir => listingOf (list dir)) sorting.listings parent with
          ⟨answer, listings⟩
        rw [hmemo] at hkept
        cases answer with
        | none => exact hkept
        | some listing =>
            dsimp only
            rw [hput]
            exact hkept
      · rw [if_pos hwalked]
        exact h

theorem adds_turns (h : Remembers (fun dir => listingOf (list dir)) sorting.listings) :
    Adds sorting (paths.foldl (Sorting.turn isDir list dirs root) sorting)
      ((paths.filter (isChanged isDir list dirs)).filterMap fun path => file path root)
      ((paths.filter (isDeleted list dirs)).filterMap fun path => file path root)
      (paths.filter (isNewDir isDir list dirs)) (paths.filter (isVanished list dirs)) ∧
    Remembers (fun dir => listingOf (list dir))
      (paths.foldl (Sorting.turn isDir list dirs root) sorting).listings := by
  induction paths generalizing sorting with
  | nil => exact ⟨adds_nothing, h⟩
  | cons path rest ih =>
      have hturn : Remembers (fun dir => listingOf (list dir))
          (sorting.turn isDir list dirs root path).listings := remembers_turn h
      have hrest := ih hturn
      have hboth := adds_trans (adds_turn h) hrest.1
      simp only [← List.filterMap_append, ← List.filter_append, List.singleton_append] at hboth
      exact ⟨hboth, hrest.2⟩

theorem agrees_sortBy (isDir : Path -> Bool) (list : Path -> Except ErrorKind Listing)
    (dirs : Finset Path) (root : Path) (paths : List Path) :
    Agrees isDir list dirs root paths (sortBy isDir list dirs root paths).1
      (sortBy isDir list dirs root paths).2 := by
  have hturns : Adds Sorting.empty (sortPaths isDir list dirs root paths) _ _ _ _ ∧ _ :=
    adds_turns (remembers_nil _)
  constructor
  · exact hturns.1.changed
  · exact hturns.1.deleted
  · exact hturns.1.newDirs
  · exact hturns.1.vanished

/-!
## What is sorted where
-/

theorem path_of_file {named : File} (h : file path root = some named) : named.path = path := by
  unfold file at h
  cases hroot : root.fileName with
  | none =>
      simp only [hroot, Option.bind_eq_bind, Option.bind_eq_some_iff, Option.some.injEq] at h
      rcases h with ⟨_, _, _, _, _, _, rfl⟩
      rfl
  | some name =>
      simp only [hroot, Option.bind_eq_bind, Option.bind_eq_some_iff, Option.some.injEq] at h
      rcases h with ⟨_, _, _, _, _, _, rfl⟩
      rfl

theorem picked_of_named {picks : Path -> Bool}
    (h : path ∈ ((paths.filter picks).filterMap fun path => file path root).map File.path) :
    picks path = true := by
  rcases List.mem_map.mp h with ⟨named, hnamed, rfl⟩
  rcases List.mem_filterMap.mp hnamed with ⟨picked, hpicked, hfile⟩
  rw [path_of_file hfile]
  exact (List.mem_filter.mp hpicked).2

theorem kinds_apart (isDir : Path -> Bool) (list : Path -> Except ErrorKind Listing)
    (dirs : Finset Path) (path : Path) :
    (isChanged isDir list dirs path = true -> isDeleted list dirs path = false ∧
      isNewDir isDir list dirs path = false ∧ isVanished list dirs path = false) ∧
    (isDeleted list dirs path = true -> isNewDir isDir list dirs path = false ∧
      isVanished list dirs path = false) ∧
    (isNewDir isDir list dirs path = true -> isVanished list dirs path = false) := by
  unfold isChanged isNewDir isVanished isDeleted
  cases seen list dirs path with
  | none => simp
  | some listing =>
      simp only [Option.any_some, decide_eq_true_eq, decide_eq_false_iff_not]
      tauto

theorem no_kind_of_unseen (h : seen list dirs path = none) :
    isChanged isDir list dirs path = false ∧ isDeleted list dirs path = false ∧
      isNewDir isDir list dirs path = false ∧ isVanished list dirs path = false := by
  simp only [isChanged, isDeleted, isNewDir, isVanished, h, Option.any_none, and_self]

namespace Agrees

variable {sorted : Sorted} {vanished : List Path}

theorem mem_changed (h : Agrees isDir list dirs root paths sorted vanished)
    (hpath : path ∈ sorted.changed.map File.path) : isChanged isDir list dirs path = true := by
  rw [h.changed] at hpath
  exact picked_of_named hpath

theorem mem_deleted (h : Agrees isDir list dirs root paths sorted vanished)
    (hpath : path ∈ sorted.deleted.map File.path) : isDeleted list dirs path = true := by
  rw [h.deleted] at hpath
  exact picked_of_named hpath

theorem mem_newDirs (h : Agrees isDir list dirs root paths sorted vanished)
    (hpath : path ∈ sorted.newDirs) : isNewDir isDir list dirs path = true := by
  rw [h.newDirs] at hpath
  exact (List.mem_filter.mp hpath).2

theorem mem_vanished (h : Agrees isDir list dirs root paths sorted vanished)
    (hpath : path ∈ vanished) : isVanished list dirs path = true := by
  rw [h.vanished] at hpath
  exact (List.mem_filter.mp hpath).2

theorem perm {permuted : List Path} {sorted' : Sorted} {vanished' : List Path}
    (h : Agrees isDir list dirs root paths sorted vanished)
    (h' : Agrees isDir list dirs root permuted sorted' vanished') (hperm : paths.Perm permuted) :
    sorted.changed.Perm sorted'.changed ∧ sorted.deleted.Perm sorted'.deleted ∧
      sorted.newDirs.Perm sorted'.newDirs ∧ vanished.Perm vanished' := by
  rw [h.changed, h'.changed, h.deleted, h'.deleted, h.newDirs, h'.newDirs, h.vanished, h'.vanished]
  exact ⟨(hperm.filter _).filterMap _, (hperm.filter _).filterMap _, hperm.filter _,
    hperm.filter _⟩

theorem pairwise_disjoint (h : Agrees isDir list dirs root paths sorted vanished) :
    [sorted.changed.map File.path, sorted.deleted.map File.path, sorted.newDirs,
      vanished].Pairwise List.Disjoint := by
  simp only [List.pairwise_cons, List.mem_cons, List.not_mem_nil, or_false, forall_eq_or_imp,
    forall_eq, IsEmpty.forall_iff, implies_true, List.Pairwise.nil, and_true]
  have hapart := kinds_apart isDir list dirs
  refine ⟨⟨?_, ?_, ?_⟩, ⟨?_, ?_⟩, ?_⟩
  · intro path hleft hright
    exact Bool.false_ne_true (((hapart path).1 (h.mem_changed hleft)).1.symm.trans
      (h.mem_deleted hright))
  · intro path hleft hright
    exact Bool.false_ne_true (((hapart path).1 (h.mem_changed hleft)).2.1.symm.trans
      (h.mem_newDirs hright))
  · intro path hleft hright
    exact Bool.false_ne_true (((hapart path).1 (h.mem_changed hleft)).2.2.symm.trans
      (h.mem_vanished hright))
  · intro path hleft hright
    exact Bool.false_ne_true (((hapart path).2.1 (h.mem_deleted hleft)).1.symm.trans
      (h.mem_newDirs hright))
  · intro path hleft hright
    exact Bool.false_ne_true (((hapart path).2.1 (h.mem_deleted hleft)).2.symm.trans
      (h.mem_vanished hright))
  · intro path hleft hright
    exact Bool.false_ne_true (((hapart path).2.2 (h.mem_newDirs hleft)).symm.trans
      (h.mem_vanished hright))

end Agrees

end Turns

/--
Each kind holds, in the order of the events, what its directory's listing says is of that kind;
a path whose directory is not walked, or could not be listed, is of none, and no path is of two.
Events in another order give the same in another order, and no directory is listed twice.
-/
theorem sortBy_agrees (isDir : Path -> Bool) (list : Path -> Except ErrorKind Listing)
    (dirs : Finset Path) (root : Path) (paths : List Path) :
    let sort := sortBy isDir list dirs root
    Agrees isDir list dirs root paths (sort paths).1 (sort paths).2 ∧
    (forall path, seen list dirs path = none ->
      path ∉ (sort paths).1.changed.map File.path ∧ path ∉ (sort paths).1.deleted.map File.path ∧
        path ∉ (sort paths).1.newDirs ∧ path ∉ (sort paths).2) ∧
    [(sort paths).1.changed.map File.path, (sort paths).1.deleted.map File.path,
      (sort paths).1.newDirs, (sort paths).2].Pairwise List.Disjoint ∧
    (forall permuted, paths.Perm permuted ->
      (sort paths).1.changed.Perm (sort permuted).1.changed ∧
      (sort paths).1.deleted.Perm (sort permuted).1.deleted ∧
      (sort paths).1.newDirs.Perm (sort permuted).1.newDirs ∧
      (sort paths).2.Perm (sort permuted).2) ∧
    ((sortPaths isDir list dirs root paths).listings.map Prod.fst).Nodup := by
  intro sort
  have hagrees := agrees_sortBy isDir list dirs root paths
  refine ⟨hagrees, ?_, ?_, ?_, ?_⟩
  · intro path hunseen
    have hnone : isChanged isDir list dirs path = false ∧ isDeleted list dirs path = false ∧
        isNewDir isDir list dirs path = false ∧ isVanished list dirs path = false :=
      no_kind_of_unseen hunseen
    refine ⟨?_, ?_, ?_, ?_⟩
    · exact fun hpath => Bool.false_ne_true (hnone.1.symm.trans (hagrees.mem_changed hpath))
    · exact fun hpath => Bool.false_ne_true (hnone.2.1.symm.trans (hagrees.mem_deleted hpath))
    · exact fun hpath => Bool.false_ne_true (hnone.2.2.1.symm.trans (hagrees.mem_newDirs hpath))
    · exact fun hpath => Bool.false_ne_true (hnone.2.2.2.symm.trans (hagrees.mem_vanished hpath))
  · exact hagrees.pairwise_disjoint
  · intro permuted hperm
    exact hagrees.perm (agrees_sortBy isDir list dirs root permuted) hperm
  · have hturns : _ ∧ Remembers (fun dir => listingOf (list dir))
        (sortPaths isDir list dirs root paths).listings := adds_turns (remembers_nil _)
    exact hturns.2.once

/-!
## A name that is not text
-/

def undecodable : Path :=
  [Component.rootDir, Component.normal (osString "repo"),
    Component.normal (OsUnit.byte 0xff :: osString ".md")]

/-- A walk lists the file, and it is not returned as changed. -/
theorem undecodable_is_not_changed :
    let list : Path -> Except ErrorKind Listing := fun _ =>
      Except.ok { listed := {undecodable}, names := {OsUnit.byte 0xff :: osString ".md"} }
    let root := [Component.rootDir, Component.normal (osString "repo")]
    isChanged (fun _ => false) list {root} undecodable = true ∧
      (sortBy (fun _ => false) list {root} root [undecodable]).1.changed = [] := by
  decide +kernel

/-!
## Over a file system
-/

end Watching
end PaminMemory
