import PaminMemory.Watching.Flushing

/-!
# What a flush drops

What waits for a followed path is part of an ingest that succeeded, was found to be nothing a
walk reads, or waits for a later look.  It is none of these exactly where a step it was handed to
fails and the path is not polled.
-/

namespace PaminMemory
namespace Watching

open Foundation (each_ok each_error each_of_ok each_of_error)
open Settings (osString)

/-!
## What becomes of a change
-/

def Adoption.found (adoption : Adoption) : Option Found :=
  match adoption.first with
  | Except.error _ => none
  | Except.ok _ => adoption.second.toOption

namespace Found

def Whole (found : Found) : Prop := forall tree, tree ∈ found.trees -> tree.whole = true

def Has (found : Found) (path : Path) : Prop := exists file, file ∈ found.files ∧ file.path = path

end Found

namespace Followed

def MayRead (followed : Followed) (path : Path) : Prop :=
  followed.file = true ∨ exists parent, path.parent = some parent ∧ parent ∈ followed.dirs ∧
    (path ∈ followed.dirs ∨ (walkedKind path = true ∧ (followed.named path).isSome))

/-- A walk that met no error found nothing at a path that one reads, nor could one before. -/
structure Nothing (followed : Followed) (found : Found) (path : Path) : Prop where
  whole : found.Whole
  absent : ¬found.Has path
  noDir : path ∉ found.dirs
  never : ¬followed.MayRead path

def cameToFile (followed : Followed) (outside : Outside) : Changes :=
  let named := (followed.named followed.path).toFinset
  if outside.there then { changed := named, deleted := ∅ } else { changed := ∅, deleted := named }

/-- What a change at a path came to: the files changed, and the files gone. -/
def came (followed : Followed) (outside : Outside) (path : Path) : Changes :=
  let named := (followed.named path).toFinset
  let walked := (outside.adoption path).found.elim ∅ fun found => found.named followed.root
  let recorded := (followed.filesUnder outside path).toOption.getD ∅
  { changed :=
      (if isChanged outside.isDir outside.list followed.dirs path then named else ∅) ∪
        if isNewDir outside.isDir outside.list followed.dirs path then walked else ∅
    deleted :=
      (if isDeleted outside.list followed.dirs path then named else ∅) ∪
        if isVanished outside.list followed.dirs path then recorded else ∅ }

def cameTo (followed : Followed) (outside : Outside) (paths : List Path) : Changes :=
  if followed.file then
    followed.cameToFile outside
  else
    { changed := paths.toFinset.biUnion fun path => (followed.came outside path).changed
      deleted := paths.toFinset.biUnion fun path => (followed.came outside path).deleted }

/-- A path was decided by the listing of its directory, and where it is a directory, by a walk. -/
structure Decided (followed : Followed) (outside : Outside) (path : Path) : Prop where
  listed : forall parent, path.parent = some parent -> parent ∈ followed.dirs ->
    (listingOf (outside.list parent)).isSome
  walked : isNewDir outside.isDir outside.list followed.dirs path = true ->
    exists found, (outside.adoption path).found = some found ∧ found.Whole

end Followed

namespace Turn

def Ingested (turn : Turn) (file : File) : Prop :=
  exists found deleted, Deed.ingested turn.followed.synced found deleted ∈ turn.log ∧
    (file ∈ found.files ∨ file ∈ deleted)

/-!
## What accounts for a change
-/

/-- A path is accounted for: by an ingest, by a walk, by being held, or by a look to come. -/
inductive Accounts (followed : Followed) (turn : Turn) (path : Path) : Prop where
  | ingested (file : File) (h : turn.Ingested file) (hpath : file.path = path)
  | absent (found : Found) (deleted : Finset File) (hwhole : found.Whole)
      (hwalked : Deed.walked turn.followed.synced found ∈ turn.log)
      (h : Deed.ingested turn.followed.synced found deleted ∈ turn.log)
  | nothing (found : Found) (hwalked : Deed.walked turn.followed.synced found ∈ turn.log)
      (h : followed.Nothing found path)
  | held (file : File) (h : file ∈ turn.held) (hpath : file.path = path)
  | due (h : turn.followed.due.isSome)

structure SortsOut (followed : Followed) (outside : Outside) (turn : Turn) (path : Path) :
    Prop where
  sorted : Deed.sorted turn.followed.synced ∈ turn.log
  decided : followed.file = true ∨ followed.Decided outside path
  changed : forall file, file ∈ (followed.cameTo outside [path]).changed ->
    turn.Ingested file ∨ file ∈ turn.held
  deleted : forall file, file ∈ (followed.cameTo outside [path]).deleted ->
    turn.Ingested file ∨ file ∈ turn.held

structure Keeps (followed : Followed) (outside : Outside) (paths : List Path)
    (deleted : Finset File) (turn : Turn) : Prop where
  pending : forall path, path ∈ paths ->
    turn.Accounts followed path ∨ turn.SortsOut followed outside path
  held : forall file, file ∈ deleted -> turn.Accounts followed file.path

end Turn

/-- What is pending under a followed path, or held of it, is accounted for after a flush. -/
structure Watcher.Accounted (watcher : Watcher) (outside : SyncedPath -> Outside)
    (followed : Followed) (turn : Turn) : Prop where
  pending : forall path, path ∈ watcher.pending -> followed.covers path = true ->
    path ∈ (watcher.flush outside).1.pending ∨ turn.Accounts followed path ∨
      turn.SortsOut followed (outside followed.synced) path
  held : forall held, held ∈ watcher.held -> held.synced = followed.synced ->
    turn.Accounts followed held.file.path

def Watcher.flushOf (watcher : Watcher) (outside : SyncedPath -> Outside) (followed : Followed) :
    Turn where
  followed := followed
  held := heldOf (watcher.flush outside).1.held followed.synced
  heldUntil := (watcher.flush outside).1.heldUntil
  log := (watcher.flush outside).2.filter fun deed => deed.synced = followed.synced

/-- A flush drops nothing that waits for a followed path. -/
def Watcher.DropsNothing (watcher : Watcher) (outside : SyncedPath -> Outside)
    (followed : Followed) : Prop :=
  exists after, after ∈ (watcher.flush outside).1.followed ∧ after.synced = followed.synced ∧
    watcher.Accounted outside followed (watcher.flushOf outside after)

/-!
## Which flushes drop nothing
-/

def Outside.TakesAfresh (outside : Outside) (rescan : Bool) (paths : List Path)
    (deleted : Finset File) : Prop :=
  rescan = true ∨ (¬(paths = [] ∧ deleted = ∅) ∧
    (outside.gone = true ∨
      exists path, path ∈ paths ∧ path.fileName = some (osString ".gitignore")))

namespace Followed

section Conditions

variable (os : Bool) (workspace : Path) (outside : Outside) (followed : Followed)

def walkedDirs (isDir : Bool) (found : Found) : Finset Path :=
  if isDir then found.dirs.toFinset else followed.path.parent.toFinset

def Refused (isDir : Bool) (found : Found) : Prop :=
  os = false ∨ exists dir, dir ∈ followed.walkedDirs isDir found ∧
    workspace.isPrefixOf dir = false ∧ dir ∉ followed.dirs ∧ outside.watched dir = false

inductive Afresh (path : Path) : Prop where
  | missing (h : outside.metadata = none)
  | polled (error : String) (hfirst : outside.first = Except.error error)
      (h : followed.state = State.polling)
  | refused (isDir : Bool) (found : Found) (hmeta : outside.metadata = some isDir)
      (hfirst : outside.first = Except.ok found)
      (h : followed.Refused os workspace outside isDir found)
  | nothing (found : Found) (hfirst : outside.first = Except.ok found)
      (h : followed.Nothing found path)
  | again (found again : Found) (hfirst : outside.first = Except.ok found)
      (hsecond : outside.second = Except.ok again) (h : followed.Nothing again path)
  | ingested (found again : Found) (hfirst : outside.first = Except.ok found)
      (hsecond : outside.second = Except.ok again) (hingests : outside.ingests = Except.ok ())
      (h : again.Has path ∨ again.Whole)

def refuses (adoption : Adoption) (dir : Path) : Bool :=
  match adoption.first with
  | Except.error _ => false
  | Except.ok found =>
      ((followed.watchOne adoption.own dir).watchWalked workspace adoption.walked
        (!adoption.own.watched) found.dirs).2

/-- Whether one of the directories adopted is refused a watch, before one cannot be walked. -/
def settles (followed : Followed) : List Path -> Bool
  | [] => false
  | dir :: rest =>
      let adoption := outside.adoption dir
      let forgot := followed.forgetDirsUnder dir
      adoption.found.isSome && (forgot.refuses workspace adoption dir ||
        (forgot.adopt os workspace adoption dir).1.settles rest)

def goneDirs (paths : List Path) : List Path :=
  paths.filter (isVanished outside.list followed.dirs)

def newDirs (paths : List Path) : List Path :=
  paths.filter (isNewDir outside.isDir outside.list followed.dirs)

/-- The files under every directory gone can be told. -/
def Recorded (paths : List Path) : Prop :=
  forall dir, dir ∈ followed.goneDirs outside paths ->
    (followed.filesUnder outside dir).toOption.isSome

structure Polled (paths : List Path) : Prop where
  tree : followed.file = false
  sorts : outside.sorts = Except.ok ()
  recorded : followed.Recorded outside paths
  settles : (followed.takeVanished outside (followed.goneDirs outside paths)).1.settles os
    workspace outside (followed.newDirs outside paths) = true

structure SortEnds (paths : List Path) : Prop where
  sorts : outside.sorts = Except.ok ()
  recorded : followed.Recorded outside paths
  walked : forall dir, dir ∈ followed.newDirs outside paths -> (outside.adoption dir).found.isSome

/-!
## A flush that sorts
-/

structure Sorts (paths : List Path) (deleted : Finset File) : Prop where
  ends : followed.file = true ∨ followed.SortEnds outside paths
  decided : forall path, path ∈ paths ->
    (followed.file = true ∨ followed.Decided outside path) ∨
      exists file, file.path = path ∧ (file ∈ deleted ∨
        file ∈ (followed.cameTo outside paths).changed ∨
          file ∈ (followed.cameTo outside paths).deleted)
  applied : outside.ingests = Except.ok () ∨
    ((followed.cameTo outside paths).changed = ∅ ∧ forall file, file ∈ deleted ->
      exists gone, gone ∈ (followed.cameTo outside paths).deleted ∧ gone.path = file.path)

/-- No step that a path's changes were handed to fails, or the path is looked at again. -/
structure Meets (rescan : Bool) (paths : List Path) (deleted : Finset File) : Prop where
  afresh : outside.TakesAfresh rescan paths deleted ->
    (forall path, path ∈ paths -> followed.Afresh os workspace outside path) ∧
      forall file, file ∈ deleted -> followed.Afresh os workspace outside file.path
  sorted : ¬outside.TakesAfresh rescan paths deleted -> ¬(paths = [] ∧ deleted = ∅) ->
    followed.state = State.polling ∨ followed.Polled os workspace outside paths ∨
      followed.Sorts outside paths deleted

end Conditions

end Followed

/-- No step fails that a flush hands what waits for a followed path to, or it is polled. -/
def Watcher.Meets (watcher : Watcher) (outside : SyncedPath -> Outside) (followed : Followed) :
    Prop :=
  followed.Meets watcher.os watcher.workspace (outside followed.synced) watcher.rescan
    (watcher.pending.filter followed.covers) (heldOf watcher.held followed.synced)

namespace Followed

/-!
## What the steps come to
-/

section Steps

variable {os : Bool} {workspace : Path} {outside : Outside} {followed : Followed}

theorem adopt_answer {adoption : Adoption} {dir : Path} :
    (followed.adopt os workspace adoption dir).2.toOption =
      adoption.found.map fun found => found.named followed.root := by
  have hone : OnlyDirs followed (followed.watchOne adoption.own dir) := onlyDirs_watchOne
  unfold adopt Adoption.found
  dsimp only
  cases adoption.first with
  | error error => rfl
  | ok found =>
      have hwatched : OnlyDirs (followed.watchOne adoption.own dir)
          ((followed.watchOne adoption.own dir).watchWalked workspace adoption.walked
            (!adoption.own.watched) found.dirs).1 := onlyDirs_watchWalked
      have hroot := (same_of_onlyDirs (onlyDirs_trans hone hwatched)).root
      dsimp only
      rcases hwalked : (followed.watchOne adoption.own dir).watchWalked workspace adoption.walked
        (!adoption.own.watched) found.dirs with ⟨after, refused⟩
      rw [hwalked] at hroot
      cases adoption.second with
      | error error => rfl
      | ok again =>
          cases refused with
          | false => exact congrArg (fun root => some (again.named root)) hroot
          | true => exact congrArg (fun root => some (again.named root)) hroot

theorem adopt_state {adoption : Adoption} {dir : Path} :
    (followed.adopt os workspace adoption dir).1.state =
      if adoption.found.isSome && followed.refuses workspace adoption dir then State.polling
      else followed.state := by
  have hone : (followed.watchOne adoption.own dir).state = followed.state :=
    state_of_onlyDirs onlyDirs_watchOne
  have hwatched : forall refused dirs,
      ((followed.watchOne adoption.own dir).watchWalked workspace adoption.walked refused
        dirs).1.state = followed.state :=
    fun _ _ => (state_of_onlyDirs onlyDirs_watchWalked).trans hone
  cases hfirst : adoption.first with
  | error error => simp [adopt, Adoption.found, hfirst, hone]
  | ok found =>
      cases hsecond : adoption.second with
      | error error => simp [adopt, Adoption.found, hfirst, hsecond, hwatched, Except.toOption]
      | ok again =>
          simp only [adopt, Adoption.found, refuses, hfirst, hsecond, Except.toOption,
            Option.isSome_some, Bool.true_and]
          split
          · rfl
          · exact hwatched _ _

theorem takeNewDirs_state {newDirs : List Path} :
    (followed.takeNewDirs os workspace outside newDirs).1.state =
      if followed.settles os workspace outside newDirs then State.polling else followed.state := by
  induction newDirs generalizing followed with
  | nil => rfl
  | cons dir rest ih =>
      have hanswer : ((followed.forgetDirsUnder dir).adopt os workspace (outside.adoption dir)
          dir).2.toOption = (outside.adoption dir).found.map fun found =>
            found.named (followed.forgetDirsUnder dir).root := adopt_answer
      have hstate : ((followed.forgetDirsUnder dir).adopt os workspace (outside.adoption dir)
          dir).1.state = _ := adopt_state
      unfold takeNewDirs at ih ⊢
      rw [settles]
      cases hadopted : ((followed.forgetDirsUnder dir).adopt os workspace
        (outside.adoption dir) dir).2 with
      | error error =>
          rw [hadopted] at hanswer
          have hnone : (outside.adoption dir).found = none :=
            Option.map_eq_none_iff.mp hanswer.symm
          rw [each_of_error hadopted]
          simp only [hnone, Option.isSome_none, Bool.false_and, Bool.false_eq_true, if_false]
            at hstate ⊢
          exact hstate
      | ok files =>
          rw [hadopted] at hanswer
          rcases Option.map_eq_some_iff.mp hanswer.symm with ⟨found, hfound, _⟩
          rw [each_of_ok hadopted]
          simp only [hfound, Option.isSome_some, Bool.true_and] at hstate ⊢
          refine ih.trans ?_
          rw [hstate]
          cases (followed.forgetDirsUnder dir).refuses workspace (outside.adoption dir) dir with
          | true => simp
          | false =>
              simp only [Bool.false_or, Bool.false_eq_true, if_false]
              rfl

theorem filesUnder_of_root {before : Followed} (hroot : before.root = followed.root)
    (dir : Path) : before.filesUnder outside dir = followed.filesUnder outside dir := by
  have hnamed : before.named dir = followed.named dir := by
    unfold named
    rw [hroot]
  unfold filesUnder
  rw [hnamed]

theorem takeVanished_ok {vanished : List Path} {files : Finset File}
    (h : (followed.takeVanished outside vanished).2 = Except.ok files) :
    (forall dir, dir ∈ vanished -> (followed.filesUnder outside dir).toOption.isSome) ∧
      forall file, file ∈ files <-> exists dir, dir ∈ vanished ∧ exists found,
        (followed.filesUnder outside dir).toOption = some found ∧ file ∈ found :=
  each_ok (fun before => before.root = followed.root) (fun _ _ hroot => hroot)
    (fun _ dir hroot => congrArg Except.toOption (filesUnder_of_root hroot dir)) rfl h

theorem takeVanished_error {vanished : List Path} {error : String}
    (h : (followed.takeVanished outside vanished).2 = Except.error error) :
    exists dir, dir ∈ vanished ∧ (followed.filesUnder outside dir).toOption = none :=
  each_error (fun before => before.root = followed.root) (fun _ _ hroot => hroot)
    (fun _ dir hroot => congrArg Except.toOption (filesUnder_of_root hroot dir)) rfl h

theorem adopt_of_root {before : Followed} (hroot : before.root = followed.root) (dir : Path) :
    ((before.forgetDirsUnder dir).adopt os workspace (outside.adoption dir) dir).2.toOption =
      (outside.adoption dir).found.map fun found => found.named followed.root := by
  rw [adopt_answer]
  exact congrArg (fun root => (outside.adoption dir).found.map fun found => found.named root) hroot

/-!
## Directories that came
-/

theorem takeNewDirs_ok {newDirs : List Path} {files : Finset File}
    (h : (followed.takeNewDirs os workspace outside newDirs).2 = Except.ok files) :
    (forall dir, dir ∈ newDirs -> (outside.adoption dir).found.isSome) ∧
      forall file, file ∈ files <-> exists dir, dir ∈ newDirs ∧ exists found,
        (outside.adoption dir).found = some found ∧ file ∈ found.named followed.root := by
  have hall := each_ok (fun before => before.root = followed.root)
    (fun _ _ hroot => same_adopted.root.trans hroot)
    (fun _ dir hroot => adopt_of_root hroot dir) rfl h
  simpa using hall

theorem takeNewDirs_error {newDirs : List Path} {error : String}
    (h : (followed.takeNewDirs os workspace outside newDirs).2 = Except.error error) :
    exists dir, dir ∈ newDirs ∧ (outside.adoption dir).found = none := by
  have hsome := each_error (fun before => before.root = followed.root)
    (fun _ _ hroot => same_adopted.root.trans hroot)
    (fun _ dir hroot => adopt_of_root hroot dir) rfl h
  simpa using hsome

end Steps

/-!
## How a sorting ends
-/

section Sorts

variable {os : Bool} {workspace : Path} {outside : Outside} {followed : Followed}
  {paths : List Path}

inductive SortsTo (os : Bool) (workspace : Path) (outside : Outside) (followed : Followed)
    (paths : List Path) : Followed × Except String Changes -> Prop where
  | file (h : followed.file = true) :
      SortsTo os workspace outside followed paths
        (followed, Except.ok (followed.cameToFile outside))
  | stopped (tree : followed.file = false) (error : String)
      (h : outside.sorts = Except.error error) :
      SortsTo os workspace outside followed paths (followed, Except.error error)
  | unrecorded (tree : followed.file = false) (hsorts : outside.sorts = Except.ok ())
      (between : Followed) (error : String)
      (h : followed.takeVanished outside (followed.goneDirs outside paths) =
        (between, Except.error error)) :
      SortsTo os workspace outside followed paths (between, Except.error error)
  | unwalked (tree : followed.file = false) (hsorts : outside.sorts = Except.ok ())
      (between after : Followed) (deleted : Finset File) (error : String)
      (hgone : followed.takeVanished outside (followed.goneDirs outside paths) =
        (between, Except.ok deleted))
      (h : between.takeNewDirs os workspace outside (followed.newDirs outside paths) =
        (after, Except.error error)) :
      SortsTo os workspace outside followed paths (after, Except.error error)
  | sorted (tree : followed.file = false) (hsorts : outside.sorts = Except.ok ())
      (between after : Followed) (deleted changed : Finset File)
      (hgone : followed.takeVanished outside (followed.goneDirs outside paths) =
        (between, Except.ok deleted))
      (h : between.takeNewDirs os workspace outside (followed.newDirs outside paths) =
        (after, Except.ok changed))
      (sorted : Sorted) (vanished : List Path)
      (hagrees : Agrees outside.isDir outside.list followed.dirs followed.root paths sorted
        vanished) :
      SortsTo os workspace outside followed paths (after, Except.ok
        { changed := sorted.changed.toFinset ∪ changed
          deleted := sorted.deleted.toFinset ∪ deleted })

theorem sortsTo_sort : SortsTo os workspace outside followed paths
    (followed.sort os workspace outside paths) := by
  have hagrees := agrees_sortBy outside.isDir outside.list followed.dirs followed.root paths
  unfold sort
  cases hfile : followed.file with
  | true => exact SortsTo.file hfile
  | false =>
      rw [if_neg Bool.false_ne_true]
      cases hsorts : outside.sorts with
      | error error => exact SortsTo.stopped hfile error hsorts
      | ok value =>
          rcases hsorted : sortBy outside.isDir outside.list followed.dirs followed.root paths
            with ⟨sorted, vanished⟩
          rw [hsorted] at hagrees
          have hvanished : vanished = followed.goneDirs outside paths := hagrees.vanished
          have hnewDirs : sorted.newDirs = followed.newDirs outside paths := hagrees.newDirs
          dsimp only
          rw [hvanished, hnewDirs]
          rcases hgone : followed.takeVanished outside (followed.goneDirs outside paths) with
            ⟨between, error | deleted⟩
          · exact SortsTo.unrecorded hfile hsorts between error hgone
          · dsimp only
            rcases hnew : between.takeNewDirs os workspace outside
              (followed.newDirs outside paths) with ⟨after, error | changed⟩
            · exact SortsTo.unwalked hfile hsorts between after deleted error hgone hnew
            · exact SortsTo.sorted hfile hsorts between after deleted changed hgone hnew sorted
                vanished hagrees

theorem mem_came_changed {path : Path} {file : File} :
    file ∈ (followed.came outside path).changed <->
      (isChanged outside.isDir outside.list followed.dirs path = true ∧
        followed.named path = some file) ∨
      (isNewDir outside.isDir outside.list followed.dirs path = true ∧ exists found,
        (outside.adoption path).found = some found ∧ file ∈ found.named followed.root) := by
  unfold came
  dsimp only
  rw [Finset.mem_union]
  apply or_congr
  · split
    · next h => simp [h]
    · next h => simp [h]
  · split
    · next h =>
        cases (outside.adoption path).found with
        | none => simp [h]
        | some found => simp [h]
    · next h => simp [h]

theorem mem_came_deleted {path : Path} {file : File} :
    file ∈ (followed.came outside path).deleted <->
      (isDeleted outside.list followed.dirs path = true ∧ followed.named path = some file) ∨
      (isVanished outside.list followed.dirs path = true ∧ exists found,
        (followed.filesUnder outside path).toOption = some found ∧ file ∈ found) := by
  unfold came
  dsimp only
  rw [Finset.mem_union]
  apply or_congr
  · split
    · next h => simp [h]
    · next h => simp [h]
  · split
    · next h =>
        cases (followed.filesUnder outside path).toOption with
        | none => simp [h]
        | some found => simp [h]
    · next h => simp [h]

theorem mem_picked {picks : Path -> Bool} {file : File} :
    file ∈ (paths.filter picks).filterMap (fun path => Watching.file path followed.root) <->
      exists path, path ∈ paths ∧ picks path = true ∧ followed.named path = some file := by
  simp only [List.mem_filterMap, List.mem_filter, and_assoc, named]

theorem sort_ok {after : Followed} {changes : Changes}
    (h : followed.sort os workspace outside paths = (after, Except.ok changes)) :
    (followed.file = true ∨ followed.SortEnds outside paths) ∧
      changes = followed.cameTo outside paths := by
  have hsort : SortsTo os workspace outside followed paths _ := sortsTo_sort
  rw [h] at hsort
  cases hsort with
  | file hfile =>
      refine ⟨Or.inl hfile, ?_⟩
      simp only [cameTo, hfile, if_true]
  | sorted tree hsorts between _ deleted changed hgone hnew sorted vanished hagrees =>
      have hunder := takeVanished_ok (congrArg Prod.snd hgone)
      have hwalked := takeNewDirs_ok (congrArg Prod.snd hnew)
      have hroot : between.root = followed.root := by
        rw [show between = (followed.takeVanished outside (followed.goneDirs outside paths)).1
          from (congrArg Prod.fst hgone).symm]
        exact (same_of_onlyDirs onlyDirs_takeVanished).root
      refine ⟨Or.inr ⟨hsorts, hunder.1, hwalked.1⟩, ?_⟩
      unfold cameTo
      rw [if_neg (by simp [tree])]
      congr 1
      · ext file
        rw [Finset.mem_union, List.mem_toFinset, hagrees.changed, mem_picked, hwalked.2]
        simp only [newDirs, List.mem_filter, Finset.mem_biUnion, List.mem_toFinset,
          mem_came_changed, hroot, and_assoc, and_or_left, exists_or]
      · ext file
        rw [Finset.mem_union, List.mem_toFinset, hagrees.deleted, mem_picked, hunder.2]
        simp only [goneDirs, List.mem_filter, Finset.mem_biUnion, List.mem_toFinset,
          mem_came_deleted, and_assoc, and_or_left, exists_or]

theorem sort_error {after : Followed} {error : String}
    (h : followed.sort os workspace outside paths = (after, Except.error error)) :
    followed.file = false ∧ ¬followed.SortEnds outside paths := by
  have hsort : SortsTo os workspace outside followed paths _ := sortsTo_sort
  rw [h] at hsort
  cases hsort with
  | stopped tree _ hsorts =>
      refine ⟨tree, fun hends => ?_⟩
      rw [hends.sorts] at hsorts
      cases hsorts
  | unrecorded tree hsorts _ _ hgone =>
      refine ⟨tree, fun hends => ?_⟩
      rcases takeVanished_error (congrArg Prod.snd hgone) with ⟨dir, hdir, hnone⟩
      have hsome := hends.recorded dir hdir
      rw [hnone] at hsome
      cases hsome
  | unwalked tree hsorts between _ deleted _ hgone hnew =>
      refine ⟨tree, fun hends => ?_⟩
      rcases takeNewDirs_error (congrArg Prod.snd hnew) with ⟨dir, hdir, hnone⟩
      have hsome := hends.walked dir hdir
      rw [hnone] at hsome
      cases hsome

/-- A path comes out polled where a directory adopted settles it so, and else as it was. -/
structure Comes (os : Bool) (workspace : Path) (outside : Outside) (followed : Followed)
    (paths : List Path) (after : Followed) : Prop where
  polled : followed.Polled os workspace outside paths -> after.state = State.polling
  same : ¬followed.Polled os workspace outside paths -> after.state = followed.state

theorem comes_adopted {between after : Followed} {deleted : Finset File}
    {result : Except String (Finset File)} (tree : followed.file = false)
    (hsorts : outside.sorts = Except.ok ())
    (hgone : followed.takeVanished outside (followed.goneDirs outside paths) =
      (between, Except.ok deleted))
    (h : between.takeNewDirs os workspace outside (followed.newDirs outside paths) =
      (after, result)) :
    followed.Comes os workspace outside paths after := by
  have hunder := takeVanished_ok (congrArg Prod.snd hgone)
  have hbetween : (followed.takeVanished outside (followed.goneDirs outside paths)).1 = between :=
    congrArg Prod.fst hgone
  have hstate : between.state = followed.state := by
    rw [← hbetween]
    exact state_of_onlyDirs onlyDirs_takeVanished
  have hafter : after.state = if between.settles os workspace outside
      (followed.newDirs outside paths) then State.polling else between.state := by
    rw [← takeNewDirs_state, h]
  constructor
  · intro hpolled
    have hsettles := hpolled.settles
    rw [hbetween] at hsettles
    rw [hafter, if_pos hsettles]
  · intro hnone
    rw [hafter, if_neg, hstate]
    intro hsettles
    exact hnone ⟨tree, hsorts, hunder.1, by rw [hbetween]; exact hsettles⟩

theorem comes_sort {after : Followed} {result : Except String Changes}
    (h : followed.sort os workspace outside paths = (after, result)) :
    followed.Comes os workspace outside paths after := by
  have hsort : SortsTo os workspace outside followed paths _ := sortsTo_sort
  rw [h] at hsort
  cases hsort with
  | file hfile =>
      refine ⟨fun hpolled => ?_, fun _ => rfl⟩
      rw [hpolled.tree] at hfile
      cases hfile
  | stopped tree _ hsorts =>
      refine ⟨fun hpolled => ?_, fun _ => rfl⟩
      rw [hpolled.sorts] at hsorts
      cases hsorts
  | unrecorded tree hsorts _ _ hgone =>
      have hafter : (followed.takeVanished outside (followed.goneDirs outside paths)).1 = after :=
        congrArg Prod.fst hgone
      constructor
      · intro hpolled
        rcases takeVanished_error (congrArg Prod.snd hgone) with ⟨dir, hdir, hnone⟩
        have hsome := hpolled.recorded dir hdir
        rw [hnone] at hsome
        cases hsome
      · intro _
        rw [← hafter]
        exact state_of_onlyDirs onlyDirs_takeVanished
  | unwalked tree hsorts _ _ _ _ hgone hnew => exact comes_adopted tree hsorts hgone hnew
  | sorted tree hsorts _ _ _ _ hgone hnew => exact comes_adopted tree hsorts hgone hnew

end Sorts

/-!
## A path that is walked afresh
-/

section Walks

variable {os : Bool} {workspace : Path} {outside : Outside} {followed : Followed}

theorem due_isSome : followed.due.isSome = true <->
    followed.state = State.polling ∨ followed.state = State.missing := by
  unfold due
  cases followed.state with
  | starting => simp
  | watching => simp
  | polling => simp
  | missing => simp

theorem due_of_comes {after : Followed} {paths : List Path}
    (hstate : followed.state ≠ State.missing)
    (h : followed.Comes os workspace outside paths after) :
    after.due.isSome = true <->
      followed.state = State.polling ∨ followed.Polled os workspace outside paths := by
  rw [due_isSome]
  rcases Classical.em (followed.Polled os workspace outside paths) with hpolled | hpolled
  · simp [h.polled hpolled, hpolled]
  · simp [h.same hpolled, hpolled, hstate]

theorem watchDirs_due {dirs : Finset Path} :
    (followed.watchDirs os workspace outside dirs).due.isSome = true <->
      os = false ∨ exists dir, dir ∈ dirs ∧ workspace.isPrefixOf dir = false ∧
        dir ∉ followed.dirs ∧ outside.watched dir = false := by
  have hrefused : ((dirs.filter fun dir => ¬workspace.isPrefixOf dir).filter fun dir =>
      dir ∈ followed.dirs ∨ outside.watched dir = true) ≠
        (dirs.filter fun dir => ¬workspace.isPrefixOf dir) <->
      exists dir, dir ∈ dirs ∧ workspace.isPrefixOf dir = false ∧
        dir ∉ followed.dirs ∧ outside.watched dir = false := by
    rw [Ne, Finset.filter_eq_self]
    simp only [Finset.mem_filter, not_forall, not_or, Bool.not_eq_true, exists_prop, and_assoc]
  rw [due_isSome, ← hrefused]
  unfold watchDirs settle
  dsimp only
  cases os with
  | false => simp
  | true =>
      split
      · next h => simpa using h
      · next h => simpa using h

theorem synced_watchDirs {dirs : Finset Path} :
    (followed.watchDirs os workspace outside dirs).synced = followed.synced := rfl

theorem catchUp_walked {found : Found} :
    Deed.walked followed.synced found ∈ (followed.catchUp os workspace outside).2 <->
      outside.metadata ≠ none ∧ (outside.first = Except.ok found ∨
        exists before, outside.first = Except.ok before ∧ outside.second = Except.ok found) := by
  unfold catchUp ingest
  cases outside.metadata with
  | none => simp
  | some isDir =>
      cases outside.first with
      | error error => simp
      | ok before =>
          cases outside.second with
          | error error => simp [synced_watchDirs, eq_comm (a := found)]
          | ok again =>
              cases outside.ingests with
              | error error => simp [synced_watchDirs, eq_comm (a := found)]
              | ok value => simp [synced_watchDirs, eq_comm (a := found)]

theorem catchUp_ingested {found : Found} {deleted : Finset File} :
    Deed.ingested followed.synced found deleted ∈ (followed.catchUp os workspace outside).2 <->
      outside.metadata ≠ none ∧ deleted = ∅ ∧ outside.ingests = Except.ok () ∧
        exists before, outside.first = Except.ok before ∧ outside.second = Except.ok found := by
  unfold catchUp ingest
  cases outside.metadata with
  | none => simp
  | some isDir =>
      cases outside.first with
      | error error => simp
      | ok before =>
          cases outside.second with
          | error error => simp
          | ok again =>
              cases outside.ingests with
              | error error => simp
              | ok value => simp [synced_watchDirs, eq_comm (a := found), and_comm]

theorem catchUp_sorted {synced : SyncedPath} :
    Deed.sorted synced ∉ (followed.catchUp os workspace outside).2 := by
  unfold catchUp ingest
  cases outside.metadata with
  | none => simp
  | some isDir =>
      cases outside.first with
      | error error => simp
      | ok before =>
          cases outside.second with
          | error error => simp
          | ok again =>
              cases outside.ingests with
              | error error => simp
              | ok value => simp

theorem catchUp_due (hstate : followed.state ≠ State.missing) :
    (followed.catchUp os workspace outside).1.due.isSome = true <->
      outside.metadata = none ∨
      (followed.state = State.polling ∧ exists error, outside.first = Except.error error) ∨
      exists isDir found, outside.metadata = some isDir ∧ outside.first = Except.ok found ∧
        followed.Refused os workspace outside isDir found := by
  unfold catchUp
  cases outside.metadata with
  | none => simp [due]
  | some isDir =>
      cases outside.first with
      | error error => simp [due_isSome, hstate]
      | ok before =>
          have hdue : ({ followed with file := !isDir }.watchDirs os workspace outside
              (followed.walkedDirs isDir before)).due.isSome = true <->
                followed.Refused os workspace outside isDir before := watchDirs_due
          have hdirs : (if (!isDir) = true then followed.path.parent.toFinset
              else before.dirs.toFinset) = followed.walkedDirs isDir before := by
            unfold walkedDirs
            cases isDir with
            | false => rfl
            | true => rfl
          dsimp only
          rw [hdirs]
          cases outside.second with
          | error error => simpa using hdue
          | ok again => simpa using hdue

def takenAfresh (os : Bool) (workspace : Path) (outside : Outside) (followed : Followed) : Turn :=
  { followed := (followed.catchUp os workspace outside).1, held := ∅, heldUntil := none
    log := (followed.catchUp os workspace outside).2 }

theorem accounts_takenAfresh {path : Path} (hstate : followed.state ≠ State.missing) :
    (followed.takenAfresh os workspace outside).Accounts followed path <->
      followed.Afresh os workspace outside path := by
  have hsynced : (followed.takenAfresh os workspace outside).followed.synced = followed.synced :=
    synced_catchUp
  constructor
  · intro h
    cases h with
    | ingested file h hpath =>
        rcases h with ⟨found, deleted, hdeed, hin⟩
        rw [hsynced] at hdeed
        rcases catchUp_ingested.mp hdeed with ⟨_, rfl, hingests, before, hfirst, hsecond⟩
        have hfile : file ∈ found.files := hin.resolve_right (Finset.notMem_empty file)
        exact Afresh.ingested before found hfirst hsecond hingests (Or.inl ⟨file, hfile, hpath⟩)
    | absent found deleted hwhole hwalked h =>
        rw [hsynced] at h
        rcases catchUp_ingested.mp h with ⟨_, _, hingests, before, hfirst, hsecond⟩
        exact Afresh.ingested before found hfirst hsecond hingests (Or.inr hwhole)
    | nothing found hwalked h =>
        rw [hsynced] at hwalked
        rcases (catchUp_walked.mp hwalked).2 with hfirst | ⟨before, hfirst, hsecond⟩
        · exact Afresh.nothing found hfirst h
        · exact Afresh.again before found hfirst hsecond h
    | held file h hpath => exact absurd h (Finset.notMem_empty file)
    | due h =>
        rcases (catchUp_due hstate).mp h with hmissing | ⟨hpolling, error, hfirst⟩ |
          ⟨isDir, found, hmeta, hfirst, hrefused⟩
        · exact Afresh.missing hmissing
        · exact Afresh.polled error hfirst hpolling
        · exact Afresh.refused isDir found hmeta hfirst hrefused
  · intro h
    cases hmeta : outside.metadata with
    | none => exact Turn.Accounts.due ((catchUp_due hstate).mpr (Or.inl hmeta))
    | some isDir =>
        have hthere : outside.metadata ≠ none := by simp [hmeta]
        cases h with
        | missing h => exact absurd h hthere
        | polled error hfirst h =>
            exact Turn.Accounts.due
              ((catchUp_due hstate).mpr (Or.inr (Or.inl ⟨h, error, hfirst⟩)))
        | refused isDir found hmeta hfirst h =>
            exact Turn.Accounts.due
              ((catchUp_due hstate).mpr (Or.inr (Or.inr ⟨isDir, found, hmeta, hfirst, h⟩)))
        | nothing found hfirst h =>
            apply Turn.Accounts.nothing found _ h
            rw [hsynced]
            exact catchUp_walked.mpr ⟨hthere, Or.inl hfirst⟩
        | again before found hfirst hsecond h =>
            apply Turn.Accounts.nothing found _ h
            rw [hsynced]
            exact catchUp_walked.mpr ⟨hthere, Or.inr ⟨before, hfirst, hsecond⟩⟩
        | ingested before found hfirst hsecond hingests h =>
            have hdeed : Deed.ingested (followed.takenAfresh os workspace outside).followed.synced
                found ∅ ∈ (followed.takenAfresh os workspace outside).log := by
              rw [hsynced]
              exact catchUp_ingested.mpr ⟨hthere, rfl, hingests, before, hfirst, hsecond⟩
            rcases h with ⟨file, hfile, hpath⟩ | hwhole
            · exact Turn.Accounts.ingested file ⟨found, ∅, hdeed, Or.inl hfile⟩ hpath
            · apply Turn.Accounts.absent found ∅ hwhole _ hdeed
              rw [hsynced]
              exact catchUp_walked.mpr ⟨hthere, Or.inr ⟨before, hfirst, hsecond⟩⟩

end Walks

/-!
## What is handed to an ingest
-/

section Handling

variable {outside : Outside} {followed : Followed} {changes : Changes} {deleted : Finset File}

theorem handle_followed : (followed.handle outside changes deleted).followed = followed := by
  unfold handle
  dsimp only
  split
  · rfl
  · rfl

theorem handle_sorted :
    Deed.sorted followed.synced ∈ (followed.handle outside changes deleted).log := by
  unfold handle
  dsimp only
  split
  · split
    · simp
    · simp
  · simp

theorem handle_walked {synced : SyncedPath} {found : Found} :
    Deed.walked synced found ∉ (followed.handle outside changes deleted).log := by
  unfold handle ingest
  dsimp only
  cases outside.ingests with
  | error error =>
      split
      · split
        · simp
        · simp
      · simp
  | ok value =>
      split
      · split
        · simp
        · simp
      · simp

theorem handle_held {file : File} : file ∈ (followed.handle outside changes deleted).held <->
    changes.changed = ∅ ∧ file ∈ changes.deleted := by
  unfold handle
  dsimp only
  split
  · next h => simp [h.1]
  · next h =>
      rw [not_and, not_not] at h
      constructor
      · intro hfile
        exact absurd hfile (Finset.notMem_empty file)
      · rintro ⟨hchanged, hfile⟩
        rw [h hchanged] at hfile
        exact hfile

theorem handle_ingested {file : File} :
    (followed.handle outside changes deleted).Ingested file <->
      outside.ingests = Except.ok () ∧ (file ∈ deleted ∨ file ∈ changes.changed ∨
        (file ∈ changes.deleted ∧ changes.changed ≠ ∅)) := by
  unfold Turn.Ingested
  rw [handle_followed]
  unfold handle ingest
  dsimp only
  cases outside.ingests with
  | error error =>
      split
      · split
        · simp
        · simp
      · simp
  | ok value =>
      split
      · next h =>
          split
          · next hnone => simp [h.1, hnone]
          · next hsome => simp [h.1, Found.of]
      · next h =>
          rw [not_and, not_not] at h
          rcases Decidable.em (changes.changed = ∅) with hchanged | hchanged
          · simp [hchanged, h hchanged, Found.of]
          · simp [hchanged, Found.of]
            tauto

end Handling

/-!
## What a sorting drops
-/

section Sortings

variable {os : Bool} {workspace : Path} {outside : Outside} {followed : Followed}
  {paths : List Path} {deleted : Finset File}

theorem mem_cameTo {path : Path} (hpath : path ∈ paths) {file : File} :
    (file ∈ (followed.cameTo outside [path]).changed ->
      file ∈ (followed.cameTo outside paths).changed) ∧
    (file ∈ (followed.cameTo outside [path]).deleted ->
      file ∈ (followed.cameTo outside paths).deleted) := by
  unfold cameTo
  cases followed.file with
  | true => exact ⟨id, id⟩
  | false =>
      simp only [Bool.false_eq_true, if_false, List.toFinset_cons, List.toFinset_nil,
        Finset.mem_biUnion, Finset.mem_insert, Finset.notMem_empty, or_false, exists_eq_left,
        List.mem_toFinset]
      exact ⟨fun h => ⟨path, hpath, h⟩, fun h => ⟨path, hpath, h⟩⟩

theorem changed_of_cameTo (hpaths : paths ≠ []) {file : File}
    (h : file ∈ (followed.cameTo outside paths).changed) :
    exists path, path ∈ paths ∧ file ∈ (followed.cameTo outside [path]).changed := by
  unfold cameTo at h ⊢
  cases hfile : followed.file with
  | true =>
      rw [hfile] at h
      rcases List.exists_mem_of_ne_nil paths hpaths with ⟨path, hpath⟩
      exact ⟨path, hpath, h⟩
  | false =>
      rw [hfile] at h
      simpa using h

def sortedTurn (os : Bool) (workspace : Path) (outside : Outside) (followed : Followed)
    (paths : List Path) (deleted : Finset File) : Turn :=
  match followed.sort os workspace outside paths with
  | (followed, Except.error error) =>
      { followed := followed, held := ∅, heldUntil := none
        log := [Deed.failed followed.synced error] }
  | (followed, Except.ok changes) => followed.handle outside changes deleted

theorem accounts_handle {after : Followed} {changes : Changes} {path : Path}
    (hdue : after.due.isSome = false) :
    (after.handle outside changes deleted).Accounts followed path <->
      exists file, file.path = path ∧
        ((after.handle outside changes deleted).Ingested file ∨
          file ∈ (after.handle outside changes deleted).held) := by
  constructor
  · intro h
    cases h with
    | ingested file h hpath => exact ⟨file, hpath, Or.inl h⟩
    | absent found deleted hwhole hwalked h => exact absurd hwalked handle_walked
    | nothing found hwalked h => exact absurd hwalked handle_walked
    | held file h hpath => exact ⟨file, hpath, Or.inr h⟩
    | due h =>
        rw [handle_followed, hdue] at h
        cases h
  · rintro ⟨file, hpath, h | h⟩
    · exact Turn.Accounts.ingested file h hpath
    · exact Turn.Accounts.held file h hpath

theorem sortsOut_handle {after : Followed} {changes : Changes} {path : Path} :
    (after.handle outside changes deleted).SortsOut followed outside path <->
      (followed.file = true ∨ followed.Decided outside path) ∧
      (forall file, file ∈ (followed.cameTo outside [path]).changed ->
        (after.handle outside changes deleted).Ingested file ∨
          file ∈ (after.handle outside changes deleted).held) ∧
      forall file, file ∈ (followed.cameTo outside [path]).deleted ->
        (after.handle outside changes deleted).Ingested file ∨
          file ∈ (after.handle outside changes deleted).held := by
  constructor
  · intro h
    exact ⟨h.decided, h.changed, h.deleted⟩
  · rintro ⟨hdecided, hchanged, hdeleted⟩
    refine ⟨?_, hdecided, hchanged, hdeleted⟩
    rw [handle_followed]
    exact handle_sorted

theorem held_of_taken {after : Followed} {changes : Changes} {file : File}
    (hfails : outside.ingests ≠ Except.ok ())
    (h : (after.handle outside changes deleted).Ingested file ∨
      file ∈ (after.handle outside changes deleted).held) :
    changes.changed = ∅ ∧ file ∈ changes.deleted := by
  rcases h with hingested | hheld
  · exact absurd (handle_ingested.mp hingested).1 hfails
  · exact handle_held.mp hheld

theorem taken_of_applied {after : Followed} {changes : Changes} {file : File}
    (happlied : outside.ingests = Except.ok () ∨ changes.changed = ∅)
    (h : file ∈ changes.changed ∨ file ∈ changes.deleted) :
    (after.handle outside changes deleted).Ingested file ∨
      file ∈ (after.handle outside changes deleted).held := by
  rw [handle_ingested, handle_held]
  rcases Decidable.em (changes.changed = ∅) with hchanged | hchanged
  · rcases h with hfile | hfile
    · rw [hchanged] at hfile
      exact absurd hfile (Finset.notMem_empty file)
    · exact Or.inr ⟨hchanged, hfile⟩
  · have hingests := happlied.resolve_right hchanged
    rcases h with hfile | hfile
    · exact Or.inl ⟨hingests, Or.inr (Or.inl hfile)⟩
    · exact Or.inl ⟨hingests, Or.inr (Or.inr ⟨hfile, hchanged⟩)⟩

theorem keeps_of_sorts {after : Followed} (h : followed.Sorts outside paths deleted) :
    Turn.Keeps followed outside paths deleted
      (after.handle outside (followed.cameTo outside paths) deleted) := by
  have htaken : forall file, file ∈ (followed.cameTo outside paths).changed ∨
      file ∈ (followed.cameTo outside paths).deleted ->
      (after.handle outside (followed.cameTo outside paths) deleted).Ingested file ∨
        file ∈ (after.handle outside (followed.cameTo outside paths) deleted).held :=
    fun _ => taken_of_applied (h.applied.imp_right And.left)
  have haccounts : forall file,
      (after.handle outside (followed.cameTo outside paths) deleted).Ingested file ∨
        file ∈ (after.handle outside (followed.cameTo outside paths) deleted).held ->
      (after.handle outside (followed.cameTo outside paths) deleted).Accounts followed
        file.path := by
    rintro file (hingested | hheld)
    · exact Turn.Accounts.ingested file hingested rfl
    · exact Turn.Accounts.held file hheld rfl
  have hdeleted : forall file, file ∈ deleted ->
      (after.handle outside (followed.cameTo outside paths) deleted).Accounts followed
        file.path := by
    intro file hfile
    rcases h.applied with hingests | ⟨_, hagain⟩
    · exact haccounts file (Or.inl (handle_ingested.mpr ⟨hingests, Or.inl hfile⟩))
    · rcases hagain file hfile with ⟨gone, hgone, hpath⟩
      rw [← hpath]
      exact haccounts gone (htaken gone (Or.inr hgone))
  refine ⟨?_, hdeleted⟩
  intro path hpath
  rcases h.decided path hpath with hdecided | ⟨file, rfl, hfile | hfile⟩
  · refine Or.inr (sortsOut_handle.mpr ⟨hdecided, ?_, ?_⟩)
    · exact fun file hfile => htaken file (Or.inl ((mem_cameTo hpath).1 hfile))
    · exact fun file hfile => htaken file (Or.inr ((mem_cameTo hpath).2 hfile))
  · exact Or.inl (hdeleted file hfile)
  · exact Or.inl (haccounts file (htaken file hfile))

theorem sorts_of_keeps {after : Followed} (hdue : after.due.isSome = false)
    (hends : followed.file = true ∨ followed.SortEnds outside paths)
    (hsome : ¬(paths = [] ∧ deleted = ∅))
    (h : Turn.Keeps followed outside paths deleted
      (after.handle outside (followed.cameTo outside paths) deleted)) :
    followed.Sorts outside paths deleted := by
  have hheld : outside.ingests ≠ Except.ok () -> forall file, file ∈ deleted ->
      (followed.cameTo outside paths).changed = ∅ ∧
        exists gone, gone ∈ (followed.cameTo outside paths).deleted ∧ gone.path = file.path := by
    intro hfails file hfile
    rcases (accounts_handle hdue).mp (h.held file hfile) with ⟨gone, hpath, htaken⟩
    have hgone := held_of_taken hfails htaken
    exact ⟨hgone.1, gone, hgone.2, hpath⟩
  refine ⟨hends, ?_, ?_⟩
  · intro path hpath
    rcases h.pending path hpath with haccounts | hsorted
    · rcases (accounts_handle hdue).mp haccounts with ⟨file, hfile, htaken⟩
      refine Or.inr ⟨file, hfile, ?_⟩
      rw [handle_ingested, handle_held] at htaken
      tauto
    · exact Or.inl (sortsOut_handle.mp hsorted).1
  · rcases Classical.em (outside.ingests = Except.ok ()) with hingests | hfails
    · exact Or.inl hingests
    refine Or.inr ⟨?_, fun file hfile => (hheld hfails file hfile).2⟩
    by_contra hchanged
    -- a file to read was held again by nobody, so that it or what was held is dropped
    rcases Finset.nonempty_iff_ne_empty.mpr hchanged with ⟨file, hfile⟩
    have hnone : deleted = ∅ := by
      by_contra hdeleted
      rcases Finset.nonempty_iff_ne_empty.mpr hdeleted with ⟨gone, hgone⟩
      exact hchanged (hheld hfails gone hgone).1
    have hpaths : paths ≠ [] := fun hnil => hsome ⟨hnil, hnone⟩
    rcases changed_of_cameTo hpaths hfile with ⟨path, hpath, hcame⟩
    rcases h.pending path hpath with haccounts | hsorted
    · rcases (accounts_handle hdue).mp haccounts with ⟨_, _, htaken⟩
      exact hchanged (held_of_taken hfails htaken).1
    · exact hchanged (held_of_taken hfails ((sortsOut_handle.mp hsorted).2.1 file hcame)).1

theorem not_accounts_failed {turn : Turn} {synced : SyncedPath} {error : String} {path : Path}
    (hlog : turn.log = [Deed.failed synced error]) (hheld : turn.held = ∅)
    (hdue : turn.followed.due.isSome = false) : ¬turn.Accounts followed path := by
  intro h
  cases h with
  | ingested file h hpath =>
      rcases h with ⟨found, deleted, hdeed, _⟩
      simp [hlog] at hdeed
  | absent found deleted hwhole hwalked h => simp [hlog] at hwalked
  | nothing found hwalked h => simp [hlog] at hwalked
  | held file h hpath => simp [hheld] at h
  | due h =>
      rw [hdue] at h
      cases h

theorem keeps_of_due {turn : Turn} (hdue : turn.followed.due.isSome = true) :
    Turn.Keeps followed outside paths deleted turn where
  pending _ _ := Or.inl (Turn.Accounts.due hdue)
  held _ _ := Turn.Accounts.due hdue

theorem not_keeps_failed {turn : Turn} {synced : SyncedPath} {error : String}
    (hsome : ¬(paths = [] ∧ deleted = ∅)) (hlog : turn.log = [Deed.failed synced error])
    (hheld : turn.held = ∅) (hdue : turn.followed.due.isSome = false) :
    ¬Turn.Keeps followed outside paths deleted turn := by
  intro h
  apply hsome
  constructor
  · apply List.eq_nil_iff_forall_not_mem.mpr
    intro path hpath
    rcases h.pending path hpath with haccounts | hsorted
    · exact not_accounts_failed hlog hheld hdue haccounts
    · have hdeed := hsorted.sorted
      simp [hlog] at hdeed
  · apply Finset.eq_empty_iff_forall_notMem.mpr
    intro file hfile
    exact not_accounts_failed hlog hheld hdue (h.held file hfile)

theorem keeps_sortedTurn (hstate : followed.state ≠ State.missing)
    (hsome : ¬(paths = [] ∧ deleted = ∅)) :
    Turn.Keeps followed outside paths deleted
        (followed.sortedTurn os workspace outside paths deleted) <->
      followed.state = State.polling ∨ followed.Polled os workspace outside paths ∨
        followed.Sorts outside paths deleted := by
  rw [← or_assoc]
  unfold sortedTurn
  rcases hsort : followed.sort os workspace outside paths with ⟨after, error | changes⟩
  · rw [← due_of_comes hstate (comes_sort hsort)]
    cases hdue : after.due.isSome with
    | true => simpa using keeps_of_due hdue
    | false =>
        have hnot : ¬followed.Sorts outside paths deleted := by
          intro h
          rcases h.ends with hfile | hends
          · rw [(sort_error hsort).1] at hfile
            cases hfile
          · exact (sort_error hsort).2 hends
        simpa [hnot] using not_keeps_failed hsome rfl rfl hdue
  · rw [← due_of_comes hstate (comes_sort hsort)]
    rcases sort_ok hsort with ⟨hends, rfl⟩
    dsimp only
    cases hdue : after.due.isSome with
    | true =>
        have hafter : (after.handle outside (followed.cameTo outside paths) deleted).followed =
            after := handle_followed
        rw [← hafter] at hdue
        simpa using keeps_of_due hdue
    | false =>
        simp only [Bool.false_eq_true, false_or]
        exact ⟨sorts_of_keeps hdue hends hsome, keeps_of_sorts⟩

end Sortings

/-!
## One path of a flush
-/

section Turns

variable {os rescan : Bool} {workspace : Path} {outside : Outside} {followed : Followed}
  {paths : List Path} {deleted : Finset File}

theorem turn_of_takesAfresh (h : outside.TakesAfresh rescan paths deleted) :
    followed.turn os workspace rescan outside paths deleted =
      followed.takenAfresh os workspace outside := by
  unfold turn
  dsimp only
  split
  · rfl
  · next hrescan =>
      rcases h with h | ⟨hsome, h⟩
      · exact absurd h hrescan
      · rw [if_neg hsome, if_pos (by simpa using h)]
        rfl

theorem turn_of_sorted (h : ¬outside.TakesAfresh rescan paths deleted)
    (hsome : ¬(paths = [] ∧ deleted = ∅)) :
    followed.turn os workspace rescan outside paths deleted =
      followed.sortedTurn os workspace outside paths deleted := by
  unfold turn
  dsimp only
  rw [if_neg (fun hrescan => h (Or.inl hrescan)), if_neg hsome, if_neg]
  · rfl
  · intro hafresh
    exact h (Or.inr ⟨hsome, by simpa using hafresh⟩)

theorem keeps_turn (hstate : followed.state ≠ State.missing) :
    Turn.Keeps followed outside paths deleted
        (followed.turn os workspace rescan outside paths deleted) <->
      followed.Meets os workspace outside rescan paths deleted := by
  rcases Classical.em (outside.TakesAfresh rescan paths deleted) with hafresh | hafresh
  · rw [turn_of_takesAfresh hafresh]
    constructor
    · intro h
      refine ⟨fun _ => ⟨fun path hpath => ?_, fun file hfile => ?_⟩,
        fun hnot => absurd hafresh hnot⟩
      · rcases h.pending path hpath with haccounts | hsorted
        · exact (accounts_takenAfresh hstate).mp haccounts
        · exact absurd hsorted.sorted catchUp_sorted
      · exact (accounts_takenAfresh hstate).mp (h.held file hfile)
    · intro h
      constructor
      · intro path hpath
        exact Or.inl ((accounts_takenAfresh hstate).mpr ((h.afresh hafresh).1 path hpath))
      · intro file hfile
        exact (accounts_takenAfresh hstate).mpr ((h.afresh hafresh).2 file hfile)
  · rcases Classical.em (paths = [] ∧ deleted = ∅) with hnone | hsome
    · constructor
      · intro _
        exact ⟨fun h => absurd h hafresh, fun _ h => absurd hnone h⟩
      · intro _
        rw [hnone.1, hnone.2]
        constructor
        · intro path hpath
          cases hpath
        · intro file hfile
          exact absurd hfile (Finset.notMem_empty file)
    · rw [turn_of_sorted hafresh hsome, keeps_sortedTurn hstate hsome]
      exact ⟨fun h => ⟨fun h' => absurd h' hafresh, fun _ _ => h⟩,
        fun h => h.sorted hafresh hsome⟩

end Turns

end Followed

/-!
## Over a whole flush
-/

section Flushes

variable {os rescan : Bool} {workspace : Path} {outside : Outside} {followed : Followed}
  {paths : List Path} {deleted : Finset File} {answers : SyncedPath -> Outside}
  {pending : List Path} {held : Finset Held} {rest : List Followed}

theorem ingest_synced {found : Found} {deed : Deed}
    (h : deed ∈ followed.ingest outside found deleted) : deed.synced = followed.synced := by
  unfold Followed.ingest at h
  cases hingests : outside.ingests with
  | error error =>
      rw [hingests] at h
      rw [List.mem_singleton.mp h]
      rfl
  | ok value =>
      rw [hingests] at h
      rw [List.mem_singleton.mp h]
      rfl

theorem catchUp_synced {deed : Deed} (h : deed ∈ (followed.catchUp os workspace outside).2) :
    deed.synced = followed.synced := by
  unfold Followed.catchUp at h
  cases hmeta : outside.metadata with
  | none => simp [hmeta] at h
  | some isDir =>
      cases hfirst : outside.first with
      | error error =>
          simp only [hmeta, hfirst, List.mem_singleton] at h
          rw [h]
          rfl
      | ok found =>
          cases hsecond : outside.second with
          | error error =>
              simp only [hmeta, hfirst, hsecond, List.mem_cons, List.not_mem_nil, or_false] at h
              rcases h with rfl | rfl
              · rfl
              · rfl
          | ok again =>
              simp only [hmeta, hfirst, hsecond, List.mem_cons] at h
              rcases h with rfl | rfl | h
              · rfl
              · rfl
              · exact ingest_synced h

theorem handle_synced {changes : Changes} {deed : Deed}
    (h : deed ∈ (followed.handle outside changes deleted).log) :
    deed.synced = followed.synced := by
  have hall : forall found deleted, deed ∈ [Deed.sorted followed.synced] ++
      followed.ingest outside found deleted -> deed.synced = followed.synced := by
    intro found deleted hdeed
    rcases List.mem_append.mp hdeed with hsorted | hingest
    · rw [List.mem_singleton.mp hsorted]
      rfl
    · exact ingest_synced hingest
  unfold Followed.handle at h
  dsimp only at h
  split at h
  · split at h
    · rw [List.mem_singleton.mp h]
      rfl
    · exact hall _ _ h
  · exact hall _ _ h

theorem turn_synced {deed : Deed}
    (h : deed ∈ (followed.turn os workspace rescan outside paths deleted).log) :
    deed.synced = followed.synced := by
  rcases Classical.em (outside.TakesAfresh rescan paths deleted) with hafresh | hafresh
  · rw [Followed.turn_of_takesAfresh hafresh] at h
    exact catchUp_synced h
  · rcases Classical.em (paths = [] ∧ deleted = ∅) with hnone | hsome
    · unfold Followed.turn at h
      rw [if_neg (fun hrescan => hafresh (Or.inl hrescan)), if_pos hnone] at h
      cases h
    · rw [Followed.turn_of_sorted hafresh hsome] at h
      have hsame : Same followed (followed.sort os workspace outside paths).1 := same_sort
      unfold Followed.sortedTurn at h
      rcases hsort : followed.sort os workspace outside paths with ⟨after, error | changes⟩
      · rw [hsort] at h hsame
        rw [List.mem_singleton.mp h]
        exact hsame.synced
      · rw [hsort] at h hsame
        exact (handle_synced h).trans hsame.synced

theorem heldOf_union {held more : Finset Held} {synced : SyncedPath} :
    heldOf (held ∪ more) synced = heldOf held synced ∪ heldOf more synced := by
  unfold heldOf
  rw [Finset.filter_union, Finset.image_union]

theorem heldOf_self {files : Finset File} {synced : SyncedPath} :
    heldOf (files.image (Held.mk synced)) synced = files := by
  ext file
  simp [heldOf]

theorem heldOf_others {files : Finset File} {synced other : SyncedPath} (h : other ≠ synced) :
    heldOf (files.image (Held.mk other)) synced = ∅ := by
  ext file
  simp [heldOf, h]

theorem heldOf_left {synced other : SyncedPath} (h : other ≠ synced) :
    heldOf (held.filter fun held => held.synced ≠ other) synced = heldOf held synced := by
  unfold heldOf
  rw [Finset.filter_filter]
  congr 1
  apply Finset.filter_congr
  intro entry _
  constructor
  · exact And.right
  · intro hsynced
    exact ⟨fun heq => h (heq.symm.trans hsynced), hsynced⟩

theorem turns_others {synced : SyncedPath} (h : synced ∉ rest.map Followed.synced) :
    (turns os workspace rescan answers pending held rest).log.filter
        (fun deed => deed.synced = synced) = [] ∧
      heldOf (turns os workspace rescan answers pending held rest).held synced = ∅ := by
  induction rest generalizing held with
  | nil => exact ⟨rfl, rfl⟩
  | cons first rest ih =>
      rw [List.map_cons, List.mem_cons, not_or] at h
      have hother : first.synced ≠ synced := fun heq => h.1 heq.symm
      unfold turns
      split
      · exact ih h.2
      · dsimp only
        constructor
        · rw [List.filter_append, (ih h.2).1, List.append_nil, List.filter_eq_nil_iff]
          intro deed hdeed
          rw [turn_synced hdeed]
          simpa using hother
        · rw [heldOf_union, (ih h.2).2, Finset.union_empty, heldOf_others hother]

structure AsTurned (after : Turns) (turn : Turn) : Prop where
  followed : turn.followed ∈ after.followed
  held : heldOf after.held turn.followed.synced = turn.held
  log : (after.log.filter fun deed => deed.synced = turn.followed.synced) = turn.log

theorem asTurned_turns (hnodup : (rest.map Followed.synced).Nodup) (hmem : followed ∈ rest)
    (hstate : followed.state ≠ State.missing) :
    AsTurned (turns os workspace rescan answers pending held rest)
      (followed.turn os workspace rescan (answers followed.synced)
        (pending.filter followed.covers) (heldOf held followed.synced)) := by
  induction rest generalizing held with
  | nil => cases hmem
  | cons first rest ih =>
      rw [List.map_cons, List.nodup_cons] at hnodup
      unfold turns
      cases hmem with
      | head =>
          rw [if_neg hstate]
          constructor
          · exact List.mem_cons_self
          · dsimp only
            rw [synced_turn, heldOf_union, heldOf_self, (turns_others hnodup.1).2,
              Finset.union_empty]
          · dsimp only
            rw [synced_turn, List.filter_append, (turns_others hnodup.1).1, List.append_nil,
              List.filter_eq_self]
            intro deed hdeed
            simpa using turn_synced hdeed
      | tail _ hmem =>
          have hother : first.synced ≠ followed.synced := by
            intro heq
            apply hnodup.1
            rw [heq]
            exact List.mem_map_of_mem hmem
          split
          · have hrest : AsTurned (turns os workspace rescan answers pending held rest) _ :=
              ih hnodup.2 hmem
            exact ⟨List.mem_cons_of_mem _ hrest.followed, hrest.held, hrest.log⟩
          · have hrest : AsTurned (turns os workspace rescan answers pending
                (held.filter fun held => held.synced ≠ first.synced) rest) _ :=
              ih hnodup.2 hmem
            rw [heldOf_left hother] at hrest
            constructor
            · exact List.mem_cons_of_mem _ hrest.followed
            · dsimp only
              rw [heldOf_union, hrest.held, synced_turn, heldOf_others hother, Finset.empty_union]
            · dsimp only
              have hnone : (first.turn os workspace rescan (answers first.synced)
                  (pending.filter first.covers) (heldOf held first.synced)).log.filter
                    (fun deed => deed.synced = followed.synced) = [] := by
                rw [List.filter_eq_nil_iff]
                intro deed hdeed
                rw [turn_synced hdeed]
                simpa using hother
              rw [synced_turn, List.filter_append, hnone, List.nil_append, ← hrest.log,
                synced_turn]

theorem accounts_congr {turn other : Turn} {path : Path}
    (hfollowed : other.followed = turn.followed) (hheld : other.held = turn.held)
    (hlog : other.log = turn.log)
    (h : turn.Accounts followed path) : other.Accounts followed path := by
  cases h with
  | ingested file h hpath =>
      refine Turn.Accounts.ingested file ?_ hpath
      unfold Turn.Ingested
      rw [hfollowed, hlog]
      exact h
  | absent found deleted hwhole hwalked h =>
      rw [← hfollowed, ← hlog] at hwalked h
      exact Turn.Accounts.absent found deleted hwhole hwalked h
  | nothing found hwalked h =>
      rw [← hfollowed, ← hlog] at hwalked
      exact Turn.Accounts.nothing found hwalked h
  | held file h hpath =>
      rw [← hheld] at h
      exact Turn.Accounts.held file h hpath
  | due h =>
      rw [← hfollowed] at h
      exact Turn.Accounts.due h

theorem sortsOut_congr {turn other : Turn} {path : Path}
    (hfollowed : other.followed = turn.followed) (hheld : other.held = turn.held)
    (hlog : other.log = turn.log)
    (h : turn.SortsOut followed outside path) : other.SortsOut followed outside path := by
  have htaken : forall file, turn.Ingested file ∨ file ∈ turn.held ->
      other.Ingested file ∨ file ∈ other.held := by
    intro file
    unfold Turn.Ingested
    rw [hfollowed, hheld, hlog]
    exact id
  refine ⟨?_, h.decided, fun file hfile => htaken file (h.changed file hfile),
    fun file hfile => htaken file (h.deleted file hfile)⟩
  rw [hfollowed, hlog]
  exact h.sorted

theorem accounted_iff {watcher : Watcher} {turn other : Turn}
    (hfollowed : other.followed = turn.followed) (hheld : other.held = turn.held)
    (hlog : other.log = turn.log) :
    watcher.Accounted answers followed other <->
      Turn.Keeps followed (answers followed.synced) (watcher.pending.filter followed.covers)
        (heldOf watcher.held followed.synced) turn := by
  constructor
  · intro h
    constructor
    · intro path hpath
      rcases List.mem_filter.mp hpath with ⟨hpending, hcovers⟩
      rcases h.pending path hpending hcovers with hleft | haccounts | hsorted
      · cases hleft
      · exact Or.inl (accounts_congr hfollowed.symm hheld.symm hlog.symm haccounts)
      · exact Or.inr (sortsOut_congr hfollowed.symm hheld.symm hlog.symm hsorted)
    · intro file hfile
      rcases Finset.mem_image.mp hfile with ⟨entry, hentry, rfl⟩
      rcases Finset.mem_filter.mp hentry with ⟨hmem, hsynced⟩
      exact accounts_congr hfollowed.symm hheld.symm hlog.symm (h.held entry hmem hsynced)
  · intro h
    constructor
    · intro path hpending hcovers
      rcases h.pending path (List.mem_filter.mpr ⟨hpending, hcovers⟩) with haccounts | hsorted
      · exact Or.inr (Or.inl (accounts_congr hfollowed hheld hlog haccounts))
      · exact Or.inr (Or.inr (sortsOut_congr hfollowed hheld hlog hsorted))
    · intro entry hmem hsynced
      have hfile : entry.file ∈ heldOf watcher.held followed.synced :=
        Finset.mem_image_of_mem _ (Finset.mem_filter.mpr ⟨hmem, hsynced⟩)
      exact accounts_congr hfollowed hheld hlog (h.held entry.file hfile)

theorem accounted_flushOf {watcher : Watcher} {turn : Turn}
    (h : AsTurned (turns watcher.os watcher.workspace watcher.rescan answers watcher.pending
      watcher.held watcher.followed) turn) :
    watcher.Accounted answers followed (watcher.flushOf answers turn.followed) <->
      Turn.Keeps followed (answers followed.synced) (watcher.pending.filter followed.covers)
        (heldOf watcher.held followed.synced) turn :=
  accounted_iff rfl h.held h.log

end Flushes

/--
A flush drops nothing that waits for its watched and polled paths exactly where, for each of
them, every step it hands that to ends, or the path is looked at again.
-/
theorem drops_nothing_iff (watcher : Watcher) (outside : SyncedPath -> Outside) :
    (forall followed, followed ∈ watcher.followed ->
      followed.state = State.watching ∨ followed.state = State.polling ->
        watcher.DropsNothing outside followed) <->
    forall followed, followed ∈ watcher.followed ->
      followed.state = State.watching ∨ followed.state = State.polling ->
        watcher.Meets outside followed := by
  apply forall_congr'
  intro followed
  apply imp_congr_right
  intro hmem
  apply imp_congr_right
  intro hactive
  have hstate : followed.state ≠ State.missing := by
    rcases hactive with hactive | hactive
    · simp [hactive]
    · simp [hactive]
  have hturned : AsTurned (turns watcher.os watcher.workspace watcher.rescan outside
      watcher.pending watcher.held watcher.followed) _ :=
    asTurned_turns watcher.once hmem hstate
  unfold Watcher.Meets
  rw [← Followed.keeps_turn hstate, ← accounted_flushOf hturned]
  constructor
  · rintro ⟨after, hafter, hsynced, h⟩
    have hsame := List.inj_on_of_nodup_map (watcher.flush outside).1.once hafter hturned.followed
      (hsynced.trans synced_turn.symm)
    rw [← hsame]
    exact h
  · intro h
    exact ⟨_, hturned.followed, synced_turn, h⟩

/-!
## An ingest that fails
-/

def note : Followed where
  synced := { project := "notes", path := "/home/a.md" }
  path := [Component.rootDir, Component.normal (osString "home"),
    Component.normal (osString "a.md")]
  root := [Component.rootDir, Component.normal (osString "home")]
  file := true
  dirs := {[Component.rootDir, Component.normal (osString "home")]}
  state := State.watching
  looked := 0

def saved : Watcher where
  os := true
  workspace := [Component.rootDir, Component.normal (osString "memory")]
  followed := [note]
  pending := [note.path]
  first := some 0
  last := some 0
  held := ∅
  heldUntil := none
  rescan := false
  once := List.nodup_singleton _

def failing (_ : SyncedPath) : Outside where
  now := QUIET
  gone := false
  metadata := some false
  first := Except.ok (Found.of ∅)
  watched _ := true
  second := Except.ok (Found.of ∅)
  there := true
  sorts := Except.ok ()
  isDir _ := false
  list _ := Except.error ErrorKind.notFound
  under _ := Except.ok ∅
  adoption _ :=
    { own := { watched := true, counted := true }, first := Except.ok (Found.of ∅)
      walked := fun _ => { watched := true, counted := true }
      second := Except.ok (Found.of ∅) }
  ingests := Except.error "the database is starting up"

/-- A change to a watched file is dropped: it is pending no longer, and nothing was ingested. -/
theorem failed_ingest_drops_a_change :
    ¬forall followed, followed ∈ saved.followed ->
      followed.state = State.watching ∨ followed.state = State.polling ->
        saved.DropsNothing failing followed := by
  intro h
  rcases h note (List.mem_singleton.mpr rfl) (Or.inl rfl) with ⟨after, hafter, _, haccounted⟩
  have hfollowed : (saved.flush failing).1.followed = [note] := by decide +kernel
  have hlog : (saved.flushOf failing note).log =
      [Deed.sorted note.synced, Deed.failed note.synced "the database is starting up"] := by
    decide +kernel
  have hheld : (saved.flushOf failing note).held = ∅ := by decide +kernel
  rw [hfollowed, List.mem_singleton] at hafter
  rw [hafter] at haccounted
  have hingested : forall file, ¬(saved.flushOf failing note).Ingested file := by
    rintro file ⟨found, deleted, hdeed, _⟩
    simp [hlog] at hdeed
  rcases haccounted.pending note.path (List.mem_singleton.mpr rfl) (by decide) with
    hpending | haccounts | hsorted
  · cases hpending
  · cases haccounts with
    | ingested file h hpath => exact hingested file h
    | absent found deleted hwhole hwalked h => simp [hlog] at hwalked
    | nothing found hwalked h => simp [hlog] at hwalked
    | held file h hpath => simp [hheld] at h
    | due h => cases h
  · have hchanged : { name := "home/a.md", path := note.path, root := "/home" } ∈
        (note.cameTo (failing note.synced) [note.path]).changed := by decide +kernel
    rcases hsorted.changed _ hchanged with hfile | hfile
    · exact hingested _ hfile
    · simp [hheld] at hfile

end Watching
end PaminMemory
