import Mathlib.Data.Finset.Option
import Mathlib.Data.Finset.Union
import PaminMemory.Foundation.Fallible
import PaminMemory.Ingest.Records
import PaminMemory.Watching.Sorting

/-!
# Ingesting what changed since the last ingest

A flush takes what is pending and what is held, and sees to each followed path in turn: it
walks the path afresh, or sorts what changed under it and ingests that.  What the file system,
the operating system and the session answer meanwhile is given to it.
-/

namespace PaminMemory
namespace Watching

open Foundation (each each_keeps)
open Ingest (Tree)
open Settings (osString)

def QUIET : Nat := 1000

/-- How often a path the operating system would not watch is looked at, in milliseconds. -/
def POLL : Nat := 30000

def MISSING : Nat := 60000

inductive State where
  | starting
  | watching
  | polling
  | missing
deriving DecidableEq, Repr

structure SyncedPath where
  project : String
  path : String
deriving DecidableEq, Repr

structure Followed where
  synced : SyncedPath
  path : Path
  root : Path
  file : Bool
  dirs : Finset Path
  state : State
  looked : Nat
deriving DecidableEq

structure Found where
  files : Finset File
  skipped : List String
  trees : List Tree
  dirs : List Path
deriving DecidableEq

structure Held where
  synced : SyncedPath
  file : File
deriving DecidableEq, Repr

/-- Whether a directory was watched when it was asked for, and whether it is counted now. -/
structure Watched where
  watched : Bool
  counted : Bool

structure Adoption where
  own : Watched
  first : Except String Found
  walked : Path -> Watched
  second : Except String Found

/-- What is answered while one followed path is seen to. -/
structure Outside where
  now : Nat
  gone : Bool
  metadata : Option Bool
  first : Except String Found
  watched : Path -> Bool
  second : Except String Found
  there : Bool
  sorts : Except String Unit
  isDir : Path -> Bool
  list : Path -> Except ErrorKind Listing
  under : Path -> Except String (Finset File)
  adoption : Path -> Adoption
  ingests : Except String Unit

/-!
## What a flush does
-/

inductive Deed where
  | walked (synced : SyncedPath) (found : Found)
  | sorted (synced : SyncedPath)
  | ingested (synced : SyncedPath) (found : Found) (deleted : Finset File)
  | failed (synced : SyncedPath) (error : String)
deriving DecidableEq

def Deed.synced : Deed -> SyncedPath
  | walked synced _ => synced
  | sorted synced => synced
  | ingested synced _ _ => synced
  | failed synced _ => synced

/-- What the changes under a followed path came to, once its new directories were walked. -/
structure Changes where
  changed : Finset File
  deleted : Finset File
deriving DecidableEq

def Found.named (found : Found) (root : Path) : Finset File :=
  found.files.biUnion fun found => (file found.path root).toFinset

namespace Followed

def covers (followed : Followed) (path : Path) : Bool :=
  if followed.file then path = followed.path else followed.path.isPrefixOf path

/-!
## What is due
-/

def named (followed : Followed) (path : Path) : Option File := Watching.file path followed.root

def due (followed : Followed) : Option Nat :=
  match followed.state with
  | State.polling => some (followed.looked + POLL)
  | State.missing => some (followed.looked + MISSING)
  | State.starting => none
  | State.watching => none

def settle (followed : Followed) (os refused : Bool) : Followed :=
  { followed with state := if refused ∨ ¬os then State.polling else State.watching }

/-!
## Following a directory

A directory that lists now is watched before it is walked.
-/

section Steps

variable (os : Bool) (workspace : Path) (outside : Outside)

def watchDirs (followed : Followed) (dirs : Finset Path) : Followed :=
  let dirs := dirs.filter fun dir => ¬workspace.isPrefixOf dir
  let watched := dirs.filter fun dir => dir ∈ followed.dirs ∨ outside.watched dir
  { followed with dirs := watched }.settle os (watched ≠ dirs)

def ingest (followed : Followed) (found : Found) (deleted : Finset File) : List Deed :=
  match outside.ingests with
  | Except.ok _ => [Deed.ingested followed.synced found deleted]
  | Except.error error => [Deed.failed followed.synced error]

def catchUp (followed : Followed) : Followed × List Deed :=
  match outside.metadata with
  | none =>
      ({ followed with state := State.missing, looked := outside.now, dirs := ∅ }, [])
  | some isDir =>
      let followed := { followed with file := !isDir }
      match outside.first with
      | Except.error error => (followed, [Deed.failed followed.synced error])
      | Except.ok found =>
          let dirs :=
            if followed.file then followed.path.parent.toFinset else found.dirs.toFinset
          let followed := followed.watchDirs os workspace outside dirs
          match outside.second with
          | Except.error error =>
              (followed, [Deed.walked followed.synced found, Deed.failed followed.synced error])
          | Except.ok again =>
              (followed, Deed.walked followed.synced found :: Deed.walked followed.synced again ::
                followed.ingest outside again ∅)

def forgetDirsUnder (followed : Followed) (dir : Path) : Followed :=
  { followed with dirs := followed.dirs.filter fun watched => ¬dir.isPrefixOf watched }

def watchOne (followed : Followed) (answer : Watched) (dir : Path) : Followed :=
  if answer.counted then { followed with dirs := insert dir followed.dirs } else followed

def watchWalked (walked : Path -> Watched) (followed : Followed) (refused : Bool) :
    List Path -> Followed × Bool
  | [] => (followed, refused)
  | dir :: rest =>
      if ¬workspace.isPrefixOf dir ∧ dir ∉ followed.dirs then
        watchWalked walked (followed.watchOne (walked dir) dir)
          (refused || !(walked dir).watched) rest
      else
        watchWalked walked followed refused rest

def adopt (followed : Followed) (adoption : Adoption) (dir : Path) :
    Followed × Except String (Finset File) :=
  let followed := followed.watchOne adoption.own dir
  match adoption.first with
  | Except.error error => (followed, Except.error error)
  | Except.ok found =>
      let (followed, refused) :=
        followed.watchWalked workspace adoption.walked (!adoption.own.watched) found.dirs
      match adoption.second with
      | Except.error error => (followed, Except.error error)
      | Except.ok found =>
          let followed := if refused then followed.settle os true else followed
          (followed, Except.ok (found.named followed.root))

def filesUnder (followed : Followed) (dir : Path) : Except String (Finset File) :=
  if followed.named dir = none then Except.ok ∅ else outside.under dir

def takeVanished (followed : Followed) (vanished : List Path) :
    Followed × Except String (Finset File) :=
  each (fun followed dir => (followed.forgetDirsUnder dir, followed.filesUnder outside dir))
    followed vanished

def takeNewDirs (followed : Followed) (newDirs : List Path) :
    Followed × Except String (Finset File) :=
  each (fun followed dir =>
    (followed.forgetDirsUnder dir).adopt os workspace (outside.adoption dir) dir) followed newDirs

def sort (followed : Followed) (paths : List Path) : Followed × Except String Changes :=
  if followed.file then
    let named := (followed.named followed.path).toFinset
    (followed, Except.ok
      (if outside.there then { changed := named, deleted := ∅ }
      else { changed := ∅, deleted := named }))
  else
    match outside.sorts with
    | Except.error error => (followed, Except.error error)
    | Except.ok _ =>
        let (sorted, vanished) :=
          sortBy outside.isDir outside.list followed.dirs followed.root paths
        match followed.takeVanished outside vanished with
        | (followed, Except.error error) => (followed, Except.error error)
        | (followed, Except.ok deleted) =>
            match followed.takeNewDirs os workspace outside sorted.newDirs with
            | (followed, Except.error error) => (followed, Except.error error)
            | (followed, Except.ok changed) =>
                (followed, Except.ok
                  { changed := sorted.changed.toFinset ∪ changed
                    deleted := sorted.deleted.toFinset ∪ deleted })

end Steps

end Followed

/-!
## A turn for every path
-/

/-- What one turn of a flush came to: the path followed on, what is held again, what was done. -/
structure Turn where
  followed : Followed
  held : Finset File
  heldUntil : Option Nat
  log : List Deed

def Found.of (files : Finset File) : Found :=
  { files := files, skipped := [], trees := [], dirs := [] }

section Flush

variable (os : Bool) (workspace : Path)

def Followed.handle (followed : Followed) (outside : Outside) (changes : Changes)
    (deleted : Finset File) : Turn :=
  let sorted := [Deed.sorted followed.synced]
  if changes.changed = ∅ ∧ changes.deleted ≠ ∅ then
    { followed := followed, held := changes.deleted
      heldUntil := some (outside.now + QUIET)
      log := if deleted = ∅ then sorted
        else sorted ++ followed.ingest outside (Found.of ∅) deleted }
  else
    { followed := followed, held := ∅, heldUntil := none
      log := sorted ++
        followed.ingest outside (Found.of changes.changed) (deleted ∪ changes.deleted) }

def Followed.turn (followed : Followed) (rescan : Bool) (outside : Outside) (paths : List Path)
    (deleted : Finset File) : Turn :=
  let afresh :=
    let (followed, log) := followed.catchUp os workspace outside
    { followed := followed, held := ∅, heldUntil := none, log := log : Turn }
  if rescan then afresh
  else if paths = [] ∧ deleted = ∅ then
    { followed := followed, held := ∅, heldUntil := none, log := [] }
  else if outside.gone ∨ paths.any fun path => path.fileName = some (osString ".gitignore") then
    afresh
  else
    match followed.sort os workspace outside paths with
    | (followed, Except.error error) =>
        { followed := followed, held := ∅, heldUntil := none
          log := [Deed.failed followed.synced error] }
    | (followed, Except.ok changes) => followed.handle outside changes deleted

structure Turns where
  followed : List Followed
  held : Finset Held
  heldUntil : Option Nat
  log : List Deed

def heldOf (held : Finset Held) (synced : SyncedPath) : Finset File :=
  (held.filter fun held => held.synced = synced).image Held.file

def turns (rescan : Bool) (outside : SyncedPath -> Outside) (pending : List Path) :
    Finset Held -> List Followed -> Turns
  | _, [] => { followed := [], held := ∅, heldUntil := none, log := [] }
  | held, followed :: rest =>
      if followed.state = State.missing then
        let after := turns rescan outside pending held rest
        { after with followed := followed :: after.followed }
      else
        let paths := pending.filter followed.covers
        let turn := followed.turn os workspace rescan (outside followed.synced) paths
          (heldOf held followed.synced)
        let after := turns rescan outside pending
          (held.filter fun held => held.synced ≠ followed.synced) rest
        { followed := turn.followed :: after.followed
          held := turn.held.image (Held.mk followed.synced) ∪ after.held
          heldUntil := after.heldUntil.or turn.heldUntil
          log := turn.log ++ after.log }

end Flush

/-- The watcher's state: no path is followed twice. -/
structure Watcher where
  os : Bool
  workspace : Path
  followed : List Followed
  pending : List Path
  first : Option Nat
  last : Option Nat
  held : Finset Held
  heldUntil : Option Nat
  rescan : Bool
  once : (followed.map Followed.synced).Nodup

/-!
## What a step keeps
-/

section Keeps

variable {os rescan : Bool} {workspace : Path} {outside : Outside} {followed : Followed}

def OnlyDirs (before after : Followed) : Prop := after = { before with dirs := after.dirs }

theorem onlyDirs_trans {first second third : Followed} (h : OnlyDirs first second)
    (h' : OnlyDirs second third) : OnlyDirs first third := by
  unfold OnlyDirs at h h' ⊢
  rw [h', h]

theorem onlyDirs_forget {dir : Path} : OnlyDirs followed (followed.forgetDirsUnder dir) := rfl

theorem onlyDirs_watchOne {answer : Watched} {dir : Path} :
    OnlyDirs followed (followed.watchOne answer dir) := by
  unfold Followed.watchOne
  split
  · rfl
  · rfl

theorem onlyDirs_watchWalked {walked : Path -> Watched} {refused : Bool} {dirs : List Path} :
    OnlyDirs followed (followed.watchWalked workspace walked refused dirs).1 := by
  induction dirs generalizing followed refused with
  | nil => rfl
  | cons dir rest ih =>
      unfold Followed.watchWalked
      split
      · exact onlyDirs_trans onlyDirs_watchOne ih
      · exact ih

theorem onlyDirs_takeVanished {vanished : List Path} :
    OnlyDirs followed (followed.takeVanished outside vanished).1 :=
  each_keeps (fun _ => rfl) onlyDirs_trans fun _ _ => onlyDirs_forget

theorem state_of_onlyDirs {after : Followed} (h : OnlyDirs followed after) :
    after.state = followed.state := by
  rw [h]

structure Same (before after : Followed) : Prop where
  synced : after.synced = before.synced
  root : after.root = before.root

theorem same_of_onlyDirs {after : Followed} (h : OnlyDirs followed after) :
    Same followed after := by
  rw [h]
  exact ⟨rfl, rfl⟩

theorem same_trans {first second third : Followed} (h : Same first second)
    (h' : Same second third) : Same first third where
  synced := h'.synced.trans h.synced
  root := h'.root.trans h.root

theorem same_adopt {adoption : Adoption} {dir : Path} :
    Same followed (followed.adopt os workspace adoption dir).1 := by
  have hone : Same followed (followed.watchOne adoption.own dir) :=
    same_of_onlyDirs onlyDirs_watchOne
  unfold Followed.adopt
  dsimp only
  cases adoption.first with
  | error error => exact hone
  | ok found =>
      have hwatched : OnlyDirs (followed.watchOne adoption.own dir)
          ((followed.watchOne adoption.own dir).watchWalked workspace adoption.walked
            (!adoption.own.watched) found.dirs).1 := onlyDirs_watchWalked
      have hall := same_trans hone (same_of_onlyDirs hwatched)
      dsimp only
      rcases hwalked : (followed.watchOne adoption.own dir).watchWalked workspace adoption.walked
        (!adoption.own.watched) found.dirs with ⟨after, refused⟩
      rw [hwalked] at hall
      cases adoption.second with
      | error error => exact hall
      | ok again =>
          cases refused with
          | false => exact hall
          | true => exact same_trans hall ⟨rfl, rfl⟩

theorem same_adopted {adoption : Adoption} {dir : Path} :
    Same followed ((followed.forgetDirsUnder dir).adopt os workspace adoption dir).1 :=
  same_trans (same_of_onlyDirs onlyDirs_forget) same_adopt

theorem same_takeNewDirs {newDirs : List Path} :
    Same followed (followed.takeNewDirs os workspace outside newDirs).1 :=
  each_keeps (fun _ => ⟨rfl, rfl⟩) same_trans fun _ _ => same_adopted

theorem same_sort {paths : List Path} :
    Same followed (followed.sort os workspace outside paths).1 := by
  unfold Followed.sort
  split
  · exact ⟨rfl, rfl⟩
  · cases outside.sorts with
    | error error => exact ⟨rfl, rfl⟩
    | ok _ =>
        dsimp only
        rcases sortBy outside.isDir outside.list followed.dirs followed.root paths with
          ⟨sorted, vanished⟩
        dsimp only
        have hgone : Same followed (followed.takeVanished outside vanished).1 :=
          same_of_onlyDirs onlyDirs_takeVanished
        rcases hvanished : followed.takeVanished outside vanished with ⟨between, _ | deleted⟩
        · rw [hvanished] at hgone
          exact hgone
        · have hnew : Same between (between.takeNewDirs os workspace outside sorted.newDirs).1 :=
            same_takeNewDirs
          rw [hvanished] at hgone
          dsimp only
          rcases hadopted : between.takeNewDirs os workspace outside sorted.newDirs with
            ⟨after, _ | changed⟩
          · rw [hadopted] at hnew
            exact same_trans hgone hnew
          · rw [hadopted] at hnew
            exact same_trans hgone hnew

theorem synced_catchUp :
    (followed.catchUp os workspace outside).1.synced = followed.synced := by
  unfold Followed.catchUp
  cases outside.metadata with
  | none => rfl
  | some isDir =>
      cases outside.first with
      | error error => rfl
      | ok found =>
          cases outside.second with
          | error error => rfl
          | ok again => rfl

theorem synced_turn {paths : List Path} {deleted : Finset File} :
    (followed.turn os workspace rescan outside paths deleted).followed.synced =
      followed.synced := by
  have hafresh : (followed.catchUp os workspace outside).1.synced = followed.synced :=
    synced_catchUp
  have hsame : Same followed (followed.sort os workspace outside paths).1 := same_sort
  unfold Followed.turn
  dsimp only
  split
  · exact hafresh
  · split
    · rfl
    · split
      · exact hafresh
      · rcases hsorted : followed.sort os workspace outside paths with ⟨after, _ | changes⟩
        · rw [hsorted] at hsame
          exact hsame.synced
        · rw [hsorted] at hsame
          dsimp only
          unfold Followed.handle
          dsimp only
          split
          · exact hsame.synced
          · exact hsame.synced

theorem synced_turns {answers : SyncedPath -> Outside} {pending : List Path} {held : Finset Held}
    {paths : List Followed} :
    (turns os workspace rescan answers pending held paths).followed.map Followed.synced =
      paths.map Followed.synced := by
  induction paths generalizing held with
  | nil => rfl
  | cons first rest ih =>
      unfold turns
      split
      · simp only [List.map_cons, ih]
      · simp only [List.map_cons, ih, synced_turn]

end Keeps

def Watcher.flush (watcher : Watcher) (outside : SyncedPath -> Outside) :
    Watcher × List Deed :=
  let after := turns watcher.os watcher.workspace watcher.rescan outside watcher.pending
    watcher.held watcher.followed
  ({ watcher with
    followed := after.followed, pending := [], first := none, last := none, held := after.held
    heldUntil := after.heldUntil, rescan := false
    once := by
      rw [synced_turns]
      exact watcher.once }, after.log)

end Watching
end PaminMemory
