import PaminMemory.Foundation.Counts
import PaminMemory.Foundation.Parties
import PaminMemory.Watching.Flushing

/-!
# What the operating system watches

The followed paths share one book of watches: a directory is watched once and counted for
each path that wants it.  What the operating system grants is given to the book; what is
watched of a followed path follows from what the book answers.
-/

namespace PaminMemory
namespace Watching

open Foundation (Counts)

/-- What a watcher runs on; a hash set gives each of its members once, in an order of its own. -/
structure Machine where
  macos : Bool
  os : Bool
  workspace : Path
  grants : Nat -> Bool
  order : Finset Path -> List Path
  once : forall dirs, (order dirs).Nodup
  all : forall dirs dir, dir ∈ order dirs <-> dir ∈ dirs

structure Book where
  watches : Counts Path
  registered : Finset Path
  streams : Finset Path
  asked : Nat

def Book.empty : Book := { watches := ∅, registered := ∅, streams := ∅, asked := 0 }

namespace Book

def counted (book : Book) (dir : Path) : Bool := (book.watches.lookup dir).isSome

def release (book : Book) (path : Path) : Book :=
  { book with registered := book.registered.erase path }

/-!
## The calls to the operating system
-/

section Machine

variable (machine : Machine)

def ask (book : Book) (path : Path) : Book × Bool :=
  let granted := machine.grants book.asked
  ({ book with
      registered := if granted then insert path book.registered else book.registered
      asked := book.asked + 1 }, granted)

def watch (book : Book) (dir synced : Path) : Book × Bool :=
  if !machine.os then
    (book, false)
  else if machine.macos then
    if synced ∈ book.streams then
      ({ book with watches := book.watches.more dir }, true)
    else
      let asked := book.ask machine synced
      if asked.2 then
        ({ asked.1 with
            streams := insert synced asked.1.streams, watches := asked.1.watches.more dir }, true)
      else
        (asked.1, false)
  else if book.counted dir then
    ({ book with watches := book.watches.more dir }, true)
  else
    let asked := book.ask machine dir
    if asked.2 then
      ({ asked.1 with watches := asked.1.watches.insert dir 1 }, true)
    else
      (asked.1, false)

def rewatch (book : Book) (dir : Path) : Book × Bool :=
  if machine.macos then
    (book, true)
  else if !machine.os then
    (book, false)
  else
    (book.release dir).ask machine dir

/-- One path less wants a directory; what nothing wants is watched no longer. -/
def unwatch (book : Book) (dir : Path) : Book :=
  let less := { book with watches := book.watches.less dir }
  if book.counted dir && !less.counted dir && !machine.macos && machine.os then
    less.release dir
  else
    less

def endStream (book : Book) (followed : List Path) (path : Path) : Book :=
  if path ∈ followed ∨ path ∉ book.streams then
    book
  else
    let ended := { book with streams := book.streams.erase path }
    if machine.os then ended.release path else ended

def unwatchAll (book : Book) (dirs : Finset Path) : Book :=
  (machine.order dirs).foldl (fun book dir => book.unwatch machine dir) book

/-!
## Directories of one path

Each is the part of a flush that the book answers.
-/

/-- The directories of a walk that are watched: those that were, and those the book watches. -/
def watchEach (synced : Path) (before : Finset Path) : Book -> List Path -> Book × Finset Path
  | book, [] => (book, ∅)
  | book, dir :: rest =>
      if dir ∈ before then
        let later := watchEach synced before book rest
        (later.1, insert dir later.2)
      else
        let answer := book.watch machine dir synced
        let later := watchEach synced before answer.1 rest
        (later.1, if answer.2 then insert dir later.2 else later.2)

def watchDirs (book : Book) (followed : Followed) (dirs : Finset Path) : Book × Finset Path :=
  let dirs := dirs.filter fun dir => ¬machine.workspace.isPrefixOf dir
  let left := book.unwatchAll machine (followed.dirs \ dirs)
  left.watchEach machine followed.path followed.dirs (machine.order dirs)

def goesInto (followed : Followed) (isDir : Bool) (found : Found) : Finset Path :=
  if isDir then found.dirs.toFinset else followed.path.parent.toFinset

def catchUp (paths : List Path) (book : Book) (followed : Followed) (outside : Outside) :
    Book × Outside :=
  match outside.metadata with
  | none => ((book.unwatchAll machine followed.dirs).endStream machine paths followed.path, outside)
  | some isDir =>
      match outside.first with
      | Except.error _ => (book, outside)
      | Except.ok found =>
          let watched := book.watchDirs machine followed (goesInto followed isDir found)
          (watched.1, { outside with watched := fun dir => dir ∈ watched.2 })

def forgetDirsUnder (book : Book) (followed : Followed) (dir : Path) : Book :=
  book.unwatchAll machine (followed.dirs.filter fun watched => dir.isPrefixOf watched)

def watchOne (book : Book) (dir synced : Path) : Book × Watched :=
  let asked :=
    if book.counted dir then
      ({ book with watches := book.watches.more dir } : Book).rewatch machine dir
    else
      book.watch machine dir synced
  (asked.1, { watched := asked.2, counted := asked.1.counted dir })

/-- Watches what a walk went into.  The code keeps no `seen`: a walk lists a directory once, so one
that was refused does not come again, and the check only lets an answer be told by its directory. -/
def watchWalked (book : Book) (followed : Followed) (seen : Finset Path) :
    List Path -> Book × (Path -> Watched)
  | [] => (book, fun _ => { watched := false, counted := false })
  | dir :: rest =>
      if ¬machine.workspace.isPrefixOf dir ∧ dir ∉ followed.dirs ∧ dir ∉ seen then
        let answer := book.watchOne machine dir followed.path
        let later := answer.1.watchWalked (followed.watchOne answer.2 dir) (insert dir seen) rest
        (later.1, Function.update later.2 dir answer.2)
      else
        book.watchWalked followed seen rest

def adopt (book : Book) (followed : Followed) (adoption : Adoption) (dir : Path) :
    Book × Adoption :=
  let own := book.watchOne machine dir followed.path
  match adoption.first with
  | Except.error _ => (own.1, { adoption with own := own.2 })
  | Except.ok found =>
      let walked := own.1.watchWalked machine (followed.watchOne own.2 dir) ∅ found.dirs
      (walked.1, { adoption with own := own.2, walked := walked.2 })

def takeVanished (book : Book) (followed : Followed) (outside : Outside) : List Path -> Book
  | [] => book
  | dir :: rest =>
      let left := book.forgetDirsUnder machine followed dir
      match followed.filesUnder outside dir with
      | Except.error _ => left
      | Except.ok _ => left.takeVanished (followed.forgetDirsUnder dir) outside rest

def takeNewDirs (book : Book) (followed : Followed) (outside : Outside) :
    List Path -> Book × (Path -> Adoption)
  | [] => (book, outside.adoption)
  | dir :: rest =>
      let left := followed.forgetDirsUnder dir
      let adopted :=
        (book.forgetDirsUnder machine followed dir).adopt machine left (outside.adoption dir) dir
      let after := left.adopt machine.os machine.workspace adopted.2 dir
      match after.2 with
      | Except.error _ => (adopted.1, Function.update outside.adoption dir adopted.2)
      | Except.ok _ =>
          let later := adopted.1.takeNewDirs after.1 outside rest
          (later.1, Function.update later.2 dir adopted.2)

def sort (book : Book) (followed : Followed) (outside : Outside) (paths : List Path) :
    Book × Outside :=
  if followed.file then
    (book, outside)
  else
    match outside.sorts with
    | Except.error _ => (book, outside)
    | Except.ok _ =>
        let (sorted, vanished) :=
          sortBy outside.isDir outside.list followed.dirs followed.root paths
        let left := book.takeVanished machine followed outside vanished
        match followed.takeVanished outside vanished with
        | (_, Except.error _) => (left, outside)
        | (followed, Except.ok _) =>
            let adopted := left.takeNewDirs machine followed outside sorted.newDirs
            (adopted.1, { outside with adoption := adopted.2 })

def turn (paths : List Path) (book : Book) (followed : Followed) (rescan : Bool)
    (outside : Outside) (changed : List Path) (deleted : Finset File) : Book × Outside :=
  if rescan then book.catchUp machine paths followed outside
  else if changed = [] ∧ deleted = ∅ then (book, outside)
  else if outside.gone ∨
      changed.any fun path => path.fileName = some (Settings.osString ".gitignore") then
    book.catchUp machine paths followed outside
  else
    book.sort machine followed outside changed

end Machine

end Book

/-!
# The watcher and its book
-/

/-- The watcher's state: no path is followed twice. -/
structure Keeper where
  followed : List Followed
  pending : List Path
  first : Option Nat
  last : Option Nat
  held : Finset Held
  heldUntil : Option Nat
  rescan : Bool
  book : Book
  once : (followed.map Followed.synced).Nodup

/-- What the operating system says happened. -/
inductive Event where
  | failed (limit : Bool)
  | access
  | changed (paths : List Path) (rescan : Bool)

def LONGEST : Nat := 10000

namespace Keeper

def paths (keeper : Keeper) : List Path := keeper.followed.map Followed.path

section Machine

variable (machine : Machine)

def new : Keeper :=
  { followed := [], pending := [], first := none, last := none, held := ∅, heldUntil := none
    rescan := false, book := Book.empty, once := List.nodup_nil }

def poll (book : Book) (followed : Followed) : Followed :=
  if followed.state = State.watching ∧ exists dir, dir ∈ followed.dirs ∧ book.counted dir = false
  then { followed with state := State.polling } else followed

theorem poll_synced (book : Book) (followed : Followed) :
    (poll book followed).synced = followed.synced := by
  unfold poll
  split
  · rfl
  · rfl

def pollAllUnwatched (keeper : Keeper) : Keeper :=
  { keeper with
    followed := keeper.followed.map (poll keeper.book)
    once := by
      rw [List.map_map, show Followed.synced ∘ poll keeper.book = Followed.synced from
        funext fun followed => poll_synced keeper.book followed]
      exact keeper.once }

/-!
## What the watcher hears
-/

/-- An event from the operating system: what it names is pending. -/
def heard (keeper : Keeper) (now : Nat) : Event -> Keeper
  | Event.failed limit => if limit then keeper.pollAllUnwatched else keeper
  | Event.access => keeper
  | Event.changed paths rescan =>
      let pending := (paths.filter fun path => !machine.workspace.isPrefixOf path).foldl
        (fun pending path => pending.insert path) keeper.pending
      let rescan := keeper.rescan || rescan
      if !pending.isEmpty || rescan then
        { keeper with
          pending := pending, rescan := rescan, first := keeper.first.or (some now)
          last := some now }
      else
        { keeper with pending := pending, rescan := rescan }

def turns (paths : List Path) (rescan : Bool) (outside : SyncedPath -> Outside)
    (pending : List Path) : Book -> Finset Held -> List Followed -> Book × Turns
  | book, _, [] => (book, { followed := [], held := ∅, heldUntil := none, log := [] })
  | book, held, followed :: rest =>
      if followed.state = State.missing then
        let after := turns paths rescan outside pending book held rest
        (after.1, { after.2 with followed := followed :: after.2.followed })
      else
        let changed := pending.filter followed.covers
        let deleted := heldOf held followed.synced
        let answered := book.turn machine paths followed rescan (outside followed.synced) changed
          deleted
        let turn := followed.turn machine.os machine.workspace rescan answered.2 changed deleted
        let after := turns paths rescan outside pending answered.1
          (held.filter fun held => held.synced ≠ followed.synced) rest
        (after.1,
          { followed := turn.followed :: after.2.followed
            held := turn.held.image (Held.mk followed.synced) ∪ after.2.held
            heldUntil := after.2.heldUntil.or turn.heldUntil
            log := turn.log ++ after.2.log })

def flushed (keeper : Keeper) (outside : SyncedPath -> Outside) : Book × Turns :=
  turns machine keeper.paths keeper.rescan outside keeper.pending keeper.book keeper.held
    keeper.followed

theorem turns_synced (paths : List Path) (rescan : Bool) (outside : SyncedPath -> Outside)
    (pending : List Path) (book : Book) (held : Finset Held) (followed : List Followed) :
    (turns machine paths rescan outside pending book held followed).2.followed.map
      Followed.synced = followed.map Followed.synced := by
  induction followed generalizing book held with
  | nil => rfl
  | cons first rest ih =>
      unfold turns
      split
      · simp only [List.map_cons, ih]
      · simp only [List.map_cons, ih, synced_turn]

def flush (keeper : Keeper) (outside : SyncedPath -> Outside) : Keeper :=
  let after := keeper.flushed machine outside
  { followed := after.2.followed, pending := [], first := none, last := none
    held := after.2.held, heldUntil := after.2.heldUntil, rescan := false, book := after.1
    once := by
      rw [show after.2.followed.map Followed.synced = keeper.followed.map Followed.synced from
        turns_synced machine _ _ _ _ _ _ _]
      exact keeper.once }

def caughtUp (paths : List Path) (book : Book) (followed : Followed) (outside : Outside) :
    Book × Followed :=
  let answered := book.catchUp machine paths followed outside
  (answered.1, (followed.catchUp machine.os machine.workspace answered.2).1)

theorem caughtUp_synced (paths : List Path) (book : Book) (followed : Followed)
    (outside : Outside) :
    (caughtUp machine paths book followed outside).2.synced = followed.synced := synced_catchUp

def looks (paths : List Path) (now : Nat) (outside : SyncedPath -> Outside) :
    Book -> List Followed -> Book × List Followed
  | book, [] => (book, [])
  | book, followed :: rest =>
      if followed.due.any fun due => due <= now then
        let answers := outside followed.synced
        let here := caughtUp machine paths book { followed with looked := answers.now } answers
        let later := looks paths now outside here.1 rest
        (later.1, here.2 :: later.2)
      else
        let later := looks paths now outside book rest
        (later.1, followed :: later.2)

theorem looks_synced (paths : List Path) (now : Nat) (outside : SyncedPath -> Outside)
    (book : Book) (followed : List Followed) :
    (looks machine paths now outside book followed).2.map Followed.synced =
      followed.map Followed.synced := by
  induction followed generalizing book with
  | nil => rfl
  | cons first rest ih =>
      unfold looks
      split
      · simp only [List.map_cons, ih, caughtUp_synced]
      · simp only [List.map_cons, ih]

def look (keeper : Keeper) (now : Nat) (outside : SyncedPath -> Outside) : Keeper :=
  let after := looks machine keeper.paths now outside keeper.book keeper.followed
  { keeper with
    followed := after.2, book := after.1
    once := by
      rw [show after.2.map Followed.synced = keeper.followed.map Followed.synced from
        looks_synced machine _ _ _ _ _]
      exact keeper.once }

def flushDue (keeper : Keeper) (now : Nat) : Bool :=
  let changed :=
    match keeper.first, keeper.last with
    | some first, some last => last + QUIET <= now || first + LONGEST <= now
    | _, _ => false
  changed || keeper.heldUntil.any fun held => held <= now

/-- Whatever is due: an ingest of what changed, then of what is polled or missing. -/
def due (keeper : Keeper) (now : Nat) (flushing looking : SyncedPath -> Outside) : Keeper :=
  (if keeper.flushDue now then keeper.flush machine flushing else keeper).look machine now looking

def followedNew (synced : SyncedPath) (path root : Path) (isDir : Bool) (now : Nat) : Followed :=
  { synced := synced, path := path, root := root, file := !isDir, dirs := ∅
    state := State.starting, looked := now }

def follow (keeper : Keeper) (synced : SyncedPath) (path root : Path) (isDir : Bool) (now : Nat)
    (outside : Outside) : Keeper :=
  if hthere : synced ∈ keeper.followed.map Followed.synced then
    keeper
  else
    let after := caughtUp machine (keeper.paths ++ [path]) keeper.book
      (followedNew synced path root isDir now) outside
    { keeper with
      followed := keeper.followed ++ [after.2], book := after.1
      once := by
        rw [List.map_append, List.map_singleton, show after.2.synced = synced from
          caughtUp_synced machine _ _ _ _]
        exact Foundation.nodup_append_new keeper.once hthere }

def unfollow (keeper : Keeper) (synced : SyncedPath) : Keeper :=
  match keeper.followed.find? fun followed => followed.synced = synced with
  | none => keeper
  | some gone =>
      let rest := keeper.followed.eraseP fun followed => followed.synced = synced
      { keeper with
        followed := rest
        held := keeper.held.filter fun held => held.synced ≠ synced
        book := (keeper.book.unwatchAll machine gone.dirs).endStream machine
          (rest.map Followed.path) gone.path
        once := keeper.once.sublist (List.eraseP_sublist.map _) }

end Machine

end Keeper

/-- What the watcher's task does next. -/
inductive Act where
  | heard (now : Nat) (event : Event)
  | follow (synced : SyncedPath) (path root : Path) (isDir : Bool) (now : Nat)
      (outside : Outside)
  | unfollow (synced : SyncedPath)
  | due (now : Nat) (flushing looking : SyncedPath -> Outside)

def Keeper.act (machine : Machine) (keeper : Keeper) : Act -> Keeper
  | Act.heard now event => keeper.heard machine now event
  | Act.follow synced path root isDir now outside =>
      keeper.follow machine synced path root isDir now outside
  | Act.unfollow synced => keeper.unfollow machine synced
  | Act.due now flushing looking => keeper.due machine now flushing looking

def Keeper.run (machine : Machine) (acts : List Act) : Keeper :=
  acts.foldl (Keeper.act machine) Keeper.new

/-!
## A flush is the watcher's, given what the book answers
-/

section Answers

variable {machine : Machine} {paths pending : List Path} {rescan : Bool} {book : Book}
  {held : Finset Held} {followed : List Followed} {outside : SyncedPath -> Outside}

end Answers

end Watching
end PaminMemory
