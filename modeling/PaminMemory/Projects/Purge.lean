import PaminMemory.Index.Exchange
import PaminMemory.Projects.Rows

/-!
# Purging a project

The rows go in one transaction, which commits once the index's directory is gone.  What
other operations leave beside that directory when they are interrupted is another matter.
-/

namespace PaminMemory
namespace Projects

open Foundation
open Index (Outcome Removal)

/-- Where documents of a project may lie: its index, the one a rebuild has set aside, the
copy a reshape builds, and the index the copy replaced. -/
inductive Directory where
  | live
  | previous
  | reshaping
  | replaced
deriving DecidableEq, Repr

inductive Transaction (row : Type) where
  | unopened
  | opened (working : Database row)
  | committed

/-- What a purge reads and writes: the ledger and the connection to it, the directories of
every project's index, and what the server remembers. -/
structure World (row file : Type) where
  database : Database row
  transaction : Transaction row
  directories : ProjectId -> Directory -> Option (Finset file)
  /-- The index every project shared is still there. -/
  legacy : Bool
  projects : List String
  syncing : Option (List (String × String))

inductive Committing where
  | done
  | stopped (applied dies : Bool)
deriving DecidableEq, Repr

section Steps

variable {row file : Type} [DecidableEq file]

def step (outcome : Outcome) : Crash (World row file) Unit :=
  fun world =>
    match outcome with
    | Outcome.done => (Ending.returned (), world)
    | Outcome.fails => (Ending.failed, world)
    | Outcome.dies => (Ending.died, world)

def refuseLegacy : Crash (World row file) Unit :=
  fun world => if world.legacy then (Ending.failed, world) else (Ending.returned (), world)

def begin (outcome : Outcome) : Crash (World row file) Unit := do
  step outcome
  fun world =>
    (Ending.returned (), { world with transaction := Transaction.opened world.database })

def deleteRows (name : String) (outcome : Outcome) :
    Crash (World row file) (Option PurgedProject) := do
  step outcome
  fun world =>
    match world.transaction with
    | Transaction.opened working =>
        let deleted := purgeProject name working
        (Ending.returned deleted.1,
          { world with transaction := Transaction.opened deleted.2 })
    | _ => (Ending.failed, world)

def World.setDirectory (world : World row file) (project : ProjectId) (directory : Directory)
    (files : Option (Finset file)) : World row file :=
  { world with
    directories := Function.update world.directories project
      (Function.update (world.directories project) directory files) }

def removeDirAll (project : ProjectId) (directory : Directory) (outcome : Removal file) :
    Crash (World row file) Unit :=
  fun world =>
    match world.directories project directory, outcome with
    | none, _ => (Ending.returned (), world)
    | some _, Removal.done => (Ending.returned (), world.setDirectory project directory none)
    | some files, Removal.stopped kept dies =>
        (Ending.stopped dies, world.setDirectory project directory (some (files ∩ kept)))

def removeIndex (outcome : Removal file) : Option PurgedProject -> Crash (World row file) Unit
  | some purged => removeDirAll purged.id Directory.live outcome
  | none => pure ()

def commit (outcome : Committing) : Crash (World row file) Unit :=
  fun world =>
    match world.transaction with
    | Transaction.opened working =>
        let applied :=
          { world with database := working, transaction := Transaction.committed }
        match outcome with
        | Committing.done => (Ending.returned (), applied)
        | Committing.stopped true dies => (Ending.stopped dies, applied)
        | Committing.stopped false dies => (Ending.stopped dies, world)
    | _ => (Ending.failed, world)

def forget (name : String) (purged : Option PurgedProject) : Crash (World row file) Unit :=
  fun world =>
    let stopped := (purged.map PurgedProject.synced).getD []
    (Ending.returned (),
      { world with
        projects := world.projects.erase name
        syncing := world.syncing.map fun syncing =>
          syncing.filter fun entry => ¬(entry.1 = name ∧ entry.2 ∈ stopped) })

structure PurgeOutcomes (file : Type) where
  /-- Waiting until nothing else holds the project's engine. -/
  take : Outcome
  begin : Outcome
  delete : Outcome
  remove : Removal file
  commit : Committing
  /-- The process dies after the commit. -/
  diesAfter : Bool

def purge (outcomes : PurgeOutcomes file) (name : String) :
    Crash (World row file) (Option PurgedProject) := do
  refuseLegacy
  step outcomes.take
  begin outcomes.begin
  let purged <- deleteRows name outcomes.delete
  removeIndex outcomes.remove purged
  commit outcomes.commit
  step (if outcomes.diesAfter then Outcome.dies else Outcome.done)
  forget name purged
  pure purged

structure SettingAside (file : Type) where
  discardAside : Removal file
  readMarker : Outcome
  discardLive : Removal file
  move : Outcome

/-- Moves an index aside for a rebuild to take its vectors from, or discards it when it has
none to lend.  `lends` reads whether it does from its files. -/
def setAside (lends : Finset file -> Bool) (project : ProjectId) (outcomes : SettingAside file) :
    Crash (World row file) Bool := do
  removeDirAll project Directory.previous outcomes.discardAside
  step outcomes.readMarker
  fun world =>
    match (world.directories project Directory.live).filter fun files => lends files with
    | some files =>
        match outcomes.move with
        | Outcome.done =>
            (Ending.returned true,
              (world.setDirectory project Directory.live none).setDirectory project
                Directory.previous (some files))
        | Outcome.fails => (Ending.failed, world)
        | Outcome.dies => (Ending.died, world)
    | none => (do
        removeDirAll project Directory.live outcomes.discardLive
        pure false : Crash (World row file) Bool) world

end Steps

/-!
## What a purge leaves
-/

section Leaving

variable {row file : Type} {before : World row file} {name : String}

structure Erased (world : World row file) (project : ProjectId) : Prop where
  rows : NoRows world.database project
  directories : forall directory, world.directories project directory = none

/--
When the project is reported purged nothing of it is left, and when the purge stops before
its commit every row is as it was.
-/
structure EverythingOrNothing (before : World row file)
    (run : Ending (Option PurgedProject) × World row file) : Prop where
  everything : forall purged, run.1 = Ending.returned (some purged) -> Erased run.2 purged.id
  nothing : forall dies, run.1 = Ending.stopped dies -> run.2.transaction ≠ Transaction.committed ->
    run.2.database = before.database

def Unchanged (before after : World row file) : Prop :=
  after.transaction ≠ Transaction.committed -> after.database = before.database

def Cleared (before : World row file) (purged : Option PurgedProject) (after : World row file) :
    Prop :=
  forall project directory, after.directories project directory =
    if purged.map PurgedProject.id = some project ∧ directory = Directory.live then none
    else before.directories project directory

theorem ensures_step {P dies : World row file -> Prop} (outcome : Outcome)
    (h : forall world, P world -> dies world) :
    Crash.Ensures P (step outcome) (fun _ => P) dies dies := by
  intro world hworld
  cases outcome with
  | done => exact hworld
  | fails => exact h world hworld
  | dies => exact h world hworld

theorem ensures_refuseLegacy :
    Crash.Ensures (fun world => world = before) (refuseLegacy : Crash (World row file) Unit)
      (fun _ world => world = before ∧ before.legacy = false) (Unchanged before)
      (Unchanged before) := by
  intro world hworld
  subst hworld
  unfold refuseLegacy
  cases hlegacy : world.legacy with
  | true => exact fun _ => rfl
  | false => exact ⟨rfl, rfl⟩

theorem ensures_begin (outcome : Outcome) :
    Crash.Ensures (fun world => world = before) (begin outcome : Crash (World row file) Unit)
      (fun _ world => world.database = before.database ∧
        world.transaction = Transaction.opened before.database ∧
        world.directories = before.directories)
      (Unchanged before) (Unchanged before) := by
  apply Crash.ensures_bind (ensures_step outcome fun world heq _ => by rw [heq])
  intro _ world hworld
  subst hworld
  exact ⟨rfl, rfl, rfl⟩

theorem ensures_deleteRows (outcome : Outcome) :
    Crash.Ensures (fun world => world.database = before.database ∧
        world.transaction = Transaction.opened before.database ∧
        world.directories = before.directories)
      (deleteRows name outcome : Crash (World row file) (Option PurgedProject))
      (fun purged world => (world.database = before.database ∧
        world.transaction = Transaction.opened (purgeProject name before.database).2 ∧
        world.directories = before.directories) ∧ purged = (purgeProject name before.database).1)
      (Unchanged before) (Unchanged before) := by
  apply Crash.ensures_bind (ensures_step outcome fun world h _ => h.left)
  intro _ world h
  rcases h with ⟨hdatabase, htransaction, hdirectories⟩
  simp only [htransaction]
  exact ⟨⟨hdatabase, trivial, hdirectories⟩, trivial⟩

theorem setDirectory_directories (world : World row file) (project other : ProjectId)
    (directory place : Directory) (files : Option (Finset file)) :
    (world.setDirectory project directory files).directories other place =
      if other = project ∧ place = directory then files else world.directories other place := by
  unfold World.setDirectory
  by_cases hproject : other = project
  · rw [hproject]
    by_cases hplace : place = directory
    · simp [hplace]
    · simp [hplace]
  · simp [hproject]

theorem cleared_of_setDirectory {world : World row file} (purged : PurgedProject)
    (h : world.directories = before.directories) :
    Cleared before (some purged) (world.setDirectory purged.id Directory.live none) := by
  intro project directory
  rw [setDirectory_directories, h]
  simp only [Option.map_some, Option.some.injEq, eq_comm]

theorem cleared_of_absent {world : World row file} (purged : PurgedProject)
    (h : world.directories = before.directories)
    (hnone : world.directories purged.id Directory.live = none) :
    Cleared before (some purged) world := by
  intro project directory
  by_cases hlive : (some purged).map PurgedProject.id = some project ∧ directory = Directory.live
  · rw [if_pos hlive, ← hnone, hlive.right]
    cases hlive.left
    rfl
  · rw [if_neg hlive, h]

theorem ensures_removeDirAll [DecidableEq file] {working : Database row} (purged : PurgedProject)
    (outcome : Removal file) :
    Crash.Ensures (fun world => world.database = before.database ∧
        world.transaction = Transaction.opened working ∧ world.directories = before.directories)
      (removeDirAll purged.id Directory.live outcome)
      (fun _ world => world.database = before.database ∧
        world.transaction = Transaction.opened working ∧ Cleared before (some purged) world)
      (Unchanged before) (Unchanged before) := by
  intro world h
  rcases h with ⟨hdatabase, htransaction, hdirectories⟩
  unfold removeDirAll
  cases hlive : world.directories purged.id Directory.live with
  | none => exact ⟨hdatabase, htransaction, cleared_of_absent purged hdirectories hlive⟩
  | some files =>
      cases outcome with
      | done => exact ⟨hdatabase, htransaction, cleared_of_setDirectory purged hdirectories⟩
      | stopped kept dies =>
          cases dies with
          | false => exact fun _ => hdatabase
          | true => exact fun _ => hdatabase

theorem ensures_removeIndex [DecidableEq file] {working : Database row}
    (purged : Option PurgedProject) (outcome : Removal file) :
    Crash.Ensures (fun world => world.database = before.database ∧
        world.transaction = Transaction.opened working ∧ world.directories = before.directories)
      (removeIndex outcome purged)
      (fun _ world => world.database = before.database ∧
        world.transaction = Transaction.opened working ∧ Cleared before purged world)
      (Unchanged before) (Unchanged before) := by
  cases purged with
  | some purged => exact ensures_removeDirAll purged outcome
  | none =>
      apply Crash.ensures_pure
      intro world h
      refine ⟨h.left, h.right.left, ?_⟩
      intro project directory
      rw [h.right.right]
      simp

theorem ensures_commit {working : Database row} {purged : Option PurgedProject}
    (outcome : Committing) :
    Crash.Ensures (fun world => world.database = before.database ∧
        world.transaction = Transaction.opened working ∧ Cleared before purged world)
      (commit outcome : Crash (World row file) Unit)
      (fun _ world => world.database = working ∧
        world.transaction = Transaction.committed ∧ Cleared before purged world)
      (Unchanged before) (Unchanged before) := by
  intro world h
  rcases h with ⟨hdatabase, htransaction, hcleared⟩
  unfold commit
  simp only [htransaction]
  cases outcome with
  | done => exact ⟨rfl, rfl, hcleared⟩
  | stopped applied dies =>
      cases applied with
      | true =>
          cases dies with
          | false => exact fun hnot => absurd rfl hnot
          | true => exact fun hnot => absurd rfl hnot
      | false =>
          cases dies with
          | false => exact fun _ => hdatabase
          | true => exact fun _ => hdatabase

/-- A purge that returns has deleted the project's rows and its index, and nothing else; one
that stops before its commit has changed no row. -/
theorem ensures_purge [DecidableEq file] (outcomes : PurgeOutcomes file) :
    Crash.Ensures (fun world => world = before) (purge outcomes name)
      (fun purged world => before.legacy = false ∧
        purged = (purgeProject name before.database).1 ∧
        world.database = (purgeProject name before.database).2 ∧ Cleared before purged world)
      (Unchanged before) (Unchanged before) := by
  unfold purge
  apply Crash.ensures_bind ensures_refuseLegacy
  intro _
  apply Crash.ensures_given
  intro hlegacy
  apply Crash.ensures_bind (ensures_step outcomes.take fun world heq _ => by rw [heq])
  intro _
  apply Crash.ensures_bind (ensures_begin outcomes.begin)
  intro _
  apply Crash.ensures_bind (ensures_deleteRows outcomes.delete)
  intro purged
  have hgiven : Crash.Ensures
      (fun world => (world.database = before.database ∧
        world.transaction = Transaction.opened (purgeProject name before.database).2 ∧
        world.directories = before.directories) ∧ purged = (purgeProject name before.database).1)
      (removeIndex outcomes.remove purged)
      (fun _ world => (world.database = before.database ∧
        world.transaction = Transaction.opened (purgeProject name before.database).2 ∧
        Cleared before purged world) ∧ purged = (purgeProject name before.database).1)
      (Unchanged before) (Unchanged before) := by
    apply Crash.ensures_given
    intro hpurged
    exact Crash.ensures_mono (ensures_removeIndex purged outcomes.remove) (fun _ h => h)
      (fun _ _ h => ⟨h, hpurged⟩) (fun _ h => h) (fun _ h => h)
  apply Crash.ensures_bind hgiven
  intro _
  apply Crash.ensures_given
  intro hpurged
  apply Crash.ensures_bind (ensures_commit outcomes.commit)
  intro _
  apply Crash.ensures_bind
    (ensures_step _ fun world h hnot => absurd h.right.left hnot)
  intro _
  have hforget : Crash.Ensures
      (fun world => world.database = (purgeProject name before.database).2 ∧
        world.transaction = Transaction.committed ∧ Cleared before purged world)
      (forget name purged : Crash (World row file) Unit)
      (fun _ world => world.database = (purgeProject name before.database).2 ∧
        Cleared before purged world)
      (Unchanged before) (Unchanged before) := by
    intro world h
    exact ⟨h.left, h.right.right⟩
  apply Crash.ensures_bind hforget
  intro _
  apply Crash.ensures_pure
  intro world h
  exact ⟨hlegacy, hpurged, h.left, h.right⟩

def smooth : PurgeOutcomes file :=
  { take := Outcome.done, begin := Outcome.done, delete := Outcome.done,
    remove := Removal.done, commit := Committing.done, diesAfter := false }

theorem removeIndex_smooth [DecidableEq file] (purged : Option PurgedProject)
    (world : World row file) :
    exists after, removeIndex Removal.done purged world = (Ending.returned (), after) ∧
      after.transaction = world.transaction := by
  cases purged with
  | none => exact ⟨world, rfl, rfl⟩
  | some purged =>
      cases hlive : world.directories purged.id Directory.live with
      | none =>
          refine ⟨world, ?_, rfl⟩
          simp only [removeIndex, removeDirAll, hlive]
      | some files =>
          refine ⟨world.setDirectory purged.id Directory.live none, ?_, rfl⟩
          simp only [removeIndex, removeDirAll, hlive]

theorem purge_smooth [DecidableEq file] (hlegacy : before.legacy = false) :
    (purge smooth name before).1 = Ending.returned (purgeProject name before.database).1 := by
  have hrefuse : (refuseLegacy : Crash (World row file) Unit) before =
      (Ending.returned (), before) := by
    unfold refuseLegacy
    rw [hlegacy]
    rfl
  rcases removeIndex_smooth (purgeProject name before.database).1
    { before with transaction := Transaction.opened (purgeProject name before.database).2 }
    with ⟨cleared, hremove, htransaction⟩
  have hcommit : commit Committing.done cleared =
      (Ending.returned (),
        { cleared with
          database := (purgeProject name before.database).2
          transaction := Transaction.committed }) := by
    unfold commit
    rw [htransaction]
  have hdelete : (deleteRows name Outcome.done : Crash (World row file) (Option PurgedProject))
      { before with transaction := Transaction.opened before.database } =
      (Ending.returned (purgeProject name before.database).1,
        { before with
          transaction := Transaction.opened (purgeProject name before.database).2 }) := rfl
  have htake : (step Outcome.done : Crash (World row file) Unit) before =
      (Ending.returned (), before) := rfl
  have hbegin : (begin Outcome.done : Crash (World row file) Unit) before =
      (Ending.returned (),
        { before with transaction := Transaction.opened before.database }) := rfl
  unfold purge smooth
  rw [Crash.bind_returned hrefuse, Crash.bind_returned htake, Crash.bind_returned hbegin,
    Crash.bind_returned hdelete, Crash.bind_returned hremove, Crash.bind_returned hcommit]
  rfl

/-- The indexes that other operations leave beside the project's own are none. -/
def NothingBeside (world : World row file) (name : String) : Prop :=
  forall project, project ∈ world.database.projects -> project.name = name ->
    forall directory, directory ≠ Directory.live -> world.directories project.id directory = none

theorem everythingOrNothing_of_nothingBeside [DecidableEq file] (outcomes : PurgeOutcomes file)
    (h : before.legacy = true ∨ NothingBeside before name) :
    EverythingOrNothing before (purge outcomes name before) := by
  have hpurge := @ensures_purge row file before name _ outcomes before rfl
  cases hrun : purge outcomes name before with
  | mk ending after =>
      rw [hrun] at hpurge
      cases ending with
      | failed =>
          constructor
          · intro purged heq
            cases heq
          · intro _ _ hnot
            exact hpurge hnot
      | died =>
          constructor
          · intro purged heq
            cases heq
          · intro _ _ hnot
            exact hpurge hnot
      | returned result =>
          rcases hpurge with ⟨hlegacy, hresult, hdatabase, hcleared⟩
          constructor
          · intro purged heq
            cases heq
            cases h with
            | inl hrefused =>
                rw [hlegacy] at hrefused
                cases hrefused
            | inr hbeside =>
                cases purgeProject_cases name before.database with
                | inl hnone =>
                    rw [hnone.left] at hresult
                    cases hresult
                | inr hsome =>
                    rcases hsome with ⟨project, reported, hproject, hname, hid, heq⟩
                    rw [heq] at hresult hdatabase
                    cases hresult
                    constructor
                    · rw [hdatabase, hid]
                      exact noRows_delete before.database project.id
                    · intro directory
                      rw [hcleared purged.id directory]
                      by_cases hlive : directory = Directory.live
                      · exact if_pos ⟨rfl, hlive⟩
                      · rw [if_neg fun hboth => hlive hboth.right, hid]
                        exact hbeside project hproject hname directory hlive
          · intro dies heq
            cases dies with
            | false => cases heq
            | true => cases heq

/--
However its steps go, a purge leaves everything or nothing, if and only if it refuses the
workspace or no index lies beside the one of the project it names.
-/
theorem purge_leaves_everything_or_nothing_iff [DecidableEq file] (before : World row file)
    (name : String) :
    (forall outcomes, EverythingOrNothing before (purge outcomes name before)) <->
      (before.legacy = true ∨ NothingBeside before name) := by
  constructor
  · intro hall
    cases hlegacy : before.legacy with
    | true => exact Or.inl rfl
    | false =>
        right
        intro project hproject hname directory hbeside
        have hrun := @purge_smooth row file before name _ hlegacy
        have hpurge := @ensures_purge row file before name _ smooth before rfl
        have hleft := (hall smooth).everything
        generalize purge smooth name before = run at hrun hpurge hleft
        rcases run with ⟨ending, after⟩
        cases hrun
        rcases hpurge with ⟨_, _, _, hcleared⟩
        cases purgeProject_cases name before.database with
        | inl hnone => exact absurd hname (hnone.right project hproject)
        | inr hsome =>
            rcases hsome with ⟨found, purged, hfound, hfoundname, hid, heq⟩
            have hsame : found = project :=
              project_unique hfound hproject (hfoundname.trans hname.symm)
            rw [heq] at hleft hcleared
            have herased := (hleft purged rfl).directories directory
            rw [hcleared purged.id directory, if_neg fun hboth => hbeside hboth.right, hid,
              hsame] at herased
            exact herased
  · intro h outcomes
    exact everythingOrNothing_of_nothingBeside outcomes h

end Leaving

/-!
## An interrupted rebuild
-/

def oneProject : World Unit Unit where
  database :=
    { projects := [⟨1, "notes"⟩], synced := [], rows := fun _ => [(1, ())]
      nameOnce := by decide
      idOnce := by decide
      syncedOf := by
        intro entry hentry
        cases hentry
      rowsOf := by
        intro _ entry hentry
        rw [List.mem_singleton.mp hentry]
        exact List.mem_singleton_self 1 }
  transaction := Transaction.unopened
  directories := fun project directory =>
    if project = 1 ∧ directory = Directory.live then some {()} else none
  legacy := false
  projects := ["notes"]
  syncing := none

def interruptedRebuild : World Unit Unit :=
  ((setAside (fun _ => true) 1
    { discardAside := Removal.done, readMarker := Outcome.done, discardLive := Removal.done,
      move := Outcome.done } : Crash (World Unit Unit) Bool) oneProject).2

/-- The index a rebuild has set aside outlives the purge of its project. -/
theorem index_set_aside_outlives_its_project :
    (purge smooth "notes" interruptedRebuild).1 = Ending.returned (some ⟨1, 1, 1, []⟩) ∧
      (purge smooth "notes" interruptedRebuild).2.directories 1 Directory.previous = some {()} ∧
      ¬EverythingOrNothing interruptedRebuild (purge smooth "notes" interruptedRebuild) := by
  have hreport : (purge smooth "notes" interruptedRebuild).1 =
      Ending.returned (some ⟨1, 1, 1, []⟩) := by
    have hsame : interruptedRebuild.database = oneProject.database := rfl
    rw [purge_smooth rfl, hsame]
    simp [purgeProject, oneProject, Database.countOf, Database.syncedPaths]
  have hleft : (purge smooth "notes" interruptedRebuild).2.directories 1 Directory.previous =
      some {()} := by rfl
  refine ⟨hreport, hleft, ?_⟩
  intro h
  have herased := (h.everything _ hreport).directories Directory.previous
  rw [hleft] at herased
  cases herased

end Projects
end PaminMemory
