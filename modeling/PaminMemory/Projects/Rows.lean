import PaminMemory.Identifiers
import Mathlib.Data.List.Nodup
import Mathlib.Data.List.Sort

/-!
# A project's rows

Every table of the ledger refers to `projects` with `ON DELETE CASCADE`, so the rows of a
project go with its own.
-/

namespace PaminMemory
namespace Projects

structure Project where
  id : ProjectId
  name : String
deriving DecidableEq, Repr

/-- A path a project keeps in sync. -/
structure SyncedPath where
  project : ProjectId
  path : String
deriving DecidableEq, Repr

inductive Table where
  | sources
  | sourceVersions
  | sourceSpans
  | topics
  | topicStates
  | topicNameTokens
  | topicAliases
  | relationships
  | relationshipVersions
  | indexJobs
  | fileRecords
deriving DecidableEq, Repr

structure Database (row : Type) where
  projects : List Project
  synced : List SyncedPath
  rows : Table -> List (ProjectId × row)
  nameOnce : (projects.map Project.name).Nodup
  idOnce : (projects.map Project.id).Nodup
  syncedOf : forall entry, entry ∈ synced -> entry.project ∈ projects.map Project.id
  rowsOf : forall table entry, entry ∈ rows table -> entry.1 ∈ projects.map Project.id

section Rows

variable {row : Type}

theorem mem_ids_filter {projects : List Project} {gone id : ProjectId} (hne : id ≠ gone)
    (h : id ∈ projects.map Project.id) :
    id ∈ (projects.filter fun project => project.id ≠ gone).map Project.id := by
  rcases List.mem_map.mp h with ⟨project, hproject, heq⟩
  apply List.mem_map.mpr
  refine ⟨project, List.mem_filter.mpr ⟨hproject, ?_⟩, heq⟩
  rw [heq]
  exact decide_eq_true hne

def Database.delete (database : Database row) (gone : ProjectId) : Database row where
  projects := database.projects.filter fun project => project.id ≠ gone
  synced := database.synced.filter fun entry => entry.project ≠ gone
  rows := fun table => (database.rows table).filter fun entry => entry.1 ≠ gone
  nameOnce := database.nameOnce.sublist (List.filter_sublist.map _)
  idOnce := database.idOnce.sublist (List.filter_sublist.map _)
  syncedOf := by
    intro entry hentry
    rcases List.mem_filter.mp hentry with ⟨hmem, hne⟩
    exact mem_ids_filter (of_decide_eq_true hne) (database.syncedOf entry hmem)
  rowsOf := by
    intro table entry hentry
    rcases List.mem_filter.mp hentry with ⟨hmem, hne⟩
    exact mem_ids_filter (of_decide_eq_true hne) (database.rowsOf table entry hmem)

structure PurgedProject where
  id : ProjectId
  topics : Nat
  sources : Nat
  /-- The paths it kept in sync, for the caller to stop watching. -/
  synced : List String
deriving DecidableEq, Repr

def Database.countOf (database : Database row) (table : Table) (project : ProjectId) : Nat :=
  ((database.rows table).filter fun entry => entry.1 = project).length

def Database.syncedPaths (database : Database row) (project : ProjectId) : List String :=
  let paths := (database.synced.filter fun entry => entry.project = project).map SyncedPath.path
  paths.mergeSort fun first second => first <= second

def purgeProject (name : String) (database : Database row) :
    Option PurgedProject × Database row :=
  match database.projects.find? fun project => project.name = name with
  | none => (none, database)
  | some project =>
      (some
        { id := project.id
          topics := database.countOf Table.topics project.id
          sources := database.countOf Table.sources project.id
          synced := database.syncedPaths project.id },
        database.delete project.id)

structure NoRows (database : Database row) (project : ProjectId) : Prop where
  itself : forall other, other ∈ database.projects -> other.id ≠ project
  synced : forall entry, entry ∈ database.synced -> entry.project ≠ project
  rows : forall table entry, entry ∈ database.rows table -> entry.1 ≠ project

theorem noRows_delete (database : Database row) (project : ProjectId) :
    NoRows (database.delete project) project := by
  constructor
  · intro other hother
    exact of_decide_eq_true (List.mem_filter.mp hother).right
  · intro entry hentry
    exact of_decide_eq_true (List.mem_filter.mp hentry).right
  · intro table entry hentry
    exact of_decide_eq_true (List.mem_filter.mp hentry).right

theorem purgeProject_cases (name : String) (database : Database row) :
    (purgeProject name database = (none, database) ∧
      forall project, project ∈ database.projects -> project.name ≠ name) ∨
    exists project purged, project ∈ database.projects ∧ project.name = name ∧
      purged.id = project.id ∧
      purgeProject name database = (some purged, database.delete project.id) := by
  unfold purgeProject
  cases hfind : database.projects.find? fun project => project.name = name with
  | none =>
      left
      refine ⟨rfl, ?_⟩
      intro project hproject
      have hnot := List.find?_eq_none.mp hfind project hproject
      exact fun heq => hnot (decide_eq_true heq)
  | some project =>
      right
      have hname : project.name = name := by simpa using List.find?_some hfind
      exact ⟨project, _, List.mem_of_find?_eq_some hfind, hname, rfl, rfl⟩

theorem project_unique {database : Database row} {first second : Project}
    (hfirst : first ∈ database.projects) (hsecond : second ∈ database.projects)
    (hname : first.name = second.name) : first = second :=
  List.inj_on_of_nodup_map database.nameOnce hfirst hsecond hname

end Rows

end Projects
end PaminMemory
