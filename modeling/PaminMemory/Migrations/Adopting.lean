import PaminMemory.Foundation.Parties
import PaminMemory.Foundation.Runs

/-!
# Adopting the history of the previous runner

A start copies what the previous runner recorded into the table its own runner reads, a row
and a commit at a time, and only when that table holds no row.  Starts run side by side, and
any of them can die between two statements.
-/

namespace PaminMemory
namespace Migrations

open Foundation

structure Migration where
  version : Int
  description : String
  checksum : List UInt8
deriving DecidableEq, Repr

structure Row where
  version : Int
  description : String
  success : Bool
  checksum : List UInt8
  executionTime : Int
deriving DecidableEq, Repr

/-- How far a start is. -/
inductive Phase where
  | begun
  | creating
  | counting
  | reading
  | copying (left : List Migration)
  /-- Nothing is left to adopt. -/
  | pending
  | migrating
deriving DecidableEq, Repr

structure System where
  /-- The versions in `refinery_schema_history`, if there is such a table. -/
  history : Option (List Int)
  /-- The rows of `_sqlx_migrations`, if there is such a table. -/
  recorded : Option (List Row)
  /-- The versions this runner applied, in order. -/
  ran : List Int
  starts : List (Nat × Phase)
deriving DecidableEq, Repr

def System.upgraded (history : Option (List Int)) : System :=
  { history := history, recorded := none, ran := [], starts := [] }

def System.applied (s : System) : List Int := s.history.getD []

def System.rows (s : System) : List Row := s.recorded.getD []

def Migration.row (migration : Migration) (executionTime : Int) : Row :=
  { version := migration.version, description := migration.description, success := true
    checksum := migration.checksum, executionTime := executionTime }

def insertRow (row : Row) (rows : List Row) : List Row :=
  if row.version ∈ rows.map Row.version then rows else rows ++ [row]

section Model

variable (listed : List Migration)

/-- A statement of a start, or the end of its process. -/
inductive Action where
  | start (id : Nat)
  | next (id : Nat)
  | apply (id : Nat) (migration : Migration) (executionTime : Int)
  | stop (id : Nat)
deriving DecidableEq, Repr

def System.statement (s : System) : Phase -> Option (System × Phase)
  | Phase.begun => some (s, if s.history.isSome then Phase.creating else Phase.pending)
  | Phase.creating => some ({ s with recorded := some s.rows }, Phase.counting)
  | Phase.counting => some (s, if 0 < s.rows.length then Phase.pending else Phase.reading)
  | Phase.reading =>
      some (s, Phase.copying (listed.filter fun migration => migration.version ∈ s.applied))
  | Phase.copying [] => some (s, Phase.pending)
  | Phase.copying (migration :: left) =>
      some
        ({ s with recorded := some (insertRow (migration.row (-1)) s.rows) }, Phase.copying left)
  | Phase.pending => some (s, Phase.migrating)
  | Phase.migrating => none

/-- Applies a listed migration that is not recorded, in one transaction with its record. -/
def System.apply (s : System) (id : Nat) (migration : Migration) (executionTime : Int) :
    Option System :=
  if partyOf s.starts id = some Phase.migrating ∧ migration ∈ listed ∧
      migration.version ∉ s.rows.map Row.version then
    some
      { s with
        recorded := some (s.rows ++ [migration.row executionTime])
        ran := s.ran ++ [migration.version] }
  else
    none

def step (s : System) : Action -> Option System
  | Action.start id =>
      if id ∈ s.starts.map Prod.fst then
        none
      else
        some { s with starts := s.starts ++ [(id, Phase.begun)] }
  | Action.next id =>
      (partyOf s.starts id).bind fun phase => (s.statement listed phase).map fun moved =>
        { moved.1 with starts := setParty id moved.2 s.starts }
  | Action.apply id migration executionTime => s.apply listed id migration executionTime
  | Action.stop id => some { s with starts := dropParty id s.starts }

/-!
## What a start should find
-/

def Recorded (s : System) (version : Int) : Prop := version ∈ s.rows.map Row.version

instance (s : System) : DecidablePred (Recorded s) := by
  intro version
  unfold Recorded
  infer_instance

def Adopted (s : System) : Prop :=
  forall migration, migration ∈ listed -> migration.version ∈ s.applied ->
    Recorded s migration.version

instance (s : System) : Decidable (Adopted listed s) := by
  unfold Adopted
  infer_instance

/-- Where a start has reached the migrator the history is adopted, and nothing the previous
runner applied was applied again. -/
structure AdoptedOnce (s : System) : Prop where
  adopted : forall entry, entry ∈ s.starts -> entry.2 = Phase.migrating -> Adopted listed s
  once : forall version, version ∈ s.ran -> version ∉ s.applied

/-- A start counts the rows before there is any, or once the history is adopted. -/
def CountsWhole (s : System) : Action -> Prop
  | Action.next id =>
      partyOf s.starts id = some Phase.counting -> s.rows = [] ∨ Adopted listed s
  | _ => True

instance (s : System) : DecidablePred (CountsWhole listed s) := by
  intro action
  cases action <;> unfold CountsWhole <;> infer_instance

end Model

/-!
## Every order of the starts
-/

section Starting

variable {listed : List Migration} {s t : System}

def Accounts (listed : List Migration) (s : System) : Phase -> Prop
  | Phase.copying left =>
      forall migration, migration ∈ listed -> migration.version ∈ s.applied ->
        migration ∈ left ∨ Recorded s migration.version
  | Phase.pending => Adopted listed s
  | Phase.migrating => Adopted listed s
  | _ => True

structure Inv (listed : List Migration) (s : System) : Prop where
  starts : forall entry, entry ∈ s.starts -> Accounts listed s entry.2
  once : forall version, version ∈ s.ran -> version ∉ s.applied

structure Grows (s t : System) : Prop where
  history : t.history = s.history
  rows : s.rows ⊆ t.rows

theorem Grows.refl (s : System) : Grows s s where
  history := rfl
  rows := List.Subset.refl _

theorem Grows.applied (h : Grows s t) : t.applied = s.applied :=
  congrArg (fun history => history.getD []) h.history

theorem Grows.recorded (h : Grows s t) {version : Int} (hrecorded : Recorded s version) :
    Recorded t version :=
  List.map_subset Row.version h.rows hrecorded

theorem Grows.adopted (h : Grows s t) (hadopted : Adopted listed s) : Adopted listed t := by
  intro migration hlisted happlied
  rw [h.applied] at happlied
  exact h.recorded (hadopted migration hlisted happlied)

theorem Grows.accounts (h : Grows s t) {phase : Phase} (haccounts : Accounts listed s phase) :
    Accounts listed t phase := by
  cases phase with
  | copying left =>
      intro migration hlisted happlied
      rw [h.applied] at happlied
      exact (haccounts migration hlisted happlied).imp_right h.recorded
  | pending => exact h.adopted haccounts
  | migrating => exact h.adopted haccounts
  | _ => exact True.intro

theorem grows_of_rows {rows : List Row} (h : s.rows ⊆ rows) :
    Grows s { s with recorded := some rows } where
  history := rfl
  rows := h

theorem subset_insertRow (row : Row) (rows : List Row) : rows ⊆ insertRow row rows := by
  unfold insertRow
  split
  · exact List.Subset.refl rows
  · exact List.subset_append_left rows _

theorem mem_insertRow (row : Row) (rows : List Row) :
    row.version ∈ (insertRow row rows).map Row.version := by
  unfold insertRow
  split
  · next hthere => exact hthere
  · rw [List.map_append, List.mem_append]
    exact Or.inr List.mem_cons_self

theorem adopted_of_history_none (h : s.history = none) : Adopted listed s := by
  intro migration _ happlied
  unfold System.applied at happlied
  rw [h] at happlied
  cases happlied

theorem statement_accounts {phase next : Phase} (haccounts : Accounts listed s phase)
    (hcounts : phase = Phase.counting -> s.rows = [] ∨ Adopted listed s)
    (h : s.statement listed phase = some (t, next)) :
    Grows s t ∧ t.ran = s.ran ∧ t.starts = s.starts ∧ Accounts listed t next := by
  cases phase with
  | begun =>
      cases h
      refine ⟨Grows.refl s, rfl, rfl, ?_⟩
      cases hhistory : s.history with
      | none => exact adopted_of_history_none hhistory
      | some history => exact True.intro
  | creating =>
      cases h
      exact ⟨grows_of_rows (List.Subset.refl _), rfl, rfl, True.intro⟩
  | counting =>
      cases h
      refine ⟨Grows.refl s, rfl, rfl, ?_⟩
      rcases hcounts rfl with hnone | hadopted
      · rw [hnone]
        exact True.intro
      · split
        · exact hadopted
        · exact True.intro
  | reading =>
      cases h
      refine ⟨Grows.refl s, rfl, rfl, ?_⟩
      intro migration hlisted happlied
      exact Or.inl (List.mem_filter.mpr ⟨hlisted, decide_eq_true happlied⟩)
  | copying left =>
      cases left with
      | nil =>
          cases h
          refine ⟨Grows.refl s, rfl, rfl, ?_⟩
          intro migration hlisted happlied
          exact (haccounts migration hlisted happlied).resolve_left List.not_mem_nil
      | cons first left =>
          cases h
          have hgrows : Grows s
              { s with recorded := some (insertRow (first.row (-1)) s.rows) } :=
            grows_of_rows (subset_insertRow _ _)
          refine ⟨hgrows, rfl, rfl, ?_⟩
          intro migration hlisted happlied
          rcases haccounts migration hlisted happlied with hleft | hrecorded
          · rcases List.mem_cons.mp hleft with rfl | hlater
            · exact Or.inr (mem_insertRow (migration.row (-1)) s.rows)
            · exact Or.inl hlater
          · exact Or.inr (hgrows.recorded hrecorded)
  | pending =>
      cases h
      exact ⟨Grows.refl s, rfl, rfl, haccounts⟩
  | migrating => cases h

theorem inv_next {id : Nat} (hinv : Inv listed s)
    (hcounts : CountsWhole listed s (Action.next id))
    (hstep : step listed s (Action.next id) = some t) : Inv listed t := by
  rcases Option.bind_eq_some_iff.mp hstep with ⟨phase, hphase, hmap⟩
  rcases Option.map_eq_some_iff.mp hmap with ⟨⟨moved, next⟩, hstatement, rfl⟩
  have haccounts := hinv.starts (id, phase) (mem_of_partyOf hphase)
  have hcounting : phase = Phase.counting -> s.rows = [] ∨ Adopted listed s := by
    intro hsame
    exact hcounts (hsame ▸ hphase)
  rcases statement_accounts haccounts hcounting hstatement with ⟨hgrows, hran, _, hnext⟩
  have hafter : Grows s { moved with starts := setParty id next s.starts } :=
    { history := hgrows.history, rows := hgrows.rows }
  have hsame : Grows moved { moved with starts := setParty id next s.starts } :=
    { history := rfl, rows := List.Subset.refl _ }
  constructor
  · apply forall_moved
    · exact fun entry hentry => hafter.accounts (hinv.starts entry hentry)
    · exact hsame.accounts hnext
  · intro version hversion
    rw [hafter.applied]
    exact hinv.once version (hran ▸ hversion)

theorem inv_apply {id : Nat} {migration : Migration} {executionTime : Int}
    (hinv : Inv listed s)
    (hstep : step listed s (Action.apply id migration executionTime) = some t) :
    Inv listed t := by
  rcases Option.ite_none_right_eq_some.mp hstep with ⟨⟨hphase, hlisted, hunrecorded⟩, hnext⟩
  cases hnext
  have hadopted : Adopted listed s :=
    hinv.starts (id, Phase.migrating) (mem_of_partyOf hphase)
  have hgrows : Grows s
      { s with
        recorded := some (s.rows ++ [migration.row executionTime])
        ran := s.ran ++ [migration.version] } :=
    { history := rfl, rows := List.subset_append_left _ _ }
  constructor
  · exact fun entry hentry => hgrows.accounts (hinv.starts entry hentry)
  · intro version hversion
    rw [hgrows.applied]
    rcases List.mem_append.mp hversion with hearlier | hnow
    · exact hinv.once version hearlier
    · rw [List.mem_singleton.mp hnow]
      exact fun happlied => hunrecorded (hadopted migration hlisted happlied)

theorem inv_step : PreservedWhen (step listed) (CountsWhole listed) (Inv listed) := by
  intro s action t hinv hcounts hstep
  cases action with
  | start id =>
      rcases Option.ite_none_left_eq_some.mp hstep with ⟨_, hnext⟩
      cases hnext
      have hgrows : Grows s { s with starts := s.starts ++ [(id, Phase.begun)] } :=
        { history := rfl, rows := List.Subset.refl _ }
      constructor
      · apply forall_joined
        · exact fun entry hentry => hgrows.accounts (hinv.starts entry hentry)
        · exact True.intro
      · exact hinv.once
  | next id => exact inv_next hinv hcounts hstep
  | apply id migration executionTime => exact inv_apply hinv hstep
  | stop id =>
      cases hstep
      have hgrows : Grows s { s with starts := dropParty id s.starts } :=
        { history := rfl, rows := List.Subset.refl _ }
      constructor
      · exact fun entry hentry => hgrows.accounts (hinv.starts entry (mem_dropParty hentry))
      · exact hinv.once

theorem Inv.adoptedOnce (h : Inv listed s) : AdoptedOnce listed s where
  adopted := by
    intro entry hentry hphase
    have haccounts := h.starts entry hentry
    rw [hphase] at haccounts
    exact haccounts
  once := h.once

/--
In every run in which the rows are counted before there is any or once the history is adopted,
a start that reaches the migrator finds the history adopted.
-/
theorem adopted_before_migrating {history : Option (List Int)} {actions : List Action}
    (hcounts : Along (step listed) (CountsWhole listed) (System.upgraded history) actions)
    (hrun : RunFrom (step listed) (System.upgraded history) actions = some t) :
    AdoptedOnce listed t := by
  have hbegun : Inv listed (System.upgraded history) :=
    { starts := (fun _ hentry => nomatch hentry)
      once := (fun _ hversion => nomatch hversion) }
  exact (runFrom_preservedWhen inv_step hbegun hcounts hrun).adoptedOnce

end Starting

def threeListed : List Migration :=
  [{ version := 1, description := "initial", checksum := [1] },
    { version := 2, description := "relationships", checksum := [2] },
    { version := 3, description := "shard_key_and_indexes", checksum := [3] }]

def sideBySide : List Action :=
  [Action.start 0, Action.start 1, Action.next 0, Action.next 1, Action.next 0, Action.next 1,
    Action.next 0, Action.next 1, Action.next 0, Action.next 1, Action.next 0, Action.next 1,
    Action.next 0, Action.next 0, Action.next 0]

theorem adopted_before_migrating_sideBySide :
    Along (step threeListed) (CountsWhole threeListed) (System.upgraded (some [1, 2]))
        sideBySide ∧
      exists t, RunFrom (step threeListed) (System.upgraded (some [1, 2])) sideBySide = some t ∧
        AdoptedOnce threeListed t :=
  have hcounts : Along (step threeListed) (CountsWhole threeListed)
      (System.upgraded (some [1, 2])) sideBySide := by decide
  ⟨hcounts, _, rfl, adopted_before_migrating hcounts rfl⟩

/-- A start dies after copying one row, and the next one goes on to apply the other again. -/
def diesCopying : List Action :=
  [Action.start 0, Action.next 0, Action.next 0, Action.next 0, Action.next 0, Action.next 0,
    Action.stop 0, Action.start 1, Action.next 1, Action.next 1, Action.next 1, Action.next 1,
    Action.apply 1 { version := 2, description := "relationships", checksum := [2] } 40]

theorem partial_copy_is_not_finished :
    ¬ forall actions t,
      RunFrom (step threeListed) (System.upgraded (some [1, 2])) actions = some t ->
        AdoptedOnce threeListed t := by
  intro hclaim
  rcases hclaim diesCopying _ rfl with ⟨_, honce⟩
  exact honce 2 (by decide) (by decide)

end Migrations
end PaminMemory
