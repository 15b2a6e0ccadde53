import PaminMemory.Foundation.Looks
import PaminMemory.Foundation.Parties
import PaminMemory.Foundation.Runs
import PaminMemory.Ingest.Records

/-!
# A trusted record is of the file's text

A file changes while ingests look at it, each reading the clock, then the file's stat, then its
text, and storing a record of them.  A change after the stat is stamped too late for a record
that is trusted to have the file's stat still.
-/

namespace PaminMemory
namespace Trusting

open Foundation
open Ingest (File FileRecord Stat trusted)

/-- A file as it stands at its path. -/
structure Standing where
  text : String
  size : Nat
  modifiedNs : Int
  changedNs : Int
  inode : Nat
deriving DecidableEq, Repr

def Standing.stat (standing : Standing) (readNs : Int) : Stat where
  size := standing.size
  modifiedNs := standing.modifiedNs
  changedNs := standing.changedNs
  inode := standing.inode
  readNs := readNs

/-- The clock as it is read, the file while there is one, and how often it changed. -/
structure World where
  clock : Int
  standing : Option Standing
  changes : Nat
deriving DecidableEq, Repr

inductive Stage where
  | timed (readNs : Int)
  | stated (stat : Stat) (looked : Nat)
  | reading (stat : Stat) (looked began : Nat)
  | hashed (record : FileRecord) (text : String) (looked : Nat)
deriving DecidableEq, Repr

/-- The record stored of the file, with the text that was hashed for it. -/
structure Kept where
  record : FileRecord
  text : String
  looked : Nat
deriving DecidableEq, Repr

structure State where
  world : World
  ingests : List (Nat × Stage)
  kept : Option Kept
deriving DecidableEq, Repr

def State.start (world : World) : State where
  world := world
  ingests := []
  kept := none

/-- What happens to the file, or what an ingest does; any may leave off at any time, as one does
that trusts the record it loaded. -/
inductive Action where
  | wait (clock : Int)
  /-- The file is written, replaced, made or removed. -/
  | change (standing : Option Standing)
  | take (ingest : Nat)
  | stat (ingest : Nat)
  | start (ingest : Nat)
  | read (ingest : Nat) (build text : String)
  | check (ingest : Nat)
  | store (ingest sections : Nat)
  | leave (ingest : Nat)
  | forget
deriving DecidableEq, Repr

section Model

variable (contentHash : String -> String) (file : File)

def State.go (s : State) (ingest : Nat) (stage : Stage) : State :=
  { s with ingests := setParty ingest stage s.ingests }

def State.left (s : State) (ingest : Nat) : State :=
  { s with ingests := dropParty ingest s.ingests }

def step (s : State) : Action -> Option State
  | Action.wait clock => some { s with world := { s.world with clock := clock } }
  | Action.change standing =>
      some { s with world := { s.world with standing := standing, changes := s.world.changes + 1 } }
  | Action.take ingest =>
      if (partyOf s.ingests ingest).isNone then
        some { s with ingests := s.ingests ++ [(ingest, Stage.timed s.world.clock)] }
      else
        none
  | Action.stat ingest =>
      match partyOf s.ingests ingest, s.world.standing with
      | some (Stage.timed readNs), some standing =>
          some (s.go ingest (Stage.stated (standing.stat readNs) s.world.changes))
      | _, _ => none
  | Action.start ingest =>
      match partyOf s.ingests ingest with
      | some (Stage.stated stat looked) =>
          some (s.go ingest (Stage.reading stat looked s.world.changes))
      | _ => none
  | Action.read ingest build text =>
      match partyOf s.ingests ingest with
      | some (Stage.reading stat looked began) =>
          -- a file changed while it is read may be read as anything
          if began < s.world.changes ∨ s.world.standing.map Standing.text = some text then
            some (s.go ingest
              (Stage.hashed (stat.recorded file (contentHash text) build) text looked))
          else
            none
      | _ => none
  | Action.check ingest =>
      match partyOf s.ingests ingest with
      | some (Stage.hashed record _ _) =>
          if s.world.standing.any fun standing =>
              (standing.stat s.world.clock).sameFile record then
            some s
          else
            some (s.left ingest)
      | _ => none
  | Action.store ingest sections =>
      match partyOf s.ingests ingest with
      | some (Stage.hashed record text looked) =>
          let record : FileRecord := { record with sections := sections }
          some { s.left ingest with kept := some ⟨record.stored, text, looked⟩ }
      | _ => none
  | Action.leave ingest => some (s.left ingest)
  | Action.forget => some { s with kept := none }

end Model

def granularity : Int := 2 * 1000000000

/-- Clocks do not go backwards, and a change stamps the file's change time with its own time
rounded down by two seconds at most. -/
def Assumed (s : State) : Action -> Prop
  | Action.wait clock => s.world.clock <= clock
  | Action.change (some standing) => s.world.clock - granularity <= standing.changedNs
  | _ => True

/-!
## What is known of a stat
-/

/-- A stat taken after the clock was read: every change since is stamped no more than the
granularity before that. -/
structure Dated (world : World) (readNs : Int) (looked : Nat) : Prop where
  past : readNs <= world.clock
  counted : looked <= world.changes
  stamped : looked < world.changes -> forall standing, world.standing = some standing ->
    readNs - granularity <= standing.changedNs

/-- The file, if there is one, says so. -/
def Shows (world : World) (text : String) : Prop :=
  forall standing, world.standing = some standing -> standing.text = text

/-- A record of a text that was hashed: the file's, for as long as it does not change after the
stat. -/
structure Hashed (contentHash : String -> String) (world : World) (record : FileRecord)
    (text : String) (looked : Nat) : Prop where
  dated : Dated world record.readNs looked
  seen : Seen world.changes looked (Shows world text)
  hash : record.contentHash = contentHash text

def Known (contentHash : String -> String) (world : World) : Stage -> Prop
  | Stage.timed readNs => readNs <= world.clock
  | Stage.stated stat looked => Dated world stat.readNs looked
  | Stage.reading stat looked began =>
      Dated world stat.readNs looked ∧ looked <= began ∧ began <= world.changes
  | Stage.hashed record text looked => Hashed contentHash world record text looked

structure Inv (contentHash : String -> String) (s : State) : Prop where
  ingests : forall entry, entry ∈ s.ingests -> Known contentHash s.world entry.2
  kept : forall kept, s.kept = some kept ->
    Hashed contentHash s.world kept.record kept.text kept.looked

section World

variable {contentHash : String -> String} {world : World} {readNs : Int} {looked : Nat}
  {record : FileRecord} {text : String} {stage : Stage} {clock : Int}

theorem dated_waited (h : Dated world readNs looked) (hclock : world.clock <= clock) :
    Dated { world with clock := clock } readNs looked :=
  ⟨Int.le_trans h.past hclock, h.counted, h.stamped⟩

theorem dated_changed {standing : Option Standing} (h : Dated world readNs looked)
    (hstamped : forall new, standing = some new ->
      world.clock - granularity <= new.changedNs) :
    Dated { world with standing := standing, changes := world.changes + 1 } readNs looked := by
  refine ⟨h.past, Nat.le_succ_of_le h.counted, ?_⟩
  intro _ new hnew
  have hpast := h.past
  have hnow := hstamped new hnew
  omega

theorem known_waited (h : Known contentHash world stage) (hclock : world.clock <= clock) :
    Known contentHash { world with clock := clock } stage := by
  cases stage with
  | timed readNs => exact Int.le_trans h hclock
  | stated stat looked => exact dated_waited h hclock
  | reading stat looked began => exact ⟨dated_waited h.1 hclock, h.2⟩
  | hashed record text looked => exact ⟨dated_waited h.dated hclock, h.seen, h.hash⟩

theorem hashed_changed {standing : Option Standing}
    (h : Hashed contentHash world record text looked)
    (hstamped : forall new, standing = some new ->
      world.clock - granularity <= new.changedNs) :
    Hashed contentHash { world with standing := standing, changes := world.changes + 1 } record
      text looked :=
  ⟨dated_changed h.dated hstamped, h.seen.counted (Nat.lt_succ_self _), h.hash⟩

theorem known_changed {standing : Option Standing} (h : Known contentHash world stage)
    (hstamped : forall new, standing = some new ->
      world.clock - granularity <= new.changedNs) :
    Known contentHash { world with standing := standing, changes := world.changes + 1 } stage := by
  cases stage with
  | timed readNs => exact h
  | stated stat looked => exact dated_changed h hstamped
  | reading stat looked began =>
      exact ⟨dated_changed h.1 hstamped, h.2.1, Nat.le_succ_of_le h.2.2⟩
  | hashed record text looked => exact hashed_changed h hstamped

theorem dated_now (h : readNs <= world.clock) : Dated world readNs world.changes :=
  ⟨h, Nat.le_refl _, fun hless => absurd hless (Nat.lt_irrefl _)⟩

theorem hashed_read {stat : Stat} {began : Nat} {file : File} {build : String}
    (h : Known contentHash world (Stage.reading stat looked began))
    (hread : began < world.changes ∨ world.standing.map Standing.text = some text) :
    Hashed contentHash world (stat.recorded file (contentHash text) build) text looked := by
  refine ⟨h.1, ⟨h.1.counted, ?_⟩, rfl⟩
  intro hsame standing hstanding
  rcases hread with hless | htext
  · have hbegan := h.2.1
    omega
  · rw [hstanding] at htext
    exact Option.some.inj htext

theorem text_of_trusted {standing : Standing} {build : String}
    (h : Hashed contentHash world record text looked) (hstanding : world.standing = some standing)
    (htrusted : trusted build record (standing.stat readNs) = true) : standing.text = text := by
  unfold trusted Stat.sameFile at htrusted
  simp only [Bool.and_eq_true, decide_eq_true_eq] at htrusted
  rcases htrusted with ⟨⟨_, ⟨_, hchanged⟩, _⟩, hsettled⟩
  have hstat : standing.changedNs = record.changedNs := hchanged
  have hlater : record.changedNs < record.readNs - Ingest.RACY_NS :=
    Int.lt_of_le_of_lt (Int.le_max_right _ _) hsettled
  rcases Nat.lt_or_eq_of_le h.dated.counted with hless | hsame
  · have hstamped := h.dated.stamped hless standing hstanding
    have hmargin : granularity = Ingest.RACY_NS := rfl
    omega
  · exact h.seen.still hsame standing hstanding

end World

/-!
## Every interleaving
-/

section Runs

variable {contentHash : String -> String} {file : File} {s : State}

theorem inv_start (world : World) : Inv contentHash (State.start world) := by
  constructor
  · intro entry hentry
    cases hentry
  · intro kept hkept
    cases hkept

theorem inv_go {ingest : Nat} {stage : Stage} (h : Inv contentHash s)
    (hstage : Known contentHash s.world stage) : Inv contentHash (s.go ingest stage) :=
  ⟨forall_moved h.ingests hstage, h.kept⟩

theorem inv_left {ingest : Nat} (h : Inv contentHash s) : Inv contentHash (s.left ingest) :=
  ⟨fun entry hentry => h.ingests entry (mem_dropParty hentry), h.kept⟩

theorem known_of_partyOf {ingest : Nat} {stage : Stage} (h : Inv contentHash s)
    (hparty : partyOf s.ingests ingest = some stage) : Known contentHash s.world stage :=
  h.ingests _ (mem_of_partyOf hparty)

theorem inv_step : PreservedWhen (step contentHash file) Assumed (Inv contentHash) := by
  intro s action t h hassumed hstep
  cases action with
  | wait clock =>
      cases hstep
      constructor
      · intro entry hentry
        exact known_waited (h.ingests entry hentry) hassumed
      · intro kept hkept
        have hold := h.kept kept hkept
        exact ⟨dated_waited hold.dated hassumed, hold.seen, hold.hash⟩
  | change standing =>
      cases hstep
      have hstamped : forall new, standing = some new ->
          s.world.clock - granularity <= new.changedNs := by
        intro new hnew
        rw [hnew] at hassumed
        exact hassumed
      constructor
      · intro entry hentry
        exact known_changed (h.ingests entry hentry) hstamped
      · intro kept hkept
        exact hashed_changed (h.kept kept hkept) hstamped
  | take ingest =>
      rw [step] at hstep
      split at hstep
      · cases hstep
        exact ⟨forall_joined h.ingests (Int.le_refl s.world.clock), h.kept⟩
      · cases hstep
  | stat ingest =>
      rw [step] at hstep
      split at hstep
      · next readNs standing hparty hstanding =>
          cases hstep
          exact inv_go h (dated_now (known_of_partyOf h hparty))
      · cases hstep
  | start ingest =>
      rw [step] at hstep
      split at hstep
      · next stat looked hparty =>
          cases hstep
          have hdated : Dated s.world stat.readNs looked := known_of_partyOf h hparty
          exact inv_go h ⟨hdated, hdated.counted, Nat.le_refl _⟩
      · cases hstep
  | read ingest build text =>
      rw [step] at hstep
      split at hstep
      · next stat looked began hparty =>
          split at hstep
          · next hread =>
              cases hstep
              exact inv_go h (hashed_read (known_of_partyOf h hparty) hread)
          · cases hstep
      · cases hstep
  | check ingest =>
      rw [step] at hstep
      split at hstep
      · split at hstep
        · cases hstep
          exact h
        · cases hstep
          exact inv_left h
      · cases hstep
  | store ingest sections =>
      rw [step] at hstep
      split at hstep
      · next record text looked hparty =>
          cases hstep
          refine ⟨(inv_left h).ingests, ?_⟩
          intro kept hkept
          cases hkept
          have hhashed : Hashed contentHash s.world record text looked :=
            known_of_partyOf h hparty
          exact ⟨hhashed.dated, hhashed.seen, hhashed.hash⟩
      · cases hstep
  | leave ingest =>
      cases hstep
      exact inv_left h
  | forget =>
      cases hstep
      refine ⟨h.ingests, ?_⟩
      intro kept hkept
      cases hkept

end Runs

/-- Whatever the interleaving of changes to the file with the steps of any ingests of it, a record
that a stat of the file is trusted against is of the text the file has then. -/
theorem trusted_is_unchanged (contentHash : String -> String) (file : File) (world : World)
    (actions : List Action) (s : State)
    (hassumed : Along (step contentHash file) Assumed (State.start world) actions)
    (hrun : RunFrom (step contentHash file) (State.start world) actions = some s) (kept : Kept)
    (hkept : s.kept = some kept) (standing : Standing)
    (hstanding : s.world.standing = some standing) (build : String) (readNs : Int)
    (htrusted : trusted build kept.record (standing.stat readNs) = true) :
    standing.text = kept.text ∧ kept.record.contentHash = contentHash standing.text := by
  have hinv : Inv contentHash s := runFrom_preservedWhen inv_step (inv_start world) hassumed hrun
  have hhashed := hinv.kept kept hkept
  have htext := text_of_trusted hhashed hstanding htrusted
  refine ⟨htext, ?_⟩
  rw [htext]
  exact hhashed.hash

def note : File := { name := "a.md", path := "/home/a.md", root := "/home" }

def settled : Standing :=
  { text := "one", size := 3, modifiedNs := 59000000000, changedNs := 59000000000, inode := 7 }

def readWhenSettled : List Action :=
  [Action.change (some settled), Action.wait 120000000000, Action.take 0, Action.stat 0,
    Action.start 0, Action.read 0 "build" "one", Action.check 0, Action.store 0 1]

def settledRecord : FileRecord :=
  { root := "/home", file := "a.md", size := 3, modifiedNs := 59000000000
    changedNs := 59000000000, inode := 7, readNs := 120000000000, contentHash := "one"
    sections := 1, build := "build" }

theorem trusted_is_unchanged_when_settled :
    trusted "build" settledRecord (settled.stat 130000000000) = true ∧
      settled.text = "one" ∧ settledRecord.contentHash = id settled.text := by
  have htrusted : trusted "build" settledRecord (settled.stat 130000000000) = true := by decide
  have hassumed : Along (step id note) Assumed (State.start ⟨60000000000, none, 0⟩)
      readWhenSettled := by
    simp [readWhenSettled, Along, Assumed, State.start, granularity, settled, step]
  exact ⟨htrusted, trusted_is_unchanged id note ⟨60000000000, none, 0⟩ readWhenSettled
    { world := ⟨120000000000, some settled, 1⟩, ingests := []
      kept := some ⟨settledRecord, "one", 1⟩ } hassumed (by decide) ⟨settledRecord, "one", 1⟩ rfl
    settled rfl "build" 130000000000 htrusted⟩

end Trusting
end PaminMemory
