import PaminMemory.Foundation.Crash
import Mathlib.Data.Finset.Basic

/-!
# Putting the copy in the served index's place

A swap closes both indexes, moves the served one aside and the copy where it was, and opens
it there.  Any of these can fail, what is done after a failure can fail as well, and the
process can end anywhere; what whoever opens the project next has to go by is which of the
directories there are.
-/

namespace PaminMemory
namespace Index

open Foundation

/-- The directories of a project's index: the one it is served from, the copy a reshape
builds beside it, and where the served one is moved while the copy takes its place. -/
inductive Place where
  | live
  | sibling
  | replaced
deriving DecidableEq, Repr

abbrev Disk (file : Type) := Place -> Option (Finset file)

/-- How a rename or a look goes; a process that dies in it has not done it. -/
inductive Outcome where
  | done
  | fails
  | dies
deriving DecidableEq, Repr

/-- How the removal of a directory goes; stopped, it has kept a part of the files. -/
inductive Removal (file : Type) where
  | done
  | stopped (kept : Finset file) (dies : Bool)
deriving DecidableEq

/-- How opening an index goes; stopped, it may have written what opening writes. -/
inductive Opening where
  | done
  | stopped (written dies : Bool)
deriving DecidableEq, Repr

section Statements

variable {file : Type} [DecidableEq file]

def existsAt (place : Place) (outcome : Outcome) : Crash (Disk file) Bool :=
  fun disk =>
    match outcome with
    | Outcome.done => (Ending.returned (disk place).isSome, disk)
    | Outcome.fails => (Ending.failed, disk)
    | Outcome.dies => (Ending.died, disk)

def rename (source target : Place) (outcome : Outcome) : Crash (Disk file) Unit :=
  fun disk =>
    match outcome, disk source, disk target with
    | Outcome.done, some files, none =>
        (Ending.returned (),
          Function.update (Function.update disk source none) target (some files))
    | Outcome.dies, _, _ => (Ending.died, disk)
    | _, _, _ => (Ending.failed, disk)

def discard (place : Place) (outcome : Removal file) : Crash (Disk file) Unit :=
  fun disk =>
    match disk place, outcome with
    | none, _ => (Ending.returned (), disk)
    | some _, Removal.done => (Ending.returned (), Function.update disk place none)
    | some files, Removal.stopped kept dies =>
        (Ending.stopped dies, Function.update disk place (some (files ∩ kept)))

variable (collection : file) (opened : Finset file -> Finset file)

def Opening.leaves (files : Finset file) : Opening -> Finset file
  | done => opened files
  | stopped written _ => if written then opened files else files

def Opening.ending : Opening -> Ending Unit
  | done => Ending.returned ()
  | stopped _ dies => Ending.stopped dies

def reopen (place : Place) (outcome : Opening) : Crash (Disk file) Unit :=
  fun disk =>
    match (disk place).filter (collection ∈ ·), outcome with
    | none, Opening.done => (Ending.failed, disk)
    | none, Opening.stopped _ dies => (Ending.stopped dies, disk)
    | some files, outcome =>
        (outcome.ending, Function.update disk place (some (outcome.leaves opened files)))

/-- How each step of a swap goes, by what it does. -/
structure SwapOutcomes (file : Type) where
  discardReplaced : Removal file
  moveServed : Outcome
  moveCopy : Outcome
  /-- After the copy could not be moved. -/
  moveServedBack : Outcome
  openCopy : Opening
  /-- After the copy did not open. -/
  discardCopy : Removal file
  returnServed : Outcome
  reopenServed : Opening
  discardServed : Removal file
  discardSibling : Removal file

def exchange (outcomes : SwapOutcomes file) : Crash (Disk file) Unit := do
  discard Place.replaced outcomes.discardReplaced
  rename Place.live Place.replaced outcomes.moveServed
  let moved <- (rename Place.sibling Place.live outcomes.moveCopy).attempt
  if moved then
    let opens <- (reopen collection opened Place.live outcomes.openCopy).attempt
    if opens then
      pure ()
    else
      discard Place.live outcomes.discardCopy
      rename Place.replaced Place.live outcomes.returnServed
      Crash.fail
  else
    rename Place.replaced Place.live outcomes.moveServedBack
    Crash.fail

def swap (outcomes : SwapOutcomes file) : Crash (Disk file) Unit := do
  let exchanged <- (exchange collection opened outcomes).attempt
  let _ <-
    (if exchanged then
        -- if the old index is not deleted, whoever opens the project next does it
        discard Place.replaced outcomes.discardServed
      else
        reopen collection opened Place.live outcomes.reopenServed).attempt
  let _ <- (discard Place.sibling outcomes.discardSibling).attempt
  if exchanged then
    pure ()
  else
    Crash.fail

structure RecoverOutcomes (file : Type) where
  lookForReplaced : Outcome
  lookForLive : Outcome
  discardReplaced : Removal file
  moveBack : Outcome

/-- Puts back an index a swap moved aside and did not replace, and deletes one a finished
swap left behind. -/
def recover (outcomes : RecoverOutcomes file) : Crash (Disk file) Unit := do
  let aside <- existsAt Place.replaced outcomes.lookForReplaced
  if aside then
    let served <- existsAt Place.live outcomes.lookForLive
    if served then
      discard Place.replaced outcomes.discardReplaced
    else
      rename Place.replaced Place.live outcomes.moveBack
  else
    pure ()

end Statements

/-!
## What a swap may leave
-/

section Recovering

variable {file : Type} [DecidableEq file] (collection : file)
  (opened : Finset file -> Finset file) (served copy : Finset file)

/-- The files of a whole index: its collection is one, and opening it adds none and takes none. -/
structure Durable (files : Finset file) : Prop where
  held : collection ∈ files
  kept : opened files = files

/-- All of the served index, or all of the copy. -/
def Complete (files : Finset file) : Prop :=
  files = served ∨ files = copy

instance (files : Finset file) : Decidable (Complete served copy files) := by
  unfold Complete
  infer_instance

def Recoverable (disk : Disk file) : Prop :=
  match disk Place.live with
  | some files => Complete served copy files
  | none => exists files, disk Place.replaced = some files ∧ Complete served copy files

/--
However often recovering is tried, once it returns the next open finds the served index or
the copy, whole.
-/
def NeverLost (disk : Disk file) : Prop :=
  forall (tried : List (RecoverOutcomes file)) (last : RecoverOutcomes file) (found : Disk file),
    recover last (tried.foldl (fun disk outcomes => (recover outcomes disk).2) disk) =
        (Ending.returned (), found) ->
      exists files, found Place.live = some files ∧ Complete served copy files

def laid (live sibling replaced : Option (Finset file)) : Disk file
  | Place.live => live
  | Place.sibling => sibling
  | Place.replaced => replaced

def reopenedAs (outcome : Opening) (files : Finset file) : Finset file :=
  if collection ∈ files then outcome.leaves opened files else files

/--
If the copy is in place and does not open, its removal does not stop with a part of it left:
neither where the process ends nor after an error and the opening that follows it.
-/
def CopyKept (leftover : Option (Finset file)) (outcomes : SwapOutcomes file) : Prop :=
  (leftover = none ∨ outcomes.discardReplaced = Removal.done) ->
    outcomes.moveServed = Outcome.done -> outcomes.moveCopy = Outcome.done ->
      forall written, outcomes.openCopy = Opening.stopped written false ->
        forall kept dies, outcomes.discardCopy = Removal.stopped kept dies ->
          Complete served copy
            (if dies then copy ∩ kept
              else reopenedAs collection opened outcomes.reopenServed (copy ∩ kept))

end Recovering

section Laid

variable {file : Type} (live sibling replaced files : Option (Finset file))

@[simp] theorem update_live :
    Function.update (laid live sibling replaced) Place.live files =
      laid files sibling replaced := by
  funext place
  cases place <;> rfl

@[simp] theorem update_sibling :
    Function.update (laid live sibling replaced) Place.sibling files =
      laid live files replaced := by
  funext place
  cases place <;> rfl

@[simp] theorem update_replaced :
    Function.update (laid live sibling replaced) Place.replaced files =
      laid live sibling files := by
  funext place
  cases place <;> rfl

theorem eq_laid (disk : Disk file) :
    disk = laid (disk Place.live) (disk Place.sibling) (disk Place.replaced) := by
  funext place
  cases place <;> rfl

end Laid

/-!
## What is found where it was
-/

section Looking

variable {file : Type} {served copy : Finset file} {disk : Disk file}

theorem ensures_existsAt {place : Place} {outcome : Outcome} {before : Disk file -> Prop} :
    Crash.Ensures before (existsAt place outcome)
      (fun there disk => before disk ∧ there = (disk place).isSome) before before := by
  intro disk hbefore
  cases outcome with
  | done => exact ⟨hbefore, rfl⟩
  | fails => exact hbefore
  | dies => exact hbefore

theorem recoverable_live {files : Finset file} (hlive : disk Place.live = some files) :
    Recoverable served copy disk <-> Complete served copy files := by
  unfold Recoverable
  rw [hlive]

theorem recoverable_aside (hlive : disk Place.live = none) :
    Recoverable served copy disk <->
      exists files, disk Place.replaced = some files ∧ Complete served copy files := by
  unfold Recoverable
  rw [hlive]

variable (served copy) in
def Found (disk : Disk file) : Prop :=
  exists files, disk Place.live = some files ∧ Complete served copy files

theorem Found.recoverable (h : Found served copy disk) : Recoverable served copy disk := by
  rcases h with ⟨files, hlive, hcomplete⟩
  exact (recoverable_live hlive).mpr hcomplete

theorem found_of_recoverable (h : Recoverable served copy disk)
    (hlive : (disk Place.live).isSome) : Found served copy disk := by
  rcases Option.isSome_iff_exists.mp hlive with ⟨files, hlive⟩
  exact ⟨files, hlive, (recoverable_live hlive).mp h⟩

theorem found_update (h : Found served copy disk) {place : Place}
    (hne : place ≠ Place.live) (files : Option (Finset file)) :
    Found served copy (Function.update disk place files) := by
  unfold Found
  rw [Function.update_of_ne (Ne.symm hne)]
  exact h

theorem ensures_moveBack (outcome : Outcome) :
    Crash.Ensures (fun disk => Recoverable served copy disk ∧ disk Place.live = none)
      (rename Place.replaced Place.live outcome) (fun _ => Found served copy)
      (Recoverable served copy) (Recoverable served copy) := by
  intro disk h
  rcases (recoverable_aside h.2).mp h.1 with ⟨files, haside, hcomplete⟩
  unfold rename
  rw [haside, h.2]
  cases outcome with
  | done => exact ⟨files, Function.update_self _ _ _, hcomplete⟩
  | fails => exact h.1
  | dies => exact h.1

theorem ensures_rename {source target : Place} {outcome : Outcome}
    {files : Finset file} (hsource : disk source = some files) (htarget : disk target = none) :
    Crash.Ensures (fun other => other = disk) (rename source target outcome)
      (fun _ other => other = Function.update (Function.update disk source none) target (some files) ∧
        outcome = Outcome.done)
      (fun other => other = disk) (fun other => other = disk) := by
  intro other hother
  rw [hother]
  unfold rename
  rw [hsource, htarget]
  cases outcome with
  | done => exact ⟨rfl, rfl⟩
  | fails => rfl
  | dies => rfl

theorem found_laid_served (sibling replaced : Option (Finset file)) :
    Found served copy (laid (some served) sibling replaced) :=
  ⟨served, rfl, Or.inl rfl⟩

theorem found_laid_copy (sibling replaced : Option (Finset file)) :
    Found served copy (laid (some copy) sibling replaced) :=
  ⟨copy, rfl, Or.inr rfl⟩

theorem recoverable_laid_aside (sibling : Option (Finset file)) :
    Recoverable served copy (laid none sibling (some served)) :=
  (recoverable_aside rfl).mpr ⟨served, rfl, Or.inl rfl⟩

theorem recoverable_update_sibling (h : Recoverable served copy disk)
    (files : Option (Finset file)) :
    Recoverable served copy (Function.update disk Place.sibling files) := by
  rw [eq_laid disk, update_sibling]
  rw [eq_laid disk] at h
  exact h

end Looking

/-!
## Rules of the steps

Each step leaves the served index or the copy in a directory that a recovery looks in, or says
that it could not.
-/

section Rules

variable {file : Type} [DecidableEq file] {collection : file}
  {opened : Finset file -> Finset file} {served copy : Finset file}

theorem ensures_discard {place : Place} {outcome : Removal file} {P : Disk file -> Prop}
    (h : forall disk, P disk -> forall files, P (Function.update disk place files)) :
    Crash.Ensures P (discard place outcome) (fun _ => P) P P := by
  intro disk hbefore
  unfold discard
  cases hplace : disk place with
  | none => exact hbefore
  | some files =>
      cases outcome with
      | done => exact h disk hbefore none
      | stopped kept dies =>
          have hstopped := h disk hbefore (some (files ∩ kept))
          cases dies with
          | false => exact hstopped
          | true => exact hstopped

theorem ensures_recover (outcomes : RecoverOutcomes file) :
    Crash.Ensures (Recoverable served copy) (recover outcomes) (fun _ => Found served copy)
      (Recoverable served copy) (Recoverable served copy) := by
  have hlook : Crash.Ensures
      (fun disk => Recoverable served copy disk ∧ true = (disk Place.replaced).isSome)
      (existsAt Place.live outcomes.lookForLive)
      (fun there disk => Recoverable served copy disk ∧ there = (disk Place.live).isSome)
      (Recoverable served copy) (Recoverable served copy) :=
    Crash.ensures_mono ensures_existsAt (fun _ h => h.1) (fun _ _ h => h) (fun _ h => h)
      (fun _ h => h)
  apply Crash.ensures_bind ensures_existsAt
  intro aside
  cases aside with
  | false =>
      apply Crash.ensures_pure
      intro disk h
      apply found_of_recoverable h.1
      cases hlive : disk Place.live with
      | some files => rfl
      | none =>
          rcases (recoverable_aside hlive).mp h.1 with ⟨files, haside, _⟩
          rw [haside] at h
          cases h.2
  | true =>
      apply Crash.ensures_bind hlook
      intro there
      cases there with
      | false =>
          apply Crash.ensures_mono (ensures_moveBack outcomes.moveBack) _
            (fun _ _ h => h) (fun _ h => h) (fun _ h => h)
          intro disk h
          exact ⟨h.1, Option.not_isSome_iff_eq_none.mp (by rw [← h.2]; exact Bool.false_ne_true)⟩
      | true =>
          have hkept : Crash.Ensures (Found served copy)
              (discard Place.replaced outcomes.discardReplaced) (fun _ => Found served copy)
              (Found served copy) (Found served copy) :=
            ensures_discard fun disk h => found_update h (by decide)
          exact Crash.ensures_mono hkept (fun disk h => found_of_recoverable h.1 h.2.symm)
            (fun _ _ h => h) (fun _ h => h.recoverable) (fun _ h => h.recoverable)

def recovers : RecoverOutcomes file :=
  { lookForReplaced := Outcome.done, lookForLive := Outcome.done
    discardReplaced := Removal.done, moveBack := Outcome.done }

theorem neverLost_iff (disk : Disk file) :
    NeverLost served copy disk <-> Recoverable served copy disk := by
  constructor
  · intro hnever
    rw [eq_laid disk] at hnever ⊢
    generalize disk Place.live = live, disk Place.sibling = sibling,
      disk Place.replaced = replaced at hnever ⊢
    cases live with
    | some files =>
        apply (recoverable_live rfl).mpr
        cases replaced with
        | none =>
            rcases hnever [] recovers _ rfl with ⟨other, hother, hcomplete⟩
            cases hother
            exact hcomplete
        | some aside =>
            rcases hnever [] recovers _ rfl with ⟨other, hother, hcomplete⟩
            cases hother
            exact hcomplete
    | none =>
        apply (recoverable_aside rfl).mpr
        cases replaced with
        | none =>
            rcases hnever [] recovers _ rfl with ⟨other, hother, _⟩
            cases hother
        | some aside =>
            rcases hnever [] recovers _ rfl with ⟨other, hother, hcomplete⟩
            cases hother
            exact ⟨aside, rfl, hcomplete⟩
  · intro h tried last found hrun
    have hlater : Recoverable served copy
        (tried.foldl (fun disk outcomes => (recover outcomes disk).2) disk) := by
      clear hrun
      induction tried generalizing disk with
      | nil => exact h
      | cons outcomes rest ih =>
          apply ih
          exact Crash.ensures_state
            (Crash.ensures_mono (ensures_recover outcomes) (fun _ h => h)
              (fun _ _ h => h.recoverable) (fun _ h => h) (fun _ h => h)) h
    exact Crash.ensures_returned (ensures_recover last) hlater hrun

end Rules

/-!
## A swap and its undoing
-/

section Swapping

variable {file : Type} [DecidableEq file] {collection : file}
  {opened : Finset file -> Finset file} {served copy : Finset file}
  {leftover : Option (Finset file)} {outcomes : SwapOutcomes file}

variable (collection opened served copy outcomes) in
/-- What is left after a failed exchange can be recovered once the index is opened again. -/
def Reopens (disk : Disk file) : Prop :=
  Recoverable served copy (reopen collection opened Place.live outcomes.reopenServed disk).2

theorem reopen_live {disk : Disk file} {files : Finset file} {outcome : Opening}
    (hlive : disk Place.live = some files) :
    (reopen collection opened Place.live outcome disk).2 Place.live =
      some (reopenedAs collection opened outcome files) := by
  unfold reopen reopenedAs
  rw [hlive]
  by_cases hheld : collection ∈ files
  · have hfilter : Option.filter (fun files : Finset file => collection ∈ files) (some files) =
        some files := by simp [hheld]
    rw [hfilter, if_pos hheld]
    exact Function.update_self Place.live _ disk
  · have hfilter : Option.filter (fun files : Finset file => collection ∈ files) (some files) =
        none := by simp [hheld]
    rw [hfilter, if_neg hheld]
    cases outcome with
    | done => exact hlive
    | stopped written dies => exact hlive

theorem reopen_absent {disk : Disk file} {outcome : Opening} (hlive : disk Place.live = none) :
    (reopen collection opened Place.live outcome disk).2 = disk := by
  unfold reopen
  rw [hlive]
  cases outcome with
  | done => rfl
  | stopped written dies => rfl

theorem reopen_other {disk : Disk file} {outcome : Opening} {place : Place}
    (hne : place ≠ Place.live) :
    (reopen collection opened Place.live outcome disk).2 place = disk place := by
  unfold reopen
  cases (disk Place.live).filter (collection ∈ ·) with
  | none =>
      cases outcome with
      | done => rfl
      | stopped written dies => rfl
  | some files => exact Function.update_of_ne hne _ disk

theorem Durable.reopenedAs {files : Finset file} (h : Durable collection opened files)
    (outcome : Opening) : reopenedAs collection opened outcome files = files := by
  unfold Index.reopenedAs
  rw [if_pos h.held]
  cases outcome with
  | done => exact h.kept
  | stopped written dies =>
      cases written with
      | false => rfl
      | true => exact h.kept

theorem Complete.reopenedAs (hserved : Durable collection opened served)
    (hcopy : Durable collection opened copy) {files : Finset file}
    (h : Complete served copy files) (outcome : Opening) :
    Index.reopenedAs collection opened outcome files = files := by
  rcases h with h | h
  · rw [h, hserved.reopenedAs]
  · rw [h, hcopy.reopenedAs]

theorem Found.reopens (hserved : Durable collection opened served)
    (hcopy : Durable collection opened copy) {disk : Disk file} (h : Found served copy disk) :
    Reopens collection opened served copy outcomes disk := by
  rcases h with ⟨files, hlive, hcomplete⟩
  apply (recoverable_live (reopen_live hlive)).mpr
  rw [hcomplete.reopenedAs hserved hcopy]
  exact hcomplete

theorem reopens_absent {disk : Disk file} (hlive : disk Place.live = none)
    (h : Recoverable served copy disk) :
    Reopens collection opened served copy outcomes disk := by
  unfold Reopens
  rw [reopen_absent hlive]
  exact h

theorem ensures_putBack (hserved : Durable collection opened served)
    (hcopy : Durable collection opened copy) (sibling : Option (Finset file))
    (outcome : Outcome) :
    Crash.Ensures (fun disk => disk = laid none sibling (some served))
      (rename Place.replaced Place.live outcome >>= fun _ => Crash.fail)
      (fun (_ : Unit) => Found served copy) (Reopens collection opened served copy outcomes)
      (Recoverable served copy) := by
  have hmoved : Crash.Ensures (fun disk => disk = laid none sibling (some served))
      (rename Place.replaced Place.live outcome) (fun _ => Found served copy)
      (Reopens collection opened served copy outcomes) (Recoverable served copy) := by
    apply Crash.ensures_mono (ensures_rename rfl rfl) (fun disk h => h)
    · intro _ disk h
      rw [h.1, update_replaced, update_live]
      exact found_laid_served sibling none
    · intro disk h
      rw [h]
      exact reopens_absent rfl (recoverable_laid_aside sibling)
    · intro disk h
      rw [h]
      exact recoverable_laid_aside sibling
  apply Crash.ensures_bind hmoved
  intro _
  exact Crash.ensures_fail fun disk h => h.reopens hserved hcopy

theorem ensures_discardCopy (hserved : Durable collection opened served)
    (hcopy : Durable collection opened copy)
    (hkept : forall kept dies, outcomes.discardCopy = Removal.stopped kept dies ->
      Complete served copy
        (if dies then copy ∩ kept
          else reopenedAs collection opened outcomes.reopenServed (copy ∩ kept))) :
    Crash.Ensures (fun disk => disk = laid (some copy) none (some served))
      (discard Place.live outcomes.discardCopy >>= fun _ =>
        rename Place.replaced Place.live outcomes.returnServed >>= fun _ => Crash.fail)
      (fun (_ : Unit) => Found served copy) (Reopens collection opened served copy outcomes)
      (Recoverable served copy) := by
  have hdiscarded : Crash.Ensures (fun disk => disk = laid (some copy) none (some served))
      (discard Place.live outcomes.discardCopy)
      (fun _ disk => disk = laid none none (some served))
      (Reopens collection opened served copy outcomes) (Recoverable served copy) := by
    intro disk hdisk
    rw [hdisk]
    unfold discard laid
    cases houtcome : outcomes.discardCopy with
    | done => exact update_live _ _ _ _
    | stopped kept dies =>
        have hcomplete := hkept kept dies houtcome
        have hlive : Function.update (laid (some copy) none (some served)) Place.live
            (some (copy ∩ kept)) Place.live = some (copy ∩ kept) := Function.update_self _ _ _
        cases dies with
        | false => exact (recoverable_live (reopen_live hlive)).mpr hcomplete
        | true => exact (recoverable_live hlive).mpr hcomplete
  exact Crash.ensures_bind hdiscarded fun _ =>
    ensures_putBack hserved hcopy none outcomes.returnServed

theorem ensures_cleared (hserved : Durable collection opened served)
    (hcopy : Durable collection opened copy) :
    Crash.Ensures (fun disk => disk = laid (some served) (some copy) leftover)
      (discard Place.replaced outcomes.discardReplaced)
      (fun _ disk => disk = laid (some served) (some copy) none ∧
        (leftover = none ∨ outcomes.discardReplaced = Removal.done))
      (Reopens collection opened served copy outcomes) (Recoverable served copy) := by
  intro disk hdisk
  rw [hdisk]
  unfold discard
  cases leftover with
  | none => exact ⟨rfl, Or.inl rfl⟩
  | some files =>
      cases outcomes.discardReplaced with
      | done => exact ⟨update_replaced _ _ _ _, Or.inr rfl⟩
      | stopped kept dies =>
          have hfound : Found served copy (Function.update
              (laid (some served) (some copy) (some files)) Place.replaced
              (some (files ∩ kept))) := by
            rw [update_replaced]
            exact found_laid_served _ _
          cases dies with
          | false => exact hfound.reopens hserved hcopy
          | true => exact hfound.recoverable

theorem ensures_movedAside (hserved : Durable collection opened served)
    (hcopy : Durable collection opened copy) :
    Crash.Ensures (fun disk => disk = laid (some served) (some copy) none)
      (rename Place.live Place.replaced outcomes.moveServed)
      (fun _ disk => disk = laid none (some copy) (some served) ∧
        outcomes.moveServed = Outcome.done)
      (Reopens collection opened served copy outcomes) (Recoverable served copy) := by
  have hfound : Found served copy (laid (some served) (some copy) none) :=
    found_laid_served (some copy) none
  apply Crash.ensures_mono (ensures_rename rfl rfl) (fun disk h => h)
  · intro _ disk h
    rw [update_live, update_replaced] at h
    exact h
  · intro disk h
    rw [h]
    exact hfound.reopens hserved hcopy
  · intro disk h
    rw [h]
    exact hfound.recoverable

theorem ensures_movedIn :
    Crash.Ensures (fun disk => disk = laid none (some copy) (some served))
      (rename Place.sibling Place.live outcomes.moveCopy).attempt
      (fun moved disk =>
        if moved then
          disk = laid (some copy) none (some served) ∧ outcomes.moveCopy = Outcome.done
        else
          disk = laid none (some copy) (some served))
      (Reopens collection opened served copy outcomes) (Recoverable served copy) := by
  have hmoved : Crash.Ensures (fun disk => disk = laid none (some copy) (some served))
      (rename Place.sibling Place.live outcomes.moveCopy)
      (fun _ disk => disk = laid (some copy) none (some served) ∧
        outcomes.moveCopy = Outcome.done)
      (fun disk => disk = laid none (some copy) (some served)) (Recoverable served copy) := by
    apply Crash.ensures_mono (ensures_rename rfl rfl) (fun disk h => h)
    · intro _ disk h
      rw [update_sibling, update_live] at h
      exact h
    · intro disk h
      exact h
    · intro disk h
      rw [h]
      exact recoverable_laid_aside (some copy)
  exact Crash.ensures_attempt hmoved fun _ _ h => h

theorem reopen_durable (hcopy : Durable collection opened copy) (outcome : Opening)
    (sibling replaced : Option (Finset file)) :
    reopen collection opened Place.live outcome (laid (some copy) sibling replaced) =
      (outcome.ending, laid (some copy) sibling replaced) := by
  have hheld : Option.filter (fun files : Finset file => collection ∈ files) (some copy) =
      some copy := by simp [hcopy.held]
  have hleaves : outcome.leaves opened copy = copy := by
    have hreopened := hcopy.reopenedAs outcome
    unfold reopenedAs at hreopened
    rw [if_pos hcopy.held] at hreopened
    exact hreopened
  unfold reopen
  rw [show laid (some copy) sibling replaced Place.live = some copy from rfl, hheld]
  simp only [hleaves, update_live]

theorem ensures_opened (hcopy : Durable collection opened copy) :
    Crash.Ensures (fun disk => disk = laid (some copy) none (some served))
      (reopen collection opened Place.live outcomes.openCopy).attempt
      (fun opens disk =>
        if opens then
          Found served copy disk
        else
          disk = laid (some copy) none (some served) ∧
            exists written, outcomes.openCopy = Opening.stopped written false)
      (Reopens collection opened served copy outcomes) (Recoverable served copy) := by
  have hfound : Found served copy (laid (some copy) none (some served)) :=
    found_laid_copy none (some served)
  have hopened : Crash.Ensures (fun disk => disk = laid (some copy) none (some served))
      (reopen collection opened Place.live outcomes.openCopy) (fun _ => Found served copy)
      (fun disk => disk = laid (some copy) none (some served) ∧
        exists written, outcomes.openCopy = Opening.stopped written false)
      (Recoverable served copy) := by
    intro disk hdisk
    rw [hdisk, reopen_durable hcopy]
    cases outcomes.openCopy with
    | done => exact hfound
    | stopped written dies =>
        cases dies with
        | false => exact ⟨rfl, written, rfl⟩
        | true => exact hfound.recoverable
  exact Crash.ensures_attempt hopened fun _ _ h => h

theorem ensures_exchange (hserved : Durable collection opened served)
    (hcopy : Durable collection opened copy)
    (hkept : CopyKept collection opened served copy leftover outcomes) :
    Crash.Ensures (fun disk => disk = laid (some served) (some copy) leftover)
      (exchange collection opened outcomes) (fun _ => Found served copy)
      (Reopens collection opened served copy outcomes) (Recoverable served copy) := by
  apply Crash.ensures_bind (ensures_cleared hserved hcopy)
  intro _
  apply Crash.ensures_given
  intro hclear
  apply Crash.ensures_bind (ensures_movedAside hserved hcopy)
  intro _
  apply Crash.ensures_given
  intro hserve
  apply Crash.ensures_bind ensures_movedIn
  intro moved
  cases moved with
  | false => exact ensures_putBack hserved hcopy (some copy) outcomes.moveServedBack
  | true =>
      apply Crash.ensures_given
      intro hmove
      apply Crash.ensures_bind (ensures_opened hcopy)
      intro opens
      cases opens with
      | true => exact Crash.ensures_pure _ fun disk h => h
      | false =>
          apply Crash.ensures_given
          intro hopen
          rcases hopen with ⟨written, hopen⟩
          exact ensures_discardCopy hserved hcopy (hkept hclear hserve hmove written hopen)

theorem ensures_swap (hserved : Durable collection opened served)
    (hcopy : Durable collection opened copy)
    (hkept : CopyKept collection opened served copy leftover outcomes) :
    Crash.Ensures (fun disk => disk = laid (some served) (some copy) leftover)
      (swap collection opened outcomes) (fun _ => Recoverable served copy)
      (Recoverable served copy) (Recoverable served copy) := by
  have hexchanged : Crash.Ensures (fun disk => disk = laid (some served) (some copy) leftover)
      (exchange collection opened outcomes).attempt
      (fun exchanged disk =>
        if exchanged then Found served copy disk
        else Reopens collection opened served copy outcomes disk)
      (Recoverable served copy) (Recoverable served copy) :=
    Crash.ensures_attempt (ensures_exchange hserved hcopy hkept) fun _ _ h => h
  have hdropped : Crash.Ensures (Recoverable served copy)
      (discard Place.sibling outcomes.discardSibling).attempt
      (fun _ => Recoverable served copy) (Recoverable served copy)
      (Recoverable served copy) :=
    Crash.ensures_attempt
      (ensures_discard fun disk h files => recoverable_update_sibling h files) fun _ _ h => h
  apply Crash.ensures_bind hexchanged
  intro exchanged
  cases exchanged with
  | true =>
      have hcleared : Crash.Ensures (Found served copy)
          (discard Place.replaced outcomes.discardServed) (fun _ => Found served copy)
          (Found served copy) (Found served copy) :=
        ensures_discard fun disk h => found_update h (by decide)
      have hwarned : Crash.Ensures (Found served copy)
          (discard Place.replaced outcomes.discardServed).attempt
          (fun _ => Recoverable served copy) (Recoverable served copy)
          (Recoverable served copy) :=
        Crash.ensures_attempt
          (Crash.ensures_mono hcleared (fun _ h => h) (fun _ _ h => h.recoverable)
            (fun _ h => h.recoverable) (fun _ h => h.recoverable)) fun _ _ h => h
      apply Crash.ensures_bind hwarned
      intro _
      apply Crash.ensures_bind hdropped
      intro _
      exact Crash.ensures_pure () fun disk h => h
  | false =>
      have hreopened : Crash.Ensures (Reopens collection opened served copy outcomes)
          (reopen collection opened Place.live outcomes.reopenServed).attempt
          (fun _ => Recoverable served copy) (Recoverable served copy)
          (Recoverable served copy) :=
        Crash.ensures_attempt (Crash.ensures_of_state fun disk h => h) fun _ _ h => h
      apply Crash.ensures_bind hreopened
      intro _
      apply Crash.ensures_bind hdropped
      intro _
      exact Crash.ensures_fail fun disk h => h

variable (served) in
theorem exchange_stopped (hcopy : Durable collection opened copy)
    (hclear : leftover = none ∨ outcomes.discardReplaced = Removal.done)
    (hserve : outcomes.moveServed = Outcome.done) (hmove : outcomes.moveCopy = Outcome.done)
    {written : Bool} (hopen : outcomes.openCopy = Opening.stopped written false)
    {kept : Finset file} {dies : Bool}
    (hdiscard : outcomes.discardCopy = Removal.stopped kept dies) :
    exchange collection opened outcomes (laid (some served) (some copy) leftover) =
      (Ending.stopped dies, laid (some (copy ∩ kept)) none (some served)) := by
  have hcleared : discard Place.replaced outcomes.discardReplaced
      (laid (some served) (some copy) leftover) =
        (Ending.returned (), laid (some served) (some copy) none) := by
    rcases hclear with hnone | hdone
    · rw [hnone]
      rfl
    · rw [hdone]
      cases leftover with
      | none => rfl
      | some files => exact Prod.ext rfl (update_replaced _ _ _ _)
  have haside : rename Place.live Place.replaced outcomes.moveServed
      (laid (some served) (some copy) none) =
        (Ending.returned (), laid none (some copy) (some served)) := by
    rw [hserve]
    exact Prod.ext rfl (by simp [rename, laid])
  have hmoved : rename Place.sibling Place.live outcomes.moveCopy
      (laid none (some copy) (some served)) =
        (Ending.returned (), laid (some copy) none (some served)) := by
    rw [hmove]
    exact Prod.ext rfl (by simp [rename, laid])
  have hopened : reopen collection opened Place.live outcomes.openCopy
      (laid (some copy) none (some served)) =
        (Ending.failed, laid (some copy) none (some served)) := by
    rw [reopen_durable hcopy, hopen]
    rfl
  have hdiscarded : discard Place.live outcomes.discardCopy
      (laid (some copy) none (some served)) =
        (Ending.stopped dies, laid (some (copy ∩ kept)) none (some served)) := by
    rw [hdiscard]
    exact Prod.ext rfl (update_live _ _ _ _)
  unfold exchange
  rw [Crash.bind_returned hcleared, Crash.bind_returned haside,
    Crash.bind_returned (Crash.attempt_returned hmoved), if_pos rfl,
    Crash.bind_returned (Crash.attempt_failed hopened), if_neg Bool.false_ne_true,
    Crash.bind_stopped hdiscarded]

theorem swap_failed {start disk : Disk file}
    (hfailed : exchange collection opened outcomes start = (Ending.failed, disk))
    (hsibling : disk Place.sibling = none) :
    (swap collection opened outcomes start).2 =
      (reopen collection opened Place.live outcomes.reopenServed disk).2 := by
  unfold swap
  rw [Crash.bind_returned (Crash.attempt_failed hfailed), if_neg Bool.false_ne_true]
  have hother : (reopen collection opened Place.live outcomes.reopenServed disk).2
      Place.sibling = none := by
    rw [reopen_other (by decide)]
    exact hsibling
  cases hrun : reopen collection opened Place.live outcomes.reopenServed disk with
  | mk ending final =>
      rw [hrun] at hother
      have hother : final Place.sibling = none := hother
      have hdropped : discard Place.sibling outcomes.discardSibling final =
          (Ending.returned (), final) := by
        unfold discard
        rw [hother]
      cases ending with
      | returned value =>
          rw [Crash.bind_returned (Crash.attempt_returned hrun),
            Crash.bind_returned (Crash.attempt_returned hdropped)]
          rfl
      | failed =>
          rw [Crash.bind_returned (Crash.attempt_failed hrun),
            Crash.bind_returned (Crash.attempt_returned hdropped)]
          rfl
      | died =>
          have hdied : Crash.attempt (reopen collection opened Place.live outcomes.reopenServed)
              disk = (Ending.stopped true, final) := Crash.attempt_died hrun
          rw [Crash.bind_stopped hdied]

theorem recoverable_swap_iff (hserved : Durable collection opened served)
    (hcopy : Durable collection opened copy) :
    Recoverable served copy
        (swap collection opened outcomes (laid (some served) (some copy) leftover)).2 <->
      CopyKept collection opened served copy leftover outcomes := by
  constructor
  · intro h hclear hserve hmove written hopen kept dies hdiscard
    have hstopped := exchange_stopped served hcopy hclear hserve hmove hopen hdiscard
    have hlive : laid (some (copy ∩ kept)) none (some served) Place.live = some (copy ∩ kept) := rfl
    cases dies with
    | true =>
        have hdied : Crash.attempt (exchange collection opened outcomes)
            (laid (some served) (some copy) leftover) =
              (Ending.stopped true, laid (some (copy ∩ kept)) none (some served)) :=
          Crash.attempt_died hstopped
        unfold swap at h
        rw [Crash.bind_stopped hdied] at h
        exact (recoverable_live hlive).mp h
    | false =>
        rw [swap_failed hstopped rfl] at h
        exact (recoverable_live (reopen_live hlive)).mp h
  · intro hkept
    exact Crash.ensures_state (ensures_swap hserved hcopy hkept) rfl

/--
However each step of a swap goes, the next open that recovering comes to finds the served
index or the copy if and only if the swap does not leave a part of the copy in their place.
-/
theorem swap_never_loses_iff (hserved : Durable collection opened served)
    (hcopy : Durable collection opened copy) (leftover : Option (Finset file))
    (outcomes : SwapOutcomes file) :
    NeverLost served copy
        (swap collection opened outcomes (laid (some served) (some copy) leftover)).2 <->
      CopyKept collection opened served copy leftover outcomes :=
  (neverLost_iff _).trans (recoverable_swap_iff hserved hcopy)

end Swapping

/-!
## A copy that is removed in part
-/

def removalStops : SwapOutcomes Nat :=
  { discardReplaced := Removal.done, moveServed := Outcome.done, moveCopy := Outcome.done
    moveServedBack := Outcome.done, openCopy := Opening.stopped false false
    discardCopy := Removal.stopped {2} false, returnServed := Outcome.done
    reopenServed := Opening.done, discardServed := Removal.done, discardSibling := Removal.done }

theorem durable_zero {files : Finset Nat} (h : 0 ∈ files) : Durable 0 id files :=
  { held := h, kept := rfl }

theorem swap_never_loses_iff_removalStops :
    NeverLost {0, 1} {0, 2} (swap 0 id removalStops (laid (some {0, 1}) (some {0, 2}) none)).2 <->
      CopyKept 0 id {0, 1} {0, 2} none removalStops :=
  swap_never_loses_iff (durable_zero (by decide)) (durable_zero (by decide)) none removalStops

/-- Recovering then deletes the served index, the only whole one. -/
theorem half_removed_copy_replaces_index :
    ¬ NeverLost {0, 1} {0, 2}
      (swap 0 id removalStops (laid (some {0, 1}) (some {0, 2}) none)).2 := by
  intro hnever
  rcases hnever [] recovers _ rfl with ⟨files, hlive, hcomplete⟩
  have hfiles : files = {0, 2} ∩ {2} := (Option.some.inj hlive).symm
  rw [hfiles] at hcomplete
  revert hcomplete
  decide

end Index
end PaminMemory
