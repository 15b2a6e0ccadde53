import PaminMemory.Foundation.Parties
import PaminMemory.Jobs.Holding

/-!
# Rounds over claimed work

A worker runs what one claim handed it in a round: it takes some of the jobs up,
carries them through stages of its own, and is done with them before it completes
them.  Work is owed, and still to be done right, while whoever holds its claim has
not gone past some point.
-/

namespace PaminMemory
namespace Jobs

open Foundation

structure Round (progress : Type) where
  worker : String
  jobs : List Job
  batch : List Job
  stage : progress
  done : List Job
deriving DecidableEq, Repr

section Rounds

variable {progress : Type} {ready : Round progress -> Job -> Prop}

def Round.Before (ready : progress -> Prop) (round : Round progress) (job : Job) : Prop :=
  job ∉ round.done ∧ (job ∈ round.batch -> ready round.stage)

def Owed (ready : Round progress -> Job -> Prop) (queue : Queue)
    (rounds : List (Nat × Round progress)) (work : Work) : Prop :=
  Pending queue work ∧
    forall entry, entry ∈ rounds -> forall job, job ∈ entry.2.jobs -> job.work = work ->
      Holds queue entry.2.worker job -> ready entry.2 job

instance (ready : progress -> Prop) [DecidablePred ready] (round : Round progress)
    (job : Job) : Decidable (round.Before ready job) := by
  unfold Round.Before
  infer_instance

instance [forall round job, Decidable (ready round job)] (queue : Queue)
    (rounds : List (Nat × Round progress)) (work : Work) :
    Decidable (Owed ready queue rounds work) := by
  unfold Owed
  infer_instance

def HandedOut (history : List Event) (rounds : List (Nat × Round progress)) : Prop :=
  forall entry, entry ∈ rounds -> Handed history entry.2.worker entry.2.jobs

def Within (rounds : List (Nat × Round progress)) : Prop :=
  forall entry, entry ∈ rounds ->
    entry.2.done ⊆ entry.2.jobs ∧ entry.2.batch ⊆ entry.2.jobs

variable {s t : Outbox} {statement : Statement} {rounds : List (Nat × Round progress)}
  {work : Work}

theorem owed_step (h : Consistent s) (hhanded : HandedOut s.history rounds)
    (hstep : step s statement = some t)
    (hdone : forall worker jobs, statement = Statement.complete worker jobs ->
      exists entry, entry ∈ rounds ∧ entry.2.worker = worker ∧
        forall job, job ∈ jobs -> job ∈ entry.2.jobs ∧ ¬ ready entry.2 job)
    (howed : Owed ready s.queue rounds work) : Owed ready t.queue rounds work := by
  rcases howed with ⟨hpending, hholders⟩
  constructor
  · rcases pending_step h hpending hstep with hstill | hcompleted
    · exact hstill
    · rcases hcompleted with ⟨worker, jobs, job, hstatement, hjob, hwork, hholds⟩
      rcases hdone worker jobs hstatement with ⟨entry, hmem, rfl, hjobs⟩
      have hready := hholders entry hmem job (hjobs job hjob).1 hwork hholds
      exact absurd hready (hjobs job hjob).2
  · intro entry hmem job hjob hwork hholds
    have hbefore := (holds_step h (hhanded entry hmem job hjob) hstep hholds).1
    exact hholders entry hmem job hjob hwork hbefore

theorem owed_requested (h : Consistent s) (hhanded : HandedOut s.history rounds)
    {now : Instant} {project : ProjectId} {subject : Option Uuid}
    {kinds : List (IndexJobId × JobKind)} {kind : IndexJobId × JobKind} (hkind : kind ∈ kinds)
    (hstep : step s (Statement.enqueue now project subject kinds) = some t) :
    Owed ready t.queue rounds { project := project, kind := kind.2, subject := subject } := by
  constructor
  · simp only [step, Option.ite_none_right_eq_some, Option.some.injEq] at hstep
    rcases hstep with ⟨_, rfl⟩
    exact pending_requested hkind s.queue
  · intro entry hmem job hjob hwork hholds
    have hnot := (holds_step h (hhanded entry hmem job hjob) hstep hholds).2
    rw [hwork] at hnot
    exact absurd ⟨kind, hkind, rfl⟩ hnot

theorem owed_joined {queue : Queue} {id : Nat} {round : Round progress}
    (howed : Owed ready queue rounds work)
    (hready : forall job, job ∈ round.jobs -> ready round job) :
    Owed ready queue (rounds ++ [(id, round)]) work :=
  ⟨howed.1, forall_joined howed.2 fun job hjob _ _ => hready job hjob⟩

theorem owed_dropped {queue : Queue} {id : Nat} (howed : Owed ready queue rounds work) :
    Owed ready queue (dropParty id rounds) work :=
  ⟨howed.1, fun entry hmem => howed.2 entry (mem_dropParty hmem)⟩

theorem owed_moved {queue : Queue} {id : Nat} {round moved : Round progress}
    (hround : partyOf rounds id = some round) (howed : Owed ready queue rounds work)
    (hworker : moved.worker = round.worker) (hjobs : moved.jobs = round.jobs)
    (hready : forall job, job ∈ round.jobs -> job.work = work ->
      Holds queue round.worker job -> ready round job -> ready moved job) :
    Owed ready queue (setParty id moved rounds) work := by
  refine ⟨howed.1, forall_moved howed.2 ?_⟩
  intro job hjob hwork hholds
  rw [hjobs] at hjob
  rw [hworker] at hholds
  have hbefore := howed.2 (id, round) (mem_of_partyOf hround) job hjob hwork hholds
  exact hready job hjob hwork hholds hbefore

end Rounds

end Jobs
end PaminMemory
