import PaminMemory.Identifiers
import Mathlib.Data.List.Sort

/-!
# The job queue

The outbox is a table with one row for each piece of work still owed.  Each
definition here is one statement of the queue, as a function of the rows it
reads to the rows it leaves and the rows it returns.
-/

namespace PaminMemory
namespace Jobs

inductive JobKind where
  | syncTopicIndex
  | deriveMentions
  | backfillMentions
  | optimizeIndex
deriving DecidableEq, Repr

namespace JobKind

def all : List JobKind :=
  [syncTopicIndex, deriveMentions, backfillMentions, optimizeIndex]

def urgent : List JobKind :=
  [syncTopicIndex, deriveMentions, backfillMentions]

end JobKind

def LEASE : Int := seconds 60

def RETRY_AFTER : Int := seconds 3600

def MAX_ATTEMPTS : Int := 8

def priority : JobKind -> Int
  | JobKind.syncTopicIndex => 10
  | JobKind.deriveMentions => 20
  | JobKind.backfillMentions => 50
  | JobKind.optimizeIndex => 100

def LAGGING_AT : Nat := 10000

def mayDefer (pending : Nat) : Bool := pending < LAGGING_AT

structure Work where
  project : ProjectId
  kind : JobKind
  subject : Option Uuid
deriving DecidableEq, Repr

structure IndexJob where
  id : IndexJobId
  work : Work
  attempts : Int
  availableAt : Instant
  createdAt : Instant
  claimedAt : Option Instant
  claimedBy : Option String
  lastError : Option String
  priority : Int
deriving DecidableEq, Repr

structure Job where
  id : IndexJobId
  work : Work
  attempts : Int
  claimedAt : Option Instant
deriving DecidableEq, Repr

abbrev Queue := List IndexJob

def rowToJob (row : IndexJob) : Job :=
  { id := row.id, work := row.work, attempts := row.attempts,
    claimedAt := row.claimedAt }

/-!
# Queueing work
-/

def requested (now : Instant) (row : IndexJob) : IndexJob :=
  { row with
    availableAt := now
    claimedAt := none
    claimedBy := none
    lastError := none
    attempts := 0 }

def inserted (now : Instant) (id : IndexJobId) (work : Work) : IndexJob :=
  { id := id, work := work, attempts := 0, availableAt := now, createdAt := now,
    claimedAt := none, claimedBy := none, lastError := none,
    priority := priority work.kind }

def enqueueJob (now : Instant) (id : IndexJobId) (work : Work) (queue : Queue) : Queue :=
  if queue.any (fun row => row.work = work) then
    queue.map (fun row => if row.work = work then requested now row else row)
  else
    queue ++ [inserted now id work]

def enqueueAll (now : Instant) (project : ProjectId) (subject : Option Uuid)
    (kinds : List (IndexJobId × JobKind)) (queue : Queue) : Queue :=
  kinds.foldl
    (fun queue kind =>
      enqueueJob now kind.1 { project := project, kind := kind.2, subject := subject } queue)
    queue

/-!
# Claiming work
-/

def Due (now : Instant) (project : ProjectId) (kinds : List JobKind) (row : IndexJob) : Prop :=
  row.work.project = project ∧ row.work.kind ∈ kinds ∧
    row.priority ∈ kinds.map priority ∧ row.availableAt <= now ∧
      row.attempts < MAX_ATTEMPTS

instance (now : Instant) (project : ProjectId) (kinds : List JobKind) (row : IndexJob) :
    Decidable (Due now project kinds row) := by
  unfold Due
  infer_instance

def TakenBefore (row other : IndexJob) : Prop :=
  row.priority < other.priority ∨
    row.priority = other.priority ∧ row.availableAt <= other.availableAt

instance : DecidableRel TakenBefore := fun row other => by
  unfold TakenBefore
  infer_instance

/--
The rows a claim takes.  A row another transaction has locked is skipped; which
rows those are is the caller's to say, and so is the order of rows that
`TakenBefore` does not tell apart.
-/
def claimable (now : Instant) (project : ProjectId) (batch : Nat) (kinds : List JobKind)
    (locked : List IndexJobId) (queue : Queue) : List IndexJobId :=
  (((queue.filter fun row => Due now project kinds row ∧ row.id ∉ locked).insertionSort
    TakenBefore).take batch).map IndexJob.id

def claimedRow (now : Instant) (worker : String) (row : IndexJob) : IndexJob :=
  { row with
    claimedAt := some now
    claimedBy := some worker
    attempts := row.attempts + 1
    availableAt := now + LEASE }

def claim (now : Instant) (project : ProjectId) (worker : String) (batch : Nat)
    (kinds : List JobKind) (locked : List IndexJobId) (queue : Queue) : Queue × List Job :=
  let taken := claimable now project batch kinds locked queue
  (queue.map fun row => if row.id ∈ taken then claimedRow now worker row else row,
    (queue.filter fun row => row.id ∈ taken).map fun row =>
      rowToJob (claimedRow now worker row))

/-!
# Settling work
-/

def CarriesClaim (worker : String) (job : Job) (row : IndexJob) : Prop :=
  row.id = job.id ∧ row.claimedBy = some worker ∧
    row.claimedAt.isSome ∧ row.claimedAt = job.claimedAt

instance (worker : String) (job : Job) (row : IndexJob) :
    Decidable (CarriesClaim worker job row) := by
  unfold CarriesClaim
  infer_instance

def complete (jobs : List Job) (worker : String) (queue : Queue) : Queue × List IndexJobId :=
  (queue.filter fun row => ¬ exists job, job ∈ jobs ∧ CarriesClaim worker job row,
    (queue.filter fun row => exists job, job ∈ jobs ∧ CarriesClaim worker job row).map
      IndexJob.id)

/-- The rows a failure writes: the job's own, if this worker holds it. -/
def FailTouches (worker : String) (job : Job) (row : IndexJob) : Prop :=
  row.id = job.id ∧ row.claimedBy = some worker

instance (worker : String) (job : Job) (row : IndexJob) :
    Decidable (FailTouches worker job row) := by
  unfold FailTouches
  infer_instance

def failedRow (now : Instant) (job : Job) (error : String) (row : IndexJob) : IndexJob :=
  { row with
    lastError := some error
    claimedAt := none
    claimedBy := none
    availableAt :=
      if MAX_ATTEMPTS <= job.attempts then row.availableAt else now + RETRY_AFTER }

def fail (now : Instant) (job : Job) (worker : String) (error : String) (queue : Queue) :
    Queue :=
  queue.map fun row => if FailTouches worker job row then failedRow now job error row else row

/-!
# Asking about the queue
-/

def pending (project : ProjectId) (queue : Queue) : Nat :=
  (queue.filter fun row => row.work.project = project).length

def Exhausted (project : ProjectId) (row : IndexJob) : Prop :=
  row.work.project = project ∧ MAX_ATTEMPTS <= row.attempts

instance (project : ProjectId) (row : IndexJob) : Decidable (Exhausted project row) := by
  unfold Exhausted
  infer_instance

def exhausted (project : ProjectId) (queue : Queue) : List (Job × String) :=
  ((queue.filter fun row => Exhausted project row).insertionSort TakenBefore).map fun row =>
    (rowToJob row, row.lastError.getD "")

def replayedRow (now : Instant) (row : IndexJob) : IndexJob :=
  { row with
    attempts := 0
    availableAt := now
    claimedAt := none
    claimedBy := none }

def replay (now : Instant) (project : ProjectId) (queue : Queue) : Queue × Nat :=
  (queue.map fun row => if Exhausted project row then replayedRow now row else row,
    (queue.filter fun row => Exhausted project row).length)

def discard (project : ProjectId) (queue : Queue) : Queue × Nat :=
  (queue.filter fun row => ¬ Exhausted project row,
    (queue.filter fun row => Exhausted project row).length)

/-!
# What each statement does to the rows
-/

/-- Some row still owes the work. -/
def Pending (queue : Queue) (work : Work) : Prop :=
  exists row, row ∈ queue ∧ row.work = work

def InPlace (update : IndexJob -> IndexJob) : Prop :=
  forall row, (update row).id = row.id ∧ (update row).work = row.work

theorem columns_ite (update : IndexJob -> IndexJob) (h : InPlace update)
    (cond : IndexJob -> Prop) [DecidablePred cond] (queue : Queue) :
    (queue.map fun row => if cond row then update row else row).map IndexJob.id =
        queue.map IndexJob.id ∧
      (queue.map fun row => if cond row then update row else row).map IndexJob.work =
        queue.map IndexJob.work := by
  rw [List.map_map, List.map_map]
  constructor
  · refine List.map_congr_left fun row _ => ?_
    by_cases hcond : cond row
    · simpa [hcond] using (h row).1
    · simp [hcond]
  · refine List.map_congr_left fun row _ => ?_
    by_cases hcond : cond row
    · simpa [hcond] using (h row).2
    · simp [hcond]

theorem pending_iff_mem_works {queue : Queue} {work : Work} :
    Pending queue work <-> work ∈ queue.map IndexJob.work := by
  rw [List.mem_map]
  exact Iff.rfl

theorem pending_congr {queue other : Queue} {work : Work}
    (hworks : other.map IndexJob.work = queue.map IndexJob.work) :
    Pending other work <-> Pending queue work := by
  rw [pending_iff_mem_works, hworks, pending_iff_mem_works]

theorem columns_enqueueJob (now : Instant) (id : IndexJobId) (work : Work) (queue : Queue) :
    (Pending queue work ∧
      (enqueueJob now id work queue).map IndexJob.id = queue.map IndexJob.id ∧
        (enqueueJob now id work queue).map IndexJob.work = queue.map IndexJob.work) ∨
      (¬ Pending queue work ∧
        (enqueueJob now id work queue).map IndexJob.id = queue.map IndexJob.id ++ [id] ∧
          (enqueueJob now id work queue).map IndexJob.work =
            queue.map IndexJob.work ++ [work]) := by
  by_cases hpending : Pending queue work
  · have hany : queue.any (fun row => row.work = work) = true := by
      rcases hpending with ⟨row, hrow, hwork⟩
      exact List.any_eq_true.mpr ⟨row, hrow, by simpa using hwork⟩
    refine Or.inl ⟨hpending, ?_⟩
    rw [enqueueJob, if_pos hany]
    exact columns_ite (requested now) (fun _ => ⟨rfl, rfl⟩) (fun row => row.work = work) queue
  · have hany : ¬ queue.any (fun row => row.work = work) = true := by
      intro hsome
      rcases List.any_eq_true.mp hsome with ⟨row, hrow, hwork⟩
      exact hpending ⟨row, hrow, by simpa using hwork⟩
    refine Or.inr ⟨hpending, ?_⟩
    rw [enqueueJob, if_neg hany]
    simp [inserted]

theorem pending_enqueueJob (now : Instant) (id : IndexJobId) (work : Work) (queue : Queue) :
    Pending (enqueueJob now id work queue) work := by
  rw [pending_iff_mem_works]
  rcases columns_enqueueJob now id work queue with ⟨hpending, _, hworks⟩ | ⟨_, _, hworks⟩
  · rw [hworks]
    exact pending_iff_mem_works.mp hpending
  · simp [hworks]

theorem pending_enqueueJob_of_pending {now : Instant} {id : IndexJobId} {work other : Work}
    {queue : Queue} (hpending : Pending queue other) :
    Pending (enqueueJob now id work queue) other := by
  rw [pending_iff_mem_works] at hpending ⊢
  rcases columns_enqueueJob now id work queue with ⟨_, _, hworks⟩ | ⟨_, _, hworks⟩
  · rw [hworks]
    exact hpending
  · rw [hworks]
    exact List.mem_append_left _ hpending

theorem mem_enqueueJob {now : Instant} {id : IndexJobId} {work : Work} {queue : Queue}
    {row : IndexJob} (hrow : row ∈ enqueueJob now id work queue) :
    (row ∈ queue ∧ row.work ≠ work) ∨
      (exists old, old ∈ queue ∧ old.work = work ∧ row = requested now old) ∨
        row = inserted now id work := by
  unfold enqueueJob at hrow
  split at hrow
  · rcases List.mem_map.mp hrow with ⟨old, hold, rfl⟩
    by_cases hwork : old.work = work
    · exact Or.inr (Or.inl ⟨old, hold, hwork, by simp [hwork]⟩)
    · simp only [hwork, if_false]
      exact Or.inl ⟨hold, hwork⟩
  · rename_i hnone
    rcases List.mem_append.mp hrow with hold | hnew
    · refine Or.inl ⟨hold, ?_⟩
      intro hwork
      exact hnone (List.any_eq_true.mpr ⟨row, hold, by simp [hwork]⟩)
    · exact Or.inr (Or.inr (List.mem_singleton.mp hnew))

theorem mem_claim {now : Instant} {project : ProjectId} {worker : String} {batch : Nat}
    {kinds : List JobKind} {locked : List IndexJobId} {queue : Queue} {row : IndexJob}
    (hrow : row ∈ (claim now project worker batch kinds locked queue).1) :
    exists old, old ∈ queue ∧
      ((old.id ∉ claimable now project batch kinds locked queue ∧ row = old) ∨
        (old.id ∈ claimable now project batch kinds locked queue ∧
          row = claimedRow now worker old)) := by
  rcases List.mem_map.mp hrow with ⟨old, hold, rfl⟩
  refine ⟨old, hold, ?_⟩
  by_cases htaken : old.id ∈ claimable now project batch kinds locked queue
  · exact Or.inr ⟨htaken, by simp [htaken]⟩
  · exact Or.inl ⟨htaken, by simp [htaken]⟩

theorem mem_claim_jobs {now : Instant} {project : ProjectId} {worker : String} {batch : Nat}
    {kinds : List JobKind} {locked : List IndexJobId} {queue : Queue} {job : Job} :
    job ∈ (claim now project worker batch kinds locked queue).2 <->
      exists old, old ∈ queue ∧ old.id ∈ claimable now project batch kinds locked queue ∧
        job = rowToJob (claimedRow now worker old) := by
  unfold claim
  simp only [List.mem_map, List.mem_filter, decide_eq_true_eq]
  constructor
  · rintro ⟨old, ⟨hold, htaken⟩, rfl⟩
    exact ⟨old, hold, htaken, rfl⟩
  · rintro ⟨old, hold, htaken, rfl⟩
    exact ⟨old, ⟨hold, htaken⟩, rfl⟩

theorem columns_claim (now : Instant) (project : ProjectId) (worker : String) (batch : Nat)
    (kinds : List JobKind) (locked : List IndexJobId) (queue : Queue) :
    ((claim now project worker batch kinds locked queue).1).map IndexJob.id =
        queue.map IndexJob.id ∧
      ((claim now project worker batch kinds locked queue).1).map IndexJob.work =
        queue.map IndexJob.work :=
  columns_ite (claimedRow now worker) (fun _ => ⟨rfl, rfl⟩)
    (fun row => row.id ∈ claimable now project batch kinds locked queue) queue

theorem mem_complete {jobs : List Job} {worker : String} {queue : Queue} {row : IndexJob} :
    row ∈ (complete jobs worker queue).1 <->
      row ∈ queue ∧ forall job, job ∈ jobs -> ¬ CarriesClaim worker job row := by
  simp [complete]

theorem mem_fail {now : Instant} {job : Job} {worker error : String} {queue : Queue}
    {row : IndexJob} (hrow : row ∈ fail now job worker error queue) :
    exists old, old ∈ queue ∧
      ((¬ FailTouches worker job old ∧ row = old) ∨
        (FailTouches worker job old ∧ row = failedRow now job error old)) := by
  rcases List.mem_map.mp hrow with ⟨old, hold, rfl⟩
  refine ⟨old, hold, ?_⟩
  by_cases htouch : FailTouches worker job old
  · exact Or.inr ⟨htouch, by simp [htouch]⟩
  · exact Or.inl ⟨htouch, by simp [htouch]⟩

theorem columns_fail (now : Instant) (job : Job) (worker error : String) (queue : Queue) :
    (fail now job worker error queue).map IndexJob.id = queue.map IndexJob.id ∧
      (fail now job worker error queue).map IndexJob.work = queue.map IndexJob.work :=
  columns_ite (failedRow now job error) (fun _ => ⟨rfl, rfl⟩)
    (fun row => FailTouches worker job row) queue

theorem mem_replay {now : Instant} {project : ProjectId} {queue : Queue} {row : IndexJob}
    (hrow : row ∈ (replay now project queue).1) :
    exists old, old ∈ queue ∧ (row = old ∨ row = replayedRow now old) := by
  rcases List.mem_map.mp hrow with ⟨old, hold, rfl⟩
  refine ⟨old, hold, ?_⟩
  split
  · exact Or.inr rfl
  · exact Or.inl rfl

theorem columns_replay (now : Instant) (project : ProjectId) (queue : Queue) :
    ((replay now project queue).1).map IndexJob.id = queue.map IndexJob.id ∧
      ((replay now project queue).1).map IndexJob.work = queue.map IndexJob.work :=
  columns_ite (replayedRow now) (fun _ => ⟨rfl, rfl⟩)
    (fun row => Exhausted project row) queue

end Jobs
end PaminMemory
