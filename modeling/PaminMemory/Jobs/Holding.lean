import PaminMemory.Jobs.Outbox

/-!
# Who holds a claim

A claim is held while some row carries it.  Once a statement ends a claim no
later one revives it, since a row only ever takes a claim nobody was handed
before; and owed work leaves the queue only with the claim that completed it.
-/

namespace PaminMemory
namespace Jobs

/-- Some row carries the claim this job was handed out under. -/
def Holds (queue : Queue) (worker : String) (job : Job) : Prop :=
  exists row, row ∈ queue ∧ CarriesClaim worker job row

instance (queue : Queue) (worker : String) (job : Job) :
    Decidable (Holds queue worker job) := by
  unfold Holds
  infer_instance

instance (queue : Queue) (work : Work) : Decidable (Pending queue work) := by
  unfold Pending
  infer_instance

def Requests (work : Work) : Statement -> Prop
  | Statement.enqueue _ project subject kinds =>
      exists kind, kind ∈ kinds ∧
        work = { project := project, kind := kind.2, subject := subject }
  | _ => False

section Holding

variable {s t : Outbox} {statement : Statement} {worker other : String} {job job' : Job}

theorem work_of_holds (h : Consistent s) (hhanded : Event.claimed worker job ∈ s.history)
    {row : IndexJob} (hrow : row ∈ s.queue) (hcarries : CarriesClaim worker job row) :
    job.work = row.work := by
  have hjobs : Handed s.history worker [job] := by
    intro only honly
    rw [List.mem_singleton.mp honly]
    exact hhanded
  exact (lastRenewal_of_carries h hjobs (List.mem_singleton.mpr rfl) hrow hcarries).1

theorem mem_enqueueAll_claimed {now : Instant} {project : ProjectId}
    {subject : Option Uuid} (kinds : List (IndexJobId × JobKind)) {queue : Queue}
    {row : IndexJob} (hrow : row ∈ enqueueAll now project subject kinds queue)
    (hclaimed : row.claimedAt.isSome) :
    row ∈ queue ∧ forall kind, kind ∈ kinds ->
      row.work ≠ { project := project, kind := kind.2, subject := subject } := by
  induction kinds generalizing queue with
  | nil => exact ⟨hrow, by simp⟩
  | cons kind rest ih =>
      rcases ih hrow with ⟨hlater, hrest⟩
      rcases mem_enqueueJob hlater with ⟨hold, hwork⟩ | ⟨old, _, _, rfl⟩ | rfl
      · refine ⟨hold, ?_⟩
        intro other hother
        rcases List.mem_cons.mp hother with rfl | hother
        · exact hwork
        · exact hrest other hother
      · simp [requested] at hclaimed
      · simp [inserted] at hclaimed

theorem pending_enqueueAll {now : Instant} {project : ProjectId} {subject : Option Uuid}
    (kinds : List (IndexJobId × JobKind)) {queue : Queue} {work : Work}
    (h : Pending queue work) : Pending (enqueueAll now project subject kinds queue) work := by
  induction kinds generalizing queue with
  | nil => exact h
  | cons kind rest ih => exact ih (pending_enqueueJob_of_pending h)

theorem pending_requested {now : Instant} {project : ProjectId} {subject : Option Uuid}
    {kinds : List (IndexJobId × JobKind)} {kind : IndexJobId × JobKind} (hkind : kind ∈ kinds)
    (queue : Queue) :
    Pending (enqueueAll now project subject kinds queue)
      { project := project, kind := kind.2, subject := subject } := by
  induction kinds generalizing queue with
  | nil => cases hkind
  | cons first rest ih =>
      rcases List.mem_cons.mp hkind with rfl | hkind
      · exact pending_enqueueAll rest (pending_enqueueJob now kind.1 _ queue)
      · exact ih hkind _

theorem holds_step (h : Consistent s) (hhanded : Event.claimed worker job ∈ s.history)
    (hstep : step s statement = some t) (hholds : Holds t.queue worker job) :
    Holds s.queue worker job ∧ ¬ Requests job.work statement := by
  rcases hholds with ⟨row, hrow, hcarries⟩
  cases statement with
  | enqueue now project subject kinds =>
      simp only [step, Option.ite_none_right_eq_some, Option.some.injEq] at hstep
      rcases hstep with ⟨_, rfl⟩
      rcases mem_enqueueAll_claimed kinds hrow hcarries.2.2.1 with ⟨hold, hother⟩
      refine ⟨⟨row, hold, hcarries⟩, ?_⟩
      rintro ⟨kind, hkind, hwork⟩
      rw [work_of_holds h hhanded hold hcarries] at hwork
      exact hother kind hkind hwork
  | claim now project claimer batch kinds locked =>
      simp only [step, Option.ite_none_right_eq_some, Option.some.injEq] at hstep
      rcases hstep with ⟨hunused, rfl⟩
      refine ⟨?_, id⟩
      rcases mem_claim hrow with ⟨old, hold, ⟨_, rfl⟩ | ⟨_, rfl⟩⟩
      · exact ⟨row, hold, hcarries⟩
      · exact absurd hcarries.2.2.2.symm (not_claimed_at hunused hhanded)
  | complete worker jobs =>
      simp only [step, Option.ite_none_right_eq_some, Option.some.injEq] at hstep
      rcases hstep with ⟨_, rfl⟩
      exact ⟨⟨row, (mem_complete.mp hrow).1, hcarries⟩, id⟩
  | fail now worker failing error =>
      simp only [step, Option.ite_none_right_eq_some, Option.some.injEq] at hstep
      rcases hstep with ⟨_, rfl⟩
      refine ⟨?_, id⟩
      rcases mem_fail hrow with ⟨old, hold, ⟨_, rfl⟩ | ⟨_, rfl⟩⟩
      · exact ⟨row, hold, hcarries⟩
      · simp [CarriesClaim, failedRow] at hcarries
  | replay now project =>
      simp only [step, Option.some.injEq] at hstep
      rcases hstep with rfl
      refine ⟨?_, id⟩
      rcases mem_replay hrow with ⟨old, hold, rfl | rfl⟩
      · exact ⟨row, hold, hcarries⟩
      · simp [CarriesClaim, replayedRow] at hcarries

theorem pending_step (h : Consistent s) {work : Work} (hpending : Pending s.queue work)
    (hstep : step s statement = some t) :
    Pending t.queue work ∨
      exists worker jobs job, statement = Statement.complete worker jobs ∧ job ∈ jobs ∧
        job.work = work ∧ Holds s.queue worker job := by
  cases statement with
  | enqueue now project subject kinds =>
      simp only [step, Option.ite_none_right_eq_some, Option.some.injEq] at hstep
      rcases hstep with ⟨_, rfl⟩
      exact Or.inl (pending_enqueueAll kinds hpending)
  | claim now project claimer batch kinds locked =>
      simp only [step, Option.ite_none_right_eq_some, Option.some.injEq] at hstep
      rcases hstep with ⟨_, rfl⟩
      exact Or.inl ((pending_congr
        (columns_claim now project claimer batch kinds locked s.queue).2).mpr hpending)
  | complete worker jobs =>
      simp only [step, Option.ite_none_right_eq_some, Option.some.injEq] at hstep
      rcases hstep with ⟨hhanded, rfl⟩
      rcases hpending with ⟨row, hrow, hwork⟩
      by_cases hheld : exists job, job ∈ jobs ∧ CarriesClaim worker job row
      · rcases hheld with ⟨job, hjob, hcarries⟩
        have hsame := work_of_holds h (hhanded job hjob) hrow hcarries
        exact Or.inr ⟨worker, jobs, job, rfl, hjob, hsame.trans hwork, row, hrow, hcarries⟩
      · refine Or.inl ⟨row, mem_complete.mpr ⟨hrow, ?_⟩, hwork⟩
        intro job hjob hcarries
        exact hheld ⟨job, hjob, hcarries⟩
  | fail now worker failing error =>
      simp only [step, Option.ite_none_right_eq_some, Option.some.injEq] at hstep
      rcases hstep with ⟨_, rfl⟩
      exact Or.inl ((pending_congr
        (columns_fail now failing worker error s.queue).2).mpr hpending)
  | replay now project =>
      simp only [step, Option.some.injEq] at hstep
      rcases hstep with rfl
      exact Or.inl ((pending_congr (columns_replay now project s.queue).2).mpr hpending)

theorem history_step (hstep : step s statement = some t) {event : Event}
    (hmem : event ∈ s.history) : event ∈ t.history := by
  cases statement with
  | enqueue now project subject kinds =>
      simp only [step, Option.ite_none_right_eq_some, Option.some.injEq] at hstep
      rcases hstep with ⟨_, rfl⟩
      exact List.mem_append_left _ hmem
  | claim now project claimer batch kinds locked =>
      simp only [step, Option.ite_none_right_eq_some, Option.some.injEq] at hstep
      rcases hstep with ⟨_, rfl⟩
      exact List.mem_append_left _ hmem
  | complete worker jobs =>
      simp only [step, Option.ite_none_right_eq_some, Option.some.injEq] at hstep
      rcases hstep with ⟨_, rfl⟩
      exact List.mem_append_left _ hmem
  | fail now worker failing error =>
      simp only [step, Option.ite_none_right_eq_some, Option.some.injEq] at hstep
      rcases hstep with ⟨_, rfl⟩
      exact hmem
  | replay now project =>
      simp only [step, Option.some.injEq] at hstep
      rcases hstep with rfl
      exact hmem

theorem enqueued_step (hstep : step s statement = some t) {work : Work} {id : IndexJobId}
    (hmem : Event.enqueued work id ∈ t.history) :
    Event.enqueued work id ∈ s.history ∨ Requests work statement := by
  cases statement with
  | enqueue now project subject kinds =>
      simp only [step, Option.ite_none_right_eq_some, Option.some.injEq] at hstep
      rcases hstep with ⟨_, rfl⟩
      rcases List.mem_append.mp hmem with hold | hnew
      · exact Or.inl hold
      · rcases List.mem_map.mp hnew with ⟨kind, hkind, heq⟩
        rw [Event.enqueued.injEq] at heq
        exact Or.inr ⟨kind, hkind, heq.1.symm⟩
  | claim now project claimer batch kinds locked =>
      simp only [step, Option.ite_none_right_eq_some, Option.some.injEq] at hstep
      rcases hstep with ⟨_, rfl⟩
      exact Or.inl (by simpa using hmem)
  | complete worker jobs =>
      simp only [step, Option.ite_none_right_eq_some, Option.some.injEq] at hstep
      rcases hstep with ⟨_, rfl⟩
      exact Or.inl (by simpa using hmem)
  | fail now worker failing error =>
      simp only [step, Option.ite_none_right_eq_some, Option.some.injEq] at hstep
      rcases hstep with ⟨_, rfl⟩
      exact Or.inl hmem
  | replay now project =>
      simp only [step, Option.some.injEq] at hstep
      rcases hstep with rfl
      exact Or.inl hmem

/-!
## Work whose claim none of some jobs holds
-/

def Unheld (queue : Queue) (worker : String) (jobs : List Job) (work : Work) : Prop :=
  Pending queue work ∧ forall job, job ∈ jobs -> job.work = work -> ¬ Holds queue worker job

variable {jobs others : List Job} {work : Work}

theorem Unheld.mono {queue : Queue} (h : Unheld queue worker jobs work) (hsub : others ⊆ jobs) :
    Unheld queue worker others work :=
  ⟨h.1, fun job hjob => h.2 job (hsub hjob)⟩

theorem Unheld.step (h : Unheld s.queue worker jobs work) (hconsistent : Consistent s)
    (hhanded : Handed s.history worker jobs) (hstep : Jobs.step s statement = some t)
    (hdone : forall completing done, statement = Statement.complete completing done ->
      completing = worker ∧ forall job, job ∈ done -> job.work = work -> job ∈ jobs) :
    Unheld t.queue worker jobs work := by
  constructor
  · rcases pending_step hconsistent h.1 hstep with hstill | hcompleted
    · exact hstill
    · rcases hcompleted with ⟨completing, done, job, hstatement, hjob, hwork, hholds⟩
      rcases hdone completing done hstatement with ⟨rfl, hamong⟩
      exact absurd hholds (h.2 job (hamong job hjob hwork) hwork)
  · intro job hjob hwork hholds
    exact h.2 job hjob hwork (holds_step hconsistent (hhanded job hjob) hstep hholds).1

theorem unheld_requested (hconsistent : Consistent s) (hhanded : Handed s.history worker jobs)
    {now : Instant} {project : ProjectId} {subject : Option Uuid}
    {kinds : List (IndexJobId × JobKind)} {kind : IndexJobId × JobKind} (hkind : kind ∈ kinds)
    (hstep : Jobs.step s (Statement.enqueue now project subject kinds) = some t) :
    Unheld t.queue worker jobs { project := project, kind := kind.2, subject := subject } := by
  constructor
  · simp only [Jobs.step, Option.ite_none_right_eq_some, Option.some.injEq] at hstep
    rcases hstep with ⟨_, rfl⟩
    exact pending_requested hkind s.queue
  · intro job hjob hwork hholds
    apply (holds_step hconsistent (hhanded job hjob) hstep hholds).2
    rw [hwork]
    exact ⟨kind, hkind, rfl⟩

theorem handed_step (hhanded : Handed s.history worker jobs)
    (hstep : Jobs.step s statement = some t) : Handed t.history worker jobs :=
  fun job hjob => history_step hstep (hhanded job hjob)

end Holding

end Jobs
end PaminMemory
