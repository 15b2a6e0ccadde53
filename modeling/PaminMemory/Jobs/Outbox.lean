import PaminMemory.Foundation.Runs
import PaminMemory.Jobs.Queue

/-!
# The outbox over a run

Any number of callers enqueue work and any number of workers claim, complete and
fail it.  Each statement takes effect at once, so an interleaving is a list of
statements.  The history records what the callers were told, oldest first; no
statement reads it.
-/

namespace PaminMemory
namespace Jobs

open Foundation

/-- What a caller of the queue was told. -/
inductive Event where
  | enqueued (work : Work) (id : IndexJobId)
  | claimed (worker : String) (job : Job)
  | completed (worker : String) (job : Job)
deriving DecidableEq, Repr

/-- The queue, with what its callers were told so far. -/
structure Outbox where
  queue : Queue
  history : List Event
deriving DecidableEq, Repr

namespace Outbox

def empty : Outbox := { queue := [], history := [] }

end Outbox

/-- One statement against the queue, with the values its caller binds. -/
inductive Statement where
  | enqueue (now : Instant) (project : ProjectId) (subject : Option Uuid)
      (kinds : List (IndexJobId × JobKind))
  | claim (now : Instant) (project : ProjectId) (worker : String) (batch : Nat)
      (kinds : List JobKind) (locked : List IndexJobId)
  | complete (worker : String) (jobs : List Job)
  | fail (now : Instant) (worker : String) (job : Job) (error : String)
  | replay (now : Instant) (project : ProjectId)
deriving DecidableEq, Repr

def requestsId (id : IndexJobId) : Event -> Bool
  | Event.enqueued _ id' => id' = id
  | _ => false

def claimsAt (now : Instant) : Event -> Bool
  | Event.claimed _ job => job.claimedAt = some now
  | _ => false

def FreshIds (history : List Event) (ids : List IndexJobId) : Prop :=
  ids.Nodup ∧ forall id, id ∈ ids -> forall event, event ∈ history ->
    requestsId id event = false

def UnusedTime (history : List Event) (now : Instant) : Prop :=
  forall event, event ∈ history -> claimsAt now event = false

def Handed (history : List Event) (worker : String) (jobs : List Job) : Prop :=
  forall job, job ∈ jobs -> Event.claimed worker job ∈ history

instance (history : List Event) (ids : List IndexJobId) : Decidable (FreshIds history ids) := by
  unfold FreshIds
  infer_instance

instance (history : List Event) (now : Instant) : Decidable (UnusedTime history now) := by
  unfold UnusedTime
  infer_instance

instance (history : List Event) (worker : String) (jobs : List Job) :
    Decidable (Handed history worker jobs) := by
  unfold Handed
  infer_instance

def requests (project : ProjectId) (subject : Option Uuid)
    (kinds : List (IndexJobId × JobKind)) : List Event :=
  kinds.map fun kind =>
    Event.enqueued { project := project, kind := kind.2, subject := subject } kind.1

def stillHeld (worker : String) (jobs : List Job) (queue : Queue) : List Job :=
  jobs.filter fun job => queue.any fun row => CarriesClaim worker job row

/--
Runs one statement.  A request binds identifiers nothing has used and one row for
a kind; a claim is taken at a time no other claim was; a worker settles only jobs
it was handed.
-/
def step (s : Outbox) : Statement -> Option Outbox
  | Statement.enqueue now project subject kinds =>
      if FreshIds s.history (kinds.map Prod.fst) ∧ (kinds.map Prod.snd).Nodup then
        some
          { queue := enqueueAll now project subject kinds s.queue
            history := s.history ++ requests project subject kinds }
      else
        none
  | Statement.claim now project worker batch kinds locked =>
      if UnusedTime s.history now then
        let taken := claim now project worker batch kinds locked s.queue
        some
          { queue := taken.1
            history := s.history ++ taken.2.map (Event.claimed worker) }
      else
        none
  | Statement.complete worker jobs =>
      if Handed s.history worker jobs then
        some
          { queue := (complete jobs worker s.queue).1
            history :=
              s.history ++ (stillHeld worker jobs s.queue).map (Event.completed worker) }
      else
        none
  | Statement.fail now worker job error =>
      if Handed s.history worker [job] then
        some { s with queue := fail now job worker error s.queue }
      else
        none
  | Statement.replay now project =>
      some { s with queue := (replay now project s.queue).1 }

def Renews (work : Work) : Event -> Prop
  | Event.enqueued work' _ => work' = work
  | Event.claimed _ job => job.work = work
  | Event.completed _ _ => False

/-- The claim is in the history and the work was not renewed after it. -/
def LastRenewal (history : List Event) (worker : String) (job : Job) : Prop :=
  exists before after, history = before ++ Event.claimed worker job :: after ∧
    forall event, event ∈ after -> ¬ Renews job.work event

/-- The events hold a claim of the work followed by the completion of that claim. -/
def Attempted (events : List Event) (work : Work) : Prop :=
  exists worker job before between after,
    events = before ++ Event.claimed worker job ::
        (between ++ Event.completed worker job :: after) ∧
      job.work = work

/-!
# What holds of every outbox

A row that carries a claim carries the last one in the history, and nothing has
asked for its work or taken it since.
-/

structure Consistent (s : Outbox) : Prop where
  idsUnique : (s.queue.map IndexJob.id).Nodup
  worksUnique : (s.queue.map IndexJob.work).Nodup
  rowsRequested : forall row, row ∈ s.queue -> Event.enqueued row.work row.id ∈ s.history
  requestsUnique : forall work other id, Event.enqueued work id ∈ s.history ->
    Event.enqueued other id ∈ s.history -> work = other
  claimsRequested : forall worker job, Event.claimed worker job ∈ s.history ->
    Event.enqueued job.work job.id ∈ s.history
  claimsTimed : forall worker job, Event.claimed worker job ∈ s.history -> job.claimedAt.isSome
  claimsUnique : forall worker other job job', Event.claimed worker job ∈ s.history ->
    Event.claimed other job' ∈ s.history -> job.id = job'.id ->
      job.claimedAt = job'.claimedAt -> worker = other ∧ job = job'
  claimsLast : forall row, row ∈ s.queue -> row.claimedAt.isSome ->
    exists worker job, row.claimedBy = some worker ∧ job.id = row.id ∧
      job.work = row.work ∧ job.claimedAt = row.claimedAt ∧
        LastRenewal s.history worker job
  requestsOwed : forall before after work id,
    s.history = before ++ Event.enqueued work id :: after ->
      Pending s.queue work ∨ Attempted after work

theorem consistent_empty : Consistent Outbox.empty where
  idsUnique := by simp [Outbox.empty]
  worksUnique := by simp [Outbox.empty]
  rowsRequested := by simp [Outbox.empty]
  requestsUnique := by simp [Outbox.empty]
  claimsRequested := by simp [Outbox.empty]
  claimsTimed := by simp [Outbox.empty]
  claimsUnique := by simp [Outbox.empty]
  claimsLast := by simp [Outbox.empty]
  requestsOwed := by simp [Outbox.empty]

theorem lastRenewal_mem {history : List Event} {worker : String} {job : Job}
    (h : LastRenewal history worker job) : Event.claimed worker job ∈ history := by
  rcases h with ⟨before, after, hsplit, _⟩
  simp [hsplit]

theorem lastRenewal_append {history more : List Event} {worker : String} {job : Job}
    (h : LastRenewal history worker job)
    (hmore : forall event, event ∈ more -> ¬ Renews job.work event) :
    LastRenewal (history ++ more) worker job := by
  rcases h with ⟨before, after, hsplit, hafter⟩
  refine ⟨before, after ++ more, by simp [hsplit], ?_⟩
  intro event hevent
  rcases List.mem_append.mp hevent with hold | hnew
  · exact hafter event hold
  · exact hmore event hnew

theorem attempted_append {events more : List Event} {work : Work}
    (h : Attempted events work) : Attempted (events ++ more) work := by
  rcases h with ⟨worker, job, before, between, after, hsplit, hwork⟩
  exact ⟨worker, job, before, between, after ++ more, by simp [hsplit], hwork⟩

/-!
## Enqueueing
-/

theorem consistent_enqueueJob {s : Outbox} (h : Consistent s) (now : Instant) (work : Work)
    {id : IndexJobId}
    (hfresh : forall event, event ∈ s.history -> requestsId id event = false) :
    Consistent
      { queue := enqueueJob now id work s.queue
        history := s.history ++ [Event.enqueued work id] } := by
  have hnew : forall other, Event.enqueued other id ∉ s.history := by
    intro other hmem
    have hused := hfresh _ hmem
    simp [requestsId] at hused
  have hrowNew : forall row, row ∈ s.queue -> row.id ≠ id := by
    intro row hrow heq
    have hrequested := h.rowsRequested row hrow
    rw [heq] at hrequested
    exact hnew _ hrequested
  constructor
  case idsUnique =>
    rcases columns_enqueueJob now id work s.queue with ⟨_, hids, _⟩ | ⟨_, hids, _⟩
    · rw [hids]
      exact h.idsUnique
    · rw [hids, ← List.concat_eq_append]
      refine h.idsUnique.concat ?_
      intro hmem
      rcases List.mem_map.mp hmem with ⟨row, hrow, hid⟩
      exact hrowNew row hrow hid
  case worksUnique =>
    rcases columns_enqueueJob now id work s.queue with ⟨_, _, hworks⟩ | ⟨hnone, _, hworks⟩
    · rw [hworks]
      exact h.worksUnique
    · rw [hworks, ← List.concat_eq_append]
      rw [pending_iff_mem_works] at hnone
      exact h.worksUnique.concat hnone
  case rowsRequested =>
    intro row hrow
    rcases mem_enqueueJob hrow with ⟨hrow, _⟩ | ⟨old, hold, _, rfl⟩ | rfl
    · exact List.mem_append_left _ (h.rowsRequested row hrow)
    · exact List.mem_append_left _ (h.rowsRequested old hold)
    · simp [inserted]
  case requestsUnique =>
    intro first second id' hfirst hsecond
    simp only [List.mem_append, List.mem_singleton, Event.enqueued.injEq] at hfirst hsecond
    rcases hfirst with hfirst | ⟨rfl, rfl⟩
    · rcases hsecond with hsecond | ⟨_, rfl⟩
      · exact h.requestsUnique first second id' hfirst hsecond
      · exact absurd hfirst (hnew first)
    · rcases hsecond with hsecond | ⟨rfl, _⟩
      · exact absurd hsecond (hnew second)
      · rfl
  case claimsRequested =>
    intro worker job hclaim
    have hclaim : Event.claimed worker job ∈ s.history := by simpa using hclaim
    exact List.mem_append_left _ (h.claimsRequested worker job hclaim)
  case claimsTimed =>
    intro worker job hclaim
    exact h.claimsTimed worker job (by simpa using hclaim)
  case claimsUnique =>
    intro worker other job job' hclaim hclaim' hid htime
    have hclaim : Event.claimed worker job ∈ s.history := by simpa using hclaim
    have hclaim' : Event.claimed other job' ∈ s.history := by simpa using hclaim'
    exact h.claimsUnique worker other job job' hclaim hclaim' hid htime
  case claimsLast =>
    intro row hrow hheld
    rcases mem_enqueueJob hrow with ⟨hrow, hne⟩ | ⟨old, _, _, rfl⟩ | rfl
    · rcases h.claimsLast row hrow hheld with ⟨worker, job, hby, hid, hwork, htime, hlast⟩
      refine ⟨worker, job, hby, hid, hwork, htime, lastRenewal_append hlast ?_⟩
      intro event hevent
      rw [List.mem_singleton.mp hevent, hwork]
      exact fun hsame => hne hsame.symm
    · simp [requested] at hheld
    · simp [inserted] at hheld
  case requestsOwed =>
    intro before after other id' hsplit
    rcases append_eq_split hsplit with ⟨mid, hhistory, hafter⟩ | ⟨mid, hnewest, _⟩
    · rcases h.requestsOwed before mid other id' hhistory with hpending | hdone
      · exact Or.inl (pending_enqueueJob_of_pending hpending)
      · rw [hafter]
        exact Or.inr (attempted_append hdone)
    · have hmem : Event.enqueued other id' ∈ [Event.enqueued work id] := by simp [hnewest]
      simp only [List.mem_singleton, Event.enqueued.injEq] at hmem
      rw [hmem.1]
      exact Or.inl (pending_enqueueJob now id work s.queue)

theorem consistent_enqueueAll {now : Instant} {project : ProjectId} {subject : Option Uuid}
    (kinds : List (IndexJobId × JobKind)) {s : Outbox} (h : Consistent s)
    (hfresh : FreshIds s.history (kinds.map Prod.fst)) :
    Consistent
      { queue := enqueueAll now project subject kinds s.queue
        history := s.history ++ requests project subject kinds } := by
  induction kinds generalizing s with
  | nil => simpa [enqueueAll, requests] using h
  | cons kind rest ih =>
      rcases hfresh with ⟨hnodup, hunused⟩
      rw [List.map_cons, List.nodup_cons] at hnodup
      have hfirst := consistent_enqueueJob h now
        { project := project, kind := kind.2, subject := subject } (hunused kind.1 (by simp))
      have hrest := ih hfirst ⟨hnodup.2, by
        intro id hid event hevent
        rcases List.mem_append.mp hevent with hold | hlast
        · exact hunused id (by simp [hid]) event hold
        · rw [List.mem_singleton.mp hlast, requestsId, decide_eq_false_iff_not]
          intro hsame
          rw [hsame] at hnodup
          exact hnodup.1 hid⟩
      simpa [enqueueAll, requests] using hrest

/-!
## Claiming
-/

theorem not_claimed_at {history : List Event} {now : Instant} (hunused : UnusedTime history now)
    {worker : String} {job : Job} (hmem : Event.claimed worker job ∈ history) :
    job.claimedAt ≠ some now := by
  simpa [claimsAt] using hunused _ hmem

theorem lastRenewal_claim {history : List Event} {now : Instant} {project : ProjectId}
    {worker : String} {batch : Nat} {kinds : List JobKind} {locked : List IndexJobId}
    {queue : Queue} {row : IndexJob} (hworks : (queue.map IndexJob.work).Nodup)
    (hrow : row ∈ queue) (htaken : row.id ∈ claimable now project batch kinds locked queue) :
    LastRenewal
      (history ++
        (claim now project worker batch kinds locked queue).2.map (Event.claimed worker))
      worker (rowToJob (claimedRow now worker row)) := by
  let chosen := queue.filter fun row =>
    row.id ∈ claimable now project batch kinds locked queue
  have hchosen : row ∈ chosen := by simpa [chosen] using ⟨hrow, htaken⟩
  rcases List.append_of_mem hchosen with ⟨first, last, hsplit⟩
  have hdistinct : (chosen.map IndexJob.work).Nodup :=
    hworks.sublist (List.Sublist.map IndexJob.work List.filter_sublist)
  rw [hsplit, List.map_append, List.map_cons, List.nodup_append, List.nodup_cons] at hdistinct
  refine ⟨history ++ first.map fun row => Event.claimed worker (rowToJob (claimedRow now worker row)),
    last.map fun row => Event.claimed worker (rowToJob (claimedRow now worker row)), ?_, ?_⟩
  · have hjobs : (claim now project worker batch kinds locked queue).2 =
        chosen.map fun row => rowToJob (claimedRow now worker row) := rfl
    rw [hjobs, hsplit]
    simp [Function.comp_def]
  · intro event hevent hrenews
    rcases List.mem_map.mp hevent with ⟨other, hother, rfl⟩
    have hsame : other.work = row.work := hrenews
    exact hdistinct.2.1.1 (hsame ▸ List.mem_map_of_mem hother)

theorem consistent_claim {s : Outbox} {now : Instant} {project : ProjectId} {worker : String}
    {batch : Nat} {kinds : List JobKind} {locked : List IndexJobId} (h : Consistent s)
    (hunused : UnusedTime s.history now) :
    Consistent
      { queue := (claim now project worker batch kinds locked s.queue).1
        history :=
          s.history ++
            (claim now project worker batch kinds locked s.queue).2.map
              (Event.claimed worker) } := by
  have hnewClaim : forall other job,
      Event.claimed other job ∈
        (claim now project worker batch kinds locked s.queue).2.map (Event.claimed worker) ->
      other = worker ∧ exists old, old ∈ s.queue ∧
        old.id ∈ claimable now project batch kinds locked s.queue ∧
          job = rowToJob (claimedRow now worker old) := by
    intro other job hmem
    rcases List.mem_map.mp hmem with ⟨job', hjob', heq⟩
    rw [Event.claimed.injEq] at heq
    rcases heq with ⟨rfl, rfl⟩
    exact ⟨rfl, mem_claim_jobs.mp hjob'⟩
  constructor
  case idsUnique =>
    rw [(columns_claim now project worker batch kinds locked s.queue).1]
    exact h.idsUnique
  case worksUnique =>
    rw [(columns_claim now project worker batch kinds locked s.queue).2]
    exact h.worksUnique
  case rowsRequested =>
    intro row hrow
    rcases mem_claim hrow with ⟨old, hold, ⟨_, rfl⟩ | ⟨_, rfl⟩⟩
    · exact List.mem_append_left _ (h.rowsRequested _ hold)
    · exact List.mem_append_left _ (h.rowsRequested old hold)
  case requestsUnique =>
    intro first second id hfirst hsecond
    exact h.requestsUnique first second id (by simpa using hfirst) (by simpa using hsecond)
  case claimsRequested =>
    intro other job hclaim
    rcases List.mem_append.mp hclaim with hclaim | hclaim
    · exact List.mem_append_left _ (h.claimsRequested other job hclaim)
    · rcases hnewClaim other job hclaim with ⟨_, old, hold, _, rfl⟩
      exact List.mem_append_left _ (h.rowsRequested old hold)
  case claimsTimed =>
    intro other job hclaim
    rcases List.mem_append.mp hclaim with hclaim | hclaim
    · exact h.claimsTimed other job hclaim
    · rcases hnewClaim other job hclaim with ⟨_, old, _, _, rfl⟩
      rfl
  case claimsUnique =>
    intro first second job job' hclaim hclaim' hid htime
    rcases List.mem_append.mp hclaim with hclaim | hclaim
    · rcases List.mem_append.mp hclaim' with hclaim' | hclaim'
      · exact h.claimsUnique first second job job' hclaim hclaim' hid htime
      · rcases hnewClaim second job' hclaim' with ⟨_, old', _, _, rfl⟩
        exact absurd htime (not_claimed_at hunused hclaim)
    · rcases hnewClaim first job hclaim with ⟨rfl, old, hold, _, rfl⟩
      rcases List.mem_append.mp hclaim' with hclaim' | hclaim'
      · exact absurd htime.symm (not_claimed_at hunused hclaim')
      · rcases hnewClaim second job' hclaim' with ⟨rfl, old', hold', _, rfl⟩
        rcases List.inj_on_of_nodup_map h.idsUnique hold hold' hid with rfl
        exact ⟨rfl, rfl⟩
  case claimsLast =>
    intro row hrow hheld
    rcases mem_claim hrow with ⟨old, hold, ⟨hnot, rfl⟩ | ⟨htaken, rfl⟩⟩
    · rcases h.claimsLast _ hold hheld with ⟨other, job, hby, hid, hwork, htime, hlast⟩
      refine ⟨other, job, hby, hid, hwork, htime, lastRenewal_append hlast ?_⟩
      intro event hevent hrenews
      rcases List.mem_map.mp hevent with ⟨job', hjob', rfl⟩
      rcases mem_claim_jobs.mp hjob' with ⟨taken, hin, htaken, rfl⟩
      have hsame : taken.work = row.work := Eq.trans hrenews hwork
      rcases List.inj_on_of_nodup_map h.worksUnique hin hold hsame with rfl
      exact hnot htaken
    · refine ⟨worker, rowToJob (claimedRow now worker old), rfl, rfl, rfl, rfl, ?_⟩
      exact lastRenewal_claim h.worksUnique hold htaken
  case requestsOwed =>
    intro before after other id' hsplit
    rcases append_eq_split hsplit with ⟨mid, hhistory, hafter⟩ | ⟨mid, hnewest, _⟩
    · rcases h.requestsOwed before mid other id' hhistory with hpending | hdone
      · exact Or.inl ((pending_congr
          (columns_claim now project worker batch kinds locked s.queue).2).mpr hpending)
      · rw [hafter]
        exact Or.inr (attempted_append hdone)
    · have hmem : Event.enqueued other id' ∈
          (claim now project worker batch kinds locked s.queue).2.map (Event.claimed worker) := by
        simp [hnewest]
      simp at hmem

/-!
## Settling
-/

theorem lastRenewal_of_carries {s : Outbox} (h : Consistent s) {worker : String}
    {jobs : List Job} (hhanded : Handed s.history worker jobs) {job : Job} (hjob : job ∈ jobs)
    {row : IndexJob} (hrow : row ∈ s.queue) (hcarries : CarriesClaim worker job row) :
    job.work = row.work ∧ LastRenewal s.history worker job := by
  rcases hcarries with ⟨hid, _, hheld, htime⟩
  rcases h.claimsLast row hrow hheld with ⟨other, last, _, hlastId, hwork, hlastTime, hlast⟩
  have hsame := h.claimsUnique other worker last job (lastRenewal_mem hlast)
    (hhanded job hjob) (hlastId.trans hid) (hlastTime.trans htime)
  rcases hsame with ⟨rfl, rfl⟩
  exact ⟨hwork, hlast⟩

theorem mem_stillHeld {worker : String} {jobs : List Job} {queue : Queue} {job : Job} :
    job ∈ stillHeld worker jobs queue <->
      job ∈ jobs ∧ exists row, row ∈ queue ∧ CarriesClaim worker job row := by
  simp [stillHeld]

theorem consistent_complete {s : Outbox} {worker : String} {jobs : List Job}
    (h : Consistent s) (hhanded : Handed s.history worker jobs) :
    Consistent
      { queue := (complete jobs worker s.queue).1
        history :=
          s.history ++ (stillHeld worker jobs s.queue).map (Event.completed worker) } := by
  have hkept : List.Sublist (complete jobs worker s.queue).1 s.queue := List.filter_sublist
  constructor
  case idsUnique => exact h.idsUnique.sublist (hkept.map IndexJob.id)
  case worksUnique => exact h.worksUnique.sublist (hkept.map IndexJob.work)
  case rowsRequested =>
    intro row hrow
    exact List.mem_append_left _ (h.rowsRequested row (hkept.subset hrow))
  case requestsUnique =>
    intro first second id hfirst hsecond
    exact h.requestsUnique first second id (by simpa using hfirst) (by simpa using hsecond)
  case claimsRequested =>
    intro other job hclaim
    exact List.mem_append_left _ (h.claimsRequested other job (by simpa using hclaim))
  case claimsTimed =>
    intro other job hclaim
    exact h.claimsTimed other job (by simpa using hclaim)
  case claimsUnique =>
    intro first second job job' hclaim hclaim' hid htime
    exact h.claimsUnique first second job job' (by simpa using hclaim) (by simpa using hclaim')
      hid htime
  case claimsLast =>
    intro row hrow hheld
    rcases h.claimsLast row (hkept.subset hrow) hheld with
      ⟨other, job, hby, hid, hwork, htime, hlast⟩
    refine ⟨other, job, hby, hid, hwork, htime, lastRenewal_append hlast ?_⟩
    intro event hevent
    rcases List.mem_map.mp hevent with ⟨done, _, rfl⟩
    exact False.elim
  case requestsOwed =>
    intro before after work id hsplit
    rcases append_eq_split hsplit with ⟨mid, hhistory, hafter⟩ | ⟨mid, hnewest, _⟩
    · rcases h.requestsOwed before mid work id hhistory with ⟨row, hrow, hwork⟩ | hdone
      · by_cases hheld : exists job, job ∈ jobs ∧ CarriesClaim worker job row
        · rcases hheld with ⟨job, hjob, hcarries⟩
          rcases lastRenewal_of_carries h hhanded hjob hrow hcarries with
            ⟨hsame, early, late, hclaimed, hquiet⟩
          have hlate : Event.enqueued work id ∉ late := by
            intro hmem
            exact hquiet _ hmem (hwork.symm.trans hsame.symm)
          rcases split_of_not_after (hhistory.symm.trans hclaimed) (by simp) hlate with
            ⟨between, hmid⟩
          have hdone : Event.completed worker job ∈
              (stillHeld worker jobs s.queue).map (Event.completed worker) :=
            List.mem_map_of_mem (mem_stillHeld.mpr ⟨hjob, row, hrow, hcarries⟩)
          rcases List.append_of_mem hdone with ⟨first, last, hcompleted⟩
          refine Or.inr ⟨worker, job, between, late ++ first, last, ?_, hsame.trans hwork⟩
          rw [hafter, hmid, hcompleted]
          simp
        · refine Or.inl ⟨row, mem_complete.mpr ⟨hrow, ?_⟩, hwork⟩
          intro job hjob hcarries
          exact hheld ⟨job, hjob, hcarries⟩
      · rw [hafter]
        exact Or.inr (attempted_append hdone)
    · have hmem : Event.enqueued work id ∈
          (stillHeld worker jobs s.queue).map (Event.completed worker) := by
        simp [hnewest]
      simp at hmem

theorem consistent_released {s : Outbox} {queue : Queue} (h : Consistent s)
    (hids : queue.map IndexJob.id = s.queue.map IndexJob.id)
    (hworks : queue.map IndexJob.work = s.queue.map IndexJob.work)
    (hrows : forall row, row ∈ queue -> row ∈ s.queue ∨
      (row.claimedAt = none ∧ exists old, old ∈ s.queue ∧ old.id = row.id ∧
        old.work = row.work)) :
    Consistent { s with queue := queue } where
  idsUnique := hids.symm ▸ h.idsUnique
  worksUnique := hworks.symm ▸ h.worksUnique
  rowsRequested := by
    intro row hrow
    rcases hrows row hrow with hold | ⟨_, old, hold, hid, hwork⟩
    · exact h.rowsRequested row hold
    · rw [← hid, ← hwork]
      exact h.rowsRequested old hold
  requestsUnique := h.requestsUnique
  claimsRequested := h.claimsRequested
  claimsTimed := h.claimsTimed
  claimsUnique := h.claimsUnique
  claimsLast := by
    intro row hrow hheld
    rcases hrows row hrow with hold | ⟨hfree, _⟩
    · exact h.claimsLast row hold hheld
    · simp [hfree] at hheld
  requestsOwed := by
    intro before after work id hsplit
    rcases h.requestsOwed before after work id hsplit with hpending | hdone
    · exact Or.inl ((pending_congr hworks).mpr hpending)
    · exact Or.inr hdone

theorem consistent_fail {s : Outbox} (h : Consistent s) (now : Instant) (job : Job)
    (worker error : String) :
    Consistent { s with queue := fail now job worker error s.queue } := by
  rcases columns_fail now job worker error s.queue with ⟨hids, hworks⟩
  refine consistent_released h hids hworks ?_
  intro row hrow
  rcases mem_fail hrow with ⟨old, hold, ⟨_, rfl⟩ | ⟨_, rfl⟩⟩
  · exact Or.inl hold
  · exact Or.inr ⟨rfl, old, hold, rfl, rfl⟩

theorem consistent_replay {s : Outbox} (h : Consistent s) (now : Instant)
    (project : ProjectId) :
    Consistent { s with queue := (replay now project s.queue).1 } := by
  rcases columns_replay now project s.queue with ⟨hids, hworks⟩
  refine consistent_released h hids hworks ?_
  intro row hrow
  rcases mem_replay hrow with ⟨old, hold, rfl | rfl⟩
  · exact Or.inl hold
  · exact Or.inr ⟨rfl, old, hold, rfl, rfl⟩

/-!
# Runs
-/

theorem consistent_step : Preserved step Consistent := by
  intro s statement t h hstep
  cases statement with
  | enqueue now project subject kinds =>
      simp only [step, Option.ite_none_right_eq_some, Option.some.injEq] at hstep
      rcases hstep with ⟨⟨hfresh, _⟩, rfl⟩
      exact consistent_enqueueAll kinds h hfresh
  | claim now project worker batch kinds locked =>
      simp only [step, Option.ite_none_right_eq_some, Option.some.injEq] at hstep
      rcases hstep with ⟨hunused, rfl⟩
      exact consistent_claim h hunused
  | complete worker jobs =>
      simp only [step, Option.ite_none_right_eq_some, Option.some.injEq] at hstep
      rcases hstep with ⟨hhanded, rfl⟩
      exact consistent_complete h hhanded
  | fail now worker job error =>
      simp only [step, Option.ite_none_right_eq_some, Option.some.injEq] at hstep
      rcases hstep with ⟨_, rfl⟩
      exact consistent_fail h now job worker error
  | replay now project =>
      simp only [step, Option.some.injEq] at hstep
      rcases hstep with rfl
      exact consistent_replay h now project

theorem consistent_run {statements : List Statement} {s : Outbox}
    (hrun : RunFrom step Outbox.empty statements = some s) : Consistent s :=
  runFrom_preserved consistent_step consistent_empty hrun

/--
A completion deletes a row only when the claim it completes is the last thing
that happened to the work, and whatever was asked for is owed or was attempted
from a claim taken after it was asked for.
-/
theorem outbox_keeps_every_request {statements : List Statement} {s : Outbox}
    (hrun : RunFrom step Outbox.empty statements = some s) :
    (forall worker jobs t row, step s (Statement.complete worker jobs) = some t ->
      row ∈ s.queue -> row ∉ t.queue ->
        exists job, job ∈ jobs ∧ job.id = row.id ∧ job.work = row.work ∧
          LastRenewal s.history worker job) ∧
      (forall before after work id,
        s.history = before ++ Event.enqueued work id :: after ->
          Pending s.queue work ∨ Attempted after work) := by
  have h := consistent_run hrun
  constructor
  · intro worker jobs t row hstep hrow hgone
    simp only [step, Option.ite_none_right_eq_some, Option.some.injEq] at hstep
    rcases hstep with ⟨hhanded, rfl⟩
    have hheld : exists job, job ∈ jobs ∧ CarriesClaim worker job row := by
      by_contra hnone
      refine hgone (mem_complete.mpr ⟨hrow, ?_⟩)
      intro job hjob hcarries
      exact hnone ⟨job, hjob, hcarries⟩
    rcases hheld with ⟨job, hjob, hcarries⟩
    rcases lastRenewal_of_carries h hhanded hjob hrow hcarries with ⟨hwork, hlast⟩
    exact ⟨job, hjob, hcarries.1.symm, hwork, hlast⟩
  · exact h.requestsOwed

def rerun : List Statement :=
  [Statement.enqueue 0 1 (some 5) [(10, JobKind.deriveMentions)],
    Statement.claim 1 1 "host:1" 8 JobKind.urgent [],
    Statement.enqueue 2 1 (some 5) [(11, JobKind.deriveMentions)],
    Statement.complete "host:1"
      [{ id := 10, work := ⟨1, JobKind.deriveMentions, some 5⟩, attempts := 1,
         claimedAt := some 1 }]]

theorem outbox_keeps_every_request_rerun :
    exists s, RunFrom step Outbox.empty rerun = some s ∧
      (Pending s.queue ⟨1, JobKind.deriveMentions, some 5⟩ ∨
        Attempted [] ⟨1, JobKind.deriveMentions, some 5⟩) := by
  refine ⟨_, rfl, ?_⟩
  refine (@outbox_keeps_every_request rerun _ rfl).2
    [Event.enqueued ⟨1, JobKind.deriveMentions, some 5⟩ 10,
      Event.claimed "host:1" ⟨10, ⟨1, JobKind.deriveMentions, some 5⟩, 1, some 1⟩] [] _ 11 rfl

end Jobs
end PaminMemory
