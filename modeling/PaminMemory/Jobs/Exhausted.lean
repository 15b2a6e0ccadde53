import PaminMemory.Jobs.Holding

/-!
# What an operator may take

Attempts are counted when a job is claimed, so a job is out of attempts while its
last one runs.  An operator lists, replays and discards by the count alone.
-/

namespace PaminMemory
namespace Jobs

open Foundation

/-- A statement of the queue, or one an operator runs beside it. -/
inductive Operation where
  | queue (statement : Statement)
  | exhausted (now : Instant) (project : ProjectId)
  | discard (now : Instant) (project : ProjectId)
deriving DecidableEq, Repr

def operate (s : Outbox) : Operation -> Option Outbox
  | Operation.queue statement => step s statement
  | Operation.exhausted _ _ => some s
  | Operation.discard _ project => some { s with queue := (discard project s.queue).1 }

def Operation.actsAt : Operation -> Option (Instant × ProjectId)
  | queue (Statement.replay now project) => some (now, project)
  | exhausted now project => some (now, project)
  | discard now project => some (now, project)
  | queue _ => none

def UnderLease (now : Instant) (row : IndexJob) : Prop :=
  row.claimedAt.isSome ∧ now < row.availableAt

instance (now : Instant) (row : IndexJob) : Decidable (UnderLease now row) := by
  unfold UnderLease
  infer_instance

def taken (queue : Queue) : Operation -> List IndexJob
  | Operation.queue (Statement.replay now project) =>
      queue.filter fun row => row ∉ (replay now project queue).1
  | Operation.exhausted _ project =>
      queue.filter fun row => rowToJob row ∈ (exhausted project queue).map Prod.fst
  | Operation.discard _ project =>
      queue.filter fun row => row ∉ (discard project queue).1
  | Operation.queue _ => []

/-- Nothing an operator takes as exhausted is held under a running lease. -/
def TakesUnheld (s : Outbox) (operation : Operation) : Prop :=
  forall acts, operation.actsAt = some acts ->
    forall row, row ∈ taken s.queue operation -> ¬ UnderLease acts.1 row

/--
When an operator acts, every claim of a job's last attempt that its row still
carries was taken a lease ago or more.
-/
def LastAttemptsOver (s : Outbox) (operation : Operation) : Prop :=
  forall acts, operation.actsAt = some acts ->
    forall worker job since, Event.claimed worker job ∈ s.history ->
      job.work.project = acts.2 -> MAX_ATTEMPTS <= job.attempts ->
        job.claimedAt = some since -> Holds s.queue worker job -> since + LEASE <= acts.1

/-!
## What a claim leaves on its row
-/

def Leased (history : List Event) (row : IndexJob) : Prop :=
  row.claimedAt.isSome -> exists worker since, row.claimedBy = some worker ∧
    row.claimedAt = some since ∧ row.availableAt = since + LEASE ∧
      Event.claimed worker (rowToJob row) ∈ history

structure Traced (s : Outbox) : Prop where
  idsUnique : (s.queue.map IndexJob.id).Nodup
  rowsRequested : forall row, row ∈ s.queue -> Event.enqueued row.work row.id ∈ s.history
  claimsUnique : forall worker other job job', Event.claimed worker job ∈ s.history ->
    Event.claimed other job' ∈ s.history -> job.id = job'.id ->
      job.claimedAt = job'.claimedAt -> worker = other ∧ job = job'
  rowsLeased : forall row, row ∈ s.queue -> Leased s.history row

theorem traced_empty : Traced Outbox.empty where
  idsUnique := by simp [Outbox.empty]
  rowsRequested := by simp [Outbox.empty]
  claimsUnique := by simp [Outbox.empty]
  rowsLeased := by simp [Outbox.empty]

theorem leased_append {history more : List Event} {row : IndexJob} (h : Leased history row) :
    Leased (history ++ more) row := by
  intro hheld
  rcases h hheld with ⟨worker, since, hby, hat, havailable, hclaimed⟩
  exact ⟨worker, since, hby, hat, havailable, List.mem_append_left _ hclaimed⟩

theorem leased_free {history : List Event} {row : IndexJob} (h : row.claimedAt = none) :
    Leased history row := by
  intro hheld
  rw [h] at hheld
  cases hheld

theorem traced_released {s : Outbox} {queue : Queue} (more : List Event) (h : Traced s)
    (hids : List.Sublist (queue.map IndexJob.id) (s.queue.map IndexJob.id))
    (hrows : forall row, row ∈ queue -> row ∈ s.queue ∨
      (row.claimedAt = none ∧ exists old, old ∈ s.queue ∧ old.id = row.id ∧
        old.work = row.work))
    (hmore : forall worker job, Event.claimed worker job ∉ more) :
    Traced { queue := queue, history := s.history ++ more } where
  idsUnique := h.idsUnique.sublist hids
  rowsRequested := by
    intro row hrow
    apply List.mem_append_left
    rcases hrows row hrow with hold | ⟨_, old, hold, hid, hwork⟩
    · exact h.rowsRequested row hold
    · rw [← hid, ← hwork]
      exact h.rowsRequested old hold
  claimsUnique := by
    intro worker other job job' hclaim hclaim' hid htime
    rcases List.mem_append.mp hclaim with hclaim | hclaim
    · rcases List.mem_append.mp hclaim' with hclaim' | hclaim'
      · exact h.claimsUnique worker other job job' hclaim hclaim' hid htime
      · exact absurd hclaim' (hmore other job')
    · exact absurd hclaim (hmore worker job)
  rowsLeased := by
    intro row hrow
    rcases hrows row hrow with hold | ⟨hfree, _⟩
    · exact leased_append (h.rowsLeased row hold)
    · exact leased_free hfree

theorem traced_enqueueJob {s : Outbox} (h : Traced s) (now : Instant) (work : Work)
    {id : IndexJobId}
    (hfresh : forall event, event ∈ s.history -> requestsId id event = false) :
    Traced
      { queue := enqueueJob now id work s.queue
        history := s.history ++ [Event.enqueued work id] } := by
  have hnotClaim : forall worker job, Event.claimed worker job ∉ [Event.enqueued work id] := by
    simp
  constructor
  case idsUnique =>
    rcases columns_enqueueJob now id work s.queue with ⟨_, hids, _⟩ | ⟨_, hids, _⟩
    · rw [hids]
      exact h.idsUnique
    · rw [hids, ← List.concat_eq_append]
      refine h.idsUnique.concat ?_
      intro hmem
      rcases List.mem_map.mp hmem with ⟨row, hrow, rfl⟩
      have hused := hfresh _ (h.rowsRequested row hrow)
      simp [requestsId] at hused
  case rowsRequested =>
    intro row hrow
    rcases mem_enqueueJob hrow with ⟨hrow, _⟩ | ⟨old, hold, _, rfl⟩ | rfl
    · exact List.mem_append_left _ (h.rowsRequested row hrow)
    · exact List.mem_append_left _ (h.rowsRequested old hold)
    · simp [inserted]
  case claimsUnique =>
    intro worker other job job' hclaim hclaim' hid htime
    have hclaim : Event.claimed worker job ∈ s.history := by simpa using hclaim
    have hclaim' : Event.claimed other job' ∈ s.history := by simpa using hclaim'
    exact h.claimsUnique worker other job job' hclaim hclaim' hid htime
  case rowsLeased =>
    intro row hrow
    rcases mem_enqueueJob hrow with ⟨hrow, _⟩ | ⟨old, _, _, rfl⟩ | rfl
    · exact leased_append (h.rowsLeased row hrow)
    · exact leased_free rfl
    · exact leased_free rfl

theorem traced_enqueueAll {now : Instant} {project : ProjectId} {subject : Option Uuid}
    (kinds : List (IndexJobId × JobKind)) {s : Outbox} (h : Traced s)
    (hfresh : FreshIds s.history (kinds.map Prod.fst)) :
    Traced
      { queue := enqueueAll now project subject kinds s.queue
        history := s.history ++ requests project subject kinds } := by
  induction kinds generalizing s with
  | nil => simpa [enqueueAll, requests] using h
  | cons kind rest ih =>
      rcases hfresh with ⟨hnodup, hunused⟩
      rw [List.map_cons, List.nodup_cons] at hnodup
      have hfirst := traced_enqueueJob h now
        { project := project, kind := kind.2, subject := subject } (hunused kind.1 (by simp))
      have hrest := ih hfirst ⟨hnodup.2, by
        intro id hid event hevent
        rcases List.mem_append.mp hevent with hold | hlast
        · exact hunused id (by simp [hid]) event hold
        · rw [List.mem_singleton.mp hlast, requestsId, decide_eq_false_iff_not]
          intro hsame
          rw [hsame] at hnodup
          exact hnodup.1 hid⟩
      simpa [enqueueAll, requests] using hrest

theorem traced_claim {s : Outbox} {now : Instant} {project : ProjectId} {worker : String}
    {batch : Nat} {kinds : List JobKind} {locked : List IndexJobId} (h : Traced s)
    (hunused : UnusedTime s.history now) :
    Traced
      { queue := (claim now project worker batch kinds locked s.queue).1
        history :=
          s.history ++
            (claim now project worker batch kinds locked s.queue).2.map
              (Event.claimed worker) } := by
  have hnewClaim : forall other job,
      Event.claimed other job ∈
        (claim now project worker batch kinds locked s.queue).2.map (Event.claimed worker) ->
      other = worker ∧ exists old, old ∈ s.queue ∧
        job = rowToJob (claimedRow now worker old) := by
    intro other job hmem
    rcases List.mem_map.mp hmem with ⟨job', hjob', heq⟩
    rw [Event.claimed.injEq] at heq
    rcases heq with ⟨rfl, rfl⟩
    rcases mem_claim_jobs.mp hjob' with ⟨old, hold, _, hjob⟩
    exact ⟨rfl, old, hold, hjob⟩
  constructor
  case idsUnique =>
    rw [(columns_claim now project worker batch kinds locked s.queue).1]
    exact h.idsUnique
  case rowsRequested =>
    intro row hrow
    rcases mem_claim hrow with ⟨old, hold, ⟨_, rfl⟩ | ⟨_, rfl⟩⟩
    · exact List.mem_append_left _ (h.rowsRequested _ hold)
    · exact List.mem_append_left _ (h.rowsRequested old hold)
  case claimsUnique =>
    intro first second job job' hclaim hclaim' hid htime
    rcases List.mem_append.mp hclaim with hclaim | hclaim
    · rcases List.mem_append.mp hclaim' with hclaim' | hclaim'
      · exact h.claimsUnique first second job job' hclaim hclaim' hid htime
      · rcases hnewClaim second job' hclaim' with ⟨_, old', _, rfl⟩
        exact absurd htime (not_claimed_at hunused hclaim)
    · rcases hnewClaim first job hclaim with ⟨rfl, old, hold, rfl⟩
      rcases List.mem_append.mp hclaim' with hclaim' | hclaim'
      · exact absurd htime.symm (not_claimed_at hunused hclaim')
      · rcases hnewClaim second job' hclaim' with ⟨rfl, old', hold', rfl⟩
        rcases List.inj_on_of_nodup_map h.idsUnique hold hold' hid with rfl
        exact ⟨rfl, rfl⟩
  case rowsLeased =>
    intro row hrow
    rcases mem_claim hrow with ⟨old, hold, ⟨_, rfl⟩ | ⟨htaken, rfl⟩⟩
    · exact leased_append (h.rowsLeased _ hold)
    · intro _
      have hjob : rowToJob (claimedRow now worker old) ∈
          (claim now project worker batch kinds locked s.queue).2 :=
        mem_claim_jobs.mpr ⟨old, hold, htaken, rfl⟩
      exact ⟨worker, now, rfl, rfl, rfl,
        List.mem_append_right _ (List.mem_map_of_mem hjob)⟩

theorem traced_step : Preserved operate Traced := by
  intro s operation t h hstep
  cases operation with
  | queue statement =>
      cases statement with
      | enqueue now project subject kinds =>
          simp only [operate, step, Option.ite_none_right_eq_some, Option.some.injEq] at hstep
          rcases hstep with ⟨⟨hfresh, _⟩, rfl⟩
          exact traced_enqueueAll kinds h hfresh
      | claim now project worker batch kinds locked =>
          simp only [operate, step, Option.ite_none_right_eq_some, Option.some.injEq] at hstep
          rcases hstep with ⟨hunused, rfl⟩
          exact traced_claim h hunused
      | complete worker jobs =>
          simp only [operate, step, Option.ite_none_right_eq_some, Option.some.injEq] at hstep
          rcases hstep with ⟨_, rfl⟩
          have hkept : List.Sublist (complete jobs worker s.queue).1 s.queue :=
            List.filter_sublist
          exact traced_released _ h (hkept.map IndexJob.id)
            (fun row hrow => Or.inl (hkept.subset hrow)) (by simp)
      | fail now worker job error =>
          simp only [operate, step, Option.ite_none_right_eq_some, Option.some.injEq] at hstep
          rcases hstep with ⟨_, rfl⟩
          have hids := (columns_fail now job worker error s.queue).1
          have hfailed := traced_released [] h (by rw [hids])
            (fun row hrow => by
              rcases mem_fail hrow with ⟨old, hold, ⟨_, rfl⟩ | ⟨_, rfl⟩⟩
              · exact Or.inl hold
              · exact Or.inr ⟨rfl, old, hold, rfl, rfl⟩) (by simp)
          simpa using hfailed
      | replay now project =>
          simp only [operate, step, Option.some.injEq] at hstep
          rcases hstep with rfl
          have hids := (columns_replay now project s.queue).1
          have hreplayed := traced_released [] h (by rw [hids])
            (fun row hrow => by
              rcases mem_replay hrow with ⟨old, hold, rfl | rfl⟩
              · exact Or.inl hold
              · exact Or.inr ⟨rfl, old, hold, rfl, rfl⟩) (by simp)
          simpa using hreplayed
  | exhausted now project =>
      simp only [operate, Option.some.injEq] at hstep
      exact hstep ▸ h
  | discard now project =>
      simp only [operate, Option.some.injEq] at hstep
      rcases hstep with rfl
      have hkept : List.Sublist (discard project s.queue).1 s.queue := List.filter_sublist
      have hdiscarded := traced_released [] h (hkept.map IndexJob.id)
        (fun row hrow => Or.inl (hkept.subset hrow)) (by simp)
      simpa using hdiscarded

theorem job_of_carries {s : Outbox} (h : Traced s) {worker : String} {job : Job}
    {row : IndexJob} (hclaimed : Event.claimed worker job ∈ s.history) (hrow : row ∈ s.queue)
    (hcarries : CarriesClaim worker job row) :
    job = rowToJob row ∧ exists since, row.claimedAt = some since ∧
      row.availableAt = since + LEASE := by
  rcases hcarries with ⟨hid, _, hheld, htime⟩
  rcases h.rowsLeased row hrow hheld with ⟨other, since, _, hat, havailable, hlast⟩
  have hsame := h.claimsUnique worker other job (rowToJob row) hclaimed hlast hid.symm htime.symm
  exact ⟨hsame.2, since, hat, havailable⟩

/-!
## What is taken
-/

theorem mem_taken {queue : Queue} {operation : Operation} {acts : Instant × ProjectId}
    (hids : (queue.map IndexJob.id).Nodup) (hacts : operation.actsAt = some acts)
    {row : IndexJob} :
    row ∈ taken queue operation <-> row ∈ queue ∧ Exhausted acts.2 row := by
  cases operation with
  | queue statement =>
      cases statement with
      | replay now project =>
          cases hacts
          rw [taken, List.mem_filter, decide_eq_true_eq]
          apply and_congr_right
          intro hrow
          constructor
          · intro hgone
            by_contra hnot
            exact hgone (List.mem_map.mpr ⟨row, hrow, by simp [hnot]⟩)
          · intro hexhausted hmem
            rcases List.mem_map.mp hmem with ⟨old, hold, hreset⟩
            have hid : old.id = row.id := by
              rw [← hreset]
              split <;> rfl
            rcases List.inj_on_of_nodup_map hids hold hrow hid with rfl
            have hattempts := congrArg IndexJob.attempts hreset
            simp only [hexhausted, if_true, replayedRow] at hattempts
            have hused := hexhausted.2
            rw [← hattempts] at hused
            exact absurd hused (by decide)
      | enqueue now project subject kinds => cases hacts
      | claim now project worker batch kinds locked => cases hacts
      | complete worker jobs => cases hacts
      | fail now worker job error => cases hacts
  | exhausted now project =>
      cases hacts
      rw [taken, List.mem_filter, decide_eq_true_eq]
      apply and_congr_right
      intro hrow
      rw [exhausted, List.map_map, List.mem_map]
      simp only [Function.comp_apply, List.mem_insertionSort, List.mem_filter, decide_eq_true_eq]
      constructor
      · rintro ⟨other, ⟨hother, hexhausted⟩, hjob⟩
        have hid : other.id = row.id := congrArg Job.id hjob
        rcases List.inj_on_of_nodup_map hids hother hrow hid with rfl
        exact hexhausted
      · intro hexhausted
        exact ⟨row, ⟨hrow, hexhausted⟩, rfl⟩
  | discard now project =>
      cases hacts
      simp only [taken, discard, List.mem_filter, decide_eq_true_eq, not_and, not_not]
      apply and_congr_right
      intro hrow
      exact ⟨fun h => h hrow, fun h _ => h⟩

theorem takesUnheld_iff {s : Outbox} (h : Traced s) (operation : Operation) :
    TakesUnheld s operation <-> LastAttemptsOver s operation := by
  constructor
  · rintro hunheld acts hacts worker job since hclaimed hproject hlast hat ⟨row, hrow, hcarries⟩
    rcases job_of_carries h hclaimed hrow hcarries with ⟨rfl, taken, htaken, havailable⟩
    have hfree := hunheld acts hacts row
      ((mem_taken h.idsUnique hacts).mpr ⟨hrow, hproject, hlast⟩)
    have hsince : since = taken := Option.some.inj (hat.symm.trans htaken)
    rw [hsince, ← havailable]
    by_contra hrunning
    exact hfree ⟨hcarries.2.2.1, not_le.mp hrunning⟩
  · rintro hover acts hacts row htaken ⟨hheld, hrunning⟩
    rcases (mem_taken h.idsUnique hacts).mp htaken with ⟨hrow, hproject, hused⟩
    rcases h.rowsLeased row hrow hheld with ⟨worker, since, hby, hat, havailable, hclaimed⟩
    have hlapsed := hover acts hacts worker (rowToJob row) since hclaimed hproject hused hat
      ⟨row, hrow, rfl, hby, hheld, rfl⟩
    rw [havailable] at hrunning
    exact absurd hlapsed (not_le.mpr hrunning)

/--
Along any run, an operator takes nothing a worker is running exactly when the
operator acts at no time within a lease of a last attempt still under its claim.
-/
theorem exhausted_unheld_iff (operations : List Operation) :
    Along operate TakesUnheld Outbox.empty operations <->
      Along operate LastAttemptsOver Outbox.empty operations :=
  along_iff_of_preserved traced_step (fun _ operation h => takesUnheld_iff h operation)
    traced_empty operations

/-- A job whose workers die is claimed as each lease lapses; its last worker is running. -/
def lastAttempt : List Operation :=
  Operation.queue (Statement.enqueue 0 1 (some 5) [(10, JobKind.deriveMentions)]) ::
    (List.range 8).map (fun (n : Nat) =>
      Operation.queue
        (Statement.claim ((n : Int) * LEASE) 1 "host:1" 8 JobKind.urgent [])) ++
      [Operation.discard (7 * LEASE + 1) 1]

/-- The job is deleted a microsecond into its last attempt. -/
theorem discard_takes_a_running_job :
    ¬ Along operate TakesUnheld Outbox.empty lastAttempt := by
  intro h
  have hdiscard :=
    (((((((((h.2 _ rfl).2 _ rfl).2 _ rfl).2 _ rfl).2 _ rfl).2 _ rfl).2 _ rfl).2 _ rfl).2 _ rfl).1
  have hfree := hdiscard (7 * LEASE + 1, 1) rfl
    { id := 10, work := ⟨1, JobKind.deriveMentions, some 5⟩, attempts := 8,
      availableAt := 7 * LEASE + LEASE, createdAt := 0, claimedAt := some (7 * LEASE),
      claimedBy := some "host:1", lastError := none, priority := 20 } (by decide)
  exact hfree (by decide)

end Jobs
end PaminMemory
