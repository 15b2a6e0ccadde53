import PaminMemory.Jobs.Outbox

/-!
# Failing a claim

A completion compares the worker and the time of the claim; a failure compares
the worker alone, and one process drains under one worker name.
-/

namespace PaminMemory
namespace Jobs

open Foundation

/--
A failure writes only to a row that carries the claim it was given, so nothing
newer is released or postponed.
-/
def ActsOnItsClaim (s : Outbox) (statement : Statement) : Prop :=
  forall now worker job error, statement = Statement.fail now worker job error ->
    forall t, step s statement = some t ->
      forall row, row ∈ s.queue -> row ∉ t.queue ->
        CarriesClaim worker job row ∧ LastRenewal s.history worker job

/-- When a claim fails, its worker holds the row under no other claim. -/
def HeldUnderNoOtherClaim (s : Outbox) (statement : Statement) : Prop :=
  forall now worker job error, statement = Statement.fail now worker job error ->
    Handed s.history worker [job] ->
      forall row, row ∈ s.queue -> row.id = job.id -> row.claimedBy = some worker ->
        row.claimedAt = job.claimedAt

theorem fail_changes_touched {now : Instant} {job : Job} {worker error : String} {queue : Queue}
    {row : IndexJob} (hrow : row ∈ queue) (hgone : row ∉ fail now job worker error queue) :
    FailTouches worker job row := by
  by_contra hnot
  refine hgone (List.mem_map.mpr ⟨row, hrow, ?_⟩)
  simp [hnot]

theorem fail_releases_touched {now : Instant} {job : Job} {worker error : String}
    {queue : Queue} {row : IndexJob} (htouch : FailTouches worker job row) :
    row ∉ fail now job worker error queue := by
  intro hmem
  rcases mem_fail hmem with ⟨old, _, ⟨hnot, rfl⟩ | ⟨_, rfl⟩⟩
  · exact hnot htouch
  · have hheld := htouch.2
    simp [failedRow] at hheld

theorem actsOnItsClaim_iff {s : Outbox} (h : Consistent s) (statement : Statement) :
    ActsOnItsClaim s statement <-> HeldUnderNoOtherClaim s statement := by
  constructor
  · intro hacts now worker job error hfail hhanded row hrow hid hby
    have hstep : step s statement =
        some { s with queue := fail now job worker error s.queue } := by
      rw [hfail]
      simp only [step, hhanded, if_true]
    have hcarries := hacts now worker job error hfail _ hstep row hrow
      (fail_releases_touched ⟨hid, hby⟩)
    exact hcarries.1.2.2.2
  · intro hheld now worker job error hfail t hstep row hrow hgone
    rw [hfail] at hstep
    simp only [step, Option.ite_none_right_eq_some, Option.some.injEq] at hstep
    rcases hstep with ⟨hhanded, rfl⟩
    rcases fail_changes_touched hrow hgone with ⟨hid, hby⟩
    have htime := hheld now worker job error hfail hhanded row hrow hid hby
    have htimed := h.claimsTimed worker job (hhanded job (List.mem_singleton.mpr rfl))
    have hcarries : CarriesClaim worker job row := ⟨hid, hby, htime ▸ htimed, htime⟩
    exact ⟨hcarries, (lastRenewal_of_carries h hhanded (List.mem_singleton.mpr rfl) hrow
      hcarries).2⟩

/--
Along any run, every failure acts on its own claim exactly when no failure comes
while its worker holds the row under another claim.
-/
theorem failures_act_on_their_claims_iff (statements : List Statement) :
    Along step ActsOnItsClaim Outbox.empty statements <->
      Along step HeldUnderNoOtherClaim Outbox.empty statements :=
  along_iff_of_preserved consistent_step (fun _ statement h => actsOnItsClaim_iff h statement)
    consistent_empty statements

/--
The work is asked for again and claimed again by the same process before its
first attempt fails.
-/
def staleFailure : List Statement :=
  [Statement.enqueue 0 1 (some 5) [(10, JobKind.deriveMentions)],
    Statement.claim 1 1 "host:1" 8 JobKind.urgent [],
    Statement.enqueue 2 1 (some 5) [(11, JobKind.deriveMentions)],
    Statement.claim 3 1 "host:1" 8 JobKind.urgent [],
    Statement.fail 4 "host:1" ⟨10, ⟨1, JobKind.deriveMentions, some 5⟩, 1, some 1⟩ "timeout"]

/-- The claim taken at 3 is released, and its work put off, by the failure of the first. -/
theorem stale_failure_releases_newer_claim :
    ¬ Along step ActsOnItsClaim Outbox.empty staleFailure := by
  intro h
  have hfail := ((((h.2 _ rfl).2 _ rfl).2 _ rfl).2 _ rfl).1
  have hacts := hfail 4 "host:1" _ "timeout" rfl _ rfl
    { id := 10, work := ⟨1, JobKind.deriveMentions, some 5⟩, attempts := 1,
      availableAt := 3 + LEASE, createdAt := 0, claimedAt := some 3,
      claimedBy := some "host:1", lastError := none, priority := 20 } (by decide) (by decide)
  exact absurd hacts.1.2.2.2 (by decide)

end Jobs
end PaminMemory
