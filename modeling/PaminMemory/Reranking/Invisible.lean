import PaminMemory.Reranking.Turning

/-!
# The cache is invisible

Every call of a run answers as if nothing were remembered, on the backend it leaves, and
what is remembered is counted at every point.
-/

namespace PaminMemory
namespace Reranking

open Foundation
open Encoder (RunEach inOrder)

section Running

variable {model backend : Type _} {encoding : Type} [DecidableEq backend]
  {r : Runtime model backend encoding} {sha256 : List UInt8 -> Digest} {s t : Reranker model}

/--
A call orders its documents by the scores they have without a cache, on the backend it
leaves; or it fails, and leaves what was remembered and counted, or nothing remembered.
-/
def Invisible (r : Runtime model backend encoding) (sha256 : List UInt8 -> Digest)
    (s : Reranker model) : Action model -> Prop
  | Action.rank query documents =>
      match rank r sha256 query documents s with
      | (Answer.ranked order m, t) =>
          order = ordered (fresh r s.settings m (documents.map fun document => (query, document))) ∧
            r.backendOf m = r.backendOf t.model
      | (Answer.failed _, t) => Left s t
      | _ => False
  | Action.elapse _ => True

theorem step_hashed {action : Action model} (hstep : step r sha256 s action = some t)
    {bytes : List UInt8} (h : bytes ∈ s.hashed) : bytes ∈ t.hashed := by
  cases action with
  | rank query documents =>
      cases hstep
      exact rank_hashed h
  | elapse m =>
      simp only [step] at hstep
      split at hstep
      · cases hstep
        exact h
      · cases hstep

theorem run_hashed {actions : List (Action model)}
    (hrun : RunFrom (step r sha256) s actions = some t) {bytes : List UInt8}
    (h : bytes ∈ s.hashed) : bytes ∈ t.hashed :=
  runFrom_preserved (fun _ _ _ hthere hstep => step_hashed hstep hthere) h hrun

theorem standing_step (hr : Reliable r) (h : Standing r sha256 s) {action : Action model}
    (hstep : step r sha256 s action = some t) (hsha : NoCollision sha256 t.hashed) :
    Standing r sha256 t := by
  cases action with
  | rank query documents =>
      cases hstep
      have hsaid := rank_said hr h hsha
      revert hsaid
      cases rank r sha256 query documents s with
      | mk answer u =>
          intro hsaid
          cases answer with
          | ranked order m => exact hsaid.1
          | failed error => exact hsaid.1
          | panicked => exact hsaid.elim
          | unfinished => exact hsaid.elim
  | elapse m =>
      simp only [step] at hstep
      split at hstep
      · next hguard =>
          cases hstep
          rw [Bool.and_eq_true, decide_eq_true_eq, Bool.or_eq_true, Bool.not_eq_true'] at hguard
          refine ⟨h.tallied, ?_⟩
          intro hunmarked
          show Sound r sha256 (r.backendOf m) s.hashed s.scores
          rw [hguard.1]
          apply h.sound
          cases hguard.2 with
          | inl hbefore => exact hbefore
          | inr hmarked => exact absurd hmarked (Bool.eq_false_iff.mp hunmarked)
      · cases hstep

theorem invisible_of_standing (hr : Reliable r) (h : Standing r sha256 s) (action : Action model)
    (hsha : forall t, step r sha256 s action = some t -> NoCollision sha256 t.hashed) :
    Invisible r sha256 s action := by
  cases action with
  | elapse m => trivial
  | rank query documents =>
      have hsaid := rank_said hr h (hsha _ rfl)
      unfold Invisible
      simp only
      revert hsaid
      cases rank r sha256 query documents s with
      | mk answer u =>
          intro hsaid
          cases answer with
          | ranked order m => exact hsaid.2
          | failed error => exact hsaid.2
          | panicked => exact hsaid
          | unfinished => exact hsaid

theorem along_noCollision {actions : List (Action model)}
    (hrun : RunFrom (step r sha256) s actions = some t) (hsha : NoCollision sha256 t.hashed) :
    Along (step r sha256) (fun s action => forall u, step r sha256 s action = some u ->
      NoCollision sha256 u.hashed) s actions := by
  apply along_iff_split.mpr
  intro before action after u hactions hbefore v hstep
  apply noCollision_mono hsha
  intro bytes hbytes
  rw [hactions] at hrun
  rcases runFrom_append_some.mp hrun with ⟨u', hbefore', hrest⟩
  rw [hbefore] at hbefore'
  cases hbefore'
  rcases runFrom_cons_some.mp hrest with ⟨v', hstep', hafter⟩
  rw [hstep] at hstep'
  cases hstep'
  exact run_hashed hafter hbytes

theorem standing_kept (hr : Reliable r) :
    PreservedWhen (step r sha256) (fun s action => forall u,
      step r sha256 s action = some u -> NoCollision sha256 u.hashed) (Standing r sha256) :=
  fun _ _ t h hallowed hstep => standing_step hr h hstep (hallowed t hstep)

theorem standing_run (hr : Reliable r) {settings : RerankSettings} {m : model}
    {actions : List (Action model)}
    (hrun : RunFrom (step r sha256) (Reranker.load settings m) actions = some s)
    (hsha : NoCollision sha256 s.hashed) : Standing r sha256 s :=
  runFrom_preservedWhen (standing_kept hr) (standing_load settings m)
    (along_noCollision hrun hsha) hrun

/-- The cache shows in no answer, a failed call leaves it, and it is counted at every point. -/
theorem cache_invisible (hr : Reliable r) {settings : RerankSettings} {m : model}
    {actions : List (Action model)}
    (hrun : RunFrom (step r sha256) (Reranker.load settings m) actions = some s)
    (hsha : NoCollision sha256 s.hashed) :
    Along (step r sha256) (Invisible r sha256) (Reranker.load settings m) actions ∧
      Tallied s.scores := by
  constructor
  · exact along_of_preservedWhen (standing_kept hr)
      (fun s action h hallowed => invisible_of_standing hr h action hallowed)
      (standing_load settings m) (along_noCollision hrun hsha)
  · exact (standing_run hr hrun hsha).tallied

def Host.pass (host : Host) (pairs : List Pair) : Except IndexError (List Binary32) :=
  if pairs.any fun pair => host.longest < pair.2.val.length then
    Except.error (IndexError.numerical "not a number")
  else
    Except.ok (pairs.map fun _ => scoredOn host.accelerated)

def failing : Runtime Host Bool Pair where
  backendOf := Host.accelerated
  needs_revalidation := Host.marked
  takes_one_row := fun _ => false
  runs_side_by_side := fun _ => false
  loads := fun _ => false
  sideBySide := fun _ => none
  batch_limits := fun _ budget most => (UInt64.ofNat budget, UInt64.ofNat most)
  len := fun pair => pair.1.val.length + pair.2.val.length
  batching_length := fun _ length => length
  execution_shape := fun _ rows length => (rows, length)
  encoded := fun _ pair => pair
  logits := fun accelerated pairs => pairs.map fun _ => scoredOn accelerated
  pass := Host.pass
  encode := fun host pairs => (Except.ok (pairs, 0), host)
  ready := fun host _ => (Except.ok (), host)
  run_each := fun host batches =>
    ((inOrder host.pass batches).map fun scores => (scores, 0), host)
  retry_model := Host.retry

theorem pass_scores {host : Host} {pairs : List Pair} {scores : List Binary32}
    (h : host.pass pairs = Except.ok scores) :
    scores = failing.logits host.accelerated pairs := by
  unfold Host.pass at h
  split at h
  · cases h
  · exact (Except.ok.inj h).symm

theorem failing_reliable : Reliable failing where
  encode_kept := fun _ _ => rfl
  encode_said := by
    intro host pairs encodings us h
    cases h
    exact (List.map_id _).symm
  ready_kept := fun _ _ => rfl
  run_kept := fun _ _ => rfl
  pass_said := fun _ _ _ => pass_scores
  run_runs := by
    intro host batches scored us h
    have hrun : (inOrder host.pass batches).map (fun scores => (scores, 0)) =
        Except.ok (scored, us) := h
    cases hpasses : inOrder host.pass batches with
    | error error =>
        rw [hpasses] at hrun
        cases hrun
    | ok scores =>
        rw [hpasses] at hrun
        cases hrun
        rw [← hpasses]
        exact RunEach.alone fun hmany => Nat.lt_irrefl 1 hmany.1
  retry_completed := by
    intro host run completed replaced after h
    rcases retry_reports h with ⟨⟨before, hrun⟩, hkept⟩
    exact ⟨⟨before, after, hrun, rfl⟩, hkept⟩
  retry_failed := fun _ _ _ _ h => Or.inr (retry_marks h)

def spread (bytes : List UInt8) : Digest :=
  ⟨littleEndian 32 (bytes.foldl (fun n byte => n * 257 + byte.toNat + 1) 0),
    length_littleEndian _ _⟩

/-- The accelerator ranks a list, again from memory, then fails beside what is remembered and is
replaced; what nothing takes fails the call, and the backend comes to need another look. -/
def rankedOverFailures : List (Action Host) :=
  [Action.rank ⟨"q", by decide⟩ [⟨"a", by decide⟩, ⟨"bc", by decide⟩],
    Action.rank ⟨"q", by decide⟩ [⟨"a", by decide⟩, ⟨"bc", by decide⟩],
    Action.rank ⟨"q", by decide⟩
      [⟨"a", by decide⟩, ⟨"bc", by decide⟩, ⟨"defgh", by decide⟩],
    Action.rank ⟨"q", by decide⟩ [⟨"ijklmnopq", by decide⟩],
    Action.elapse ⟨false, true⟩,
    Action.rank ⟨"q", by decide⟩ [⟨"bc", by decide⟩]]

theorem cache_invisible_over_failures : exists s : Reranker Host,
    RunFrom (step failing spread) (Reranker.load ⟨none, 6, 1⟩ ⟨true, false⟩)
        rankedOverFailures = some s ∧
      s.model.accelerated = false ∧
        Along (step failing spread) (Invisible failing spread)
          (Reranker.load ⟨none, 6, 1⟩ ⟨true, false⟩) rankedOverFailures ∧ Tallied s.scores := by
  rcases (Option.any_eq_true _ _).mp (show (RunFrom (step failing spread)
    (Reranker.load ⟨none, 6, 1⟩ ⟨true, false⟩) rankedOverFailures).any (fun s =>
      s.model.accelerated = false ∧
        forall x, x ∈ s.hashed -> forall y, y ∈ s.hashed -> spread x = spread y -> x = y) by
          decide +kernel) with ⟨s, hrun, hsha⟩
  rcases of_decide_eq_true hsha with ⟨hreplaced, hdistinct⟩
  exact ⟨s, hrun, hreplaced, cache_invisible failing_reliable hrun hdistinct⟩

end Running

end Reranking
end PaminMemory
