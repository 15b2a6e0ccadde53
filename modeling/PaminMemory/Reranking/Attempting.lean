import PaminMemory.Reranking.Sound

/-!
# One attempt of a call

An attempt scores its list as the model it was planned on lays it out, whatever it found
remembered and whatever it scored itself.
-/

namespace PaminMemory
namespace Reranking

open Foundation
open Encoder (inOrder_eq_map runEach_eq_inOrder)

section Attempts

variable {model backend : Type _} {encoding : Type} {r : Runtime model backend encoding}
  {sha256 : List UInt8 -> Digest} {settings : RerankSettings} {cached : Scores}
  {pairs : List Pair} {m m₁ : model}

theorem run_said (hr : Reliable r) {batches : List (List encoding)}
    {scored : List (List Binary32)} {us : Nat}
    (h : (r.run_each m batches).1 = Except.ok (scored, us)) :
    scored = batches.map (r.logits (r.backendOf m)) :=
  inOrder_eq_map (hr.pass_said m) (runEach_eq_inOrder (hr.run_runs m batches scored us h)).symm

theorem forward_said (hr : Reliable r) {batches : List (List encoding)}
    {scored : List (List Binary32)} {us : Nat}
    (h : forward r m batches = (Except.ok (scored, us), m₁)) :
    r.backendOf m₁ = r.backendOf m ∧ scored = batches.map (r.logits (r.backendOf m)) := by
  unfold forward at h
  have hready := hr.ready_kept m batches.length
  split at h
  · cases h
  · next m₂ heq =>
      rw [heq] at hready
      have hkept := hr.run_kept m₂ batches
      have hsaid := fun scored us =>
        @run_said model backend encoding r m₂ hr batches scored us
      split at h
      · cases h
      · next scores us' m₃ hrun =>
          rw [hrun] at hkept hsaid
          split at h
          · cases h
          · cases h
            refine ⟨hkept.trans hready, ?_⟩
            rw [hsaid _ _ rfl, hready]

/-- What scoring a plan makes of a call. -/
structure Scored (r : Runtime model backend encoding) (sha256 : List UInt8 -> Digest)
    (cached : Scores) (keys : List Digest) (planned : List (Batch encoding)) (b : backend)
    (memo : Digest) (attempt : Attempt) : Prop where
  values : attempt.values = placeAll (blank keys.length)
    ((found r.len sha256 cached keys planned).map (remembered r.len sha256 cached keys) ++
      (unfound r.len sha256 cached keys planned).map fun batch =>
        (batch.positions, r.logits b batch.encodings))
  hits : attempt.hits =
    ((found r.len sha256 cached keys planned).map fun batch => batch.positions.length).sum
  next_plan : attempt.next_plan =
    if keys.length <= REMEMBERED_SCORES then
      some { key := memo, rows := keys.length
             groups := planned.map (Batch.reference r.len sha256 keys) }
    else
      none
  pending : attempt.pending = (unfound r.len sha256 cached keys planned).map fun batch =>
    (batch.key r.len sha256 keys, r.logits b batch.encodings)
  keep_plan : attempt.keep_plan = false

theorem begin_next_plan (rows : Nat) (memo : Digest) (groups : List BatchReference) :
    ((Attempt.begin rows memo).next_plan.map fun plan =>
      { plan with groups := plan.groups ++ groups }) =
      if rows <= REMEMBERED_SCORES then
        some { key := memo, rows := rows, groups := groups }
      else
        none := by
  unfold Attempt.begin
  split
  · rfl
  · rfl

theorem zip_map_map {thing first second : Type _} (f : thing -> first) (g : thing -> second)
    (things : List thing) :
    (things.map f).zip (things.map g) = things.map fun x => (f x, g x) := by
  rw [List.zip_map', List.map_congr_left]
  intro x _
  rfl

theorem score_said (hr : Reliable r) {keys : List Digest} {planned : List (Batch encoding)}
    {characters : Nat -> Nat} {memo : Digest} {attempt : Attempt}
    (h : score r sha256 cached m planned keys characters memo = (Except.ok attempt, m₁)) :
    r.backendOf m₁ = r.backendOf m ∧
      Scored r sha256 cached keys planned (r.backendOf m) memo attempt := by
  unfold score at h
  split at h
  · cases h
  · next looked missed hconsult =>
      rcases consult_said hconsult with ⟨hlooked, hmissed⟩
      rw [List.nil_append] at hmissed
      have hplan := hlooked.next_plan
      rw [begin_next_plan] at hplan
      have hhits : looked.hits = ((found r.len sha256 cached keys planned).map
          fun batch => batch.positions.length).sum :=
        hlooked.hits.trans (Nat.zero_add _)
      split at h
      · next hnone =>
          cases h
          rw [hmissed, List.isEmpty_iff, List.map_eq_nil_iff] at hnone
          refine ⟨rfl, ?_, hhits, hplan, ?_, hlooked.keep_plan⟩
          · rw [hnone, List.map_nil, List.append_nil]
            exact hlooked.values
          · rw [hnone]
            exact hlooked.pending
      · split at h
        · cases h
        · next scored us m₂ hforward =>
            rcases forward_said hr hforward with ⟨hkept, hscored⟩
            split at h
            · cases h
            · next attempt' hcomplete =>
                cases h
                refine ⟨hkept, ?_⟩
                unfold complete at hcomplete
                simp only at hcomplete
                split at hcomplete
                · cases hcomplete
                · have hall := absorb_said hcomplete
                  have hrows : missed.zip scored =
                      (unfound r.len sha256 cached keys planned).map fun batch =>
                        (batch.missed r.len sha256 keys,
                          r.logits (r.backendOf m) batch.encodings) := by
                    rw [hscored, hmissed, List.map_map, List.map_map, zip_map_map]
                    rfl
                  rw [hrows] at hall
                  rw [hall]
                  refine ⟨?_, hhits, hplan, ?_, hlooked.keep_plan⟩
                  · show placeAll looked.values _ = _
                    rw [placeAll_append, List.map_map, hlooked.values]
                    rfl
                  · show looked.pending ++ _ = _
                    rw [hlooked.pending, List.map_map]
                    rfl

theorem attemptOn_said (hr : Reliable r) {completed : Completed model}
    (h : attemptOn r sha256 settings cached pairs m = (Except.ok completed, m₁)) :
    r.backendOf completed.planned_on = r.backendOf m₁ ∧
      Scored r sha256 cached (pairs.map (pairKey sha256))
        (passes r (r.backendOf m₁) pairs (limitsOf r settings completed.planned_on))
        (r.backendOf m₁) (sha256 (listed r sha256 settings pairs completed.planned_on))
        completed.attempt := by
  unfold attemptOn at h
  have hkept := hr.encode_kept m pairs
  have hsaid := hr.encode_said m pairs
  split at h
  · cases h
  · next encodings us m₂ hencode =>
      rw [hencode] at hkept hsaid
      simp only at h
      split at h
      · cases h
      · next attempt m₃ hscore =>
          cases h
          rcases score_said hr hscore with ⟨hsame, hscored⟩
          refine ⟨hsame.symm, ?_⟩
          rw [hsaid _ _ rfl, ← hkept] at hscored
          rw [hsame]
          exact hscored

theorem values_of_scored {b : backend} {limits : UInt64 × UInt64} {memo : Digest}
    {attempt : Attempt}
    (h : Scored r sha256 cached (pairs.map (pairKey sha256)) (passes r b pairs limits) b memo
      attempt)
    (hserves : forall batch, batch ∈ passes r b pairs limits -> forall values,
      cached.get (batch.key r.len sha256 (pairs.map (pairKey sha256))) = some values ->
        values = r.logits b batch.encodings) :
    attempt.values = scored r b pairs limits := by
  rw [h.values, List.length_map]
  unfold scored
  have hfound : (found r.len sha256 cached (pairs.map (pairKey sha256))
      (passes r b pairs limits)).map (remembered r.len sha256 cached
        (pairs.map (pairKey sha256))) =
      (found r.len sha256 cached (pairs.map (pairKey sha256)) (passes r b pairs limits)).map
        fun batch => (batch.positions, r.logits b batch.encodings) := by
    apply List.map_congr_left
    intro batch hbatch
    rcases List.mem_filter.mp hbatch with ⟨hplanned, hsome⟩
    rcases Option.isSome_iff_exists.mp hsome with ⟨values, hget⟩
    unfold remembered
    rw [hget, Option.getD_some, hserves batch hplanned values hget]
  rw [hfound, ← List.map_append]
  apply placeAll_perm
  · exact (List.filter_append_perm _ _).map _
  · have hperm : (found r.len sha256 cached (pairs.map (pairKey sha256))
        (passes r b pairs limits) ++ unfound r.len sha256 cached (pairs.map (pairKey sha256))
          (passes r b pairs limits)).Perm (passes r b pairs limits) :=
      List.filter_append_perm _ _
    rw [List.map_map]
    apply (((hperm.map Batch.positions).flatten).nodup_iff).mpr
    rw [positions_of_passes]
    exact planPositions_nodup _ _ _ _

theorem unserved_of_hits {b : backend} {limits : UInt64 × UInt64} {memo : Digest}
    {attempt : Attempt} {keys : List Digest}
    (h : Scored r sha256 cached keys (passes r b pairs limits) b memo attempt)
    (hnone : attempt.hits = 0) {batch : Batch encoding}
    (hbatch : batch ∈ passes r b pairs limits) :
    cached.get (batch.key r.len sha256 keys) = none := by
  cases hget : cached.get (batch.key r.len sha256 keys) with
  | none => rfl
  | some values =>
      have hfound : batch ∈ found r.len sha256 cached keys (passes r b pairs limits) :=
        List.mem_filter.mpr ⟨hbatch, by rw [hget]; rfl⟩
      rw [h.hits] at hnone
      have hlength : batch.positions.length = 0 :=
        List.sum_eq_zero_iff_forall_eq_nat.mp hnone _ (List.mem_map_of_mem hfound)
      have hpositions : batch.positions ∈ (passes r b pairs limits).map Batch.positions :=
        List.mem_map_of_mem hbatch
      rw [positions_of_passes] at hpositions
      exact absurd (List.length_eq_zero_iff.mp hlength) (planPositions_ne_nil hpositions)

end Attempts

end Reranking
end PaminMemory
