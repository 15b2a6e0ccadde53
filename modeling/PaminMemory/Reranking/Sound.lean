import PaminMemory.Reranking.Rank
import PaminMemory.Reranking.Scoring

/-!
# What is remembered is what the backend scores

Every remembered batch has the scores the backend gives its pairs, and the last plan is the
plan of some list; so a list found whole, or in parts, comes out as if it were scored.
-/

namespace PaminMemory
namespace Reranking

open Foundation

section Sound

variable {model backend : Type _} {encoding : Type} (r : Runtime model backend encoding)
  (sha256 : List UInt8 -> Digest)

def Knows (b : backend) (hashed : List (List UInt8)) (row : Digest × List Binary32) : Prop :=
  exists (pairs : List Pair) (logical physical : Nat × Nat),
    (forall pair, pair ∈ pairs -> pairBytes pair ∈ hashed) ∧
      batchBytes (pairs.map (pairKey sha256)) logical physical ∈ hashed ∧
        row.1 = sha256 (batchBytes (pairs.map (pairKey sha256)) logical physical) ∧
          row.2 = r.logits b (pairs.map (r.encoded b))

def passes (b : backend) (pairs : List Pair) (limits : UInt64 × UInt64) :
    List (Batch encoding) :=
  modelBatchesAt r b (pairs.map (r.encoded b)) limits

def Plans (b : backend) (hashed : List (List UInt8)) (plan : LastPlan) : Prop :=
  exists (pairs : List Pair) (limits : UInt64 × UInt64),
    (forall pair, pair ∈ pairs -> pairBytes pair ∈ hashed) ∧
      listBytes (pairs.map (pairKey sha256)) limits ∈ hashed ∧
        plan.key = sha256 (listBytes (pairs.map (pairKey sha256)) limits) ∧
          plan.groups = (passes r b pairs limits).map
            (Batch.reference r.len sha256 (pairs.map (pairKey sha256))) ∧
              forall batch, batch ∈ passes r b pairs limits ->
                batch.bytes r.len (pairs.map (pairKey sha256)) ∈ hashed

structure Sound (b : backend) (hashed : List (List UInt8)) (scores : Scores) : Prop where
  known : forall row, row ∈ scores.known -> Knows r sha256 b hashed row
  last : forall plan, scores.last = some plan -> Plans r sha256 b hashed plan

variable {r sha256} {b : backend} {hashed more : List (List UInt8)} {scores : Scores}
  {pairs : List Pair} {limits : UInt64 × UInt64}

theorem sound_invalidate (b : backend) (hashed : List (List UInt8)) (scores : Scores) :
    Sound r sha256 b hashed scores.invalidate where
  known := by
    intro row hrow
    cases hrow
  last := by
    intro plan hplan
    cases hplan

theorem sound_mono (h : Sound r sha256 b hashed scores)
    (hmore : forall bytes, bytes ∈ hashed -> bytes ∈ more) : Sound r sha256 b more scores where
  known := by
    intro row hrow
    rcases h.known row hrow with ⟨pairs, logical, physical, hpairs, hbatch, hkey, hvalues⟩
    exact ⟨pairs, logical, physical, fun pair hpair => hmore _ (hpairs pair hpair),
      hmore _ hbatch, hkey, hvalues⟩
  last := by
    intro plan hplan
    rcases h.last plan hplan with ⟨pairs, limits, hpairs, hlist, hkey, hgroups, hbatches⟩
    exact ⟨pairs, limits, fun pair hpair => hmore _ (hpairs pair hpair), hmore _ hlist, hkey,
      hgroups, fun batch hbatch => hmore _ (hbatches batch hbatch)⟩

theorem rowsAt_map {row row' : Type _} (f : row -> row') (rows : List row)
    (positions : List Nat) : rowsAt (rows.map f) positions = (rowsAt rows positions).map f := by
  unfold rowsAt
  rw [List.map_filterMap]
  apply List.filterMap_congr
  intro position _
  rw [List.getElem?_map]

theorem mem_of_rowsAt {row : Type _} {rows : List row} {positions : List Nat} {one : row}
    (h : one ∈ rowsAt rows positions) : one ∈ rows := by
  rcases List.mem_filterMap.mp h with ⟨position, _, hone⟩
  exact List.mem_of_getElem? hone

theorem encodings_of_passes {batch : Batch encoding} (h : batch ∈ passes r b pairs limits) :
    batch.encodings = (rowsAt pairs batch.positions).map (r.encoded b) := by
  unfold passes modelBatchesAt planBatches at h
  rcases List.mem_map.mp h with ⟨positions, _, heq⟩
  rw [← heq]
  exact rowsAt_map _ _ _

theorem positions_of_passes : (passes r b pairs limits).map Batch.positions =
    planPositions ((pairs.map (r.encoded b)).map r.len) limits.1.toNat limits.2.toNat
      (r.batching_length b) := by
  unfold passes modelBatchesAt planBatches
  rw [List.map_map]
  exact List.map_id _

theorem logits_of_get (hsha : NoCollision sha256 hashed) (h : Sound r sha256 b hashed scores)
    (hpairs : forall pair, pair ∈ pairs -> pairBytes pair ∈ hashed) {batch : Batch encoding}
    (hbatch : batch ∈ passes r b pairs limits)
    (hbytes : batch.bytes r.len (pairs.map (pairKey sha256)) ∈ hashed)
    {values : List Binary32}
    (hget : scores.get (batch.key r.len sha256 (pairs.map (pairKey sha256))) = some values) :
    values = r.logits b batch.encodings := by
  rcases h.known _ (mem_of_get hget) with
    ⟨named, logical, physical, hnamed, hthere, hkey, hvalues⟩
  have hsame := batchBytes_inj (hsha _ hbytes _ hthere hkey)
  rw [rowsAt_map] at hsame
  have heq : rowsAt pairs batch.positions = named :=
    pairs_eq_of_keys hsha (fun pair hpair => hpairs pair (mem_of_rowsAt hpair)) hnamed hsame
  rw [encodings_of_passes hbatch, heq]
  exact hvalues

theorem alike_of_knows (hsha : NoCollision sha256 hashed)
    {rows : List (Digest × List Binary32)}
    (h : forall row, row ∈ rows -> Knows r sha256 b hashed row) : Alike rows := by
  intro first hfirst second hsecond hkey
  rcases h first hfirst with ⟨pairs, logical, physical, hpairs, hthere, hname, hvalues⟩
  rcases h second hsecond with ⟨pairs', logical', physical', hpairs', hthere', hname', hvalues'⟩
  rw [hname, hname'] at hkey
  have hsame := batchBytes_inj (hsha _ hthere _ hthere' hkey)
  rw [hvalues, hvalues', pairs_eq_of_keys hsha hpairs hpairs' hsame]

/-!
## A list found whole
-/

theorem visitGroups_said {seen : List Bool} {groups : List BatchReference}
    {visited : List Bool × List (List Nat × List Binary32)}
    (h : visitGroups scores seen groups = some visited) :
    (forall group, group ∈ groups -> (scores.get group.key).isSome) ∧
      visited.2 = groups.map fun group =>
        (group.positions, (scores.get group.key).getD []) := by
  induction groups generalizing seen visited with
  | nil =>
      cases h
      refine ⟨?_, rfl⟩
      intro group hgroup
      cases hgroup
  | cons group rest ih =>
      unfold visitGroups at h
      cases hget : scores.get group.key with
      | none =>
          simp only [hget] at h
          cases h
      | some values =>
          simp only [hget] at h
          split at h
          · cases h
          · rcases Option.bind_eq_some_iff.mp h with ⟨seen', _, hrest⟩
            rcases Option.map_eq_some_iff.mp hrest with ⟨visited', hvisited, heq⟩
            rcases ih hvisited with ⟨hsome, hrows⟩
            rw [← heq]
            constructor
            · intro other hother
              cases List.mem_cons.mp hother with
              | inl hfirst =>
                  rw [hfirst, hget]
                  rfl
              | inr hlater => exact hsome other hlater
            · rw [List.map_cons, hget, ← hrows]
              rfl

theorem visit_said {plan : LastPlan} {rows : List (List Nat × List Binary32)}
    (h : plan.visit scores = some rows) :
    (forall group, group ∈ plan.groups -> (scores.get group.key).isSome) ∧
      rows = plan.groups.map fun group =>
        (group.positions, (scores.get group.key).getD []) := by
  unfold LastPlan.visit at h
  split at h
  · cases h
  · rcases Option.bind_eq_some_iff.mp h with ⟨visited, hvisited, hrows⟩
    split at hrows
    · cases hrows
      exact visitGroups_said hvisited
    · cases hrows

def scored (r : Runtime model backend encoding) (b : backend) (pairs : List Pair)
    (limits : UInt64 × UInt64) : List Binary32 :=
  placeAll (blank pairs.length) ((passes r b pairs limits).map fun batch =>
    (batch.positions, r.logits b batch.encodings))

theorem replay_said (hsha : NoCollision sha256 hashed) (h : Sound r sha256 b hashed scores)
    (hpairs : forall pair, pair ∈ pairs -> pairBytes pair ∈ hashed)
    (hlist : listBytes (pairs.map (pairKey sha256)) limits ∈ hashed) {attempt : Attempt}
    (hreplay : scores.replay (sha256 (listBytes (pairs.map (pairKey sha256)) limits))
      pairs.length = some attempt) :
    attempt.values = scored r b pairs limits ∧ attempt.pending = [] ∧
      attempt.keep_plan = true := by
  unfold Scores.replay at hreplay
  cases hlast : scores.last with
  | none =>
      rw [hlast] at hreplay
      cases hreplay
  | some plan =>
      simp only [hlast] at hreplay
      split at hreplay
      · cases hreplay
      · next hsame =>
          rcases Option.map_eq_some_iff.mp hreplay with ⟨rows, hvisit, heq⟩
          rw [← heq]
          refine ⟨?_, rfl, rfl⟩
          rw [Bool.or_eq_true, Bool.or_eq_true, not_or, not_or, decide_eq_true_eq,
            Decidable.not_not] at hsame
          rcases h.last plan hlast with
            ⟨named, limits', hnamed, hthere, hkey, hgroups, hbatches⟩
          rcases listBytes_inj (hsha _ hlist _ hthere (hsame.1.1.symm.trans hkey)) with
            ⟨hkeys, hlimits⟩
          have hnamedSame : pairs = named := pairs_eq_of_keys hsha hpairs hnamed hkeys
          rw [← hnamedSame, ← hlimits] at hgroups hbatches
          rcases visit_said hvisit with ⟨hsome, hrows⟩
          show placeAll (blank pairs.length) rows = scored r b pairs limits
          unfold scored
          rw [hrows, hgroups, List.map_map]
          apply congrArg
          apply List.map_congr_left
          intro batch hbatch
          have hthere' : batch.reference r.len sha256 (pairs.map (pairKey sha256)) ∈
              plan.groups := by
            rw [hgroups]
            exact List.mem_map_of_mem hbatch
          rcases Option.isSome_iff_exists.mp (hsome _ hthere') with ⟨values, hget⟩
          rw [Function.comp_apply, hget, Option.getD_some,
            logits_of_get hsha h hpairs hbatch (hbatches batch hbatch) hget]
          rfl

end Sound

end Reranking
end PaminMemory
