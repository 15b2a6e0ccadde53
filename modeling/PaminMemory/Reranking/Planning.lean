import Mathlib.Data.List.Sort
import Mathlib.Data.List.SplitLengths
import PaminMemory.Reranking.Keys

/-!
# The passes of a rerank

The pairs are sorted by length and cut into passes, each within a budget of padded tokens
and under a number of pairs.  Every pair goes into one pass.
-/

namespace PaminMemory
namespace Reranking

/-- What decides how pairs are grouped. -/
structure RerankSettings where
  batch : Option Nat
  batch_tokens : Nat
  /-- The inference budget, as passes side by side read it. -/
  budget : Nat
deriving DecidableEq, Repr

def BATCH : Nat := 4

def CPU_BATCH : Nat := 1

def batchOn (side_by_side : Bool) (budget : Nat) (explicit : Option Nat) : Nat :=
  match explicit with
  | some most => most
  | none => if side_by_side && 1 < budget then CPU_BATCH else BATCH

def batchesFrom (budget most : Nat) : Nat -> List Nat -> List Nat
  | size, [] => if 0 < size then [size] else []
  | size, length :: rest =>
      if 0 < size && (size = most || budget < (size + 1) * length) then
        size :: batchesFrom budget most 1 rest
      else
        batchesFrom budget most (size + 1) rest

def batches (lengths : List Nat) (budget most : Nat) : List Nat :=
  batchesFrom budget most 0 lengths

def shorter (lengths : List Nat) (left right : Nat) : Prop :=
  lengths.getD left 0 < lengths.getD right 0 ∨
    lengths.getD left 0 = lengths.getD right 0 ∧ left <= right

instance (lengths : List Nat) (left right : Nat) : Decidable (shorter lengths left right) :=
  inferInstanceAs (Decidable (_ ∨ _))

def planPositions (lengths : List Nat) (budget most : Nat) (batching_length : Nat -> Nat) :
    List (List Nat) :=
  let order := (List.range lengths.length).insertionSort (shorter lengths)
  let sized := order.map fun position => batching_length (lengths.getD position 0)
  (batches sized budget most).splitLengths order

/-- The pairs of one pass. -/
structure Batch (encoding : Type _) where
  positions : List Nat
  encodings : List encoding
  shape : Nat × Nat

section Plans

variable {encoding : Type _}

def rowsAt {row : Type _} (rows : List row) (positions : List Nat) : List row :=
  positions.filterMap fun position => rows[position]?

def Batch.longest (len : encoding -> Nat) (batch : Batch encoding) : Nat :=
  (batch.encodings.getLast?.map len).getD 0

def planBatches (len : encoding -> Nat) (encodings : List encoding) (budget most : Nat)
    (batching_length : Nat -> Nat) (execution_shape : Nat -> Nat -> Nat × Nat) :
    List (Batch encoding) :=
  (planPositions (encodings.map len) budget most batching_length).map fun positions =>
    let grouped := rowsAt encodings positions
    { positions := positions
      encodings := grouped
      shape := execution_shape positions.length ((grouped.getLast?.map len).getD 0) }

/-!
## Every pair in one pass
-/

theorem sum_batchesFrom (budget most size : Nat) (lengths : List Nat) :
    (batchesFrom budget most size lengths).sum = size + lengths.length := by
  induction lengths generalizing size with
  | nil =>
      unfold batchesFrom
      split
      · rfl
      · next hempty =>
          rw [List.sum_nil, List.length_nil]
          omega
  | cons length rest ih =>
      unfold batchesFrom
      split
      · rw [List.sum_cons, ih, List.length_cons]
        omega
      · rw [ih, List.length_cons]
        omega

theorem batchesFrom_pos {budget most size count : Nat} {lengths : List Nat}
    (h : count ∈ batchesFrom budget most size lengths) : 0 < count := by
  induction lengths generalizing size with
  | nil =>
      unfold batchesFrom at h
      split at h
      · next hsize =>
          rw [List.mem_singleton.mp h]
          exact hsize
      · cases h
  | cons length rest ih =>
      unfold batchesFrom at h
      split at h
      · next hfull =>
          rw [Bool.and_eq_true, decide_eq_true_eq] at hfull
          cases List.mem_cons.mp h with
          | inl hhead =>
              rw [hhead]
              exact hfull.1
          | inr htail => exact ih htail
      · exact ih h

theorem flatten_planPositions (lengths : List Nat) (budget most : Nat)
    (batching_length : Nat -> Nat) :
    (planPositions lengths budget most batching_length).flatten =
      (List.range lengths.length).insertionSort (shorter lengths) := by
  unfold planPositions
  apply List.flatten_splitLengths
  unfold batches
  rw [sum_batchesFrom, List.length_map]
  exact Nat.le_add_left _ _

theorem planPositions_nodup (lengths : List Nat) (budget most : Nat)
    (batching_length : Nat -> Nat) :
    (planPositions lengths budget most batching_length).flatten.Nodup := by
  rw [flatten_planPositions]
  exact ((List.perm_insertionSort _ _).nodup_iff).mpr List.nodup_range

theorem planPositions_ne_nil {lengths : List Nat} {budget most : Nat}
    {batching_length : Nat -> Nat} {positions : List Nat}
    (h : positions ∈ planPositions lengths budget most batching_length) : positions ≠ [] := by
  intro hempty
  unfold planPositions at h
  have hcount := List.mem_map_of_mem (f := List.length) h
  rw [List.map_splitLengths_length] at hcount
  · rw [hempty] at hcount
    exact Nat.lt_irrefl 0 (batchesFrom_pos hcount)
  · unfold batches
    rw [sum_batchesFrom, List.length_map]
    omega

end Plans

end Reranking
end PaminMemory
