import PaminMemory.Reranking.Fifo

/-!
# What a call writes

A call writes the scores it found and then those it made, each batch at its own rows; so
the list comes out as if the batches had been scored in the order they were planned.
-/

namespace PaminMemory
namespace Reranking

open Foundation

section Writing

variable {values : List Binary32} {rows rows' : List (List Nat × List Binary32)}

def writes (rows : List (List Nat × List Binary32)) : List (Nat × Binary32) :=
  rows.flatMap fun row => row.1.zip row.2

theorem placeAll_eq (values : List Binary32) (rows : List (List Nat × List Binary32)) :
    placeAll values rows =
      (writes rows).foldl (fun values write => values.set write.1 write.2) values := by
  induction rows generalizing values with
  | nil => rfl
  | cons row rest ih =>
      have hcons : placeAll values (row :: rest) = placeAll (place values row.1 row.2) rest := rfl
      rw [hcons, ih]
      unfold writes place
      rw [List.flatMap_cons, List.foldl_append]

theorem placeAll_append (values : List Binary32) (rows rows' : List (List Nat × List Binary32)) :
    placeAll values (rows ++ rows') = placeAll (placeAll values rows) rows' := by
  unfold placeAll
  rw [List.foldl_append]

theorem zip_fst_sublist (positions : List Nat) (scores : List Binary32) :
    ((positions.zip scores).map Prod.fst).Sublist positions := by
  induction positions generalizing scores with
  | nil => exact List.Sublist.refl _
  | cons position rest ih =>
      cases scores with
      | nil => exact List.nil_sublist _
      | cons score scores => exact (ih scores).cons_cons position

theorem writes_sublist (rows : List (List Nat × List Binary32)) :
    ((writes rows).map Prod.fst).Sublist (rows.map Prod.fst).flatten := by
  induction rows with
  | nil => exact List.Sublist.refl _
  | cons row rest ih =>
      unfold writes
      rw [List.flatMap_cons, List.map_append, List.map_cons, List.flatten_cons]
      exact (zip_fst_sublist row.1 row.2).append ih

theorem placeAll_perm (hperm : rows.Perm rows') (hdistinct : (rows.map Prod.fst).flatten.Nodup) :
    placeAll values rows = placeAll values rows' := by
  rw [placeAll_eq, placeAll_eq]
  apply List.Perm.foldl_eq' (hperm.flatMap_right _)
  intro first hfirst second hsecond values
  by_cases hsame : first.1 = second.1
  · have honce := hdistinct.sublist (writes_sublist rows)
    rw [List.inj_on_of_nodup_map honce hfirst hsecond hsame]
  · exact List.set_comm _ _ hsame

theorem length_place (values : List Binary32) (positions : List Nat) (scores : List Binary32) :
    (place values positions scores).length = values.length := by
  unfold place
  induction positions.zip scores generalizing values with
  | nil => rfl
  | cons write rest ih =>
      rw [List.foldl_cons, ih, List.length_set]

theorem length_placeAll (values : List Binary32) (rows : List (List Nat × List Binary32)) :
    (placeAll values rows).length = values.length := by
  induction rows generalizing values with
  | nil => rfl
  | cons row rest ih =>
      have hcons : placeAll values (row :: rest) = placeAll (place values row.1 row.2) rest := rfl
      rw [hcons, ih, length_place]

end Writing

/-!
## Looking up, and scoring the rest
-/

section Consulting

variable {encoding : Type _} {len : encoding -> Nat} {sha256 : List UInt8 -> Digest}
  {cached : Scores} {keys : List Digest} {characters : Nat -> Nat}

def found (len : encoding -> Nat) (sha256 : List UInt8 -> Digest) (cached : Scores)
    (keys : List Digest) (planned : List (Batch encoding)) : List (Batch encoding) :=
  planned.filter fun batch => (cached.get (batch.key len sha256 keys)).isSome

def unfound (len : encoding -> Nat) (sha256 : List UInt8 -> Digest) (cached : Scores)
    (keys : List Digest) (planned : List (Batch encoding)) : List (Batch encoding) :=
  planned.filter fun batch => !(cached.get (batch.key len sha256 keys)).isSome

def Batch.reference (len : encoding -> Nat) (sha256 : List UInt8 -> Digest) (keys : List Digest)
    (batch : Batch encoding) : BatchReference :=
  { key := batch.key len sha256 keys, positions := batch.positions }

def Batch.missed (len : encoding -> Nat) (sha256 : List UInt8 -> Digest) (keys : List Digest)
    (batch : Batch encoding) : Missed encoding :=
  { key := batch.key len sha256 keys, positions := batch.positions
    encodings := batch.encodings }

def remembered (len : encoding -> Nat) (sha256 : List UInt8 -> Digest) (cached : Scores)
    (keys : List Digest) (batch : Batch encoding) : List Nat × List Binary32 :=
  (batch.positions, (cached.get (batch.key len sha256 keys)).getD [])

theorem found_cons {batch : Batch encoding} (rest : List (Batch encoding))
    {values : List Binary32} (h : cached.get (batch.key len sha256 keys) = some values) :
    found len sha256 cached keys (batch :: rest) =
        batch :: found len sha256 cached keys rest ∧
      unfound len sha256 cached keys (batch :: rest) = unfound len sha256 cached keys rest := by
  unfold found unfound
  constructor
  · rw [List.filter_cons, if_pos (by rw [h]; rfl)]
  · rw [List.filter_cons, if_neg (by rw [h]; simp)]

theorem unfound_cons {batch : Batch encoding} (rest : List (Batch encoding))
    (h : cached.get (batch.key len sha256 keys) = none) :
    found len sha256 cached keys (batch :: rest) = found len sha256 cached keys rest ∧
      unfound len sha256 cached keys (batch :: rest) =
        batch :: unfound len sha256 cached keys rest := by
  unfold found unfound
  constructor
  · rw [List.filter_cons, if_neg (by rw [h]; simp)]
  · rw [List.filter_cons, if_pos (by rw [h]; rfl)]

structure Consulted (len : encoding -> Nat) (sha256 : List UInt8 -> Digest) (cached : Scores)
    (keys : List Digest) (planned : List (Batch encoding)) (before after : Attempt) : Prop where
  values : after.values =
    placeAll before.values ((found len sha256 cached keys planned).map
      (remembered len sha256 cached keys))
  hits : after.hits = before.hits +
    ((found len sha256 cached keys planned).map fun batch => batch.positions.length).sum
  next_plan : after.next_plan = before.next_plan.map fun plan =>
    { plan with groups := plan.groups ++ planned.map (Batch.reference len sha256 keys) }
  pending : after.pending = before.pending
  keep_plan : after.keep_plan = before.keep_plan

theorem consult_said {planned : List (Batch encoding)} {before after : Attempt}
    {missed missed' : List (Missed encoding)}
    (h : consult len sha256 cached keys characters before missed planned =
      Except.ok (after, missed')) :
    Consulted len sha256 cached keys planned before after ∧
      missed' = missed ++ (unfound len sha256 cached keys planned).map
        (Batch.missed len sha256 keys) := by
  induction planned generalizing before missed with
  | nil =>
      cases h
      refine ⟨⟨rfl, rfl, ?_, rfl, rfl⟩, (List.append_nil _).symm⟩
      cases after.next_plan with
      | none => rfl
      | some plan => rw [Option.map_some, List.map_nil, List.append_nil]
  | cons batch rest ih =>
      have hgroups : forall {plan : LastPlan} {reference : BatchReference},
          plan.groups ++ [reference] ++ rest.map (Batch.reference len sha256 keys) =
            plan.groups ++ (reference :: rest.map (Batch.reference len sha256 keys)) := by
        intro plan reference
        rw [List.append_assoc, List.singleton_append]
      unfold consult at h
      cases hget : cached.get (batch.key len sha256 keys) with
      | some values =>
          simp only [hget] at h
          split at h
          · cases h
          · rcases ih h with ⟨hconsulted, hmissed⟩
            rcases found_cons rest hget with ⟨hfound, hunfound⟩
            rw [hunfound]
            have hremembered : remembered len sha256 cached keys batch =
                (batch.positions, values) := by
              unfold remembered
              rw [hget]
              rfl
            refine ⟨⟨?_, ?_, ?_, hconsulted.pending, hconsulted.keep_plan⟩, hmissed⟩
            · rw [hfound, List.map_cons, hremembered]
              exact hconsulted.values
            · rw [hfound, List.map_cons, List.sum_cons, ← Nat.add_assoc]
              exact hconsulted.hits
            · rw [hconsulted.next_plan]
              show (before.next_plan.map _).map _ = _
              rw [Option.map_map]
              apply congrArg (fun f => before.next_plan.map f)
              funext plan
              rw [Function.comp_apply, hgroups]
              rfl
      | none =>
          simp only [hget] at h
          rcases ih h with ⟨hconsulted, hmissed⟩
          rcases unfound_cons rest hget with ⟨hfound, hunfound⟩
          rw [hunfound]
          refine ⟨⟨?_, ?_, ?_, hconsulted.pending, hconsulted.keep_plan⟩, ?_⟩
          · rw [hfound]
            exact hconsulted.values
          · rw [hfound]
            exact hconsulted.hits
          · rw [hconsulted.next_plan]
            show (before.next_plan.map _).map _ = _
            rw [Option.map_map]
            apply congrArg (fun f => before.next_plan.map f)
            funext plan
            rw [Function.comp_apply, hgroups]
            rfl
          · rw [hmissed, List.map_cons, List.append_assoc, List.singleton_append]
            rfl

theorem absorb_said {rows : List (Missed encoding × List Binary32)} {before after : Attempt}
    (h : absorb before rows = Except.ok after) :
    after = { before with
      values := placeAll before.values (rows.map fun row => (row.1.positions, row.2))
      pending := before.pending ++ rows.map fun row => (row.1.key, row.2) } := by
  induction rows generalizing before with
  | nil =>
      cases h
      rw [List.map_nil, List.map_nil, List.append_nil]
      rfl
  | cons row rest ih =>
      unfold absorb at h
      split at h
      · cases h
      · rw [ih h]
        rw [List.map_cons, List.map_cons, List.append_assoc, List.singleton_append]
        rfl

end Consulting

end Reranking
end PaminMemory
