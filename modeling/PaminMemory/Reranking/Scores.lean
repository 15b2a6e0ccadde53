import PaminMemory.Foundation.Binary32
import PaminMemory.Reranking.Planning

/-!
# The scores a reranker remembers

Whole batches, the oldest first, up to a number of scores; and the plan of the last list
ranked, which says where its batches' scores went.
-/

namespace PaminMemory
namespace Reranking

open Foundation

def REMEMBERED_SCORES : Nat := 4096

def MIN : Binary32 := ⟨true, 0x7F7FFFFF, by decide⟩

structure BatchReference where
  key : Digest
  positions : List Nat
deriving DecidableEq

structure LastPlan where
  key : Digest
  rows : Nat
  groups : List BatchReference
deriving DecidableEq

structure Scores where
  known : List (Digest × List Binary32)
  order : List Digest
  remembered : Nat
  last : Option LastPlan
  hits : Nat
  misses : Nat
deriving DecidableEq

def Scores.default : Scores :=
  { known := [], order := [], remembered := 0, last := none, hits := 0, misses := 0 }

/-!
## What is remembered, and under which plan
-/

structure Work where
  pairs : Nat
  tokens : Nat
  padded_tokens : Nat
  batches : Nat
  encode_us : Nat
  forward_us : Nat
deriving DecidableEq

def Work.default : Work :=
  { pairs := 0, tokens := 0, padded_tokens := 0, batches := 0, encode_us := 0, forward_us := 0 }

def Work.add (work completed : Work) : Work :=
  { pairs := work.pairs + completed.pairs
    tokens := work.tokens + completed.tokens
    padded_tokens := work.padded_tokens + completed.padded_tokens
    batches := work.batches + completed.batches
    encode_us := work.encode_us + completed.encode_us
    forward_us := work.forward_us + completed.forward_us }

structure Lengths where
  total : Nat
  longest : Nat
deriving DecidableEq

def place (values : List Binary32) (positions : List Nat) (scores : List Binary32) :
    List Binary32 :=
  (positions.zip scores).foldl (fun values row => values.set row.1 row.2) values

namespace Scores

def invalidate (scores : Scores) : Scores :=
  { scores with known := [], order := [], remembered := 0, last := none }

def replaced (scores : Scores) (cached : Nat) : Scores × Bool :=
  (scores.invalidate, cached ≠ 0)

def get (scores : Scores) (key : Digest) : Option (List Binary32) :=
  (scores.known.find? fun row => row.1 = key).map Prod.snd

end Scores

def visitRows : List Bool -> List Nat -> Option (List Bool)
  | seen, [] => some seen
  | seen, position :: rest =>
      match seen[position]? with
      | some false => visitRows (seen.set position true) rest
      | _ => none

def visitGroups (scores : Scores) :
    List Bool -> List BatchReference -> Option (List Bool × List (List Nat × List Binary32))
  | seen, [] => some (seen, [])
  | seen, group :: rest =>
      match scores.get group.key with
      | none => none
      | some values =>
          if values.length ≠ group.positions.length || group.positions.isEmpty then
            none
          else
            (visitRows seen group.positions).bind fun seen =>
              (visitGroups scores seen rest).map fun visited =>
                (visited.1, (group.positions, values) :: visited.2)

/-- The scores of every row, each in one group; none if a batch is gone or the plan is not one. -/
def LastPlan.visit (plan : LastPlan) (scores : Scores) :
    Option (List (List Nat × List Binary32)) :=
  if REMEMBERED_SCORES < plan.rows || plan.rows < plan.groups.length then
    none
  else
    (visitGroups scores (List.replicate plan.rows false) plan.groups).bind fun visited =>
      if visited.1.all id then some visited.2 else none

/-!
## One attempt at a call

An attempt gathers what is remembered of its batches, what is missing and what has to be told
about the plan.
-/

/-- What a call would leave behind, should it complete. -/
structure Attempt where
  values : List Binary32
  next_plan : Option LastPlan
  keep_plan : Bool
  pending : List (Digest × List Binary32)
  hits : Nat
  misses : Nat
  work : Work
  lengths : Lengths
deriving DecidableEq

def Attempt.default : Attempt :=
  { values := [], next_plan := none, keep_plan := false, pending := [], hits := 0, misses := 0
    work := Work.default, lengths := { total := 0, longest := 0 } }

def blank (rows : Nat) : List Binary32 := List.replicate rows MIN

def placeAll (values : List Binary32) (rows : List (List Nat × List Binary32)) :
    List Binary32 :=
  rows.foldl (fun values row => place values row.1 row.2) values

def Scores.replay (scores : Scores) (key : Digest) (rows : Nat) : Option Attempt :=
  match scores.last with
  | none => none
  | some plan =>
      if plan.key ≠ key || plan.rows ≠ rows || REMEMBERED_SCORES < rows then
        none
      else
        (plan.visit scores).map fun visited =>
          { Attempt.default with
            values := placeAll (blank rows) visited
            hits := rows
            keep_plan := true }

/-- Forgets the oldest batches until `needed` more scores fit; none where the source panics. -/
def evict (needed : Nat) : List Digest -> List (Digest × List Binary32) -> Nat ->
    Option (List Digest × List (Digest × List Binary32) × Nat)
  | [], known, remembered =>
      if REMEMBERED_SCORES < remembered + needed then none else some ([], known, remembered)
  | oldest :: order, known, remembered =>
      if REMEMBERED_SCORES < remembered + needed then
        match known.find? fun row => row.1 = oldest with
        | none => none
        | some row =>
            evict needed order (known.filter fun row => row.1 ≠ oldest)
              (remembered - row.2.length)
      else
        some (oldest :: order, known, remembered)

def Scores.put (scores : Scores) (key : Digest) (values : List Binary32) : Option Scores :=
  if REMEMBERED_SCORES < values.length then
    some scores
  else if (scores.get key).isSome then
    some { scores with
      known := scores.known.map fun row => if row.1 = key then (key, values) else row }
  else
    (evict values.length scores.order scores.known scores.remembered).map fun kept =>
      { scores with
        order := kept.1 ++ [key]
        known := kept.2.1 ++ [(key, values)]
        remembered := kept.2.2 + values.length }

def Scores.putAll : Scores -> List (Digest × List Binary32) -> Option Scores
  | scores, [] => some scores
  | scores, (key, values) :: rest => (scores.put key values).bind fun scores => scores.putAll rest

/-!
## What an attempt looks up
-/

structure Missed (encoding : Type _) where
  key : Digest
  positions : List Nat
  encodings : List encoding

section Scoring

variable {encoding : Type _} (len : encoding -> Nat) (sha256 : List UInt8 -> Digest)

def Batch.bytes (keys : List Digest) (batch : Batch encoding) : List UInt8 :=
  batchBytes (rowsAt keys batch.positions) (batch.positions.length, batch.longest len) batch.shape

def Batch.key (keys : List Digest) (batch : Batch encoding) : Digest :=
  sha256 (batch.bytes len keys)

def Attempt.refer (key : Digest) (positions : List Nat) (attempt : Attempt) : Attempt :=
  { attempt with
    next_plan := attempt.next_plan.map fun plan =>
      { plan with groups := plan.groups ++ [{ key := key, positions := positions }] } }

def Attempt.hit (positions : List Nat) (values : List Binary32) (attempt : Attempt) : Attempt :=
  { attempt with
    hits := attempt.hits + positions.length
    values := place attempt.values positions values }

def Attempt.miss (characters : Nat -> Nat) (batch : Batch encoding) (attempt : Attempt) :
    Attempt :=
  { attempt with
    misses := attempt.misses + batch.positions.length
    work := attempt.work.add
      { pairs := batch.positions.length
        tokens := (batch.encodings.map len).sum
        padded_tokens := batch.shape.1 * batch.shape.2
        batches := 1
        encode_us := 0
        forward_us := 0 }
    lengths :=
      { total := attempt.lengths.total + (batch.positions.map characters).sum
        longest := (batch.positions.map characters).foldl max attempt.lengths.longest } }

def consult (cached : Scores) (keys : List Digest) (characters : Nat -> Nat) :
    Attempt -> List (Missed encoding) -> List (Batch encoding) ->
      Except String (Attempt × List (Missed encoding))
  | attempt, missed, [] => Except.ok (attempt, missed)
  | attempt, missed, batch :: rest =>
      let key := batch.key len sha256 keys
      let attempt := attempt.refer key batch.positions
      match cached.get key with
      | some values =>
          if values.length ≠ batch.positions.length then
            Except.error "cached reranker batch has the wrong number of scores"
          else
            consult cached keys characters (attempt.hit batch.positions values) missed rest
      | none =>
          consult cached keys characters (attempt.miss len characters batch)
            (missed ++ [{ key := key, positions := batch.positions, encodings := batch.encodings }])
            rest

def absorb : Attempt -> List (Missed encoding × List Binary32) -> Except String Attempt
  | attempt, [] => Except.ok attempt
  | attempt, (missed, values) :: rest =>
      if values.length ≠ missed.positions.length then
        Except.error "reranker returned the wrong number of scores"
      else
        absorb { attempt with
          values := place attempt.values missed.positions values
          pending := attempt.pending ++ [(missed.key, values)] } rest

def Attempt.begin (rows : Nat) (memo : Digest) : Attempt :=
  { Attempt.default with
    values := blank rows
    next_plan :=
      if rows <= REMEMBERED_SCORES then
        some { key := memo, rows := rows, groups := [] }
      else
        none }

def complete (attempt : Attempt) (missed : List (Missed encoding))
    (scored : List (List Binary32)) (forward_us : Nat) : Except String Attempt :=
  let attempt := { attempt with
    work := { attempt.work with forward_us := attempt.work.forward_us + forward_us } }
  if scored.length ≠ missed.length then
    Except.error "reranker returned the wrong number of batches"
  else
    absorb attempt (missed.zip scored)

end Scoring

/-- Makes what a call did last; none where the source panics. -/
def Attempt.commit (attempt : Attempt) (scores : Scores) : Option Scores :=
  (scores.putAll attempt.pending).map fun scores =>
    let last := if attempt.keep_plan then scores.last
      else attempt.next_plan.filter fun plan => (plan.visit scores).isSome
    { scores with
      last := last
      hits := scores.hits + attempt.hits
      misses := scores.misses + attempt.misses }

end Reranking
end PaminMemory
