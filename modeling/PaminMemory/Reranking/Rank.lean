import PaminMemory.Encoder.Passes
import PaminMemory.Foundation.Runs
import PaminMemory.Reranking.Scores

/-!
# Ranking a list

What selects a backend, runs one pass on it and retries a call on another comes from a library;
what it is relied on for is `Reliable`.  A reranker goes through turns: each replays the last
plan, or scores the list with what is remembered, and begins again when a replaced backend
would mix its scores with remembered ones.
-/

namespace PaminMemory
namespace Reranking

open Foundation
open Encoder (RunEach SideBySide)

inductive IndexError where
  | incompatible (text : String)
  | numerical (text : String)
  | engine (text : String)
  | other (text : String)
deriving DecidableEq, Repr

def IndexError.display : IndexError -> String
  | incompatible text => "incompatible compute plan: " ++ text
  | numerical text => "numerical accelerator validation: " ++ text
  | engine text => "projection index: " ++ text
  | other text => text

/-- What a call brings back: what to commit, how long encoding took, and what planned it. -/
structure Completed (model : Type _) where
  attempt : Attempt
  encode_us : Nat
  planned_on : model

structure Runtime (model backend : Type _) (encoding : Type) where
  backendOf : model -> backend
  needs_revalidation : model -> Bool
  takes_one_row : model -> Bool
  runs_side_by_side : model -> Bool
  loads : model -> Bool
  sideBySide : model -> Option SideBySide
  batch_limits : model -> Nat -> Nat -> UInt64 × UInt64
  len : encoding -> Nat
  batching_length : backend -> Nat -> Nat
  execution_shape : backend -> Nat -> Nat -> Nat × Nat
  /-- What a backend makes of a pair, and of the pairs of one pass. -/
  encoded : backend -> Pair -> encoding
  logits : backend -> List encoding -> List Binary32
  pass : model -> List encoding -> Except IndexError (List Binary32)
  encode : model -> List Pair -> Except IndexError (List encoding × Nat) × model
  ready : model -> Nat -> Except IndexError Unit × model
  run_each : model -> List (List encoding) ->
    Except IndexError (List (List Binary32) × Nat) × model
  retry_model : model -> (model -> Except IndexError (Completed model) × model) ->
    Except IndexError (Completed model × Bool) × model

section Calls

variable {model backend : Type _} {encoding : Type} (r : Runtime model backend encoding)

/-- What the library is relied on for. -/
structure Reliable : Prop where
  encode_kept : forall m pairs, r.backendOf (r.encode m pairs).2 = r.backendOf m
  encode_said : forall m pairs encodings us, (r.encode m pairs).1 = Except.ok (encodings, us) ->
    encodings = pairs.map (r.encoded (r.backendOf m))
  ready_kept : forall m passes, r.backendOf (r.ready m passes).2 = r.backendOf m
  run_kept : forall m batches, r.backendOf (r.run_each m batches).2 = r.backendOf m
  pass_said : forall m batch scores, r.pass m batch = Except.ok scores ->
    scores = r.logits (r.backendOf m) batch
  /-- However the passes are run, it is as an encoder runs them. -/
  run_runs : forall m batches scored us, (r.run_each m batches).1 = Except.ok (scored, us) ->
    RunEach r.len (r.pass m) (r.loads m) (r.sideBySide m) batches (Except.ok scored)
  /-- What is brought back is what the call did on the backend it leaves, replaced or not. -/
  retry_completed : forall m run completed replaced m',
    r.retry_model m run = (Except.ok (completed, replaced), m') ->
      (exists m₀ m₁, run m₀ = (Except.ok completed, m₁) ∧ r.backendOf m₁ = r.backendOf m') ∧
        (replaced = false -> r.backendOf m' = r.backendOf m)
  /-- A call that fails on another backend leaves it to be revalidated. -/
  retry_failed : forall m run error m', r.retry_model m run = (Except.error error, m') ->
    r.backendOf m' = r.backendOf m ∨ r.needs_revalidation m' = true

/-!
## One pass

What a backend is given is cut into passes, and a pass that fails is tried on the backend that
takes its place.
-/

def batch (settings : RerankSettings) (m : model) : Nat :=
  if r.takes_one_row m then
    1
  else
    batchOn (r.runs_side_by_side m) settings.budget settings.batch

def limitsOf (settings : RerankSettings) (m : model) : UInt64 × UInt64 :=
  r.batch_limits m settings.batch_tokens (batch r settings m)

def modelBatchesAt (b : backend) (encodings : List encoding) (limits : UInt64 × UInt64) :
    List (Batch encoding) :=
  planBatches r.len encodings limits.1.toNat limits.2.toNat (r.batching_length b)
    (r.execution_shape b)

def fresh (settings : RerankSettings) (m : model) (pairs : List Pair) : List Binary32 :=
  let b := r.backendOf m
  let planned := modelBatchesAt r b (pairs.map (r.encoded b)) (limitsOf r settings m)
  placeAll (blank pairs.length)
    (planned.map fun batch => (batch.positions, r.logits b batch.encodings))

def forward (m : model) (batches : List (List encoding)) :
    Except IndexError (List (List Binary32) × Nat) × model :=
  match r.ready m batches.length with
  | (Except.error error, m) => (Except.error error, m)
  | (Except.ok _, m) =>
      match r.run_each m batches with
      | (Except.error error, m) => (Except.error error, m)
      | (Except.ok (scores, us), m) =>
          match (scores.zip batches).find? fun row => row.1.length ≠ row.2.length with
          | some row =>
              (Except.error (IndexError.engine ("logits for " ++ toString row.1.length ++
                " pairs, " ++ toString row.2.length ++ " sent")), m)
          | none => (Except.ok (scores, us), m)

variable (sha256 : List UInt8 -> Digest)

def score (cached : Scores) (m : model) (planned : List (Batch encoding)) (keys : List Digest)
    (characters : Nat -> Nat) (memo : Digest) : Except IndexError Attempt × model :=
  match consult r.len sha256 cached keys characters (Attempt.begin keys.length memo) []
      planned with
  | Except.error text => (Except.error (IndexError.engine text), m)
  | Except.ok (attempt, missed) =>
      if missed.isEmpty then
        (Except.ok attempt, m)
      else
        match forward r m (missed.map Missed.encodings) with
        | (Except.error error, m) => (Except.error error, m)
        | (Except.ok (scored, us), m) =>
            match complete attempt missed scored us with
            | Except.error text => (Except.error (IndexError.engine text), m)
            | Except.ok attempt => (Except.ok attempt, m)

def attemptOn (settings : RerankSettings) (cached : Scores) (pairs : List Pair) (m : model) :
    Except IndexError (Completed model) × model :=
  match r.encode m pairs with
  | (Except.error error, m) => (Except.error error, m)
  | (Except.ok (encodings, us), m) =>
      let limits := limitsOf r settings m
      let keys := pairs.map (pairKey sha256)
      match score r sha256 cached m (modelBatchesAt r (r.backendOf m) encodings limits) keys
          (fun position => ((pairs[position]?).map fun pair => pair.2.val.length).getD 0)
          (sha256 (listBytes keys limits)) with
      | (Except.error error, m) => (Except.error error, m)
      | (Except.ok attempt, after) =>
          (Except.ok { attempt := attempt, encode_us := us, planned_on := m }, after)

def listed (settings : RerankSettings) (pairs : List Pair) (m : model) : List UInt8 :=
  listBytes (pairs.map (pairKey sha256)) (limitsOf r settings m)

def batched (settings : RerankSettings) (pairs : List Pair) (m : model) : List (List UInt8) :=
  let b := r.backendOf m
  (modelBatchesAt r b (pairs.map (r.encoded b)) (limitsOf r settings m)).map
    (Batch.bytes r.len (pairs.map (pairKey sha256)))

end Calls

/-!
## What a reranker keeps between lists
-/

/-- A loaded reranker.  `hashed` lists what has been given to the hash. -/
structure Reranker (model : Type _) where
  settings : RerankSettings
  model : model
  scores : Scores
  lengths : Lengths
  work : Work
  hashed : List (List UInt8)

/-- How a turn ends. -/
inductive Turn (model : Type _) where
  | again
  | answered (values : List Binary32) (planned_on : model)
  | failed (error : IndexError)
  | panicked

/-!
## A list and its turns
-/

structure Ranked where
  position : Nat
  score : Binary32
deriving DecidableEq

/-- How a call ends: with an order and the model its passes were planned on, or not. -/
inductive Answer (model : Type _) where
  | ranked (order : List Ranked) (planned_on : model)
  | failed (error : IndexError)
  | panicked
  | unfinished

section Ranking

variable {model backend : Type _} {encoding : Type} (r : Runtime model backend encoding)
  (sha256 : List UInt8 -> Digest)

def Reranker.load (settings : RerankSettings) (m : model) : Reranker model :=
  { settings := settings, model := m, scores := Scores.default
    lengths := { total := 0, longest := 0 }, work := Work.default, hashed := [] }

def Reranker.commit (completed : Completed model) (s : Reranker model) :
    Turn model × Reranker model :=
  match completed.attempt.commit s.scores with
  | none => (Turn.panicked, s)
  | some scores =>
      (Turn.answered completed.attempt.values completed.planned_on,
        { s with
          scores := scores
          work :=
            let work := s.work.add completed.attempt.work
            { work with encode_us := work.encode_us + completed.encode_us }
          lengths :=
            { total := s.lengths.total + completed.attempt.lengths.total
              longest := max s.lengths.longest completed.attempt.lengths.longest } })

def Reranker.revalidate (s : Reranker model) : Reranker model :=
  if r.needs_revalidation s.model then { s with scores := s.scores.invalidate } else s

def Reranker.note (bytes : List (List UInt8)) (s : Reranker model) : Reranker model :=
  { s with hashed := s.hashed ++ bytes }

def settle (pairs : List Pair) (completed : Completed model) (replaced : Bool)
    (s : Reranker model) : Turn model × Reranker model :=
  let planned_on := completed.planned_on
  let s := s.note (listed r sha256 s.settings pairs planned_on ::
    batched r sha256 s.settings pairs planned_on)
  if replaced then
    let forgotten := s.scores.replaced completed.attempt.hits
    let s := { s with scores := forgotten.1 }
    if forgotten.2 then (Turn.again, s) else s.commit completed
  else
    s.commit completed

def turn (pairs : List Pair) (s : Reranker model) : Turn model × Reranker model :=
  let list := listed r sha256 s.settings pairs s.model
  let s := (s.revalidate r).note (pairs.map pairBytes ++ [list])
  match s.scores.replay (sha256 list) pairs.length with
  | some attempt => s.commit { attempt := attempt, encode_us := 0, planned_on := s.model }
  | none =>
      match r.retry_model s.model (attemptOn r sha256 s.settings s.scores pairs) with
      | (Except.error error, m) =>
          (Turn.failed (IndexError.engine ("reranking: " ++ error.display)),
            { s with model := m })
      | (Except.ok (completed, replaced), m) =>
          settle r sha256 pairs completed replaced { s with model := m }

def better (values : List Binary32) (left right : Nat) : Prop :=
  (values.getD right MIN).totalPlace < (values.getD left MIN).totalPlace ∨
    (values.getD right MIN).totalPlace = (values.getD left MIN).totalPlace ∧ left <= right

instance (values : List Binary32) (left right : Nat) : Decidable (better values left right) :=
  inferInstanceAs (Decidable (_ ∨ _))

def ordered (values : List Binary32) : List Ranked :=
  ((List.range values.length).insertionSort (better values)).map fun position =>
    { position := position, score := values.getD position MIN }

def turns (pairs : List Pair) : Nat -> Reranker model -> Answer model × Reranker model
  | 0, s => (Answer.unfinished, s)
  | fuel + 1, s =>
      match turn r sha256 pairs s with
      | (Turn.again, s) => turns pairs fuel s
      | (Turn.answered values m, s) => (Answer.ranked (ordered values) m, s)
      | (Turn.failed error, s) => (Answer.failed error, s)
      | (Turn.panicked, s) => (Answer.panicked, s)

def TURNS : Nat := 2

def rank (query : Text) (documents : List Text) (s : Reranker model) :
    Answer model × Reranker model :=
  if documents.isEmpty then
    (Answer.ranked [] s.model, s)
  else
    turns r sha256 (documents.map fun document => (query, document)) TURNS s

end Ranking

/-- A call, or the model moving on by itself between calls. -/
inductive Action (model : Type _) where
  | rank (query : Text) (documents : List Text)
  | elapse (m : model)

section Steps

variable {model backend : Type _} {encoding : Type} [DecidableEq backend]
  (r : Runtime model backend encoding) (sha256 : List UInt8 -> Digest)

def step (s : Reranker model) : Action model -> Option (Reranker model)
  | Action.rank query documents => some (rank r sha256 query documents s).2
  | Action.elapse m =>
      if r.backendOf m = r.backendOf s.model &&
          (!r.needs_revalidation s.model || r.needs_revalidation m) then
        some { s with model := m }
      else
        none

end Steps

/-!
## A host whose accelerator fails
-/

structure Host where
  accelerated : Bool
  marked : Bool
deriving DecidableEq

def Host.longest (host : Host) : Nat := if host.accelerated then 4 else 8

def scoredOn (accelerated : Bool) : Binary32 :=
  if accelerated then Binary32.one else Binary32.zero

def Host.retry {value : Type _} (host : Host) (run : Host -> Except IndexError value × Host) :
    Except IndexError (value × Bool) × Host :=
  match run host with
  | (Except.ok made, after) => (Except.ok (made, after.accelerated ≠ host.accelerated), after)
  | (Except.error _, _) =>
      match run { host with accelerated := false } with
      | (Except.ok made, after) => (Except.ok (made, after.accelerated ≠ host.accelerated), after)
      | (Except.error error, _) => (Except.error error, { host with marked := true })

section Hosts

variable {value : Type _} {host after : Host} {run : Host -> Except IndexError value × Host}

theorem retry_reports {made : value} {replaced : Bool}
    (h : host.retry run = (Except.ok (made, replaced), after)) :
    (exists before, run before = (Except.ok made, after)) ∧
      (replaced = false -> after.accelerated = host.accelerated) := by
  unfold Host.retry at h
  split at h
  · next found left hrun =>
      cases h
      exact ⟨⟨host, hrun⟩, fun hkept => of_not_not (of_decide_eq_false hkept)⟩
  · split at h
    · next found left hrun =>
        cases h
        exact ⟨⟨_, hrun⟩, fun hkept => of_not_not (of_decide_eq_false hkept)⟩
    · cases h

theorem retry_marks {error : IndexError} (h : host.retry run = (Except.error error, after)) :
    after.marked = true := by
  unfold Host.retry at h
  split at h
  · cases h
  · split at h
    · cases h
    · cases h
      rfl

end Hosts

end Reranking
end PaminMemory
