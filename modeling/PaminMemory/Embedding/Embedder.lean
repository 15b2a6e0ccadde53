import PaminMemory.Encoder.Passes
import PaminMemory.Reranking.Rank

/-!
# Turning text into vectors

A text's vector is that of a pass it runs alone in.  The vectors of queries are remembered while
the model stays on the plan that made them.  What selects a plan, and what retries a call on
another, comes from a library; what they are relied on for is `Reliable`.
-/

namespace PaminMemory
namespace Embedding

open Foundation (Binary32)
open Encoder (RunEach SideBySide inOrder)
open Reranking (IndexError)

abbrev Dense := List Binary32

/-!
## Query vectors already computed
-/

structure Queries where
  known : List (String × Dense)
  order : List String
deriving DecidableEq, Repr

def REMEMBERED_QUERIES : Nat := 256

namespace Queries

def empty : Queries := { known := [], order := [] }

def get (query : String) (queries : Queries) : Option Dense :=
  (queries.known.find? fun row => row.1 = query).map Prod.snd

def trim (known : List (String × Dense)) : List String -> Queries
  | [] => { known := known, order := [] }
  | oldest :: rest =>
      if REMEMBERED_QUERIES < rest.length + 1 then
        trim (known.filter fun row => row.1 ≠ oldest) rest
      else
        { known := known, order := oldest :: rest }

def put (query : String) (vector : Dense) (queries : Queries) : Queries :=
  if query ∈ queries.known.map Prod.fst then
    { queries with
      known := queries.known.map fun row => if row.1 = query then (query, vector) else row }
  else
    trim (queries.known ++ [(query, vector)]) (queries.order ++ [query])

end Queries

/-!
## The embedder
-/

structure PlanUse where
  target : String
  plan : String

def encodingBy {model : Type} (use : model -> Option PlanUse) (m : model) : Option String :=
  (use m).map fun use => use.target ++ ":" ++ use.plan

structure Runtime (model plan encoding : Type) where
  planOf : model -> plan
  needs_revalidation : model -> Bool
  recorded_use : model -> Option PlanUse
  loads : model -> Bool
  sideBySide : model -> Option SideBySide
  len : encoding -> Nat
  /-- What a plan makes of a text, and of the texts of one pass. -/
  encoded : plan -> String -> encoding
  dense : plan -> List encoding -> Dense
  encode : model -> String -> Except IndexError encoding
  pass : model -> List encoding -> Except IndexError Dense
  run_each : model -> List (List encoding) -> Except IndexError (List Dense) × model
  retry_model : model -> (model -> Except IndexError (List Dense) × model) ->
    Except IndexError (List Dense × Bool) × model

section Calls

variable {model plan encoding : Type} (r : Runtime model plan encoding)

/-- What the library is relied on for. -/
structure Reliable : Prop where
  encode_said : forall m text found, r.encode m text = Except.ok found ->
    found = r.encoded (r.planOf m) text
  pass_said : forall m batch vector, r.pass m batch = Except.ok vector ->
    vector = r.dense (r.planOf m) batch
  /-- However the passes are run, it is as an encoder runs them. -/
  run_runs : forall m batches vectors m', r.run_each m batches = (Except.ok vectors, m') ->
    RunEach r.len (r.pass m) (r.loads m) (r.sideBySide m) batches (Except.ok vectors)
  run_kept : forall m batches, r.planOf (r.run_each m batches).2 = r.planOf m
  /-- What is brought back is what the call did on the plan it leaves, replaced or not. -/
  retry_completed : forall m run vectors replaced m',
    r.retry_model m run = (Except.ok (vectors, replaced), m') ->
      (exists m₀ m₁, run m₀ = (Except.ok vectors, m₁) ∧ r.planOf m₁ = r.planOf m') ∧
        (replaced = false -> r.planOf m' = r.planOf m)
  /-- A call that fails on another plan leaves it to be revalidated. -/
  retry_failed : forall m run error m', r.retry_model m run = (Except.error error, m') ->
    r.planOf m' = r.planOf m ∨ r.needs_revalidation m' = true
  /-- What is recorded tells plans apart. -/
  recorded_apart : forall m m' recorded, encodingBy r.recorded_use m = some recorded ->
    encodingBy r.recorded_use m' = some recorded -> r.planOf m = r.planOf m'

def vectorOf (p : plan) (text : String) : Dense := r.dense p [r.encoded p text]

def alone (m : model) (texts : List String) : Except IndexError (List (List encoding)) :=
  (inOrder (r.encode m) texts).map fun encodings => encodings.map fun encoding => [encoding]

def vectorsOf (texts : List String) (m : model) : Except IndexError (List Dense) × model :=
  match alone r m texts with
  | Except.error error => (Except.error error, m)
  | Except.ok batches => r.run_each m batches

structure Embedder (model : Type) where
  model : model
  remembered : Queries

def Embedder.load (m : model) : Embedder model := { model := m, remembered := Queries.empty }

def Embedder.revalidate (e : Embedder model) : Embedder model :=
  if r.needs_revalidation e.model then { e with remembered := Queries.empty } else e

def Embedder.run (texts : List String) (e : Embedder model) :
    Except IndexError (List Dense) × Embedder model :=
  let e := e.revalidate r
  match r.retry_model e.model (vectorsOf r texts) with
  | (Except.error error, m) => (Except.error error, { e with model := m })
  | (Except.ok (vectors, replaced), m) =>
      (Except.ok vectors,
        { model := m, remembered := if replaced then Queries.empty else e.remembered })

def Embedder.embedPassages (texts : List String) (e : Embedder model) :
    Except IndexError (List Dense) × Embedder model := e.run r texts

def Embedder.embedOne (text : String) (e : Embedder model) :
    Except IndexError Dense × Embedder model :=
  match e.run r [text] with
  | (Except.error error, e) => (Except.error error, e)
  | (Except.ok vectors, e) =>
      match vectors.getLast? with
      | none => (Except.error (IndexError.engine "embedding produced no vector"), e)
      | some vector => (Except.ok vector, e)

def Embedder.embedQuery (text : String) (e : Embedder model) :
    Except IndexError Dense × Embedder model :=
  let e := e.revalidate r
  match e.remembered.get text with
  | some known => (Except.ok known, e)
  | none =>
      match e.embedOne r text with
      | (Except.error error, e) => (Except.error error, e)
      | (Except.ok vector, e) =>
          (Except.ok vector, { e with remembered := e.remembered.put text vector })

def Embedder.encodePassages (texts : List String) (e : Embedder model) :
    Except IndexError (List Dense × Option String) × Embedder model :=
  match e.embedPassages r texts with
  | (Except.error error, e) => (Except.error error, e)
  | (Except.ok vectors, e) => (Except.ok (vectors, encodingBy r.recorded_use e.model), e)

/-- A call, or the model moving on by itself between calls. -/
inductive Action (model : Type) where
  | query (text : String)
  | passages (texts : List String)
  | elapse (m : model)

def step [DecidableEq plan] (e : Embedder model) : Action model -> Option (Embedder model)
  | Action.query text => some (e.embedQuery r text).2
  | Action.passages texts => some (e.embedPassages r texts).2
  | Action.elapse m =>
      if r.planOf m = r.planOf e.model &&
          (!r.needs_revalidation e.model || r.needs_revalidation m) then
        some { e with model := m }
      else
        none

end Calls

end Embedding
end PaminMemory
