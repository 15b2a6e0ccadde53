import PaminMemory.Graph.Ledger
import PaminMemory.Foundation.Firsts
import Mathlib.Data.List.AList
import Mathlib.Data.List.Sort
import Mathlib.Data.List.Dedup
import Mathlib.Data.Prod.Lex

/-!
# One hop of a walk

A walk stands on some topics, each position with the seed its walk began at.  A hop reads
the edges there and crosses them from both ends, in an order that settles every tie.
-/

namespace PaminMemory
namespace Walking

open Foundation PaminMemory.Graph

structure Live where
  edge : Edge
  derivation : Derivation
  confidence : Confidence
deriving DecidableEq, Repr

/-- How the neighbourhood query is bounded. -/
structure Expansion where
  depth : Nat
  kinds : Option (List EdgeKind)
  moment : Option Instant
  keep : Option Nat
deriving DecidableEq, Repr

/-- Whether a version counts: live, or held at the moment asked about. -/
def counts (moment : Option Instant) (version : RelationshipVersion) : Bool :=
  match moment with
  | none => version.isLive
  | some moment =>
      version.validity.validFrom.all (fun start => start <= moment) &&
        version.validity.validTo.all (fun finish => moment < finish) &&
          version.invalidatedAt.all fun invalidated =>
            version.tombstoneReason = some TombstoneReason.closed && moment < invalidated

def asked (kinds : Option (List EdgeKind)) (kind : EdgeKind) : Bool :=
  kinds.all fun kinds => kind ∈ kinds

def edgesOf (ledger : Ledger) (options : Expansion) : List Live :=
  (ledger.filter fun relationship => asked options.kinds relationship.edge.kind).flatMap
    fun relationship => (relationship.versions.filter (counts options.moment)).map fun version =>
      { edge := relationship.edge, derivation := version.derivation
        confidence := version.confidence }

/-!
## What a walk stands on and meets
-/

/-- One walk's position: where it is, where it started, what it came through. -/
structure Step where
  topic : TopicId
  origin : TopicId
  via : TopicId
deriving DecidableEq, Repr

structure Crossing where
  kind : EdgeKind
  derivation : Derivation
  confidence : Confidence
  outbound : Bool
deriving DecidableEq, Repr

/-- A topic a walk reached, and the edge it arrived by. -/
structure Neighbor where
  topic : TopicId
  origin : TopicId
  hops : Nat
  via : TopicId
  kind : EdgeKind
  derivation : Derivation
  confidence : Confidence
  outbound : Bool
deriving DecidableEq, Repr

/-- Where a confidence stands on the line; a confidence is always a number. -/
def strength (confidence : Confidence) : Int :=
  confidence.value.place

/-- A topic's crossing to another. -/
abbrev Entry := TopicId × Crossing

def assertedFrom (standing : TopicId) (entry : Entry) : TopicId :=
  if entry.2.outbound then standing else entry.1

/-- What crossings are ordered by: confidence, most first, then the topic on the other end,
then kind, then which end asserted it. -/
def crossingKey (standing : TopicId) (entry : Entry) : Int ×ₗ Nat ×ₗ Nat ×ₗ Nat :=
  toLex (-strength entry.2.confidence, toLex (entry.1,
    toLex (entry.2.kind.ctorIdx, assertedFrom standing entry)))

def crossingOrder (standing : TopicId) (left right : Entry) : Prop :=
  crossingKey standing left <= crossingKey standing right

instance (standing : TopicId) : DecidableRel (crossingOrder standing) := fun left right =>
  inferInstanceAs (Decidable (crossingKey standing left <= crossingKey standing right))

instance (standing : TopicId) : Std.Total (crossingOrder standing) where
  total left right := le_total (crossingKey standing left) (crossingKey standing right)

instance (standing : TopicId) : IsTrans Entry (crossingOrder standing) where
  trans _ _ _ := le_trans

/-!
## The crossings in order

A topic is taken up by the first crossing to it: nearer seeds come first, then the more confident
edge, then the topic it starts from.
-/

def entriesOf (standing : TopicId) (live : Live) : List Entry :=
  let crossing : Crossing :=
    { kind := live.edge.kind, derivation := live.derivation, confidence := live.confidence
      outbound := true }
  (if live.edge.fromTopic = standing then [(live.edge.toTopic, crossing)] else []) ++
    (if live.edge.toTopic = standing then
      [(live.edge.fromTopic, { crossing with outbound := false })]
    else
      [])

def crossings (edges : List Live) (standing : TopicId) : List Entry :=
  (edges.flatMap (entriesOf standing)).insertionSort (crossingOrder standing)

/-!
## Taking the crossings up
-/

/-- What a hop has met: the topics each walk saw, the topics reached, the next positions. -/
structure Progress where
  seen : Finset (TopicId × TopicId)
  reached : AList fun _ : TopicId => Neighbor
  next : List (Step × Confidence)

def arrivalAt (hop : Nat) (step : Step) (entry : Entry) : Neighbor :=
  { topic := entry.1, origin := step.origin, hops := hop, via := step.topic
    kind := entry.2.kind, derivation := entry.2.derivation, confidence := entry.2.confidence
    outbound := entry.2.outbound }

def settle (reached : AList fun _ : TopicId => Neighbor) (arrival : Neighbor) :
    AList fun _ : TopicId => Neighbor :=
  match reached.lookup arrival.topic with
  | none => reached.insert arrival.topic arrival
  | some held =>
      if held.hops = arrival.hops ∧ strength held.confidence < strength arrival.confidence then
        reached.insert arrival.topic arrival
      else
        reached

def cross (hop : Nat) (frontier : List Step) (edges : List Live)
    (seen : Finset (TopicId × TopicId)) (reached : AList fun _ : TopicId => Neighbor) :
    Progress :=
  frontier.foldl (fun progress step =>
    (crossings edges step.topic).foldl (fun progress entry =>
      -- never back to where this walk started, never back along the edge just taken
      if 1 < hop ∧ (entry.1 = step.origin ∨ entry.1 = step.via) then
        progress
      else if (entry.1, step.origin) ∈ progress.seen then
        progress
      else
        let position : Step := { topic := entry.1, origin := step.origin, via := step.topic }
        { seen := insert (entry.1, step.origin) progress.seen
          reached := settle progress.reached (arrivalAt hop step entry)
          next := progress.next ++ [(position, entry.2.confidence)] }) progress)
    { seen := seen, reached := reached, next := [] }

end Walking
end PaminMemory
