import PaminMemory.Search.Trace
import PaminMemory.Identifiers
import Mathlib.Data.List.AList
import Mathlib.Data.List.Sort
import Mathlib.Data.Rat.Defs
import Mathlib.Algebra.Order.Ring.Rat
import Std.Data.TreeMap

/-!
# Fusing the channels

Each channel a search recalls through lists candidates, best first.  Fusion gives every
topic the weighted sum of what its places in the lists are worth, and orders the topics
by it.  Scores are rationals here.
-/

namespace PaminMemory
namespace Search

/-- A candidate of a channel. -/
structure Scored where
  topic : TopicId
  score : Option Rat
  span : Nat
deriving DecidableEq, Repr

structure ChannelResults where
  channel : Channel
  candidates : List Scored
deriving DecidableEq, Repr

def Channel.calibrated : Channel -> Option (Rat × Rat)
  | lexicalSegmented => none
  | lexicalNgram => none
  | vector => none
  | graph => some (0, 1)

/-- How a candidate's places across the channels become one number. -/
inductive Combine where
  | reciprocal
  | banded
deriving DecidableEq, Repr

structure Fusion where
  combine : Combine
  k : Rat
  weights : AList fun _ : Channel => Rat

structure FusedResult where
  topic : TopicId
  score : Rat
  why : List (Why Rat)
  span : Nat
deriving DecidableEq, Repr

structure Scaled where
  within : Option Rat
  of : Nat
deriving DecidableEq, Repr

/-!
## What a candidate is worth to its channel
-/

def EPSILON : Rat := 1 / 2 ^ 23

def MAX : Rat := (2 ^ 24 - 1) * 2 ^ 104

def rescale (candidates : List Scored) (calibrated : Option (Rat × Rat)) : List Scaled :=
  let scores := candidates.filterMap Scored.score
  if scores.length ≠ candidates.length ∨ scores = [] then
    List.replicate candidates.length { within := none, of := candidates.length }
  else
    let least := scores.foldl min MAX
    let most := scores.foldl max (-MAX)
    let scale :=
      match calibrated with
      | some (low, high) => if high - low > EPSILON then some (low, high - low) else none
      | none => if most - least > EPSILON then some (least, most - least) else none
    scores.map fun score =>
      { within := scale.map fun (low, width) => max 0 (min 1 ((score - low) / width))
        of := candidates.length }

namespace Fusion

def weight (fusion : Fusion) (channel : Channel) : Rat :=
  (fusion.weights.lookup channel).getD 1

def share (fusion : Fusion) (scaled : Scaled) (rank : Nat) : Rat :=
  let reciprocal := 1 / (fusion.k + rank)
  match fusion.combine with
  | Combine.reciprocal => reciprocal
  | Combine.banded =>
      match scaled.within with
      | some within =>
          let floor := (fusion.k + 1) / (fusion.k + scaled.of)
          (floor + (1 - floor) * within) / (fusion.k + 1)
      | none => reciprocal

end Fusion

/-!
## Adding the channels up
-/

/-- What a topic has gathered: its score, its trace, and the weight behind each span. -/
structure Accumulated where
  score : Rat
  why : List (Why Rat)
  spans : Std.TreeMap Nat Rat

def Accumulated.none : Accumulated := { score := 0, why := [], spans := ∅ }

/-- The span with the most weight behind it, the earlier one on a tie; 0 when none voted. -/
def bestSpan (spans : Std.TreeMap Nat Rat) : Nat :=
  match spans.toList with
  | [] => 0
  | first :: rest =>
      -- the later of two is kept unless the earlier compares greater
      (rest.foldl (fun best next =>
        if best.2 > next.2 ∨ (best.2 = next.2 ∧ best.1 < next.1) then best else next) first).1

/-- One result before another: the higher score, and on a tie the smaller topic. -/
def Before (left right : FusedResult) : Prop :=
  left.score > right.score ∨ (left.score = right.score ∧ left.topic <= right.topic)

instance : DecidableRel Before := fun _ _ => by
  unfold Before
  infer_instance

def sortResults (results : List FusedResult) : List FusedResult :=
  results.insertionSort Before

namespace Fusion

def absorb (channel : Channel) (candidate : Scored) (rank : Nat) (weight contribution : Rat)
    (entry : Accumulated) : Accumulated :=
  { score := entry.score + contribution
    why := entry.why ++ [Why.channel channel rank candidate.score weight contribution]
    spans :=
      if channel ≠ Channel.graph then
        entry.spans.insert candidate.span (entry.spans.getD candidate.span 0 + contribution)
      else
        entry.spans }

def accumulate (fusion : Fusion) (lists : List ChannelResults) :
    Std.TreeMap TopicId Accumulated :=
  lists.foldl (fun accumulated list =>
    let weight := fusion.weight list.channel
    if weight = 0 then
      accumulated
    else
      let scaled := rescale list.candidates list.channel.calibrated
      (list.candidates.zip scaled).zipIdx.foldl (fun accumulated item =>
        let candidate := item.1.1
        let rank := item.2 + 1
        let contribution := weight * fusion.share item.1.2 rank
        accumulated.insert candidate.topic
          (absorb list.channel candidate rank weight contribution
            (accumulated.getD candidate.topic Accumulated.none))) accumulated) ∅

def fuse (fusion : Fusion) (lists : List ChannelResults) : List FusedResult :=
  sortResults ((fusion.accumulate lists).toList.map fun entry =>
    { topic := entry.1, score := entry.2.score, why := entry.2.why
      span := bestSpan entry.2.spans })

end Fusion

end Search
end PaminMemory
