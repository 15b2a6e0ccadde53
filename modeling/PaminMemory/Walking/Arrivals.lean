import PaminMemory.Walking.Breadth

/-!
# The arrival a walk keeps

A walk from one seed keeps the arrival it meets first, in the order of the frontier: by the
first crossing to the topic of the first position that has one.
-/

namespace PaminMemory
namespace Walking

open Foundation PaminMemory.Graph

def Neighbor.entry (neighbor : Neighbor) : Entry :=
  (neighbor.topic, { kind := neighbor.kind, derivation := neighbor.derivation
                     confidence := neighbor.confidence, outbound := neighbor.outbound })

/-- An arrival over a last edge of a shortest path, none such edge more confident, and the
first of its topic's crossings in the order they are taken in. -/
structure BestArrival (edges : List Live) (seed : TopicId) (neighbor : Neighbor) : Prop where
  crossed : neighbor.entry ∈ crossings edges neighbor.via
  shortest : (neighbourhood edges).edist seed neighbor.topic =
    (neighbourhood edges).edist seed neighbor.via + 1
  strongest : forall standing entry, entry ∈ crossings edges standing ->
    entry.1 = neighbor.topic ->
      (neighbourhood edges).edist seed neighbor.topic =
        (neighbourhood edges).edist seed standing + 1 ->
        strength entry.2.confidence <= strength neighbor.confidence
  ordered : forall entry, entry ∈ crossings edges neighbor.via -> entry.1 = neighbor.topic ->
    crossingOrder neighbor.via neighbor.entry entry

/-!
## The first crossing to a topic
-/

section Alone

variable {edges : List Live} {answers : Answers edges} {options : Expansion} {seed : TopicId}
  {hops : Nat} {s : State}

end Alone

section Walk

variable {ledger : Ledger} {options : Expansion} {answers : Answers (edgesOf ledger options)}
  {seed : TopicId}

end Walk

end Walking
end PaminMemory
