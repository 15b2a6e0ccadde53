import PaminMemory.Graph.Derived
import Mathlib.Data.List.Sort
import Mathlib.Data.List.Dedup

/-!
# What a memory's content claims

A memory that names other topics claims a mention of each.  Restating asserts one
edge for each topic named and closes the derived mentions that are not among them.
-/

namespace PaminMemory
namespace Cascade

open Foundation PaminMemory.Graph

def MENTION_CONFIDENCE : Confidence :=
  { value := { negative := false, magnitude := 1056964608, bounded := by decide }
    positive := by decide, atMostOne := by decide }

structure Found where
  topic : TopicId
  state : TopicStateId
  named : List TopicId
deriving DecidableEq, Repr

def namedNow (topic : TopicId) (naming : List TopicId) : List TopicId :=
  ((naming.filter fun other => other ≠ topic).insertionSort (· <= ·)).dedup

theorem mem_namedNow {topic other : TopicId} {naming : List TopicId} :
    other ∈ namedNow topic naming <-> other ∈ naming ∧ other ≠ topic := by
  simp [namedNow]

/-- The edge of a mention; the table admits none of a topic by itself. -/
def mention (topic other : TopicId) : Option Edge :=
  if h : topic ≠ other then
    some { fromTopic := topic, toTopic := other, kind := EdgeKind.mentions, distinct := h }
  else
    none

def claims (found : List Found) : List (Edge × TopicStateId) :=
  found.flatMap fun memory => memory.named.filterMap fun other =>
    (mention memory.topic other).map fun edge => (edge, memory.state)

def asks (drawn : Nat -> RelationshipId × RelationshipVersionId)
    (claims : List (Edge × TopicStateId)) : List Asked :=
  claims.zipIdx.map fun item =>
    { edge := item.1.1, claim := EdgeClaim.derived item.1.2 MENTION_CONFIDENCE
      relationship := (drawn item.2).1, version := (drawn item.2).2 }

def keeping (found : List Found) : List (TopicId × List TopicId) :=
  found.map fun memory => (memory.topic, memory.named)

def Mentions (topic : TopicId) (edge : Edge) : Prop :=
  edge.kind = EdgeKind.mentions ∧ edge.fromTopic = topic

theorem allDerived_asks (drawn : Nat -> RelationshipId × RelationshipVersionId)
    (claims : List (Edge × TopicStateId)) : AllDerived (asks drawn claims) := by
  intro asked hasked
  rcases List.mem_map.mp hasked with ⟨item, _, rfl⟩
  rfl

theorem edges_asks (drawn : Nat -> RelationshipId × RelationshipVersionId)
    (claims : List (Edge × TopicStateId)) :
    (asks drawn claims).map Asked.edge = claims.map Prod.fst := by
  have hzip : claims.zipIdx.map Prod.fst = claims := List.zipIdx_map_fst 0 claims
  calc
    (asks drawn claims).map Asked.edge = (claims.zipIdx.map Prod.fst).map Prod.fst := by
      unfold asks
      rw [List.map_map, List.map_map]
      rfl
    _ = claims.map Prod.fst := by rw [hzip]

theorem mention_edge {topic other : TopicId} {edge : Edge} (h : mention topic other = some edge) :
    Mentions topic edge ∧ edge.toTopic = other := by
  unfold mention at h
  split at h
  · cases h
    exact ⟨⟨rfl, rfl⟩, rfl⟩
  · cases h

theorem mention_of_edge {topic : TopicId} {edge : Edge} (h : Mentions topic edge) :
    mention topic edge.toTopic = some edge := by
  rcases h with ⟨hkind, rfl⟩
  unfold mention
  rw [dif_pos edge.distinct]
  cases edge
  cases hkind
  rfl

theorem mem_claims {found : List Found} {edge : Edge} :
    edge ∈ (claims found).map Prod.fst <->
      exists memory, memory ∈ found ∧ Mentions memory.topic edge ∧
        edge.toTopic ∈ memory.named := by
  unfold claims
  simp only [List.mem_map, List.mem_flatMap, List.mem_filterMap, Option.map_eq_some_iff]
  constructor
  · rintro ⟨entry, ⟨memory, hmem, other, hother, claimed, hclaimed, rfl⟩, rfl⟩
    rcases mention_edge hclaimed with ⟨hmentions, rfl⟩
    exact ⟨memory, hmem, hmentions, hother⟩
  · rintro ⟨memory, hmem, hmentions, hother⟩
    exact ⟨(edge, memory.state), ⟨memory, hmem, edge.toTopic, hother, edge,
      mention_of_edge hmentions, rfl⟩, rfl⟩

theorem retracts_keeping {found : List Found} {topic : TopicId} {edge : Edge}
    (hedge : Mentions topic edge) :
    Retracts EdgeKind.mentions (keeping found) edge <->
      topic ∈ found.map Found.topic ∧
        forall memory, memory ∈ found -> memory.topic = topic ->
          edge.toTopic ∉ memory.named := by
  rcases hedge with ⟨hkind, rfl⟩
  unfold Retracts keeping
  simp only [hkind, List.map_map, List.mem_map, true_and, Function.comp_def]
  constructor
  · rintro ⟨⟨memory, hmem, htopic⟩, hkept⟩
    refine ⟨⟨memory, hmem, htopic⟩, ?_⟩
    intro other hother hsame
    exact hkept (other.topic, other.named) ⟨other, hother, rfl⟩ hsame
  · rintro ⟨⟨memory, hmem, htopic⟩, hkept⟩
    refine ⟨⟨memory, hmem, htopic⟩, ?_⟩
    rintro kept ⟨other, hother, rfl⟩ hsame
    exact hkept other hother hsame

/-!
## What one restatement does to a topic's mentions
-/

theorem find_asserted_other {drawn : Nat -> RelationshipId × RelationshipVersionId}
    {found : List Found} {read ledger final : Ledger} {topic : TopicId} {edge : Edge}
    (h : AssertsDerived (asks drawn (claims found)) read ledger final)
    (hedge : Mentions topic edge)
    (hnot : forall memory, memory ∈ found -> memory.topic = topic ->
      edge.toTopic ∉ memory.named) : final.find edge = ledger.find edge := by
  apply h.others
  rw [edges_asks]
  intro hmem
  rcases mem_claims.mp hmem with ⟨memory, hmemory, hmentions, hother⟩
  exact hnot memory hmemory (hmentions.2.symm.trans hedge.2) hother

theorem derives_asserted {drawn : Nat -> RelationshipId × RelationshipVersionId}
    {found : List Found} {read ledger final : Ledger} {memory : Found} {edge : Edge}
    (h : AssertsDerived (asks drawn (claims found)) read ledger final)
    (hmem : memory ∈ found) (hedge : Mentions memory.topic edge)
    (hnamed : edge.toTopic ∈ memory.named)
    (hstill : read.derives edge = true -> ledger.derives edge = true) :
    final.derives edge = true := by
  have hclaimed : edge ∈ (asks drawn (claims found)).map Asked.edge := by
    rw [edges_asks]
    exact mem_claims.mpr ⟨memory, hmem, hedge, hnamed⟩
  rcases List.mem_map.mp hclaimed with ⟨asked, hasked, rfl⟩
  cases hstanding : standing read asked with
  | none => exact h.writes asked hasked hstanding
  | some version =>
      have hread := derives_of_standing (allDerived_asks drawn _ asked hasked) hstanding
      exact h.keeps _ (hstill hread)

theorem find_retracted {found : List Found} {snapshot ledger : Ledger} {now : Instant}
    {topic : TopicId} {edge : Edge} (hedge : Mentions topic edge)
    (hkept : topic ∈ found.map Found.topic ->
      exists memory, memory ∈ found ∧ memory.topic = topic ∧ edge.toTopic ∈ memory.named) :
    Ledger.find
        (ledger.map (closeSeen snapshot
          (Closing.derived now EdgeKind.mentions (keeping found)))) edge = ledger.find edge := by
  apply find_closeSeen_of_scope
  rw [Closing.scope, decide_eq_false_iff_not, retracts_keeping hedge]
  rintro ⟨htopic, hnone⟩
  rcases hkept htopic with ⟨memory, hmem, hsame, hnamed⟩
  exact hnone memory hmem hsame hnamed

end Cascade
end PaminMemory
