import PaminMemory.Walking.Arrivals
import Mathlib

/-!
# The predecessors in the order of their own best confidence

A graph alone says which topics lie at each distance from a seed, and how confident the best of
the edges is that end a shortest path to each.  A walk from the seed stands on them in that
order, and keeps the most confident arrivals, exactly when at every distance the first
predecessor of a topic has the best of its last edges.
-/

namespace PaminMemory
namespace Walking

open Foundation PaminMemory.Graph

section Distances

variable (edges : List Live) (seed : TopicId)

noncomputable def lastEdges (topic : TopicId) : List Entry := by
  classical
  exact (crossings edges topic).filter fun entry =>
    (neighbourhood edges).edist seed topic = (neighbourhood edges).edist seed entry.1 + 1

noncomputable def bestStrength (topic : TopicId) : WithBot Int :=
  ((lastEdges edges seed topic).map fun entry => strength entry.2.confidence).maximum

/-- The topics one step further from the seed than some, as the edges of those name them. -/
noncomputable def successors (hops : Nat) (standing : List TopicId) : List TopicId := by
  classical
  exact firsts id ∅ ((standing.flatMap fun topic => (crossings edges topic).map Prod.fst).filter
    fun topic => (neighbourhood edges).edist seed topic = ((hops + 1 : Nat) : ℕ∞))

/-- The topics that are gone on from at a distance: the most confident first, and no more than a
frontier carries on. -/
noncomputable def predecessors : Nat -> List TopicId
  | 0 => [seed]
  | hops + 1 => by
      classical
      exact ((successors edges seed hops (predecessors hops)).insertionSort fun left right =>
        bestStrength edges seed left >= bestStrength edges seed right).take MAX_FRONTIER

noncomputable def named (hops : Nat) : List TopicId :=
  successors edges seed hops (predecessors edges seed hops)

/-- Fewer topics are named before a distance than the caller keeps. -/
def GoesOn (options : Expansion) (hops : Nat) : Prop :=
  hops = 0 ∨ forall keep, options.keep = some keep ->
    ((List.range hops).flatMap (named edges seed)).length < keep

end Distances

/-!
## Who is named at a distance
-/

section Named

variable {edges : List Live} {seed topic : TopicId} {hops : Nat}

theorem mem_successors {standing : List TopicId} :
    topic ∈ successors edges seed hops standing <->
      (neighbourhood edges).edist seed topic = ((hops + 1 : Nat) : ℕ∞) ∧
        exists other, other ∈ standing ∧ (neighbourhood edges).Adj other topic := by
  have hkey := @mem_keys_firsts TopicId TopicId _ id ∅
    ((standing.flatMap fun topic => (crossings edges topic).map Prod.fst).filter
      fun topic => (neighbourhood edges).edist seed topic = ((hops + 1 : Nat) : ℕ∞)) topic
  rw [List.map_id, List.map_id] at hkey
  unfold successors
  rw [hkey, List.mem_filter, List.mem_flatMap, decide_eq_true_eq]
  constructor
  · rintro ⟨⟨⟨other, hother, hentry⟩, hlevel⟩, _⟩
    rcases List.mem_map.mp hentry with ⟨entry, hmem, hto⟩
    exact ⟨hlevel, other, hother, adj_iff_crossing.mpr ⟨entry, hmem, hto⟩⟩
  · rintro ⟨hlevel, other, hother, hadj⟩
    rcases adj_iff_crossing.mp hadj with ⟨entry, hmem, hto⟩
    exact ⟨⟨⟨other, hother, List.mem_map.mpr ⟨entry, hmem, hto⟩⟩, hlevel⟩, Finset.notMem_empty _⟩

theorem mem_named :
    topic ∈ named edges seed hops <->
      (neighbourhood edges).edist seed topic = ((hops + 1 : Nat) : ℕ∞) ∧
        exists other, other ∈ predecessors edges seed hops ∧
          (neighbourhood edges).Adj other topic :=
  mem_successors

theorem named_nil (h : predecessors edges seed hops = []) : named edges seed hops = [] := by
  apply List.eq_nil_iff_forall_not_mem.mpr
  intro topic htopic
  rcases (mem_named.mp htopic).2 with ⟨other, hother, _⟩
  rw [h] at hother
  cases hother

theorem crossing_back {standing : TopicId} {entry : Entry} (h : entry ∈ crossings edges standing) :
    exists other, other ∈ crossings edges entry.1 ∧ other.1 = standing ∧
      other.2.confidence = entry.2.confidence := by
  rcases mem_crossings.mp h with ⟨live, hlive, hof⟩
  rcases mem_entriesOf.mp hof with ⟨outward, rfl, rfl⟩
  refine ⟨entryOf (!outward) live, mem_crossings.mpr ⟨live, hlive, ?_⟩, ?_, rfl⟩
  · apply mem_entriesOf.mpr
    refine ⟨!outward, ?_, rfl⟩
    cases outward with
    | true => rfl
    | false => rfl
  · cases outward with
    | true => rfl
    | false => rfl

theorem bestStrength_eq_iff {confidence : Confidence} :
    bestStrength edges seed topic = (strength confidence : WithBot Int) <->
      (exists standing entry, entry ∈ crossings edges standing ∧ entry.1 = topic ∧
        (neighbourhood edges).edist seed topic = (neighbourhood edges).edist seed standing + 1 ∧
          strength entry.2.confidence = strength confidence) ∧
      forall standing entry, entry ∈ crossings edges standing -> entry.1 = topic ->
        (neighbourhood edges).edist seed topic = (neighbourhood edges).edist seed standing + 1 ->
          strength entry.2.confidence <= strength confidence := by
  unfold bestStrength lastEdges
  rw [List.maximum_eq_coe_iff]
  constructor
  · rintro ⟨hmem, hmost⟩
    constructor
    · rcases List.mem_map.mp hmem with ⟨entry, hentry, hsame⟩
      rw [List.mem_filter, decide_eq_true_eq] at hentry
      rcases crossing_back hentry.1 with ⟨other, hother, hto, hconfidence⟩
      exact ⟨entry.1, other, hother, hto, hentry.2, by rw [hconfidence]; exact hsame⟩
    · rintro standing entry hentry rfl hlast
      rcases crossing_back hentry with ⟨other, hother, rfl, hconfidence⟩
      apply hmost
      refine List.mem_map.mpr ⟨other, ?_, by rw [hconfidence]⟩
      rw [List.mem_filter, decide_eq_true_eq]
      exact ⟨hother, hlast⟩
  · rintro ⟨⟨standing, entry, hentry, rfl, hlast, hsame⟩, hmost⟩
    constructor
    · rcases crossing_back hentry with ⟨other, hother, rfl, hconfidence⟩
      refine List.mem_map.mpr ⟨other, ?_, by rw [hconfidence]; exact hsame⟩
      rw [List.mem_filter, decide_eq_true_eq]
      exact ⟨hother, hlast⟩
    · intro value hvalue
      rcases List.mem_map.mp hvalue with ⟨other, hother, rfl⟩
      rw [List.mem_filter, decide_eq_true_eq] at hother
      rcases crossing_back hother.1 with ⟨back, hback, hto, hconfidence⟩
      rw [← hconfidence]
      exact hmost other.1 back hback hto hother.2

theorem BestArrival.bestStrength {neighbor : Neighbor} (h : BestArrival edges seed neighbor) :
    bestStrength edges seed neighbor.topic = (strength neighbor.confidence : WithBot Int) :=
  bestStrength_eq_iff.mpr
    ⟨⟨neighbor.via, neighbor.entry, h.crossed, rfl, h.shortest, rfl⟩, h.strongest⟩

end Named

/-!
## A walk that stands on the predecessors
-/

section Standing

variable {edges : List Live} {answers : Answers edges} {options : Expansion} {seed : TopicId}
  {hops : Nat} {s : State}

/-- What holds of a walk that kept the best arrivals so far: where it is, what it saw. -/
structure Follows (edges : List Live) (options : Expansion) (seed : TopicId) (hops : Nat)
    (s : State) : Prop where
  standing : s.stopped = false -> s.frontier.map Step.topic = predecessors edges seed hops
  seen : s.stopped = false -> forall topic, (topic, seed) ∈ s.seen <->
    exists made, made < hops ∧ topic ∈ named edges seed made
  goes : s.stopped = false -> GoesOn edges seed options hops
  ended : s.stopped = true ->
    predecessors edges seed hops = [] ∨ ¬ GoesOn edges seed options hops

end Standing

section Walk

variable {ledger : Ledger} {options : Expansion} {answers : Answers (edgesOf ledger options)}
  {seed : TopicId} {hops : Nat}

end Walk

end Walking
end PaminMemory
