import PaminMemory.Topics.Writes
import Mathlib.Data.List.Nodup

/-!
# The pointer is the newest surviving state

Every transaction either leaves the topics' states and pointers alone, or adds a
topic that says nothing, or appends a state and points at it, or marks states and
asks the ledger again.  Each of the four keeps the pointer in step.
-/

namespace PaminMemory
namespace Topics

open Foundation

def Topic.pointer (topic : Topic) : TopicId × Option TopicStateId × Option Nat :=
  (topic.id, topic.currentStateId, topic.currentVersion)

def Store.pointers (store : Store) : List (TopicId × Option TopicStateId × Option Nat) :=
  store.topics.map Topic.pointer

def pointerTo (state : Option TopicState) : Option TopicStateId × Option Nat :=
  (state.map TopicState.id, state.map TopicState.version)

/-- What every transaction keeps true. -/
structure Kept (store : Store) : Prop where
  topicsDistinct : (store.pointers.map Prod.fst).Nodup
  statesDistinct : (store.states.map TopicState.id).Nodup
  owned : forall state, state ∈ store.states ->
    state.topicId ∈ store.pointers.map Prod.fst
  pointed : forall pointer, pointer ∈ store.pointers ->
    pointer.2 = pointerTo (store.newest pointer.1)
  ascending : forall topic, Ascending TopicState.version (store.statesOf topic)

theorem kept_empty : Kept Store.empty where
  topicsDistinct := List.nodup_nil
  statesDistinct := List.nodup_nil
  owned := by simp [Store.empty]
  pointed := by simp [Store.empty, Store.pointers]
  ascending := by
    intro topic
    exact List.Pairwise.nil

theorem newest_congr {first second : Store} (h : second.states = first.states)
    (topic : TopicId) : second.newest topic = first.newest topic := by
  unfold Store.newest Store.statesOf
  rw [h]

theorem kept_congr {first second : Store} (h : Kept first)
    (hstates : second.states = first.states) (hpointers : second.pointers = first.pointers) :
    Kept second where
  topicsDistinct := by
    rw [hpointers]
    exact h.topicsDistinct
  statesDistinct := by
    rw [hstates]
    exact h.statesDistinct
  owned := by
    rw [hstates, hpointers]
    exact h.owned
  pointed := by
    rw [hpointers]
    intro pointer hmem
    rw [newest_congr hstates]
    exact h.pointed pointer hmem
  ascending := by
    intro topic
    unfold Store.statesOf
    rw [hstates]
    exact h.ascending topic

/-!
## A topic that says nothing yet
-/

theorem newest_of_not_owned {store : Store} {topic : TopicId}
    (h : forall state, state ∈ store.states -> state.topicId ≠ topic) :
    store.newest topic = none := by
  have hnone : store.statesOf topic = [] := by
    apply List.filter_eq_nil_iff.mpr
    intro state hmem
    simpa using h state hmem
  unfold Store.newest
  rw [hnone]
  rfl

theorem kept_created {first second : Store} {topic : TopicId} (h : Kept first)
    (hnew : topic ∉ first.pointers.map Prod.fst) (hstates : second.states = first.states)
    (hpointers : second.pointers = first.pointers ++ [(topic, none, none)]) :
    Kept second where
  topicsDistinct := by
    rw [hpointers, List.map_append, List.map_singleton, ← List.concat_eq_append]
    exact h.topicsDistinct.concat hnew
  statesDistinct := by
    rw [hstates]
    exact h.statesDistinct
  owned := by
    intro state hmem
    rw [hstates] at hmem
    rw [hpointers, List.map_append]
    exact List.mem_append_left _ (h.owned state hmem)
  pointed := by
    intro pointer hmem
    rw [hpointers] at hmem
    rw [newest_congr hstates]
    rcases List.mem_append.mp hmem with hold | hcreated
    · exact h.pointed pointer hold
    · rw [List.mem_singleton.mp hcreated, newest_of_not_owned]
      · rfl
      · intro state hstate hsame
        apply hnew
        have howned := h.owned state hstate
        rwa [hsame] at howned
  ascending := by
    intro topic
    unfold Store.statesOf
    rw [hstates]
    exact h.ascending topic

/-!
## A state appended and pointed at
-/

theorem pointers_pointAt (topic : TopicId) (state : Option TopicState) (store : Store) :
    (pointAt topic state store).pointers = store.pointers.map fun pointer =>
      if pointer.1 = topic then (pointer.1, pointerTo state) else pointer := by
  unfold Store.pointers pointAt
  simp only [List.map_map]
  apply List.map_congr_left
  intro row _
  rw [Function.comp_apply, Function.comp_apply]
  by_cases hsame : row.id = topic
  · rw [if_pos hsame, if_pos (show row.pointer.1 = topic from hsame)]
    rfl
  · rw [if_neg hsame, if_neg (show row.pointer.1 ≠ topic from hsame)]

theorem ids_pointAt (topic : TopicId) (state : Option TopicState) (store : Store) :
    (pointAt topic state store).pointers.map Prod.fst = store.pointers.map Prod.fst := by
  rw [pointers_pointAt, List.map_map]
  apply List.map_congr_left
  intro pointer _
  simp only [Function.comp_apply]
  split
  · rfl
  · rfl

theorem statesOf_append (store second : Store) (state : TopicState)
    (hstates : second.states = store.states ++ [state]) (topic : TopicId) :
    second.statesOf topic =
      if state.topicId = topic then store.statesOf topic ++ [state]
      else store.statesOf topic := by
  unfold Store.statesOf
  rw [hstates, List.filter_append]
  by_cases hsame : state.topicId = topic
  · simp [hsame]
  · simp [hsame]

theorem newest_append {store second : Store} {state : TopicState}
    (hstates : second.states = store.states ++ [state])
    (hnumber : state.version = nextNumber TopicState.version (store.statesOf state.topicId))
    (hlive : state.deletedAt = none) : second.newest state.topicId = some state := by
  have hsurvives : [state].filter TopicState.survives = [state] := by
    simp [TopicState.survives, hlive]
  unfold Store.newest
  rw [statesOf_append store second state hstates, if_pos rfl, List.filter_append, hsurvives]
  apply argmax_append_greatest
  intro old hold
  rw [hnumber]
  exact number_lt_next (List.mem_of_mem_filter hold)

theorem kept_appended {first second : Store} {state : TopicState} (h : Kept first)
    (hnew : state.id ∉ first.states.map TopicState.id)
    (howner : state.topicId ∈ first.pointers.map Prod.fst)
    (hnumber : state.version = nextNumber TopicState.version (first.statesOf state.topicId))
    (hlive : state.deletedAt = none) (hstates : second.states = first.states ++ [state])
    (hpointers : second.pointers = first.pointers.map fun pointer =>
      if pointer.1 = state.topicId then (pointer.1, pointerTo (some state)) else pointer) :
    Kept second := by
  have hids : second.pointers.map Prod.fst = first.pointers.map Prod.fst := by
    rw [hpointers, List.map_map]
    apply List.map_congr_left
    intro pointer _
    simp only [Function.comp_apply]
    split
    · rfl
    · rfl
  constructor
  · rw [hids]
    exact h.topicsDistinct
  · rw [hstates, List.map_append, List.map_singleton, ← List.concat_eq_append]
    exact h.statesDistinct.concat hnew
  · intro other hmem
    rw [hids]
    rw [hstates] at hmem
    rcases List.mem_append.mp hmem with hold | happended
    · exact h.owned other hold
    · rw [List.mem_singleton.mp happended]
      exact howner
  · intro pointer hmem
    rw [hpointers] at hmem
    rcases List.mem_map.mp hmem with ⟨old, hold, rfl⟩
    by_cases hsame : old.1 = state.topicId
    · simp only [if_pos hsame]
      rw [hsame, newest_append hstates hnumber hlive]
    · simp only [if_neg hsame]
      have hother : second.newest old.1 = first.newest old.1 := by
        unfold Store.newest
        rw [statesOf_append first second state hstates, if_neg fun heq => hsame heq.symm]
      rw [hother]
      exact h.pointed old hold
  · intro topic
    rw [statesOf_append first second state hstates]
    by_cases hsame : state.topicId = topic
    · rw [if_pos hsame]
      apply ascending_append (h.ascending topic)
      rw [hnumber, hsame]
    · rw [if_neg hsame]
      exact h.ascending topic

/-!
## States marked, and the ledger asked again
-/

def marked (now : Instant) (topic : TopicId) (picks : TopicState -> Bool)
    (state : TopicState) : TopicState :=
  if state.topicId = topic && picks state && state.survives then
    { state with deletedAt := some now }
  else
    state

theorem states_deleteStates (now : Instant) (topic : TopicId) (picks : TopicState -> Bool)
    (store : Store) :
    (deleteStates now topic picks store).states = store.states.map (marked now topic picks) :=
  rfl

theorem marked_same (now : Instant) (topic : TopicId) (picks : TopicState -> Bool)
    (state : TopicState) :
    (marked now topic picks state).id = state.id ∧
      (marked now topic picks state).topicId = state.topicId ∧
        (marked now topic picks state).version = state.version := by
  unfold marked
  split
  · exact ⟨rfl, rfl, rfl⟩
  · exact ⟨rfl, rfl, rfl⟩

theorem marked_other {now : Instant} {topic : TopicId} {picks : TopicState -> Bool}
    {state : TopicState} (h : state.topicId ≠ topic) : marked now topic picks state = state := by
  simp [marked, h]

theorem statesOf_deleteStates (now : Instant) (topic : TopicId) (picks : TopicState -> Bool)
    (store : Store) (other : TopicId) :
    (deleteStates now topic picks store).statesOf other =
      (store.statesOf other).map (marked now topic picks) := by
  unfold Store.statesOf
  rw [states_deleteStates, List.filter_map]
  congr 1
  apply List.filter_congr
  intro state _
  simp [(marked_same now topic picks state).2.1]

theorem newest_deleteStates_other {now : Instant} {topic other : TopicId}
    {picks : TopicState -> Bool} {store : Store} (h : other ≠ topic) :
    (deleteStates now topic picks store).newest other = store.newest other := by
  have hsame : (deleteStates now topic picks store).statesOf other = store.statesOf other := by
    rw [statesOf_deleteStates]
    calc
      (store.statesOf other).map (marked now topic picks) = (store.statesOf other).map id := by
        apply List.map_congr_left
        intro state hmem
        have howner : state.topicId = other := by simpa using (List.mem_filter.mp hmem).2
        exact marked_other (by rw [howner]; exact h)
      _ = store.statesOf other := List.map_id _
  unfold Store.newest
  rw [hsame]

theorem newest_deleteStates_all (now : Instant) (topic : TopicId) (store : Store) :
    (deleteStates now topic (fun _ => true) store).newest topic = none := by
  unfold Store.newest
  rw [statesOf_deleteStates, List.argmax_eq_none, List.filter_eq_nil_iff]
  intro state hmem
  rcases List.mem_map.mp hmem with ⟨old, hold, rfl⟩
  have howner : old.topicId = topic := by simpa using (List.mem_filter.mp hold).2
  unfold marked
  cases hlive : old.survives with
  | false => simp [hlive]
  | true => simp [howner, TopicState.survives]

theorem kept_deleted (now : Instant) (topic : TopicId) (picks : TopicState -> Bool)
    {store : Store} (h : Kept store) :
    Kept (pointAt topic ((deleteStates now topic picks store).newest topic)
      (deleteStates now topic picks store)) := by
  have hpointers : (deleteStates now topic picks store).pointers = store.pointers := rfl
  constructor
  · rw [ids_pointAt, hpointers]
    exact h.topicsDistinct
  · show ((store.states.map (marked now topic picks)).map TopicState.id).Nodup
    rw [List.map_map]
    have hids : TopicState.id ∘ marked now topic picks = TopicState.id := by
      funext state
      exact (marked_same now topic picks state).1
    rw [hids]
    exact h.statesDistinct
  · intro state hmem
    rcases List.mem_map.mp hmem with ⟨old, hold, hmarked⟩
    have howner : state.topicId = old.topicId := by
      rw [← hmarked]
      exact (marked_same now topic picks old).2.1
    rw [ids_pointAt, hpointers, howner]
    exact h.owned old hold
  · intro pointer hmem
    rw [pointers_pointAt, hpointers] at hmem
    rcases List.mem_map.mp hmem with ⟨old, hold, rfl⟩
    show _ = pointerTo ((deleteStates now topic picks store).newest _)
    by_cases hsame : old.1 = topic
    · rw [if_pos hsame, hsame]
    · rw [if_neg hsame, newest_deleteStates_other hsame]
      exact h.pointed old hold
  · intro other
    show Ascending TopicState.version ((deleteStates now topic picks store).statesOf other)
    rw [statesOf_deleteStates]
    exact ascending_map (fun state => (marked_same now topic picks state).2.2)
      (h.ascending other)

theorem kept_softDelete (now : Instant) (topic : TopicId) (version : Nat) {store : Store}
    (h : Kept store) : Kept (softDeleteTopicState now topic version store).1 := by
  unfold softDeleteTopicState
  simp only
  split
  · exact kept_deleted now topic _ h
  · exact h

theorem kept_retire (now : Instant) (project : ProjectId) (topic : TopicId)
    (jobs : IndexJobId × IndexJobId) {store : Store} (h : Kept store) :
    Kept (retireTopic now project topic jobs store).1 := by
  unfold retireTopic
  split
  · have hdeleted := kept_deleted now topic (fun _ => true) h
    rw [newest_deleteStates_all] at hdeleted
    exact kept_congr hdeleted rfl rfl
  · exact h

theorem kept_retireSection (now : Instant) (project : ProjectId) (topic : String)
    (seen : TopicStateId) (jobs : IndexJobId × IndexJobId) {store : Store} (h : Kept store) :
    Kept (retireSection now project topic seen jobs store).1 := by
  unfold retireSection
  cases lockTopic topic store with
  | none => exact h
  | some locked =>
      cases hcurrent : locked.current with
      | none => simpa [hcurrent] using h
      | some current =>
          simp only [hcurrent]
          split
          · exact h
          · split
            · exact h
            · exact kept_retire now project locked.topic jobs h

/-!
## Names leave the pointers alone
-/

theorem kept_rename (now : Instant) (project : ProjectId) (topic : TopicId)
    (names locators : String × String) (job : IndexJobId) {store : Store} (h : Kept store) :
    Kept (renameTopic now project topic names locators job store).1 := by
  unfold renameTopic
  split
  · exact h
  · apply kept_congr h
    · rfl
    · unfold Store.pointers
      simp only [List.map_map]
      apply List.map_congr_left
      intro row _
      simp only [Function.comp_apply]
      split
      · rfl
      · rfl

theorem kept_renameSection (now : Instant) (project : ProjectId) (names : String × String)
    (seen : TopicStateId) (job : IndexJobId) {store : Store} (h : Kept store) :
    Kept (renameSection now project names seen job store).1 := by
  unfold renameSection
  cases lockTopic names.1 store with
  | none => exact h
  | some locked =>
      simp only
      split
      · exact h
      · exact kept_rename now project locked.topic names _ job h

end Topics
end PaminMemory
