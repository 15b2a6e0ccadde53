import PaminMemory.Topics.Saying
import Mathlib.Data.List.AList

/-!
# What a search resolves

The index names topics, and only the ledger knows what each says now.  A search asks it in
several statements, and others write between them.
-/

namespace PaminMemory
namespace Searching

open Foundation
open Topics

structure Said where
  state : TopicState
  content : String
deriving DecidableEq, Repr

section Statements

variable (store : Store)

def resolve (topic : Topic) : Option (String × Said) := do
  let id <- topic.currentStateId
  let state <- store.states.find? fun state => state.id = id
  let content <- store.contentOf state
  some (topic.name, { state := state, content := content })

def currentStatesNamed (topics : List TopicId) : List (String × Said) :=
  (store.topics.filter fun topic => topic.id ∈ topics).filterMap (resolve store)

def topicsById (topics : List TopicId) : List (TopicId × String × Option TopicStateId) :=
  (store.topics.filter fun topic => topic.id ∈ topics).map fun topic =>
    (topic.id, topic.name, topic.currentStateId)

def topicsNamedBy (runs : List String) : List TopicId :=
  (store.names.filter fun row => row.nameKey ∈ runs).map TopicName.topicId

end Statements

structure WorkingSet where
  current : AList fun _ : TopicId => Said
  names : AList fun _ : TopicId => String

namespace WorkingSet

def empty : WorkingSet := { current := ∅, names := ∅ }

def put (working : WorkingSet) (row : String × Said) : WorkingSet :=
  { current := working.current.insert row.2.state.topicId row.2
    names := working.names.insert row.2.state.topicId row.1 }

def add (working : WorkingSet) (states : List (String × Said)) : WorkingSet :=
  states.foldl put working

def name (working : WorkingSet) (topics : List (TopicId × String × Option TopicStateId)) :
    WorkingSet :=
  { working with
    names := topics.foldl (fun names row => names.insert row.1 row.2.1) working.names }

def state (working : WorkingSet) (topic : TopicId) : Option Said := working.current.lookup topic

def topicName (working : WorkingSet) (spelled : TopicId -> String) (topic : TopicId) : String :=
  (working.names.lookup topic).getD (spelled topic)

end WorkingSet

/-!
## What a topic stands for
-/

/-- What the ledger says of a topic: its name, and its newest surviving state with its text. -/
structure Stood (store : Store) (topic : TopicId) (name : String) (said : Said) : Prop where
  named : exists row, row ∈ store.topics ∧ row.id = topic ∧ row.name = name ∧
    row.currentStateId = some said.state.id
  stored : said.state ∈ store.states
  own : said.state.topicId = topic
  live : said.state.deletedAt = none
  newest : forall other, other ∈ store.states -> other.topicId = topic ->
    other.deletedAt = none -> other.version <= said.state.version
  text : store.contentOf said.state = some said.content

def Stands (store : Store) (topic : TopicId) : Prop :=
  exists state, state ∈ store.states ∧ state.topicId = topic ∧ state.deletedAt = none

section Resolving

variable {store : Store} {topic : TopicId} {topics : List TopicId} {row : Topic} {name : String}
  {said : Said}

theorem stood_of_resolve (h : Grounded store) (hmem : row ∈ store.topics)
    (hresolve : resolve store row = some (name, said)) : Stood store row.id name said := by
  have hpoints := pointsAtNewest_of_kept h.kept hmem
  unfold resolve at hresolve
  rcases Option.bind_eq_some_iff.mp hresolve with ⟨id, hid, hrest⟩
  rcases Option.bind_eq_some_iff.mp hrest with ⟨state, hfound, hlast⟩
  rcases Option.bind_eq_some_iff.mp hlast with ⟨content, hcontent, hsaid⟩
  cases hsaid
  unfold PointsAtNewest at hpoints
  rw [hid] at hpoints
  rcases hpoints with ⟨newest, hstate, hname, howner, hlive, _, hgreatest⟩
  have hsame : (store.states.find? fun other => other.id = id) = some newest := by
    rw [← hname]
    exact find_state h.kept hstate
  rw [hfound] at hsame
  cases hsame
  exact
    { named := ⟨row, hmem, rfl, rfl, by rw [hid, hname]⟩
      stored := hstate
      own := howner
      live := hlive
      newest := hgreatest
      text := hcontent }

theorem stood_of_mem (h : Grounded store) {entry : String × Said}
    (hmem : entry ∈ currentStatesNamed store topics) :
    entry.2.state.topicId ∈ topics ∧
      Stood store entry.2.state.topicId entry.1 entry.2 := by
  unfold currentStatesNamed at hmem
  rcases List.mem_filterMap.mp hmem with ⟨row, hrow, hresolve⟩
  rcases List.mem_filter.mp hrow with ⟨hstored, hasked⟩
  have hstood := stood_of_resolve h hstored hresolve
  rw [hstood.own]
  exact ⟨of_decide_eq_true hasked, hstood⟩

theorem resolved_of_stands (h : Grounded store) (hstands : Stands store topic)
    (hasked : topic ∈ topics) :
    exists entry, entry ∈ currentStatesNamed store topics ∧ entry.2.state.topicId = topic := by
  rcases hstands with ⟨state, hstate, howner, hlive⟩
  have hheld := h.kept.owned state hstate
  unfold Store.pointers at hheld
  rw [List.map_map] at hheld
  rcases List.mem_map.mp hheld with ⟨row, hrow, hid⟩
  have hrowid : row.id = topic := hid.trans howner
  have hpoints := pointsAtNewest_of_kept h.kept hrow
  unfold PointsAtNewest at hpoints
  cases hcurrent : row.currentStateId with
  | none =>
      rw [hcurrent] at hpoints
      exact absurd hlive (hpoints.2 state hstate (howner.trans hrowid.symm))
  | some id =>
      rw [hcurrent] at hpoints
      rcases hpoints with ⟨newest, hnewest, hname, hown, _, _, _⟩
      rcases h.texts newest hnewest with ⟨content, hcontent⟩
      have hresolve : resolve store row =
          some (row.name, { state := newest, content := content }) := by
        unfold resolve
        rw [hcurrent, ← hname]
        simp only [Option.bind_eq_bind, Option.bind_some, find_state h.kept hnewest, hcontent]
      refine ⟨(row.name, { state := newest, content := content }), ?_, hown.trans hrowid⟩
      unfold currentStatesNamed
      refine List.mem_filterMap.mpr ⟨row, List.mem_filter.mpr ⟨hrow, ?_⟩, hresolve⟩
      rw [hrowid]
      exact decide_eq_true hasked

end Resolving

/-!
## What a working set holds
-/

/-- Every state held is one its topic stood for at one of these moments, under its name. -/
def Told (stores : List Store) (working : WorkingSet) : Prop :=
  forall topic said, working.state topic = some said ->
    exists store name, store ∈ stores ∧ working.names.lookup topic = some name ∧
      Stood store topic name said

section Working

variable {stores : List Store} {working : WorkingSet} {topic : TopicId}

theorem told_empty : Told stores WorkingSet.empty := by
  intro topic said hsaid
  cases hsaid

theorem told_put {store : Store} {row : String × Said} (h : Told stores working)
    (hstore : store ∈ stores) (hstood : Stood store row.2.state.topicId row.1 row.2) :
    Told stores (working.put row) := by
  intro topic said hsaid
  unfold WorkingSet.state WorkingSet.put at hsaid
  unfold WorkingSet.put
  by_cases hsame : topic = row.2.state.topicId
  · rw [hsame, AList.lookup_insert] at hsaid
    cases hsaid
    rw [hsame, AList.lookup_insert]
    exact ⟨store, row.1, hstore, rfl, hstood⟩
  · rw [AList.lookup_insert_ne hsame] at hsaid ⊢
    exact h topic said hsaid

theorem told_add {store : Store} (h : Told stores working) (hstore : store ∈ stores)
    (hgrounded : Grounded store) (topics : List TopicId) :
    Told stores (working.add (currentStatesNamed store topics)) := by
  have hall : forall rows : List (String × Said),
      (forall row, row ∈ rows -> Stood store row.2.state.topicId row.1 row.2) ->
        forall working, Told stores working -> Told stores (working.add rows) := by
    intro rows
    induction rows with
    | nil => exact fun _ _ h => h
    | cons first rest ih =>
        intro hrows working h
        exact ih (fun row hrow => hrows row (List.mem_cons_of_mem _ hrow)) _
          (told_put h hstore (hrows first (List.mem_cons_self ..)))
  exact hall _ (fun row hrow => (stood_of_mem hgrounded hrow).2) working h

theorem told_name {topics : List (TopicId × String × Option TopicStateId)}
    (h : Told stores working) (hnew : forall row, row ∈ topics -> working.state row.1 = none) :
    Told stores (working.name topics) := by
  have hother : forall (names : AList fun _ : TopicId => String) (topic : TopicId),
      (forall row, row ∈ topics -> row.1 ≠ topic) ->
        (topics.foldl (fun names row => names.insert row.1 row.2.1) names).lookup topic =
          names.lookup topic := by
    intro names topic hnone
    clear hnew
    induction topics generalizing names with
    | nil => rfl
    | cons first rest ih =>
        rw [List.foldl_cons, ih _ fun row hrow => hnone row (List.mem_cons_of_mem _ hrow)]
        exact AList.lookup_insert_ne (hnone first (List.mem_cons_self ..)).symm
  intro topic said hsaid
  rcases h topic said hsaid with ⟨store, name, hstore, hname, hstood⟩
  refine ⟨store, name, hstore, ?_, hstood⟩
  unfold WorkingSet.name
  dsimp only
  rw [hother working.names topic]
  · exact hname
  · rintro row hrow rfl
    have hnone := hnew row hrow
    unfold WorkingSet.state at hnone
    unfold WorkingSet.state WorkingSet.name at hsaid
    rw [hnone] at hsaid
    cases hsaid

theorem state_add {rows : List (String × Said)} :
    ((working.add rows).state topic).isSome = true <->
      (working.state topic).isSome = true ∨
        exists row, row ∈ rows ∧ row.2.state.topicId = topic := by
  induction rows generalizing working with
  | nil =>
      constructor
      · exact Or.inl
      · rintro (hheld | ⟨row, hrow, _⟩)
        · exact hheld
        · cases hrow
  | cons first rest ih =>
      have hput : ((working.put first).state topic).isSome = true <->
          first.2.state.topicId = topic ∨ (working.state topic).isSome = true := by
        unfold WorkingSet.state WorkingSet.put
        by_cases hsame : topic = first.2.state.topicId
        · rw [hsame, AList.lookup_insert]
          exact ⟨fun _ => Or.inl rfl, fun _ => rfl⟩
        · rw [AList.lookup_insert_ne hsame]
          exact ⟨Or.inr, fun h => h.resolve_left fun heq => hsame heq.symm⟩
      change ((WorkingSet.add (working.put first) rest).state topic).isSome = true <-> _
      rw [ih, hput]
      constructor
      · rintro ((hsame | hheld) | ⟨row, hrow, hrowof⟩)
        · exact Or.inr ⟨first, List.mem_cons_self .., hsame⟩
        · exact Or.inl hheld
        · exact Or.inr ⟨row, List.mem_cons_of_mem _ hrow, hrowof⟩
      · rintro (hheld | ⟨row, hrow, hrowof⟩)
        · exact Or.inl (Or.inr hheld)
        · rcases List.mem_cons.mp hrow with rfl | hrest
          · exact Or.inl (Or.inl hrowof)
          · exact Or.inr ⟨row, hrest, hrowof⟩

end Working

end Searching
end PaminMemory
