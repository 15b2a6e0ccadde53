import PaminMemory.Cascade.Names
import PaminMemory.Foundation.Extremes
import PaminMemory.Foundation.Firsts
import PaminMemory.Search.Fused
import PaminMemory.Searching.Hopping
import PaminMemory.Searching.Resolving

/-!
# What a search gathers

The index channels are recalled and resolved, the graph is walked from what they found and
from what the query names, and all of it is fused.  What a search asks of the ledger it asks
in several statements; each reads the ledger of its own moment or fails, and a statement that
has nothing to ask about is not asked.
-/

namespace PaminMemory
namespace Searching

open Foundation
open Topics (Store Grounded)
open Cascade (Token runsOfTokens)
open Search (Channel ChannelResults Scored Fusion FusedResult Why topics_fuse nodup_topics_fuse)
open Walking (Neighbor Score)

def MAX_SEEDS : Nat := 64

structure Depths where
  channel : Nat
  graph : Nat
  rerank : Nat
  recalls : 0 < channel
  reranks : 0 < rerank

structure Arithmetic where
  /-- What a rank is worth under a fusion's constant: `(k + 1) / (k + rank)`. -/
  rankWorth : Rat -> Nat -> Binary32
  pathStrength : Binary32 -> Nat -> Binary32
  times : Binary32 -> Binary32 -> Binary32
  exact : Binary32 -> Rat
  rounded : Rat -> Binary32

/-- What each statement of a search reads, or how it fails; rows that no order tells apart come in
any order. -/
structure Reads where
  /-- The connection every statement up to the parents' runs on. -/
  connection : Except String Unit
  candidates : Except String Store
  widest : Except String Nat
  names : Except String Store
  named : List TopicId -> List TopicId
  namedPerm : forall topics, (named topics).Perm topics
  unresolved : Except String Store
  walked : Nat -> HopReads
  again : Nat -> HopReads
  reached : Except String Store
  unnamed : Except String Store
  targets : Except String Graph.Ledger
  rows : List (TopicId × TopicId) -> List (TopicId × TopicId)
  rowsPerm : forall pairs, (rows pairs).Perm pairs
  parents : Except String Store

def Reads.stores (reads : Reads) : List Store :=
  [reads.candidates, reads.unresolved, reads.reached].filterMap Except.toOption

inductive Reads.Fails (reads : Reads) (error : String) : Prop where
  | connection (fails : reads.connection = Except.error error)
  | candidates (fails : reads.candidates = Except.error error)
  | widest (fails : reads.widest = Except.error error)
  | names (fails : reads.names = Except.error error)
  | unresolved (fails : reads.unresolved = Except.error error)
  | walked (fails : HopsFail reads.walked error)
  | again (fails : HopsFail reads.again error)
  | reached (fails : reads.reached = Except.error error)
  | unnamed (fails : reads.unnamed = Except.error error)
  | targets (fails : reads.targets = Except.error error)
  | parents (fails : reads.parents = Except.error error)

/-- What a statement answers of some things; of none it is not asked. -/
def asked {source thing row : Type} (answer : source -> List thing -> List row)
    (read : Except String source) (things : List thing) : Except String (List row) :=
  if things = [] then
    Except.ok []
  else
    read.map fun source => answer source things

section Asked

variable {source thing row : Type} {answer : source -> List thing -> List row}
  {read : Except String source} {things : List thing} {rows : List row}

theorem asked_row (h : asked answer read things = Except.ok rows) {one : row} (hone : one ∈ rows) :
    exists source, read = Except.ok source ∧ rows = answer source things := by
  unfold asked at h
  split at h
  · cases h
    cases hone
  · cases hread : read with
    | error error =>
        rw [hread] at h
        cases h
    | ok source =>
        rw [hread] at h
        cases h
        exact ⟨source, rfl, rfl⟩

theorem asked_of_read {source : source} {one : thing}
    (h : asked answer read things = Except.ok rows) (hread : read = Except.ok source)
    (hone : one ∈ things) : rows = answer source things := by
  unfold asked at h
  rw [if_neg (List.ne_nil_of_mem hone), hread] at h
  exact (Except.ok.inj h).symm

end Asked

def bestFirst (lists : List ChannelResults) : List TopicId :=
  let deepest := (lists.map fun list => list.candidates.length).foldl max 0
  firsts id ∅ ((List.range deepest).flatMap fun rank =>
    lists.filterMap fun list => list.candidates[rank]?.map Scored.topic)

def greater (held other : Binary32) : Binary32 :=
  if Binary32.AtMost held other then other else held

/-- What the graph channel found: its list, the path to each of it, and what is resolved now. -/
structure Recalled where
  list : ChannelResults
  paths : AList fun _ : TopicId => Neighbor
  working : WorkingSet

structure Fused where
  results : List FusedResult
  live : WorkingSet
  paths : AList fun _ : TopicId => Neighbor

section Searches

variable (arithmetic : Arithmetic) (nameSequence : String -> List Token)
  (spelled : TopicId -> String) (depths : Depths) (fusion : Fusion) (reads : Reads)
  (query : String)

def seedRelevance (named : List TopicId) (lists : List ChannelResults) :
    AList fun _ : TopicId => Binary32 :=
  let ranked := lists.foldl (fun relevance list =>
    list.candidates.zipIdx.foldl (fun relevance entry =>
      let worth := arithmetic.rankWorth fusion.k (entry.2 + 1)
      relevance.insert entry.1.topic
        (match relevance.lookup entry.1.topic with
          | some held => greater held worth
          | none => worth)) relevance) ∅
  named.foldl (fun relevance topic => relevance.insert topic Binary32.one) ranked

/-- What an arrival is worth to a query: its path's strength times its seed's relevance. -/
def worth (relevance : AList fun _ : TopicId => Binary32) : Score := fun confidence hops origin =>
  arithmetic.times (arithmetic.pathStrength confidence hops)
    ((relevance.lookup origin).getD Binary32.zero)

def namedBy : Except String (List TopicId) := do
  let widest <- reads.widest
  let topics <- asked topicsNamedBy reads.names (runsOfTokens (nameSequence query) widest)
  Except.ok (reads.named topics)

/-- What a walk starts from: what the query names, then what the channels ranked. -/
def seeds (working : WorkingSet) (named ranked : List TopicId) : List TopicId :=
  (firsts id ∅ ((named ++ ranked).filter fun topic => (working.state topic).isSome)).take
    MAX_SEEDS

def withNamed (named : List TopicId) (working : WorkingSet) : Except String WorkingSet := do
  let states <- asked currentStatesNamed reads.unresolved
    (named.filter fun topic => (working.state topic).isNone)
  Except.ok (working.add states)

def arrivals (named ranked : List TopicId) (lists : List ChannelResults) (working : WorkingSet) :
    Except String (List Neighbor) :=
  neighborsOver reads.walked reads.again depths.graph depths.channel (seeds working named ranked)
    (worth arithmetic (seedRelevance arithmetic fusion named lists))

/-- The graph channel, of what the walk reached and what of it stands for something. -/
def recalledOf (score : Score) (neighbors : List Neighbor) (states : List (String × Said))
    (working : WorkingSet) : Recalled :=
  let resolved := neighbors.filter fun neighbor =>
    neighbor.topic ∈ states.map fun row => row.2.state.topicId
  { list :=
      { channel := Channel.graph
        candidates := resolved.map fun neighbor =>
          { topic := neighbor.topic, score := some (arithmetic.exact (score.rate neighbor))
            span := 0 } }
    paths := resolved.foldl (fun paths neighbor => paths.insert neighbor.topic neighbor) ∅
    working := working.add states }

def recallGraph (ranked : List TopicId) (lists : List ChannelResults) (working : WorkingSet) :
    Except String Recalled := do
  let named <- namedBy nameSequence reads query
  let working <- withNamed reads named working
  let neighbors <- arrivals arithmetic depths fusion reads named ranked lists working
  let states <- asked currentStatesNamed reads.reached (neighbors.map Neighbor.topic)
  Except.ok (recalledOf arithmetic (worth arithmetic (seedRelevance arithmetic fusion named lists))
    neighbors states working)

def explained (live : WorkingSet) (paths : AList fun _ : TopicId => Neighbor)
    (result : FusedResult) : FusedResult :=
  match paths.lookup result.topic with
  | none => result
  | some reached =>
      { result with
        why := result.why ++
          [Why.path (live.topicName spelled reached.origin) (live.topicName spelled reached.via)
            reached.hops] }

def Recalled.unnamed (graph : Recalled) : List TopicId :=
  (graph.paths.entries.map fun entry => entry.2.via).filter fun via =>
    (graph.working.names.lookup via).isNone

def fusedWith (lists : List ChannelResults) (graph : Recalled)
    (rows : List (TopicId × String × Option TopicStateId)) : Fused :=
  let live := graph.working.name rows
  let kept := (fusion.fuse (lists ++ [graph.list])).filter fun result =>
    (live.state result.topic).isSome
  { results := kept.map (explained spelled live graph.paths), live := live, paths := graph.paths }

def fused (lists : List ChannelResults) : Except String Fused := do
  reads.connection
  let first <- asked currentStatesNamed reads.candidates (bestFirst lists)
  let graph <- recallGraph arithmetic nameSequence depths fusion reads query (bestFirst lists) lists
    (WorkingSet.empty.add first)
  let rows <- asked topicsById reads.unnamed graph.unnamed
  Except.ok (fusedWith spelled fusion lists graph rows)

end Searches

/-!
## The course of a search
-/

structure Course where
  first : List (String × Said)
  named : List TopicId
  working : WorkingSet
  neighbors : List Neighbor
  states : List (String × Said)
  rows : List (TopicId × String × Option TopicStateId)

section Courses

variable (arithmetic : Arithmetic) (nameSequence : String -> List Token)
  (spelled : TopicId -> String) (depths : Depths) (fusion : Fusion) (reads : Reads)
  (query : String) (lists : List ChannelResults)

def Course.graph (course : Course) : Recalled :=
  recalledOf arithmetic (worth arithmetic (seedRelevance arithmetic fusion course.named lists))
    course.neighbors course.states course.working

structure Took (course : Course) (made : Fused) : Prop where
  first : asked currentStatesNamed reads.candidates (bestFirst lists) = Except.ok course.first
  named : namedBy nameSequence reads query = Except.ok course.named
  working : withNamed reads course.named (WorkingSet.empty.add course.first) =
    Except.ok course.working
  neighbors : arrivals arithmetic depths fusion reads course.named (bestFirst lists) lists
    course.working = Except.ok course.neighbors
  states : asked currentStatesNamed reads.reached (course.neighbors.map Neighbor.topic) =
    Except.ok course.states
  rows : asked topicsById reads.unnamed (course.graph arithmetic fusion lists).unnamed =
    Except.ok course.rows
  made : made = fusedWith spelled fusion lists (course.graph arithmetic fusion lists) course.rows

variable {arithmetic nameSequence spelled depths fusion reads query lists}

theorem took_of_fused {made : Fused}
    (h : fused arithmetic nameSequence spelled depths fusion reads query lists = Except.ok made) :
    exists course, Took arithmetic nameSequence spelled depths fusion reads query lists course
      made := by
  rcases bind_eq_ok.mp h with ⟨_, _, hfirsts⟩
  rcases bind_eq_ok.mp hfirsts with ⟨first, hfirst, hgraphs⟩
  rcases bind_eq_ok.mp hgraphs with ⟨graph, hgraph, hrest⟩
  rcases bind_eq_ok.mp hrest with ⟨rows, hrows, hmade⟩
  rcases bind_eq_ok.mp hgraph with ⟨named, hnamed, hafter⟩
  rcases bind_eq_ok.mp hafter with ⟨working, hworking, hwalked⟩
  rcases bind_eq_ok.mp hwalked with ⟨neighbors, hneighbors, hresolved⟩
  rcases bind_eq_ok.mp hresolved with ⟨states, hstates, hrecalled⟩
  cases hrecalled
  cases hmade
  exact ⟨⟨first, named, working, neighbors, states, rows⟩,
    ⟨hfirst, hnamed, hworking, hneighbors, hstates, hrows, rfl⟩⟩

end Courses

/-!
## What is gathered stood
-/

section Gathered

variable {arithmetic : Arithmetic} {nameSequence : String -> List Token}
  {spelled : TopicId -> String} {depths : Depths} {fusion : Fusion} {reads : Reads}
  {query : String} {lists : List ChannelResults} {topic : TopicId} {course : Course} {made : Fused}

theorem mem_bestFirst : topic ∈ bestFirst lists <->
    exists list, list ∈ lists ∧ topic ∈ list.candidates.map Scored.topic := by
  unfold bestFirst
  have hkeys := @mem_keys_firsts TopicId TopicId _ id ∅
    ((List.range ((lists.map fun list => list.candidates.length).foldl max 0)).flatMap fun rank =>
      lists.filterMap fun list => list.candidates[rank]?.map Scored.topic) topic
  rw [List.map_id, List.map_id] at hkeys
  rw [hkeys, List.mem_flatMap]
  constructor
  · rintro ⟨⟨rank, _, hfound⟩, _⟩
    rcases List.mem_filterMap.mp hfound with ⟨list, hlist, hcandidate⟩
    rcases Option.map_eq_some_iff.mp hcandidate with ⟨candidate, hat, htopic⟩
    exact ⟨list, hlist, List.mem_map.mpr ⟨candidate, List.mem_of_getElem? hat, htopic⟩⟩
  · rintro ⟨list, hlist, hin⟩
    rcases List.mem_map.mp hin with ⟨candidate, hcandidate, htopic⟩
    rcases List.mem_iff_getElem?.mp hcandidate with ⟨rank, hat⟩
    refine ⟨⟨rank, ?_, ?_⟩, Finset.notMem_empty topic⟩
    · have hless := (List.getElem?_eq_some_iff.mp hat).1
      have hdeep : list.candidates.length <=
          (lists.map fun list => list.candidates.length).foldl max 0 :=
        le_foldl_max (List.mem_map_of_mem hlist)
      exact List.mem_range.mpr (Nat.lt_of_lt_of_le hless hdeep)
    · refine List.mem_filterMap.mpr ⟨list, hlist, ?_⟩
      rw [hat, Option.map_some, htopic]

theorem mem_stores {store : Store} : store ∈ reads.stores <->
    reads.candidates = Except.ok store ∨ reads.unresolved = Except.ok store ∨
      reads.reached = Except.ok store := by
  have hread : forall read : Except String Store, read.toOption = some store <->
      read = Except.ok store := by
    intro read
    cases read with
    | error error =>
        constructor
        · intro h
          cases h
        · intro h
          cases h
    | ok held =>
        constructor
        · intro h
          cases h
          rfl
        · intro h
          cases h
          rfl
  unfold Reads.stores
  simp only [List.mem_filterMap, List.mem_cons, List.not_mem_nil, or_false]
  constructor
  · rintro ⟨read, rfl | rfl | rfl, hstore⟩
    · exact Or.inl ((hread _).mp hstore)
    · exact Or.inr (Or.inl ((hread _).mp hstore))
    · exact Or.inr (Or.inr ((hread _).mp hstore))
  · rintro (hstore | hstore | hstore)
    · exact ⟨_, Or.inl rfl, (hread _).mpr hstore⟩
    · exact ⟨_, Or.inr (Or.inl rfl), (hread _).mpr hstore⟩
    · exact ⟨_, Or.inr (Or.inr rfl), (hread _).mpr hstore⟩

theorem told_asked {working : WorkingSet} {read : Except String Store} {topics : List TopicId}
    {states : List (String × Said)} (h : Told reads.stores working)
    (hgrounded : forall store, store ∈ reads.stores -> Grounded store)
    (hstores : forall store, read = Except.ok store -> store ∈ reads.stores)
    (hasked : asked currentStatesNamed read topics = Except.ok states) :
    Told reads.stores (working.add states) := by
  cases states with
  | nil => exact h
  | cons first rest =>
      rcases asked_row hasked (List.mem_cons_self ..) with ⟨store, hread, hrows⟩
      rw [hrows]
      exact told_add h (hstores store hread) (hgrounded store (hstores store hread)) topics

section Taken

variable (h : Took arithmetic nameSequence spelled depths fusion reads query lists course made)
include h

theorem working_eq : exists states,
    asked currentStatesNamed reads.unresolved
        (course.named.filter fun topic =>
          ((WorkingSet.empty.add course.first).state topic).isNone) = Except.ok states ∧
      course.working = (WorkingSet.empty.add course.first).add states := by
  rcases bind_eq_ok.mp h.working with ⟨states, hstates, hworking⟩
  exact ⟨states, hstates, (Except.ok.inj hworking).symm⟩

theorem told_graph (hgrounded : forall store, store ∈ reads.stores -> Grounded store) :
    Told reads.stores (course.graph arithmetic fusion lists).working := by
  rcases working_eq h with ⟨states, hstates, hworking⟩
  have hfirst : Told reads.stores (WorkingSet.empty.add course.first) :=
    told_asked told_empty hgrounded (fun store hread => mem_stores.mpr (Or.inl hread)) h.first
  have hnamed : Told reads.stores course.working := by
    rw [hworking]
    exact told_asked hfirst hgrounded
      (fun store hread => mem_stores.mpr (Or.inr (Or.inl hread))) hstates
  exact told_asked hnamed hgrounded
    (fun store hread => mem_stores.mpr (Or.inr (Or.inr hread))) h.states

theorem held_of_candidate {store : Store} (hread : reads.candidates = Except.ok store)
    (hgrounded : Grounded store) (hstands : Stands store topic) (htopic : topic ∈ bestFirst lists) :
    ((course.graph arithmetic fusion lists).working.state topic).isSome = true := by
  rcases working_eq h with ⟨states, _, hworking⟩
  have hfirst : ((WorkingSet.empty.add course.first).state topic).isSome = true := by
    rw [asked_of_read h.first hread htopic]
    exact state_add.mpr (Or.inr (resolved_of_stands hgrounded hstands htopic))
  apply state_add.mpr
  rw [hworking]
  exact Or.inl (state_add.mpr (Or.inl hfirst))

theorem graph_of_arrival {store : Store} (hread : reads.reached = Except.ok store)
    (hgrounded : Grounded store) (hstands : Stands store topic)
    (htopic : topic ∈ course.neighbors.map Neighbor.topic) :
    topic ∈ (course.graph arithmetic fusion lists).list.candidates.map Scored.topic ∧
      ((course.graph arithmetic fusion lists).working.state topic).isSome = true := by
  rcases resolved_of_stands hgrounded hstands htopic with ⟨entry, hentry, hsame⟩
  rw [← asked_of_read h.states hread htopic] at hentry
  constructor
  · rcases List.mem_map.mp htopic with ⟨neighbor, hneighbor, hof⟩
    unfold Course.graph recalledOf
    rw [List.map_map]
    refine List.mem_map.mpr ⟨neighbor, List.mem_filter.mpr ⟨hneighbor, ?_⟩, hof⟩
    rw [hof]
    exact decide_eq_true (List.mem_map.mpr ⟨entry, hentry, hsame⟩)
  · exact state_add.mpr (Or.inr ⟨entry, hentry, hsame⟩)

end Taken

theorem topic_explained (live : WorkingSet) (paths : AList fun _ : TopicId => Neighbor)
    (result : FusedResult) : (explained spelled live paths result).topic = result.topic := by
  unfold explained
  split
  · rfl
  · rfl

section Results

variable (h : Took arithmetic nameSequence spelled depths fusion reads query lists course made)
include h

theorem topics_fused : made.results.map FusedResult.topic =
    ((fusion.fuse (lists ++ [(course.graph arithmetic fusion lists).list])).map
      FusedResult.topic).filter fun topic => (made.live.state topic).isSome := by
  rw [List.filter_map, h.made]
  unfold fusedWith
  dsimp only
  rw [List.map_map]
  apply List.map_congr_left
  intro result _
  exact topic_explained _ _ result

theorem nodup_fused : (made.results.map FusedResult.topic).Nodup := by
  rw [topics_fused h]
  exact (nodup_topics_fuse fusion _).filter _

theorem told_fused (hgrounded : forall store, store ∈ reads.stores -> Grounded store) :
    Told reads.stores made.live := by
  have hgraph := told_graph h hgrounded
  rw [h.made]
  apply told_name hgraph
  intro row hrow
  rcases asked_row h.rows hrow with ⟨store, _, hrows⟩
  rw [hrows] at hrow
  unfold topicsById at hrow
  rcases List.mem_map.mp hrow with ⟨stored, hstored, rfl⟩
  have hunnamed := (List.mem_filter.mp (of_decide_eq_true (List.mem_filter.mp hstored).2)).2
  -- what is held has a name, and this topic has none
  apply Option.eq_none_iff_forall_not_mem.mpr
  intro said hsaid
  rcases hgraph _ said hsaid with ⟨_, name, _, hname, _⟩
  rw [hname] at hunnamed
  cases hunnamed

theorem recalled_of_result (htopic : topic ∈ made.results.map FusedResult.topic) :
    (exists list, list ∈ lists ++ [(course.graph arithmetic fusion lists).list] ∧
      fusion.weight list.channel ≠ 0 ∧ topic ∈ list.candidates.map Scored.topic) ∧
    (made.live.state topic).isSome = true := by
  rw [topics_fused h] at htopic
  rcases List.mem_filter.mp htopic with ⟨hfused, hlive⟩
  exact ⟨topics_fuse.mp hfused, hlive⟩

theorem result_of_recalled {list : ChannelResults}
    (hlist : list ∈ lists ++ [(course.graph arithmetic fusion lists).list])
    (hweight : fusion.weight list.channel ≠ 0) (htopic : topic ∈ list.candidates.map Scored.topic)
    (hheld : ((course.graph arithmetic fusion lists).working.state topic).isSome = true) :
    topic ∈ made.results.map FusedResult.topic := by
  rw [topics_fused h]
  refine List.mem_filter.mpr ⟨topics_fuse.mpr ⟨list, hlist, hweight, htopic⟩, ?_⟩
  rw [h.made]
  exact hheld

theorem result_of_index {store : Store} (hread : reads.candidates = Except.ok store)
    (hgrounded : Grounded store) {list : ChannelResults} (hlist : list ∈ lists)
    (hweight : fusion.weight list.channel ≠ 0) (htopic : topic ∈ list.candidates.map Scored.topic)
    (hstands : Stands store topic) : topic ∈ made.results.map FusedResult.topic :=
  result_of_recalled h (List.mem_append_left _ hlist) hweight htopic
    (held_of_candidate h hread hgrounded hstands (mem_bestFirst.mpr ⟨list, hlist, htopic⟩))

theorem result_of_graph {store : Store} (hread : reads.reached = Except.ok store)
    (hgrounded : Grounded store) (hweight : fusion.weight Channel.graph ≠ 0)
    (htopic : topic ∈ course.neighbors.map Neighbor.topic) (hstands : Stands store topic) :
    topic ∈ made.results.map FusedResult.topic := by
  rcases graph_of_arrival h hread hgrounded hstands htopic with ⟨hgraph, hheld⟩
  exact result_of_recalled h (List.mem_append_right _ (List.mem_singleton_self _)) hweight hgraph
    hheld

end Results

end Gathered

end Searching
end PaminMemory
