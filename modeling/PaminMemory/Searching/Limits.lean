import PaminMemory.Searching.Showing

/-!
# How many hits are asked for

Asking for more hits adds to the end of those given, and asking for enough gives every topic
the channels found that stood: what the limit leaves unseen is not reranked, and that changes
nothing a caller sees.
-/

namespace PaminMemory
namespace Searching

open Foundation
open Topics (Store Grounded)
open Reranking (Reliable Reranker Text rank)
open Search (Channel ChannelResults FusedResult Scored canBeSeen)
open Walking (Neighbor)

def Outcome.cutTo (limit : Nat) : Outcome -> Outcome
  | failed error => failed error
  | panicked => panicked
  | exhausted => exhausted
  | found hits => found (hits.take limit)

section Limits

variable {strength model backend encoding : Type}
  {searcher : Searcher strength model backend encoding} {fused : Fused} {query : String}
  {few many : Nat} {s : Reranker model}

theorem hits_cut {results : List FusedResult} (hless : few <= many)
    (hheld : forall result, result ∈ results ->
      (fused.live.state result.topic).isSome = true) (window : Option Window) :
    Outcome.ofHits (fused.hits searcher results few window) =
      (Outcome.ofHits (fused.hits searcher results many window)).cutTo few := by
  rcases @hits_some strength model backend encoding searcher fused results hheld few window with
    ⟨hits, hhits, hmade⟩
  rcases @hits_some strength model backend encoding searcher fused results hheld many window with
    ⟨others, hothers, hmore⟩
  have hsame : hits.map some = (others.take few).map some := by
    rw [List.map_take, hmore, ← List.map_take, List.take_take, Nat.min_eq_left hless, hmade]
  rw [hhits, hothers]
  unfold Outcome.ofHits Outcome.cutTo
  rw [List.map_injective_iff.mpr (Option.some_injective SearchHit) hsame]

variable [LinearOrder strength]

theorem seen_iff (hresults : fused.results ≠ []) {limit : Nat} (hlimit : 0 < limit) :
    canBeSeen (lookedAt searcher fused) limit =
      decide (2 <= (lookedAt searcher fused).length) := by
  unfold canBeSeen
  rw [lookedAt_first hresults]
  split
  · next hfew => exact (decide_eq_false (Nat.not_le_of_lt hfew)).symm
  · next hmany =>
      dsimp only
      rw [decide_eq_true hlimit, decide_eq_true (Nat.le_of_not_lt hmany)]

theorem answeredHits_cut (hr : Reliable searcher.runtime) (hless : few <= many)
    (hheld : forall result, result ∈ fused.results ->
      (fused.live.state result.topic).isSome = true) (window : Option Window) {text : Text}
    {documents : List Text} (hlength : documents.length = (lookedAt searcher fused).length) :
    answeredHits searcher fused (lookedAt searcher fused) few window
        (rank searcher.runtime searcher.sha256 text documents s).1 =
      (answeredHits searcher fused (lookedAt searcher fused) many window
        (rank searcher.runtime searcher.sha256 text documents s).1).cutTo few := by
  rcases hcalled : rank searcher.runtime searcher.sha256 text documents s with ⟨answer, after⟩
  cases answer with
  | ranked order planned =>
      rcases Reranking.rank_ranked hr hcalled with ⟨values, horder, hvalues⟩
      rcases rearranged_some (hvalues.trans hlength) with ⟨results, hresults, hperm⟩
      rw [horder]
      unfold answeredHits
      dsimp only
      rw [hresults, Option.bind_some, Option.bind_some]
      exact hits_cut hless (held_of_topics hheld hperm) window
  | failed error => rfl
  | panicked => rfl
  | unfinished => rfl

theorem rerankedHits_cut (hr : Reliable searcher.runtime) (hless : few <= many)
    (hheld : forall result, result ∈ fused.results ->
      (fused.live.state result.topic).isSome = true) (window : Option Window) :
    (rerankedHits searcher fused query few window s).1 =
      (rerankedHits searcher fused query many window s).1.cutTo few := by
  rcases @documents_some strength model backend encoding searcher _ fused hheld window with
    ⟨shown, hshown, hlength⟩
  unfold rerankedHits
  dsimp only
  rw [hshown]
  dsimp only
  cases searcher.loads with
  | error error => rfl
  | ok loaded =>
      dsimp only
      cases asText query with
      | none => rfl
      | some text =>
          cases hdocuments : shown.mapM asText with
          | none => rfl
          | some documents =>
              exact answeredHits_cut hr hless hheld window
                ((length_texts hdocuments).trans hlength)

theorem rankedHits_cut (hr : Reliable searcher.runtime) (hfew : 0 < few) (hless : few <= many)
    (hheld : forall result, result ∈ fused.results ->
      (fused.live.state result.topic).isSome = true) :
    (rankedHits searcher fused query few s).1 =
      (rankedHits searcher fused query many s).1.cutTo few := by
  unfold rankedHits
  cases windowFor searcher query with
  | error error => rfl
  | ok window =>
      dsimp only
      by_cases hnone : fused.results = []
      · rw [if_pos hnone, if_pos hnone]
        exact hits_cut hless hheld _
      · rw [if_neg hnone, if_neg hnone, seen_iff hnone hfew,
          seen_iff hnone (Nat.lt_of_lt_of_le hfew hless)]
        split
        · exact hits_cut hless hheld _
        · exact rerankedHits_cut hr hless hheld _

def TakenFrom (searcher : Searcher strength model backend encoding) (fused : Fused) (limit : Nat)
    (hits : List SearchHit) : Prop :=
  exists (results : List FusedResult) (window : Option Window),
    (results.map FusedResult.topic).Perm (fused.results.map FusedResult.topic) ∧
      hits.map some = (results.take limit).map (fused.hit searcher window)

omit [LinearOrder strength] in
theorem taken_of_ofHits {results : List FusedResult} {window : Option Window} {limit : Nat}
    {hits : List SearchHit}
    (hheld : forall result, result ∈ fused.results ->
      (fused.live.state result.topic).isSome = true)
    (hperm : (results.map FusedResult.topic).Perm (fused.results.map FusedResult.topic))
    (hgives : Outcome.ofHits (fused.hits searcher results limit window) = Outcome.found hits) :
    TakenFrom searcher fused limit hits := by
  rcases @hits_some strength model backend encoding searcher fused results
    (held_of_topics hheld hperm) limit window with ⟨made, hmade, hmap⟩
  rw [hmade] at hgives
  cases hgives
  exact ⟨results, window, hperm, hmap⟩

theorem taken_rerankedHits (hr : Reliable searcher.runtime) {limit : Nat} {hits : List SearchHit}
    (hheld : forall result, result ∈ fused.results ->
      (fused.live.state result.topic).isSome = true) {window : Option Window}
    (hfound : (rerankedHits searcher fused query limit window s).1 = Outcome.found hits) :
    TakenFrom searcher fused limit hits := by
  rcases @documents_some strength model backend encoding searcher _ fused hheld window with
    ⟨shown, hshown, hlength⟩
  unfold rerankedHits at hfound
  dsimp only at hfound
  rw [hshown] at hfound
  dsimp only at hfound
  split at hfound
  · cases hfound
  · split at hfound
    · next text documents _ hdocuments =>
        dsimp only at hfound
        rcases hcalled : rank searcher.runtime searcher.sha256 text documents s with
          ⟨answer, after⟩
        rw [hcalled] at hfound
        cases answer with
        | ranked order planned =>
            rcases Reranking.rank_ranked hr hcalled with ⟨values, horder, hvalues⟩
            rcases rearranged_some ((hvalues.trans (length_texts hdocuments)).trans hlength) with
              ⟨results, hresults, hperm⟩
            rw [horder] at hfound
            unfold answeredHits at hfound
            dsimp only at hfound
            rw [hresults, Option.bind_some] at hfound
            exact taken_of_ofHits hheld hperm hfound
        | failed error => cases hfound
        | panicked => cases hfound
        | unfinished => cases hfound
    · cases hfound

theorem taken_rankedHits (hr : Reliable searcher.runtime) {limit : Nat} {hits : List SearchHit}
    (hheld : forall result, result ∈ fused.results ->
      (fused.live.state result.topic).isSome = true)
    (hfound : (rankedHits searcher fused query limit s).1 = Outcome.found hits) :
    TakenFrom searcher fused limit hits := by
  unfold rankedHits at hfound
  split at hfound
  · cases hfound
  · split at hfound
    · exact taken_of_ofHits hheld (List.Perm.refl _) hfound
    · split at hfound
      · exact taken_of_ofHits hheld (List.Perm.refl _) hfound
      · exact taken_rerankedHits hr hheld hfound

end Limits

/-!
## Every limit of one search
-/

section Whole

variable {strength model backend encoding : Type} [LinearOrder strength]

def topicsShown (hits : List SearchHit) : List TopicId := hits.map fun hit => hit.result.topic

/-- What the limit of a search decides: where the one list its hits come from is cut. -/
structure Limits (searcher : Searcher strength model backend encoding) (reads : Reads)
    (query : String) (lists : List ChannelResults) (s : Reranker model) : Prop where
  cut : forall few many, 0 < few -> few <= many ->
    (ranked searcher reads query lists few s).1 =
      (ranked searcher reads query lists many s).1.cutTo few
  whole : forall limit hits made,
    (ranked searcher reads query lists limit s).1 = Outcome.found hits ->
      fusedOf searcher reads query lists = Except.ok made -> made.results.length <= limit ->
        (topicsShown hits).Perm (made.results.map FusedResult.topic)
  recalled : forall made store topic list,
    fusedOf searcher reads query lists = Except.ok made ->
      reads.candidates = Except.ok store -> list ∈ lists ->
        searcher.fusion.weight list.channel ≠ 0 ->
          topic ∈ list.candidates.map Scored.topic -> Stands store topic ->
            topic ∈ made.results.map FusedResult.topic
  reached : forall course made store neighbor,
    Took searcher.arithmetic searcher.nameSequence searcher.spelled searcher.depths
        searcher.fusion reads query lists course made ->
      reads.reached = Except.ok store -> searcher.fusion.weight Channel.graph ≠ 0 ->
        neighbor ∈ course.neighbors -> Stands store neighbor.topic ->
          neighbor.topic ∈ made.results.map FusedResult.topic

/-- A limit cuts one list, and the whole list is of every topic recalled that stood. -/
theorem limit_cuts_one_list {segment : String -> List String} {project : ProjectId}
    (searcher : Searcher strength model backend encoding) (reads : Reads) (query : String)
    (lists : List ChannelResults) (s : Reranker model)
    (hwritten : forall store, store ∈ reads.stores -> Written segment project store)
    (hr : Reliable searcher.runtime) : Limits searcher reads query lists s := by
  have hgrounded : forall store, store ∈ reads.stores -> Grounded store :=
    fun store hstore => grounded_of_written (hwritten store hstore)
  constructor
  · intro few many hfew hless
    unfold ranked
    cases hfused : fusedOf searcher reads query lists with
    | error error => rfl
    | ok made => exact rankedHits_cut hr hfew hless (right_fusedOf hfused hgrounded).held
  · intro limit hits made hfound hfused hall
    unfold ranked at hfound
    rw [hfused] at hfound
    rcases taken_rankedHits hr (right_fusedOf hfused hgrounded).held hfound with
      ⟨results, window, hperm, hmade⟩
    have hlength : results.length <= limit := by
      have hsame := hperm.length_eq
      rw [List.length_map, List.length_map] at hsame
      rw [hsame]
      exact hall
    rw [List.take_of_length_le hlength] at hmade
    unfold topicsShown
    rw [topics_of_hits hmade]
    exact hperm
  · intro made store topic list hfused hread hlist hweight htopic hstands
    rcases took_of_fused hfused with ⟨course, htook⟩
    exact result_of_index htook hread (hgrounded _ (mem_stores.mpr (Or.inl hread))) hlist hweight
      htopic hstands
  · intro course made store neighbor htook hread hweight hneighbor hstands
    exact result_of_graph htook hread (hgrounded _ (mem_stores.mpr (Or.inr (Or.inr hread))))
      hweight (List.mem_map_of_mem hneighbor) hstands

theorem limit_cuts_one_list_of_two :
    (ranked shortBest (readsOf furnished) "lamp" doorFirst 1 loaded).1 =
      (ranked shortBest (readsOf furnished) "lamp" doorFirst 2 loaded).1.cutTo 1 ∧
    Limits shortBest (readsOf furnished) "lamp" doorFirst loaded := by
  have hlimits := limit_cuts_one_list shortBest (readsOf furnished) "lamp" doorFirst loaded
    written_furnished brief_reliable
  exact ⟨hlimits.cut 1 2 Nat.one_pos (Nat.le_succ 1), hlimits⟩

end Whole

end Searching
end PaminMemory
