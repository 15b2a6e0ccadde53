import PaminMemory.Search.Fusion
import PaminMemory.Foundation.Gathering
import Mathlib.Algebra.BigOperators.Group.List.Basic
import Mathlib.Algebra.Order.BigOperators.Group.List

/-!
# What fusion gives

Every place of a candidate in a list that weighs something is an appearance of its topic.
Fusion gathers the appearances by topic: a topic's score is the sum of what they are
worth, and neither it nor the best span depends on the order the lists come in.
-/

namespace PaminMemory
namespace Search

open Foundation

/-- One place a channel gave a topic. -/
structure Appearance where
  channel : Channel
  candidate : Scored
  rank : Nat
  weight : Rat
  contribution : Rat

namespace Appearance

def topic (appearance : Appearance) : TopicId :=
  appearance.candidate.topic

def span (appearance : Appearance) : Nat :=
  appearance.candidate.span

def why (appearance : Appearance) : Why Rat :=
  Why.channel appearance.channel appearance.rank appearance.candidate.score appearance.weight
    appearance.contribution

def votes (appearance : Appearance) : Bool :=
  appearance.channel ≠ Channel.graph

end Appearance

def Accumulated.take (entry : Accumulated) (appearance : Appearance) : Accumulated :=
  Fusion.absorb appearance.channel appearance.candidate appearance.rank appearance.weight
    appearance.contribution entry

namespace Fusion

def appearancesOf (fusion : Fusion) (list : ChannelResults) : List Appearance :=
  let weight := fusion.weight list.channel
  if weight = 0 then
    []
  else
    (list.candidates.zip (rescale list.candidates list.channel.calibrated)).zipIdx.map
      fun item =>
        { channel := list.channel, candidate := item.1.1, rank := item.2 + 1, weight := weight
          contribution := weight * fusion.share item.1.2 (item.2 + 1) }

def appearances (fusion : Fusion) (lists : List ChannelResults) (topic : TopicId) :
    List Appearance :=
  (lists.flatMap fusion.appearancesOf).filter fun appearance => appearance.topic = topic

end Fusion

/-!
## Rescaling
-/

theorem length_rescale (candidates : List Scored) (calibrated : Option (Rat × Rat)) :
    (rescale candidates calibrated).length = candidates.length := by
  unfold rescale
  simp only
  split
  · rw [List.length_replicate]
  · next hscored =>
    rw [List.length_map]
    exact Decidable.byContradiction fun hne => hscored (Or.inl hne)

theorem candidates_appearancesOf {fusion : Fusion} {list : ChannelResults}
    (h : fusion.weight list.channel ≠ 0) :
    (fusion.appearancesOf list).map Appearance.candidate = list.candidates := by
  have hlength := length_rescale list.candidates list.channel.calibrated
  unfold Fusion.appearancesOf
  simp only [if_neg h, List.map_map]
  calc
    _ = ((list.candidates.zip
          (rescale list.candidates list.channel.calibrated)).zipIdx.map Prod.fst).map Prod.fst := by
      rw [List.map_map]
      rfl
    _ = (list.candidates.zip
          (rescale list.candidates list.channel.calibrated)).map Prod.fst := by
      rw [List.zipIdx_map_fst]
    _ = list.candidates := List.map_fst_zip (Nat.le_of_eq hlength.symm)

/-!
## Gathering by topic
-/

theorem accumulate_eq_gather (fusion : Fusion) (lists : List ChannelResults) :
    fusion.accumulate lists =
      gather Appearance.topic Accumulated.take Accumulated.none
        (lists.flatMap fusion.appearancesOf) ∅ := by
  unfold Fusion.accumulate gather
  rw [List.foldl_flatMap]
  congr 1
  funext accumulated list
  unfold Fusion.appearancesOf
  simp only
  split
  · rfl
  · rw [List.foldl_map]
    rfl

theorem getElem?_accumulate (fusion : Fusion) (lists : List ChannelResults) (topic : TopicId) :
    (fusion.accumulate lists)[topic]? =
      if topic ∈ (lists.flatMap fusion.appearancesOf).map Appearance.topic then
        some ((fusion.appearances lists topic).foldl Accumulated.take Accumulated.none)
      else
        none := by
  rw [accumulate_eq_gather, getElem?_gather_empty]
  rfl

theorem score_foldl_take (entry : Accumulated) (appearances : List Appearance) :
    (appearances.foldl Accumulated.take entry).score =
      entry.score + (appearances.map Appearance.contribution).sum := by
  induction appearances generalizing entry with
  | nil => simp
  | cons appearance rest ih =>
      rw [List.foldl_cons, ih, List.map_cons, List.sum_cons, ← add_assoc]
      rfl

theorem why_foldl_take (entry : Accumulated) (appearances : List Appearance) :
    (appearances.foldl Accumulated.take entry).why =
      entry.why ++ appearances.map Appearance.why := by
  induction appearances generalizing entry with
  | nil => simp
  | cons appearance rest ih =>
      rw [List.foldl_cons, ih, List.map_cons, ← List.singleton_append, ← List.append_assoc]
      rfl

theorem spans_foldl_take (entry : Accumulated) (appearances : List Appearance) :
    (appearances.foldl Accumulated.take entry).spans =
      gather Appearance.span (fun weight appearance => weight + appearance.contribution) 0
        (appearances.filter Appearance.votes) entry.spans := by
  induction appearances generalizing entry with
  | nil => rfl
  | cons appearance rest ih =>
      rw [List.foldl_cons, ih]
      cases hvotes : appearance.votes with
      | false =>
          have hgraph : appearance.channel = Channel.graph := by
            simpa [Appearance.votes] using hvotes
          rw [List.filter_cons_of_neg (by simp [hvotes])]
          simp [Accumulated.take, Fusion.absorb, hgraph]
      | true =>
          have hgraph : appearance.channel ≠ Channel.graph := by
            simpa [Appearance.votes] using hvotes
          rw [List.filter_cons_of_pos hvotes]
          simp only [Accumulated.take, Fusion.absorb, if_pos hgraph]
          rfl

/-!
## The order of the lists
-/

theorem bestSpan_congr {left right : Std.TreeMap Nat Rat}
    (h : forall span : Nat, left[span]? = right[span]?) : bestSpan left = bestSpan right := by
  unfold bestSpan
  rw [Std.TreeMap.Equiv.toList_eq (Std.TreeMap.Equiv.of_forall_constGet?_eq h)]

def Accumulated.reading (entry : Accumulated) : Rat × Nat :=
  (entry.score, bestSpan entry.spans)

theorem reading_perm {left right : List Appearance} (h : left.Perm right) :
    (left.foldl Accumulated.take Accumulated.none).reading =
      (right.foldl Accumulated.take Accumulated.none).reading := by
  have hscore : (left.map Appearance.contribution).sum = (right.map Appearance.contribution).sum :=
    (h.map Appearance.contribution).sum_eq
  have hspan : forall span : Nat,
      (left.foldl Accumulated.take Accumulated.none).spans[span]? =
        (right.foldl Accumulated.take Accumulated.none).spans[span]? := by
    intro span
    have hvotes := h.filter Appearance.votes
    rw [spans_foldl_take, spans_foldl_take]
    unfold Accumulated.none
    rw [getElem?_gather_empty, getElem?_gather_empty]
    have hmem : (span ∈ (left.filter Appearance.votes).map Appearance.span) =
        (span ∈ (right.filter Appearance.votes).map Appearance.span) :=
      propext (hvotes.map Appearance.span).mem_iff
    have hfold : forall weight : Rat,
        ((left.filter Appearance.votes).filter fun appearance => appearance.span = span).foldl
            (fun weight appearance => weight + appearance.contribution) weight =
          ((right.filter Appearance.votes).filter fun appearance => appearance.span = span).foldl
            (fun weight appearance => weight + appearance.contribution) weight := by
      intro weight
      apply (hvotes.filter _).foldl_eq'
      intro first _ second _ sofar
      exact add_right_comm sofar first.contribution second.contribution
    simp only [hmem, hfold]
  unfold Accumulated.reading
  rw [score_foldl_take, score_foldl_take, hscore, bestSpan_congr hspan]

theorem reading_accumulate_perm {fusion : Fusion} {lists others : List ChannelResults}
    (h : others.Perm lists) (topic : TopicId) :
    (fusion.accumulate others)[topic]?.map Accumulated.reading =
      (fusion.accumulate lists)[topic]?.map Accumulated.reading := by
  have hplaces := h.flatMap_right fusion.appearancesOf
  have hmem : (topic ∈ (others.flatMap fusion.appearancesOf).map Appearance.topic) =
      (topic ∈ (lists.flatMap fusion.appearancesOf).map Appearance.topic) :=
    propext (hplaces.map Appearance.topic).mem_iff
  have hreading := reading_perm (hplaces.filter fun appearance => appearance.topic = topic)
  rw [getElem?_accumulate, getElem?_accumulate]
  simp only [hmem]
  split
  · exact congrArg some hreading
  · rfl

/-!
## The order of the results
-/

def FusedResult.outcome (result : FusedResult) : TopicId × Rat × Nat :=
  (result.topic, result.score, result.span)

def OutcomeBefore (left right : TopicId × Rat × Nat) : Prop :=
  left.2.1 > right.2.1 ∨ (left.2.1 = right.2.1 ∧ left.1 <= right.1)

instance : DecidableRel OutcomeBefore := fun _ _ => by
  unfold OutcomeBefore
  infer_instance

instance : Std.Total Before where
  total left right := by
    unfold Before
    rcases lt_trichotomy left.score right.score with hless | hsame | hmore
    · exact Or.inr (Or.inl hless)
    · rcases Nat.le_total left.topic right.topic with hle | hge
      · exact Or.inl (Or.inr ⟨hsame, hle⟩)
      · exact Or.inr (Or.inr ⟨hsame.symm, hge⟩)
    · exact Or.inl (Or.inl hmore)

instance : IsTrans FusedResult Before where
  trans first second third := by
    unfold Before
    intro hfirst hsecond
    rcases hfirst with hmore | ⟨hsame, hle⟩
    · rcases hsecond with hmore' | ⟨hsame', _⟩
      · exact Or.inl (lt_trans hmore' hmore)
      · exact Or.inl (hsame' ▸ hmore)
    · rcases hsecond with hmore' | ⟨hsame', hle'⟩
      · exact Or.inl (hsame.symm ▸ hmore')
      · exact Or.inr ⟨hsame.trans hsame', Nat.le_trans hle hle'⟩

/-- Strictly before: the higher score, and on a tie the smaller topic. -/
def StrictlyBefore (left right : FusedResult) : Prop :=
  left.score > right.score ∨ (left.score = right.score ∧ left.topic < right.topic)

def Fusion.gathered (fusion : Fusion) (lists : List ChannelResults) : List FusedResult :=
  (fusion.accumulate lists).toList.map fun entry =>
    { topic := entry.1, score := entry.2.score, why := entry.2.why
      span := bestSpan entry.2.spans }

theorem perm_fuse (fusion : Fusion) (lists : List ChannelResults) :
    (fusion.fuse lists).Perm (fusion.gathered lists) :=
  List.perm_insertionSort _ _

theorem nodup_topics_fuse (fusion : Fusion) (lists : List ChannelResults) :
    ((fusion.fuse lists).map FusedResult.topic).Nodup := by
  rw [((perm_fuse fusion lists).map FusedResult.topic).nodup_iff]
  unfold Fusion.gathered
  rw [List.map_map]
  exact nodup_keys_toList (fusion.accumulate lists)

theorem mem_fuse {fusion : Fusion} {lists : List ChannelResults} {result : FusedResult} :
    result ∈ fusion.fuse lists <->
      exists entry, (fusion.accumulate lists)[result.topic]? = some entry ∧
        result = { topic := result.topic, score := entry.score, why := entry.why
                   span := bestSpan entry.spans } := by
  rw [(perm_fuse fusion lists).mem_iff]
  unfold Fusion.gathered
  rw [List.mem_map]
  constructor
  · intro h
    rcases h with ⟨entry, hentry, rfl⟩
    exact ⟨entry.2, Std.TreeMap.mem_toList_iff_getElem?_eq_some.mp hentry, rfl⟩
  · intro h
    rcases h with ⟨entry, hentry, hresult⟩
    refine ⟨(result.topic, entry), Std.TreeMap.mem_toList_iff_getElem?_eq_some.mpr hentry, ?_⟩
    exact hresult.symm

theorem pairwise_fuse (fusion : Fusion) (lists : List ChannelResults) :
    (fusion.fuse lists).Pairwise StrictlyBefore := by
  have hsorted : (fusion.fuse lists).Pairwise Before := List.pairwise_insertionSort _ _
  have hdistinct : (fusion.fuse lists).Pairwise fun left right => left.topic ≠ right.topic :=
    List.pairwise_map.mp (nodup_topics_fuse fusion lists)
  apply (hsorted.and hdistinct).imp
  intro left right h
  rcases h.1 with hmore | ⟨hsame, hle⟩
  · exact Or.inl hmore
  · exact Or.inr ⟨hsame, Nat.lt_of_le_of_ne hle h.2⟩

theorem mem_topics_appearances {fusion : Fusion} {lists : List ChannelResults}
    {topic : TopicId} :
    topic ∈ (lists.flatMap fusion.appearancesOf).map Appearance.topic <->
      exists list, list ∈ lists ∧ fusion.weight list.channel ≠ 0 ∧
        topic ∈ list.candidates.map Scored.topic := by
  rw [List.map_flatMap, List.mem_flatMap]
  have hof : forall list : ChannelResults,
      topic ∈ (fusion.appearancesOf list).map Appearance.topic <->
        fusion.weight list.channel ≠ 0 ∧ topic ∈ list.candidates.map Scored.topic := by
    intro list
    by_cases hweight : fusion.weight list.channel = 0
    · simp [Fusion.appearancesOf, hweight]
    · have htopics : (fusion.appearancesOf list).map Appearance.topic =
          list.candidates.map Scored.topic := by
        rw [← candidates_appearancesOf hweight, List.map_map]
        rfl
      rw [htopics]
      exact ⟨fun h => ⟨hweight, h⟩, fun h => h.2⟩
  constructor
  · intro h
    rcases h with ⟨list, hlist, htopic⟩
    exact ⟨list, hlist, (hof list).mp htopic⟩
  · intro h
    rcases h with ⟨list, hlist, hrest⟩
    exact ⟨list, hlist, (hof list).mpr hrest⟩

theorem topics_fuse {fusion : Fusion} {lists : List ChannelResults} {topic : TopicId} :
    topic ∈ (fusion.fuse lists).map FusedResult.topic <->
      exists list, list ∈ lists ∧ fusion.weight list.channel ≠ 0 ∧
        topic ∈ list.candidates.map Scored.topic := by
  rw [← mem_topics_appearances, List.mem_map]
  constructor
  · intro h
    rcases h with ⟨result, hresult, rfl⟩
    rcases mem_fuse.mp hresult with ⟨entry, hentry, _⟩
    rw [getElem?_accumulate] at hentry
    split at hentry
    · assumption
    · cases hentry
  · intro h
    have hentry := getElem?_accumulate fusion lists topic
    rw [if_pos h] at hentry
    let entry := (fusion.appearances lists topic).foldl Accumulated.take Accumulated.none
    let result : FusedResult :=
      { topic := topic, score := entry.score, why := entry.why, span := bestSpan entry.spans }
    have hresult : result ∈ fusion.fuse lists := mem_fuse.mpr ⟨entry, hentry, rfl⟩
    exact ⟨result, hresult, rfl⟩

theorem gathered_fuse {fusion : Fusion} {lists : List ChannelResults} {result : FusedResult}
    (h : result ∈ fusion.fuse lists) :
    result.score = ((fusion.appearances lists result.topic).map Appearance.contribution).sum ∧
      result.why = (fusion.appearances lists result.topic).map Appearance.why := by
  rcases mem_fuse.mp h with ⟨entry, hentry, hresult⟩
  rw [getElem?_accumulate] at hentry
  split at hentry
  · have hgathered := Option.some.inj hentry
    rw [hresult]
    constructor
    · calc
        entry.score = Accumulated.none.score +
            ((fusion.appearances lists result.topic).map Appearance.contribution).sum := by
          rw [← hgathered, score_foldl_take]
        _ = _ := zero_add _
    · calc
        entry.why = Accumulated.none.why ++
            (fusion.appearances lists result.topic).map Appearance.why := by
          rw [← hgathered, why_foldl_take]
        _ = _ := List.nil_append _
  · cases hentry

theorem outcome_fuse_perm {fusion : Fusion} {lists others : List ChannelResults}
    (h : others.Perm lists) :
    (fusion.fuse others).map FusedResult.outcome =
      (fusion.fuse lists).map FusedResult.outcome := by
  have hsort : forall lists : List ChannelResults,
      (fusion.fuse lists).map FusedResult.outcome =
        ((fusion.accumulate lists).toList.map fun entry =>
          (entry.1, entry.2.reading)).insertionSort OutcomeBefore := by
    intro lists
    calc
      (fusion.fuse lists).map FusedResult.outcome =
          ((fusion.gathered lists).map FusedResult.outcome).insertionSort OutcomeBefore :=
        List.map_insertionSort Before OutcomeBefore FusedResult.outcome (fusion.gathered lists)
          (fun _ _ _ _ => Iff.rfl)
      _ = _ := by
        unfold Fusion.gathered
        rw [List.map_map]
        rfl
  rw [hsort others, hsort lists]
  congr 1
  exact map_toList_congr (fun _ => Accumulated.reading) (reading_accumulate_perm h)

/-- Fusion is a weighted union: the topics of the lists that weigh something, each once with
the sum of what its places are worth and a trace of them, in a strict order; and the order
the lists come in changes no topic, score, best span or place. -/
theorem fuse_is_a_weighted_union (fusion : Fusion) (lists : List ChannelResults) :
    (forall topic, topic ∈ (fusion.fuse lists).map FusedResult.topic <->
      exists list, list ∈ lists ∧ fusion.weight list.channel ≠ 0 ∧
        topic ∈ list.candidates.map Scored.topic) ∧
    ((fusion.fuse lists).map FusedResult.topic).Nodup ∧
    (forall result, result ∈ fusion.fuse lists ->
      result.score = ((fusion.appearances lists result.topic).map Appearance.contribution).sum ∧
        result.why = (fusion.appearances lists result.topic).map Appearance.why) ∧
    (fusion.fuse lists).Pairwise StrictlyBefore ∧
    forall others : List ChannelResults, others.Perm lists ->
      (fusion.fuse others).map FusedResult.outcome =
        (fusion.fuse lists).map FusedResult.outcome := by
  refine ⟨fun topic => topics_fuse, nodup_topics_fuse fusion lists, ?_,
    pairwise_fuse fusion lists, ?_⟩
  · intro result hresult
    exact gathered_fuse hresult
  · intro others hperm
    exact outcome_fuse_perm hperm

def twoLists : List ChannelResults :=
  [{ channel := Channel.vector
     candidates := [{ topic := 1, score := some (1 / 2), span := 3 },
       { topic := 2, score := some (1 / 4), span := 0 }] },
    { channel := Channel.graph
      candidates := [{ topic := 1, score := some (1 / 2), span := 0 }] }]

theorem fuse_is_a_weighted_union_of_two :
    let fusion : Fusion := { combine := Combine.banded, k := 10, weights := ∅ }
    1 ∈ (fusion.fuse twoLists).map FusedResult.topic ∧
      (fusion.fuse twoLists.reverse).map FusedResult.outcome =
        (fusion.fuse twoLists).map FusedResult.outcome := by
  intro fusion
  have hunion := fuse_is_a_weighted_union fusion twoLists
  refine ⟨(hunion.1 1).mpr ?_, hunion.2.2.2.2 _ twoLists.reverse_perm⟩
  refine ⟨_, List.mem_cons_self, ?_, List.mem_cons_self⟩
  exact one_ne_zero

end Search
end PaminMemory
