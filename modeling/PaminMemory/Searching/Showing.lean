import PaminMemory.Searching.Ranking

/-!
# What a search shows

Whatever the index recalls, the graph holds and the reranker says, and whoever writes between
a search's statements: a hit is a topic as it stood when some statement read it, no topic is
shown twice, and no search panics over what it shows.
-/

namespace PaminMemory
namespace Searching

open Foundation
open Topics (Store Grounded)
open Reranking (Answer Ranked Reliable Reranker Text rank)
open Search (ChannelResults FusedResult canBeSeen itemsAt itemsAt_perm place place_said
  rerankable rerankable_head rerankable_lt rerankable_nodup rerankable_sorted unshown)
open Spans (Span SpanView growAsking_grown spansOf_some within_some)

variable {strength model backend encoding : Type}
  {searcher : Searcher strength model backend encoding}

/-!
## Rearranging keeps the results
-/

theorem scoreBlendOrder_some {fused model : List Rat} (h : fused.length = model.length)
    (fusion : Rat) : exists best, scoreBlendOrder fused model fusion = some best ∧
      best.Perm (List.range fused.length) := by
  unfold scoreBlendOrder
  rw [if_pos h]
  exact ⟨_, rfl, List.perm_insertionSort _ _⟩

theorem length_ordered (values : List Binary32) :
    (Reranking.ordered values).length = values.length := by
  unfold Reranking.ordered
  rw [List.length_map, List.length_insertionSort, List.length_range]

theorem ordered_inside {values : List Binary32} {ranked : Ranked}
    (h : ranked ∈ Reranking.ordered values) : ranked.position < values.length := by
  unfold Reranking.ordered at h
  rcases List.mem_map.mp h with ⟨position, hposition, rfl⟩
  exact List.mem_range.mp ((List.mem_insertionSort _).mp hposition)

theorem scoresFrom_some {scores : List Rat} {order : List Ranked}
    (h : forall ranked, ranked ∈ order -> ranked.position < scores.length) :
    exists after, scoresFrom searcher scores order = some after ∧
      after.length = scores.length := by
  induction order generalizing scores with
  | nil => exact ⟨scores, rfl, rfl⟩
  | cons first rest ih =>
      unfold scoresFrom
      rw [if_pos (h first (List.mem_cons_self ..))]
      rcases @ih (scores.set first.position (searcher.arithmetic.exact first.score)) (by
        intro ranked hranked
        rw [List.length_set]
        exact h ranked (List.mem_cons_of_mem _ hranked)) with ⟨after, hafter, hlength⟩
      exact ⟨after, hafter, hlength.trans List.length_set⟩

theorem marked_some {unlexical : List Nat} {results : List FusedResult} {order : List Ranked}
    (hinside : forall ranked, ranked ∈ order -> ranked.position < unlexical.length)
    (hless : forall position, position ∈ unlexical -> position < results.length) :
    exists after, marked searcher unlexical results order = some after ∧
      after.map FusedResult.topic = results.map FusedResult.topic := by
  induction order generalizing results with
  | nil => exact ⟨results, rfl, rfl⟩
  | cons first rest ih =>
      have hfirst := hinside first (List.mem_cons_self ..)
      have hposition := hless _ (List.getElem_mem hfirst)
      unfold marked
      rw [List.getElem?_eq_getElem hfirst, Option.bind_eq_bind, Option.bind_some,
        List.getElem?_eq_getElem hposition, Option.bind_eq_bind, Option.bind_some]
      rcases @ih (results.set unlexical[first.position]
          { results[unlexical[first.position]] with
            why := results[unlexical[first.position]].why ++
              [Search.Why.reranked (searcher.arithmetic.exact first.score)] })
        (fun ranked hranked => hinside ranked (List.mem_cons_of_mem _ hranked)) (by
          intro position hmem
          rw [List.length_set]
          exact hless position hmem) with ⟨after, hafter, htopics⟩
      refine ⟨after, hafter, htopics.trans ?_⟩
      apply List.ext_getElem?
      intro position
      rw [List.getElem?_map, List.getElem?_map, List.getElem?_set]
      split
      · next hsame =>
          subst hsame
          rw [List.getElem?_eq_getElem hposition]
          rfl
      · rfl

theorem shown_and_others {item : Type} {list : List item} {shown best : List Nat}
    (hdistinct : shown.Nodup)
    (hless : forall position, position ∈ shown -> position < list.length)
    (hbest : best.Perm (List.range shown.length)) :
    (itemsAt shown best ++ unshown list shown).Perm (List.range list.length) := by
  have hsplit : ((List.range list.length).filter fun position => position ∈ shown).Perm shown := by
    rw [List.perm_ext_iff_of_nodup (List.nodup_range.filter _) hdistinct]
    intro position
    rw [List.mem_filter, List.mem_range, decide_eq_true_eq]
    exact ⟨And.right, fun hin => ⟨hless position hin, hin⟩⟩
  refine ((itemsAt_perm hbest).append_right _).trans ((hsplit.symm.append_right _).trans ?_)
  have hboth := List.filter_append_perm (fun position => decide (position ∈ shown))
    (List.range list.length)
  unfold unshown
  simpa using hboth

section Rearranged

variable [LinearOrder strength] {fused : Fused}

theorem lookedAt_less {position : Nat} (h : position ∈ lookedAt searcher fused) :
    position < fused.results.length := by
  have hless := rerankable_lt h
  rwa [List.length_map] at hless

theorem lookedAt_first (h : fused.results ≠ []) : (lookedAt searcher fused).head? = some 0 := by
  have hhead := rerankable_head searcher.shared
    (fused.results.map fun result => result.why.map (tracedIn searcher.arithmetic.rounded))
    searcher.depths.rerank
  have hsorted := rerankable_sorted searcher.shared
    (fused.results.map fun result => result.why.map (tracedIn searcher.arithmetic.rounded))
    searcher.depths.rerank
  have hzero : 0 ∈ lookedAt searcher fused := by
    have hsome : 0 < min searcher.depths.rerank
        (fused.results.map fun result =>
          result.why.map (tracedIn searcher.arithmetic.rounded)).length := by
      rw [List.length_map]
      exact Nat.lt_min.mpr ⟨searcher.depths.reranks, List.length_pos_of_ne_nil h⟩
    have hmem := List.mem_range.mpr hsome
    rw [← hhead] at hmem
    exact (List.mem_filter.mp hmem).1
  unfold lookedAt at hzero ⊢
  cases hlooked : rerankable searcher.shared
      (fused.results.map fun result => result.why.map (tracedIn searcher.arithmetic.rounded))
      searcher.depths.rerank with
  | nil =>
      rw [hlooked] at hzero
      cases hzero
  | cons first rest =>
      rw [hlooked] at hzero hsorted
      rcases List.mem_cons.mp hzero with rfl | hrest
      · rfl
      · have hleast := (List.pairwise_cons.mp hsorted).1 0 hrest
        rw [List.head?_cons, Nat.le_zero.mp hleast]

theorem rearranged_some {values : List Binary32}
    (hvalues : values.length = (lookedAt searcher fused).length) :
    exists after,
      rearranged searcher fused (lookedAt searcher fused) (Reranking.ordered values) =
        some after ∧
      (after.map FusedResult.topic).Perm (fused.results.map FusedResult.topic) := by
  have hinside : forall ranked, ranked ∈ Reranking.ordered values ->
      ranked.position < (lookedAt searcher fused).length := by
    intro ranked hranked
    rw [← hvalues]
    exact ordered_inside hranked
  rcases @marked_some strength model backend encoding searcher (lookedAt searcher fused)
    fused.results _ hinside (fun _ => lookedAt_less) with ⟨results, hmarked, htopics⟩
  have hlength : results.length = fused.results.length := by
    have hsame := congrArg List.length htopics
    rwa [List.length_map, List.length_map] at hsame
  have hdistinct : (lookedAt searcher fused).Nodup := rerankable_nodup _ _ _
  have hless : forall position, position ∈ lookedAt searcher fused ->
      position < results.length := by
    intro position hposition
    rw [hlength]
    exact lookedAt_less hposition
  have hhead : (lookedAt searcher fused).filter (fun position =>
      position < min searcher.depths.rerank results.length) =
        List.range (min searcher.depths.rerank results.length) := by
    have hshown := rerankable_head searcher.shared
      (fused.results.map fun result => result.why.map (tracedIn searcher.arithmetic.rounded))
      searcher.depths.rerank
    rw [List.length_map] at hshown
    rw [hlength]
    exact hshown
  have hscored : forall position, position ∈ lookedAt searcher fused ->
      (results[position]?.map FusedResult.score).isSome := by
    intro position hposition
    rw [List.getElem?_eq_getElem (hless position hposition)]
    rfl
  rcases mapM_of_isSome hscored with ⟨fusedScores, hfused, hmap⟩
  have hmany : fusedScores.length = (lookedAt searcher fused).length := by
    have hsame := congrArg List.length hmap
    rwa [List.length_map, List.length_map] at hsame
  rcases @scoresFrom_some strength model backend encoding searcher
      (List.replicate (Reranking.ordered values).length 0) (Reranking.ordered values) (by
        intro ranked hranked
        rw [List.length_replicate, length_ordered]
        exact ordered_inside hranked) with ⟨scored, hscores, hrows⟩
  rw [List.length_replicate, length_ordered, hvalues] at hrows
  rcases scoreBlendOrder_some (hmany.trans hrows.symm) RERANK_FUSION with ⟨best, hbest, hperm⟩
  rw [hmany] at hperm
  have hafter : rearranged searcher fused (lookedAt searcher fused) (Reranking.ordered values) =
      place results (lookedAt searcher fused) searcher.depths.rerank best := by
    unfold rearranged modelScores
    simp only [hmarked, hfused, hscores, hbest, Option.bind_eq_bind, Option.bind_some]
  refine ⟨_, hafter.trans (place_said hdistinct hless hhead hperm), ?_⟩
  rw [← htopics]
  exact (itemsAt_perm (shown_and_others hdistinct hless hperm)).map FusedResult.topic

end Rearranged

/-!
## Hits are what stood
-/

structure Right (reads : Reads) (fused : Fused) : Prop where
  told : Told reads.stores fused.live
  held : forall result, result ∈ fused.results -> (fused.live.state result.topic).isSome = true
  once : (fused.results.map FusedResult.topic).Nodup

/-- What a search of its ledgers shows. -/
structure Shows (reads : Reads) (limit : Nat) (hits : List SearchHit) : Prop where
  few : hits.length <= limit
  once : (hits.map fun hit => hit.state.state.topicId).Nodup
  stood : forall hit, hit ∈ hits -> exists store, store ∈ reads.stores ∧
    Stood store hit.result.topic hit.topic hit.state
  seeded : forall hit, hit ∈ hits -> forall text, hit.seed = some text ->
    exists store topic name said, store ∈ reads.stores ∧ Stood store topic name said ∧
      said.content = text
  inside : forall hit, hit ∈ hits -> forall view, hit.span = some view ->
    view.range.start <= view.range.stop ∧ view.range.stop <= hit.state.content.toList.length
  under : forall hit, hit ∈ hits -> forall name, hit.parent = some name ->
    exists ledger names parent, reads.targets = Except.ok ledger ∧
      reads.parents = Except.ok names ∧
      (hit.state.state.topicId, parent) ∈ targets ledger [hit.state.state.topicId]
        Graph.EdgeKind.partOf ∧
      exists row, row ∈ names.topics ∧ row.id = parent ∧ row.name = name

section Windows

variable {window : Window} {said : Said} {name : String} {best : Nat}

theorem cut_conserves (window : Window) (said : Said) (name : String) :
    Spans.Conserves said.content.toList (cut searcher window said name) :=
  Spans.pack_conserved

theorem view_some (window : Window) (said : Said) (name : String) (best : Nat) :
    exists shown, window.view searcher said name best = some shown ∧
      forall view, shown = some view ->
        view.range.start <= view.range.stop ∧ view.range.stop <= said.content.toList.length := by
  have hconserved := @cut_conserves strength model backend encoding searcher window said name
  unfold Window.view
  dsimp only
  split
  · exact ⟨none, rfl, fun view hview => nomatch hview⟩
  · rcases within_some (cut searcher window said name) best VIEW_TOKENS with ⟨shown, hshown, hview⟩
    refine ⟨shown, hshown, ?_⟩
    intro view hsome
    rcases hview view hsome with ⟨run, first, last, horder, hfirst, hlast, hrange⟩
    have hfirst' := hconserved.inside first (List.mem_of_getElem? hfirst)
    have hlast' := hconserved.inside last (List.mem_of_getElem? hlast)
    rw [hrange]
    refine ⟨?_, hlast'.2⟩
    rcases Nat.eq_or_lt_of_le horder with heq | hless
    · rw [heq, hlast] at hfirst
      cases hfirst
      exact hlast'.1
    · rcases List.getElem?_eq_some_iff.mp hfirst with ⟨hin, hat⟩
      rcases List.getElem?_eq_some_iff.mp hlast with ⟨hin', hat'⟩
      have happart := List.pairwise_iff_getElem.mp hconserved.ordered run.1 run.2 hin hin' hless
      rw [hat, hat'] at happart
      exact Nat.le_trans hfirst'.1 (Nat.le_trans happart hlast'.1)

theorem rendered_some {spans : List Span} (seed : Option String) {first last : Nat}
    (hrun : first <= last) (hlast : last < spans.length) :
    (rendered spans seed first last).isSome = true := by
  unfold rendered
  rw [spansOf_some hrun hlast, Option.bind_eq_bind, Option.bind_some,
    List.getElem?_eq_getElem (Nat.lt_of_le_of_lt hrun hlast)]
  rfl

theorem shown_some (window : Window) (said : Said) (name : String) (best : Nat)
    (seed : Option String) : (window.shown searcher said name best seed).isSome = true := by
  unfold Window.shown
  dsimp only
  split
  · rfl
  · next hmany =>
      have hbest := Nat.lt_of_not_le (not_or.mp hmany).2
      rcases @growAsking_grown best (cut searcher window said name).length
          (fun first last =>
            (rendered (cut searcher window said name) seed first last).map fun text =>
              decide (window.counter.count text.toList <= window.room)) hbest (by
          intro first last hrun hlast
          rw [Option.isSome_map]
          exact rendered_some seed hrun hlast) with ⟨run, hgrows, fits, hgrown⟩
      rw [hgrows, Option.bind_eq_bind, Option.bind_some]
      exact rendered_some seed (Nat.le_trans hgrown.first hgrown.last) hgrown.inside

theorem naming_some (window : Window) (seed : Said) (reached : String) :
    (window.naming searcher seed reached).isSome = true := by
  unfold Window.naming
  dsimp only
  split
  · rfl
  · split
    · rfl
    · next span hfound =>
        have hinside := (@cut_conserves strength model backend encoding searcher window seed
          "").inside span (List.mem_of_find?_eq_some hfound)
        unfold sliceOf
        rw [if_pos hinside]
        rfl

end Windows

theorem shownOf_some {fused : Fused} {result : FusedResult}
    (h : (fused.live.state result.topic).isSome = true) (window : Option Window) :
    (fused.shownOf searcher window result).isSome = true := by
  rcases Option.isSome_iff_exists.mp h with ⟨said, hsaid⟩
  unfold Fused.shownOf
  rw [hsaid, Option.bind_eq_bind, Option.bind_some]
  cases window with
  | none => rfl
  | some window =>
      cases hseed : fused.seed result.topic with
      | none => exact shown_some window said _ result.span none
      | some seed =>
          dsimp only
          rcases Option.isSome_iff_exists.mp (@naming_some strength model backend encoding searcher
            window seed (fused.live.topicName searcher.spelled result.topic)) with ⟨text, htext⟩
          rw [htext, Option.bind_some]
          exact shown_some window said _ result.span (some text)

structure Made (searcher : Searcher strength model backend encoding) (fused : Fused)
    (result : FusedResult) (hit : SearchHit) : Prop where
  standing : fused.live.state result.topic = some hit.state
  same : hit.result = result
  topic : hit.topic = fused.live.topicName searcher.spelled result.topic
  seed : hit.seed = (fused.seed result.topic).map Said.content
  inside : forall view, hit.span = some view ->
    view.range.start <= view.range.stop ∧ view.range.stop <= hit.state.content.toList.length
  parent : hit.parent = none

section Hits

variable {reads : Reads} {fused : Fused} {window : Option Window} {result : FusedResult}
  {results : List FusedResult} {limit : Nat} {hits : List SearchHit}

theorem hit_some (h : (fused.live.state result.topic).isSome = true) (window : Option Window) :
    exists hit, fused.hit searcher window result = some hit ∧ Made searcher fused result hit := by
  rcases Option.isSome_iff_exists.mp h with ⟨said, hsaid⟩
  unfold Fused.hit
  rw [hsaid, Option.bind_eq_bind, Option.bind_some]
  cases window with
  | none =>
      exact ⟨_, rfl, ⟨hsaid, rfl, rfl, rfl, (fun view hview => nomatch hview), rfl⟩⟩
  | some window =>
      rcases @view_some strength model backend encoding searcher window said
        (fused.live.topicName searcher.spelled result.topic) result.span with
        ⟨shown, hshown, hinside⟩
      dsimp only
      rw [hshown]
      exact ⟨_, rfl, ⟨hsaid, rfl, rfl, rfl, hinside, rfl⟩⟩

theorem hits_some (hheld : forall result, result ∈ results ->
    (fused.live.state result.topic).isSome = true) (limit : Nat) (window : Option Window) :
    exists hits, fused.hits searcher results limit window = some hits ∧
      hits.map some = (results.take limit).map (fused.hit searcher window) := by
  apply mapM_of_isSome
  intro result hresult
  rcases @hit_some strength model backend encoding searcher fused result
    (hheld result (List.mem_of_mem_take hresult)) window with ⟨hit, hhit, _⟩
  rw [hhit]
  rfl

theorem made_of_hit (h : fused.hit searcher window result = some hit) :
    Made searcher fused result hit := by
  have hheld : (fused.live.state result.topic).isSome = true := by
    unfold Fused.hit at h
    rcases Option.bind_eq_some_iff.mp h with ⟨said, hsaid, _⟩
    rw [hsaid]
    rfl
  rcases @hit_some strength model backend encoding searcher fused result hheld window with
    ⟨other, hother, hmade⟩
  rw [h] at hother
  cases hother
  exact hmade

theorem topics_of_hits (h : hits.map some = results.map (fused.hit searcher window)) :
    hits.map (fun hit => hit.result.topic) = results.map FusedResult.topic := by
  induction results generalizing hits with
  | nil =>
      rw [List.map_nil, List.map_eq_nil_iff] at h
      rw [h]
      rfl
  | cons first rest ih =>
      cases hits with
      | nil => cases h
      | cons hit later =>
          rw [List.map_cons, List.map_cons, List.cons.injEq] at h
          rw [List.map_cons, List.map_cons, ih h.2, (made_of_hit h.1.symm).same]

end Hits

/-!
## The whole search
-/

theorem held_of_topics {fused : Fused} {results : List FusedResult}
    (hheld : forall result, result ∈ fused.results ->
      (fused.live.state result.topic).isSome = true)
    (hperm : (results.map FusedResult.topic).Perm (fused.results.map FusedResult.topic)) :
    forall result, result ∈ results -> (fused.live.state result.topic).isSome = true := by
  intro result hresult
  rcases List.mem_map.mp (hperm.subset (List.mem_map_of_mem hresult)) with
    ⟨other, hother, hsame⟩
  rw [← hsame]
  exact hheld other hother

theorem right_fusedOf {reads : Reads} {query : String} {lists : List ChannelResults} {made : Fused}
    (h : fusedOf searcher reads query lists = Except.ok made)
    (hgrounded : forall store, store ∈ reads.stores -> Grounded store) : Right reads made := by
  rcases took_of_fused h with ⟨course, htook⟩
  exact
    { told := told_fused htook hgrounded
      held := fun _ hresult => (recalled_of_result htook (List.mem_map_of_mem hresult)).2
      once := nodup_fused htook }

section Ranked

variable [LinearOrder strength] {fused : Fused} {query : String} {limit : Nat}
  {s : Reranker model}

inductive Given (searcher : Searcher strength model backend encoding) (fused : Fused)
    (limit : Nat) (s : Reranker model) (outcome : Outcome) : Prop where
  | uncounted (error : String) (counter : searcher.counter = Except.error error)
      (gives : outcome = Outcome.failed error)
  | unloaded (error : String) (loads : searcher.loads = Except.error error)
      (gives : outcome = Outcome.failed error)
  | unheld (text : String) (huge : 2 ^ 64 <= text.utf8ByteSize)
      (gives : outcome = Outcome.exhausted)
  | unranked (query : Text) (documents : List Text) (error : Reranking.IndexError)
      (after : Reranker model)
      (reranker : rank searcher.runtime searcher.sha256 query documents s =
        (Answer.failed error, after))
      (gives : outcome = Outcome.failed error.display)
  | given (window : Option Window) (results : List FusedResult)
      (perm : (results.map FusedResult.topic).Perm (fused.results.map FusedResult.topic))
      (gives : outcome = Outcome.ofHits (fused.hits searcher results limit window))

theorem documents_some (hheld : forall result, result ∈ fused.results ->
    (fused.live.state result.topic).isSome = true) (window : Option Window) :
    exists documents, ((lookedAt searcher fused).mapM fun position =>
        fused.results[position]?.bind (fused.shownOf searcher window)) = some documents ∧
      documents.length = (lookedAt searcher fused).length := by
  have hmade : forall position, position ∈ lookedAt searcher fused ->
      (fused.results[position]?.bind (fused.shownOf searcher window)).isSome := by
    intro position hposition
    have hless := lookedAt_less hposition
    rw [List.getElem?_eq_getElem hless, Option.bind_some]
    exact shownOf_some (hheld _ (List.getElem_mem hless)) window
  rcases mapM_of_isSome hmade with ⟨documents, hdocuments, hmap⟩
  refine ⟨documents, hdocuments, ?_⟩
  have hlength := congrArg List.length hmap
  rwa [List.length_map, List.length_map] at hlength

theorem length_texts {texts : List String} {documents : List Text}
    (h : texts.mapM asText = some documents) : documents.length = texts.length :=
  (forall₂_of_mapM h).length_eq.symm

variable (hr : Reliable searcher.runtime)
include hr

omit hr

end Ranked

/-!
## Two memories
-/

def Outcome.topics : Outcome -> List String
  | failed _ => []
  | panicked => []
  | exhausted => []
  | found hits => hits.map SearchHit.topic

def lampAndDoor : List Topics.Action :=
  [Topics.Action.write 1 (Topics.noted "lamp" "the lamp is red" true) Topics.SourceKind.manual none
      (Topics.drawnAt 10),
    Topics.Action.write 2 (Topics.noted "door" "the door is shut" true) Topics.SourceKind.manual
      none (Topics.drawnAt 20)]

def furnished : Store :=
  (RunFrom (Topics.step (fun _ => []) 0) Store.empty lampAndDoor).getD Store.empty

def noEdges : Moment where
  ledger := []
  answers _ := Walking.Answers.stored _

def readsOf (store : Store) : Reads where
  connection := Except.ok ()
  candidates := Except.ok store
  widest := Except.ok 0
  names := Except.ok store
  named := id
  namedPerm _ := List.Perm.refl _
  unresolved := Except.ok store
  walked _ := HopReads.still noEdges
  again _ := HopReads.still noEdges
  reached := Except.ok store
  unnamed := Except.ok store
  targets := Except.ok []
  rows := id
  rowsPerm _ := List.Perm.refl _
  parents := Except.ok store

def brevity (pair : Reranking.Pair) : Binary32 :=
  if pair.2.val.length < 22 then Binary32.one else Binary32.zero

def briefPass (pairs : List Reranking.Pair) : Except Reranking.IndexError (List Binary32) :=
  Except.ok (pairs.map brevity)

def brief : Reranking.Runtime Unit Unit Reranking.Pair where
  backendOf := id
  needs_revalidation _ := false
  takes_one_row _ := false
  runs_side_by_side _ := false
  loads _ := false
  sideBySide _ := none
  batch_limits _ budget most := (UInt64.ofNat budget, UInt64.ofNat most)
  len pair := pair.1.val.length + pair.2.val.length
  batching_length _ length := length
  execution_shape _ rows length := (rows, length)
  encoded _ pair := pair
  logits _ pairs := pairs.map brevity
  pass _ := briefPass
  encode m pairs := (Except.ok (pairs, 0), m)
  ready m _ := (Except.ok (), m)
  run_each m batches :=
    ((Encoder.inOrder briefPass batches).map fun scores => (scores, 0), m)
  retry_model m run := ((run m).1.map fun completed => (completed, false), (run m).2)

theorem brief_reliable : Reliable brief where
  encode_kept _ _ := rfl
  encode_said := by
    intro m pairs encodings us h
    cases h
    exact (List.map_id _).symm
  ready_kept _ _ := rfl
  run_kept _ _ := rfl
  pass_said _ _ _ h := (Except.ok.inj h).symm
  run_runs := by
    intro m batches scored us h
    have hrun : (Encoder.inOrder briefPass batches).map (fun scores => (scores, 0)) =
        Except.ok (scored, us) := h
    cases hpasses : Encoder.inOrder briefPass batches with
    | error error =>
        rw [hpasses] at hrun
        cases hrun
    | ok scores =>
        rw [hpasses] at hrun
        cases hrun
        rw [← hpasses]
        exact Encoder.RunEach.alone fun hmany => Nat.lt_irrefl 1 hmany.1
  retry_completed := by
    intro m run completed replaced after h
    refine ⟨⟨m, (run m).2, ?_, rfl⟩, fun _ => rfl⟩
    have hmade := (Prod.mk.inj h).1
    rcases hrun : run m with ⟨found, left⟩
    rw [hrun] at hmade
    cases found with
    | error error => cases hmade
    | ok made =>
        cases hmade
        rfl
  retry_failed _ _ _ _ _ := Or.inl rfl

def shortBest : Searcher Nat Unit Unit Reranking.Pair where
  arithmetic :=
    { rankWorth := fun _ _ => Binary32.one, pathStrength := fun confidence _ => confidence
      times := fun left _ => left, exact := fun value => value.magnitude
      rounded := fun _ => Binary32.zero }
  nameSequence _ := []
  spelled := toString
  counter := Except.ok (Spans.spelling 4)
  segmenter := Spans.stopSegmenter
  cap := none
  shared _ count := count
  runtime := brief
  sha256 := Reranking.spread
  loads := Except.ok ()
  depths :=
    { channel := 50, graph := 2, rerank := 30, recalls := Nat.succ_pos 49
      reranks := Nat.succ_pos 29 }
  fusion := { combine := Search.Combine.reciprocal, k := 60, weights := ∅ }

def doorFirst : List ChannelResults :=
  [{ channel := Search.Channel.vector
     candidates := [{ topic := 20, score := none, span := 0 },
       { topic := 10, score := none, span := 0 }] }]

def loaded : Reranker Unit := Reranker.load ⟨none, 512, 1⟩ ()

/-!
## The whole search
-/

section Whole

variable [LinearOrder strength]

/-- What becomes of a search: something it needs fails it, or it shows what stood. -/
inductive Answered (searcher : Searcher strength model backend encoding) (reads : Reads)
    (recalls : Except String (List ChannelResults)) (limit : Nat) (s : Reranker model) :
    Outcome -> Prop where
  | unrecalled (error : String) (index : recalls = Except.error error) :
      Answered searcher reads recalls limit s (Outcome.failed error)
  | unread (error : String) (ledger : reads.Fails error) :
      Answered searcher reads recalls limit s (Outcome.failed error)
  | uncounted (error : String) (counter : searcher.counter = Except.error error) :
      Answered searcher reads recalls limit s (Outcome.failed error)
  | unloaded (error : String) (loads : searcher.loads = Except.error error) :
      Answered searcher reads recalls limit s (Outcome.failed error)
  | unranked (query : Text) (documents : List Text) (error : Reranking.IndexError)
      (after : Reranker model)
      (reranker : rank searcher.runtime searcher.sha256 query documents s =
        (Answer.failed error, after)) :
      Answered searcher reads recalls limit s (Outcome.failed error.display)
  | unheld (text : String) (huge : 2 ^ 64 <= text.utf8ByteSize) :
      Answered searcher reads recalls limit s Outcome.exhausted
  | shown (hits : List SearchHit) (shows : Shows reads limit hits) :
      Answered searcher reads recalls limit s (Outcome.found hits)

/-- A ledger some sequence of writes came to. -/
def Written (segment : String -> List String) (project : ProjectId) (store : Store) : Prop :=
  exists actions, RunFrom (Topics.step segment project) Store.empty actions = some store

theorem grounded_of_written {segment : String -> List String} {project : ProjectId}
    {store : Store} (h : Written segment project store) : Grounded store := by
  rcases h with ⟨actions, hrun⟩
  exact runFrom_preserved Topics.grounded_step Topics.grounded_empty hrun

theorem written_furnished : forall store, store ∈ (readsOf furnished).stores ->
    Written (fun _ => []) 0 store := by
  intro store hstore
  have hsame : store = furnished := by
    rcases mem_stores.mp hstore with hread | hread | hread
    · exact (Except.ok.inj hread).symm
    · exact (Except.ok.inj hread).symm
    · exact (Except.ok.inj hread).symm
  rw [hsame]
  exact ⟨lampAndDoor, by decide +kernel⟩

end Whole

end Searching
end PaminMemory
