import PaminMemory.Foundation.Fallible
import PaminMemory.Graph.Rounds

/-!
# A batch of claims and its claims one at a time

A call reads the live versions once and answers from that read what they already
say.  Asserting the entries one call each reads before every entry.
-/

namespace PaminMemory
namespace Graph

open Foundation

/-!
## The call and its answers
-/

theorem lookup_isSome {answers : List (Nat × Assertion)} {place : Nat}
    (hmem : place ∈ answers.map Prod.fst) : (answers.lookup place).isSome := by
  induction answers with
  | nil => simp at hmem
  | cons first rest ih =>
      rcases first with ⟨here, answer⟩
      by_cases hhere : place = here
      · simp [hhere]
      · have hbeq : (place == here) = false := beq_eq_false_iff_ne.mpr hhere
        have hlater : place ∈ rest.map Prod.fst := by simpa [hhere] using hmem
        simpa [List.lookup_cons, hbeq] using ih hlater

theorem lookup_of_nodup {answers : List (Nat × Assertion)} {answer : Nat × Assertion}
    (hmem : answer ∈ answers) (hnodup : (answers.map Prod.fst).Nodup) :
    answers.lookup answer.1 = some answer.2 := by
  induction answers with
  | nil => simp at hmem
  | cons first rest ih =>
      rw [List.map_cons, List.nodup_cons] at hnodup
      rcases List.mem_cons.mp hmem with rfl | hlater
      · rw [List.lookup_cons, beq_self_eq_true]
      · have hne : (answer.1 == first.1) = false := by
          refine beq_eq_false_iff_ne.mpr ?_
          intro hsame
          exact hnodup.1 (hsame ▸ List.mem_map_of_mem hlater)
        rw [List.lookup_cons, hne]
        exact ih hlater hnodup.2

/-- What a call answers for an entry: what was read, or what was written for its place. -/
def answerOf (ledger : Ledger) (written : List (Nat × Assertion)) (item : Item) :
    Option Assertion :=
  match standing ledger item.1 with
  | some version => some (Assertion.unchanged version)
  | none => written.lookup item.2

/--
The rounds of a call whose read saw `read` always answer, and write the entries it
did not answer edge by edge in their order.
-/
theorem assertRounds_collect (clock : Nat -> Instant) (edges : List Asked)
    (read ledger : Ledger) :
    exists final answers timed,
      assertRounds clock 0 (repeatsApart (unanswered read edges)) ledger =
          some (final, answersOf timed ledger.find) ∧
        collect read edges (answersOf timed ledger.find) = some answers ∧
          (forall edge, itemsOf edge (timed.map Prod.snd) =
              itemsOf edge (unanswered read edges)) ∧
            (forall edge, final.find edge = leftBy timed ledger.find edge) ∧
              answers.map some =
                edges.zipIdx.map (answerOf read (answersOf timed ledger.find)) := by
  rcases repeatsApart_placed (unanswered read edges) with ⟨hdistinct, horder⟩
  rcases assertRounds_eq clock 0 (repeatsApart (unanswered read edges)) ledger hdistinct with
    ⟨final, timed, hrounds, hitems, hfinal⟩
  have hsome : forall item, item ∈ edges.zipIdx ->
      (answerOf read (answersOf timed ledger.find) item).isSome := by
    intro item hitem
    unfold answerOf
    cases hstanding : standing read item.1 with
    | some version => rfl
    | none =>
        have hpending : item ∈ unanswered read edges :=
          List.mem_filter.mpr ⟨hitem, by simp [hstanding]⟩
        have hown : item ∈ itemsOf item.1.edge (timed.map Prod.snd) := by
          rw [hitems, horder]
          exact List.mem_filter.mpr ⟨hpending, by simp⟩
        rcases List.mem_map.mp (List.mem_filter.mp hown).1 with ⟨entry, hentry, hsame⟩
        refine lookup_isSome ?_
        rw [answersOf_places]
        exact List.mem_map.mpr ⟨entry, hentry, by rw [hsame]⟩
  rcases mapM_of_isSome hsome with ⟨answers, hcollect, hanswers⟩
  refine ⟨final, answers, timed, hrounds, hcollect, ?_, hfinal, hanswers⟩
  intro edge
  rw [hitems, horder]

theorem assertEdges_eq (clock : Nat -> Instant) (edges : List Asked) (ledger : Ledger) :
    exists final answers timed,
      assertEdges clock edges ledger = some (final, answers) ∧
        (forall edge, itemsOf edge (timed.map Prod.snd) =
            itemsOf edge (unanswered ledger edges)) ∧
          (forall edge, final.find edge = leftBy timed ledger.find edge) ∧
            answers.map some =
              edges.zipIdx.map (answerOf ledger (answersOf timed ledger.find)) := by
  rcases assertRounds_collect clock edges ledger ledger with
    ⟨final, answers, timed, hrounds, hcollect, hitems, hfinal, hanswers⟩
  refine ⟨final, answers, timed, ?_, hitems, hfinal, hanswers⟩
  rw [assertEdges, hrounds]
  simp only [hcollect]

def assertSingly (times : Nat -> Instant) :
    List Item -> Ledger -> Option (Ledger × List Assertion)
  | [], ledger => some (ledger, [])
  | (asked, place) :: rest, ledger =>
      match assertEdges (fun _ => times place) [asked] ledger with
      | none => none
      | some (written, answers) =>
          match assertSingly times rest written with
          | none => none
          | some (final, later) => some (final, answers ++ later)

def timedItems (times : Nat -> Instant) (items : List Item) : List Timed :=
  items.map fun item => (times item.2, item)

theorem assertEdges_single (now : Instant) (asked : Asked) (ledger : Ledger) :
    exists final,
      assertEdges (fun _ => now) [asked] ledger =
          some (final, [(assertOne now asked (ledger.find asked.edge)).2]) ∧
        final.find = Function.update ledger.find asked.edge
          (assertOne now asked (ledger.find asked.edge)).1 := by
  cases hstanding : standing ledger asked with
  | some version =>
      have hnothing : unanswered ledger [asked] = [] := by simp [unanswered, hstanding]
      rw [assertOne_standing hstanding, Function.update_eq_self]
      refine ⟨ledger, ?_, rfl⟩
      rw [assertEdges, hnothing]
      simp [repeatsApart, assertRounds, collect, hstanding]
  | none =>
      have honly : unanswered ledger [asked] = [(asked, 0)] := by
        simp [unanswered, hstanding]
      have hround : repeatsApart [(asked, 0)] = [[(asked, 0)]] := by
        simp [repeatsApart, place]
      have hdistinct : (edgesOf [(asked, 0)]).Nodup := List.nodup_singleton _
      rcases assertWithin_eq now ledger hdistinct with ⟨final, answers, hwithin, hanswers, hfinal⟩
      have hzip : [0].zip answers = [(0, (assertOne now asked (ledger.find asked.edge)).2)] :=
        hanswers
      refine ⟨final, ?_, funext hfinal⟩
      rw [assertEdges, honly, hround, assertRounds, hwithin]
      simp [assertRounds, hzip, collect, hstanding]

theorem assertSingly_eq (times : Nat -> Instant) (items : List Item) (ledger : Ledger) :
    exists final,
      assertSingly times items ledger =
          some (final, (answersOf (timedItems times items) ledger.find).map Prod.snd) ∧
        forall edge, final.find edge = leftBy (timedItems times items) ledger.find edge := by
  induction items generalizing ledger with
  | nil => exact ⟨ledger, rfl, fun _ => rfl⟩
  | cons item rest ih =>
      rcases item with ⟨asked, place⟩
      rcases assertEdges_single (times place) asked ledger with ⟨written, hcall, hwritten⟩
      rcases ih written with ⟨final, hrest, hfinal⟩
      refine ⟨final, ?_, ?_⟩
      · rw [assertSingly, hcall]
        simp only [hrest, hwritten]
        rfl
      · intro edge
        rw [hfinal, hwritten]
        rfl

/-!
## When the two agree
-/

/-- What a call recorded and answered, with the instants taken out. -/
def SameOutcome (first second : Option (Ledger × List Assertion)) : Prop :=
  exists final answers final' answers',
    first = some (final, answers) ∧ second = some (final', answers') ∧
      answers.map Assertion.undated = answers'.map Assertion.undated ∧
        forall edge, (final.find edge).map Relationship.undated =
          (final'.find edge).map Relationship.undated

/--
No claim that the version live at the start makes comes after a claim of the same
edge that it does not make.
-/
def StandingFirst (ledger : Ledger) (edges : List Asked) : Prop :=
  edges.Pairwise fun earlier later => later.edge = earlier.edge ->
    (standing ledger later).isSome -> (standing ledger earlier).isSome

instance (ledger : Ledger) (edges : List Asked) : Decidable (StandingFirst ledger edges) := by
  unfold StandingFirst
  infer_instance

theorem standing_before_split {entry : Type} {cond : entry -> Bool} {entries : List entry}
    (h : entries.Pairwise fun earlier later => cond later = true -> cond earlier = true) :
    entries = entries.filter cond ++ entries.filter fun e => !cond e := by
  induction entries with
  | nil => rfl
  | cons first rest ih =>
      rw [List.pairwise_cons] at h
      cases hfirst : cond first with
      | true => simpa [hfirst] using ih h.2
      | false =>
          have hnone : rest.filter cond = [] := by
            rw [List.filter_eq_nil_iff]
            intro other hother hcond
            have htrue := h.1 other hother hcond
            rw [hfirst] at htrue
            exact Bool.false_ne_true htrue
          have hall : (rest.filter fun e => !cond e) = rest := by
            have hrest := ih h.2
            rw [hnone, List.nil_append] at hrest
            exact hrest.symm
          simp [hfirst, hnone, hall]

theorem assertChain_append (first second : List Timed) (chain : Option Relationship) :
    assertChain (first ++ second) chain =
      ((assertChain second (assertChain first chain).1).1,
        (assertChain first chain).2 ++ (assertChain second (assertChain first chain).1).2) := by
  induction first generalizing chain with
  | nil => rfl
  | cons item rest ih =>
      rcases item with ⟨now, asked, place⟩
      simp [assertChain, ih]

theorem assertChain_standing {items : List Timed} {chain : Option Relationship}
    (h : forall item, item ∈ items -> (standingOf chain item.2.1).isSome) :
    (assertChain items chain).1 = chain ∧
      (assertChain items chain).2 = items.map fun item =>
        (item.2.2, (assertOne 0 item.2.1 chain).2) := by
  induction items with
  | nil => exact ⟨rfl, rfl⟩
  | cons item rest ih =>
      rcases item with ⟨now, asked, place⟩
      rcases Option.isSome_iff_exists.mp (h _ List.mem_cons_self) with ⟨version, hversion⟩
      rcases ih fun other hmem => h other (List.mem_cons_of_mem _ hmem) with ⟨hleft, hanswers⟩
      constructor
      · rw [assertChain, assertOne_standing hversion]
        exact hleft
      · rw [assertChain, assertOne_standing hversion, List.map_cons,
          assertOne_standing hversion]
        simp [hanswers]

theorem lookup_undated (answers : List (Nat × Assertion)) (place : Nat) :
    (answers.lookup place).map Assertion.undated =
      (answers.map fun answer => (answer.1, answer.2.undated)).lookup place := by
  induction answers with
  | nil => rfl
  | cons first rest ih =>
      rcases first with ⟨here, answer⟩
      rw [List.map_cons, List.lookup_cons, List.lookup_cons]
      cases place == here with
      | true => rfl
      | false => exact ih

def undatedChains (ledger : Ledger) (edge : Edge) : Option Relationship :=
  (ledger.find edge).map Relationship.undated

def atZero (items : List Item) : List Timed := items.map fun item => (0, item)

theorem ofEdge_undatedItems (edge : Edge) (items : List Timed) :
    ofEdge edge (undatedItems items) = atZero (itemsOf edge (items.map Prod.snd)) := by
  unfold ofEdge undatedItems atZero itemsOf
  rw [List.filter_map, List.filter_map, List.map_map]
  rfl

theorem leftBy_followed (items : List Timed) (ledger : Ledger) (edge : Edge) :
    (leftBy items ledger.find edge).map Relationship.undated =
      (assertChain (atZero (itemsOf edge (items.map Prod.snd)))
        (undatedChains ledger edge)).1 := by
  rw [leftBy_undated, leftBy_eq_chain, ofEdge_undatedItems]
  rfl

theorem lookup_followed (items : List Timed) (ledger : Ledger) (edge : Edge) (place : Nat)
    (hplace : forall item, item ∈ items -> item.2.2 = place -> item.2.1.edge = edge) :
    ((answersOf items ledger.find).lookup place).map Assertion.undated =
      (assertChain (atZero (itemsOf edge (items.map Prod.snd)))
        (undatedChains ledger edge)).2.lookup place := by
  rw [lookup_undated, answersOf_undated, lookup_answersOf _ _ edge place, ofEdge_undatedItems]
  · rfl
  · intro item hitem
    rcases List.mem_map.mp hitem with ⟨entry, hentry, rfl⟩
    exact hplace entry hentry

theorem standingOf_undated (ledger : Ledger) (asked : Asked) :
    standingOf (undatedChains ledger asked.edge) asked =
      (standing ledger asked).map RelationshipVersion.undated := by
  rw [standing_eq, undatedChains]
  cases ledger.find asked.edge with
  | none => rfl
  | some relationship => exact standing_undated relationship asked.claim

def StandingFirstOn (ledger : Ledger) (edges : List Asked) (edge : Edge) : Prop :=
  (itemsOf edge edges.zipIdx).Pairwise fun earlier later =>
    (standing ledger later.1).isSome -> (standing ledger earlier.1).isSome

theorem standingFirstOn_of_standingFirst {ledger : Ledger} {edges : List Asked}
    (h : StandingFirst ledger edges) (edge : Edge) : StandingFirstOn ledger edges edge := by
  have hzip : edges.zipIdx.Pairwise fun earlier later =>
      later.1.edge = earlier.1.edge ->
        (standing ledger later.1).isSome -> (standing ledger earlier.1).isSome := by
    have hasked : (edges.zipIdx.map Prod.fst).Pairwise fun earlier later =>
        later.edge = earlier.edge ->
          (standing ledger later).isSome -> (standing ledger earlier).isSome := by
      rw [List.zipIdx_map_fst]
      exact h
    exact List.pairwise_map.mp hasked
  apply (hzip.sublist List.filter_sublist).imp_of_mem
  intro earlier later hearlier hlater himp
  have hfirst : earlier.1.edge = edge := by simpa using (List.mem_filter.mp hearlier).2
  have hsecond : later.1.edge = edge := by simpa using (List.mem_filter.mp hlater).2
  exact himp (hsecond.trans hfirst.symm)

def answered (ledger : Ledger) (edges : List Asked) (edge : Edge) : List Item :=
  (itemsOf edge edges.zipIdx).filter fun item => (standing ledger item.1).isSome

/-- The entries of a call for one edge: the ones it answers from its read, then the rest. -/
theorem itemsOf_split {ledger : Ledger} {edges : List Asked} {edge : Edge}
    (h : StandingFirstOn ledger edges edge) :
    itemsOf edge edges.zipIdx =
      answered ledger edges edge ++ itemsOf edge (unanswered ledger edges) := by
  have hrest : itemsOf edge (unanswered ledger edges) =
      (itemsOf edge edges.zipIdx).filter fun item => !(standing ledger item.1).isSome := by
    unfold itemsOf unanswered
    rw [List.filter_filter, List.filter_filter]
    apply List.filter_congr
    intro item _
    rw [Bool.and_comm, Option.not_isSome]
  rw [hrest]
  exact standing_before_split h

theorem zipIdx_places_nodup (edges : List Asked) : (edges.zipIdx.map Prod.snd).Nodup := by
  rw [List.zipIdx_map_snd]
  exact List.nodup_range'

theorem zipIdx_edge_of_place {edges : List Asked} {item other : Item}
    (hitem : item ∈ edges.zipIdx) (hother : other ∈ edges.zipIdx) (hplace : other.2 = item.2) :
    other = item :=
  List.inj_on_of_nodup_map (zipIdx_places_nodup edges) hother hitem hplace

theorem lookup_eq_none {answers : List (Nat × Assertion)} {place : Nat}
    (hnot : place ∉ answers.map Prod.fst) : answers.lookup place = none := by
  rw [List.lookup_eq_none_iff]
  intro answer hmem
  rw [bne_iff_ne]
  intro hsame
  exact hnot (hsame ▸ List.mem_map_of_mem hmem)

theorem map_some_eq_lookup {answers : List (Nat × Assertion)}
    (hnodup : (answers.map Prod.fst).Nodup) :
    (answers.map Prod.snd).map some =
      (answers.map Prod.fst).map fun place => answers.lookup place := by
  rw [List.map_map, List.map_map]
  exact List.map_congr_left fun answer hmem => (lookup_of_nodup hmem hnodup).symm

theorem assertChain_answered (ledger : Ledger) (edges : List Asked) (edge : Edge) :
    assertChain (atZero (answered ledger edges edge)) (undatedChains ledger edge) =
      (undatedChains ledger edge,
        (answered ledger edges edge).map fun item =>
          (item.2, (assertOne 0 item.1 (undatedChains ledger edge)).2)) := by
  have hstanding : forall item, item ∈ atZero (answered ledger edges edge) ->
      (standingOf (undatedChains ledger edge) item.2.1).isSome := by
    intro item hitem
    rcases List.mem_map.mp hitem with ⟨entry, hentry, rfl⟩
    rcases List.mem_filter.mp hentry with ⟨hown, hstands⟩
    have hedge : entry.1.edge = edge := by simpa using (List.mem_filter.mp hown).2
    rw [← hedge, standingOf_undated, Option.isSome_map]
    exact hstands
  have h := assertChain_standing hstanding
  refine Prod.ext h.1 (h.2.trans ?_)
  rw [atZero, List.map_map]
  rfl

theorem assertChain_split {ledger : Ledger} {edges : List Asked} {edge : Edge}
    (h : StandingFirstOn ledger edges edge) :
    assertChain (atZero (itemsOf edge edges.zipIdx)) (undatedChains ledger edge) =
      ((assertChain (atZero (itemsOf edge (unanswered ledger edges)))
          (undatedChains ledger edge)).1,
        (answered ledger edges edge).map (fun item =>
            (item.2, (assertOne 0 item.1 (undatedChains ledger edge)).2)) ++
          (assertChain (atZero (itemsOf edge (unanswered ledger edges)))
            (undatedChains ledger edge)).2) := by
  have hsplit : atZero (itemsOf edge edges.zipIdx) =
      atZero (answered ledger edges edge) ++ atZero (itemsOf edge (unanswered ledger edges)) := by
    rw [itemsOf_split h]
    exact List.map_append
  rw [hsplit, assertChain_append, assertChain_answered]

theorem places_timedItems (times : Nat -> Instant) (items : List Item)
    (chains : Edge -> Option Relationship) :
    (answersOf (timedItems times items) chains).map Prod.fst = items.map Prod.snd := by
  rw [answersOf_places, timedItems, List.map_map]
  rfl

theorem answer_followed {ledger : Ledger} {edges : List Asked} (times : Nat -> Instant)
    {timed : List Timed} (hitems : forall edge, itemsOf edge (timed.map Prod.snd) =
      itemsOf edge (unanswered ledger edges)) {item : Item} (hitem : item ∈ edges.zipIdx)
    (h : StandingFirstOn ledger edges item.1.edge) :
    (answerOf ledger (answersOf timed ledger.find) item).map Assertion.undated =
      ((answersOf (timedItems times edges.zipIdx) ledger.find).lookup item.2).map
        Assertion.undated := by
  have hentries : (timedItems times edges.zipIdx).map Prod.snd = edges.zipIdx := by
    simp [timedItems, Function.comp_def]
  have hsingly := lookup_followed (timedItems times edges.zipIdx) ledger item.1.edge item.2 (by
    intro entry hentry hplace
    rcases List.mem_map.mp hentry with ⟨other, hother, rfl⟩
    rw [zipIdx_edge_of_place hitem hother hplace])
  rw [hentries, assertChain_split h, List.lookup_append] at hsingly
  rw [hsingly]
  cases hstanding : standing ledger item.1 with
  | some version =>
      have hmem : item ∈ answered ledger edges item.1.edge := by
        refine List.mem_filter.mpr ⟨List.mem_filter.mpr ⟨hitem, by simp⟩, ?_⟩
        simp [hstanding]
      have hstands : standingOf (undatedChains ledger item.1.edge) item.1 =
          some version.undated := by
        rw [standingOf_undated, hstanding]
        rfl
      have hnodup : (((answered ledger edges item.1.edge).map fun entry =>
          (entry.2, (assertOne 0 entry.1 (undatedChains ledger item.1.edge)).2)).map
            Prod.fst).Nodup := by
        rw [List.map_map]
        exact (zipIdx_places_nodup edges).sublist
          ((List.filter_sublist.trans List.filter_sublist).map Prod.snd)
      have hfound := lookup_of_nodup (List.mem_map_of_mem hmem) hnodup
      rw [hfound, assertOne_standing hstands, answerOf, hstanding]
      rfl
  | none =>
      have hnot : item.2 ∉ ((answered ledger edges item.1.edge).map fun entry =>
          (entry.2, (assertOne 0 entry.1 (undatedChains ledger item.1.edge)).2)).map
            Prod.fst := by
        intro hmem
        rw [List.map_map] at hmem
        rcases List.mem_map.mp hmem with ⟨entry, hentry, hplace⟩
        rcases List.mem_filter.mp hentry with ⟨hown, hstands⟩
        have hsame := zipIdx_edge_of_place hitem (List.mem_filter.mp hown).1 hplace
        rw [hsame, hstanding] at hstands
        simp at hstands
      have hbatch := lookup_followed timed ledger item.1.edge item.2 (by
        intro entry hentry hplace
        have hown : entry.2 ∈ itemsOf entry.2.1.edge (timed.map Prod.snd) :=
          List.mem_filter.mpr ⟨List.mem_map_of_mem hentry, by simp⟩
        rw [hitems] at hown
        have hplaced := (List.mem_filter.mp (List.mem_filter.mp hown).1).1
        rw [zipIdx_edge_of_place hitem hplaced hplace])
      rw [hitems] at hbatch
      rw [lookup_eq_none hnot, Option.none_or, answerOf, hstanding]
      exact hbatch

theorem assertEdges_same_of_standingFirst (clock times : Nat -> Instant) (edges : List Asked)
    (ledger : Ledger) (h : StandingFirst ledger edges) :
    SameOutcome (assertEdges clock edges ledger) (assertSingly times edges.zipIdx ledger) := by
  rcases assertEdges_eq clock edges ledger with
    ⟨final, answers, timed, hbatch, hitems, hfinal, hanswers⟩
  rcases assertSingly_eq times edges.zipIdx ledger with ⟨final', hsingly, hfinal'⟩
  have hentries : (timedItems times edges.zipIdx).map Prod.snd = edges.zipIdx := by
    simp [timedItems, Function.comp_def]
  have hplaces := places_timedItems times edges.zipIdx ledger.find
  have hsome := map_some_eq_lookup (hplaces ▸ zipIdx_places_nodup edges)
  rw [hplaces] at hsome
  refine ⟨final, answers, final', _, hbatch, hsingly, ?_, ?_⟩
  · refine List.map_injective_iff.mpr (Option.some_injective _) ?_
    calc
      (answers.map Assertion.undated).map some =
          (answers.map some).map (Option.map Assertion.undated) := by simp
      _ = edges.zipIdx.map fun item =>
          (answerOf ledger (answersOf timed ledger.find) item).map Assertion.undated := by
        rw [hanswers, List.map_map]
        rfl
      _ = edges.zipIdx.map fun item =>
          ((answersOf (timedItems times edges.zipIdx) ledger.find).lookup item.2).map
            Assertion.undated :=
        List.map_congr_left fun item hitem =>
          answer_followed times hitems hitem (standingFirstOn_of_standingFirst h item.1.edge)
      _ = (((answersOf (timedItems times edges.zipIdx) ledger.find).map Prod.snd).map
          some).map (Option.map Assertion.undated) := by
        rw [hsome, List.map_map, List.map_map]
        rfl
      _ = (((answersOf (timedItems times edges.zipIdx) ledger.find).map Prod.snd).map
          Assertion.undated).map some := by simp
  · intro edge
    rw [hfinal, hfinal', leftBy_followed, leftBy_followed, hentries, hitems,
      assertChain_split (standingFirstOn_of_standingFirst h edge)]

theorem answersOf_getElem? (items : List Timed) (chains : Edge -> Option Relationship)
    (n : Nat) :
    (answersOf items chains)[n]? =
      items[n]?.map fun item =>
        (item.2.2, (assertOne item.1 item.2.1
          (leftBy (items.take n) chains item.2.1.edge)).2) := by
  induction items generalizing chains n with
  | nil => rfl
  | cons item rest ih =>
      rcases item with ⟨now, asked, place⟩
      cases n with
      | zero => rfl
      | succ m =>
          rw [answersOf, List.getElem?_cons_succ, ih, List.getElem?_cons_succ,
            List.take_succ_cons]
          rfl

theorem standingFirst_of_same (clock times : Nat -> Instant) (edges : List Asked)
    (ledger : Ledger)
    (h : SameOutcome (assertEdges clock edges ledger) (assertSingly times edges.zipIdx ledger)) :
    StandingFirst ledger edges := by
  rcases assertEdges_eq clock edges ledger with
    ⟨final, answers, timed, hbatch, _, _, hanswers⟩
  rcases assertSingly_eq times edges.zipIdx ledger with ⟨final', hsingly, _⟩
  rcases h with ⟨_, _, _, _, hfirst, hsecond, hsame, _⟩
  rw [hbatch] at hfirst
  rw [hsingly] at hsecond
  cases hfirst
  cases hsecond
  refine List.pairwise_iff_getElem.mpr ?_
  intro i j hi hj hij hedge hstands
  by_contra hnot
  rcases Option.isSome_iff_exists.mp hstands with ⟨version, hversion⟩
  have hread : answers[j]? = some (Assertion.unchanged version) := by
    have hat := congrArg (fun list => list[j]?) hanswers
    simpa [answerOf, hversion, hj] using hat
  have hlater : (timedItems times edges.zipIdx)[j]? = some (times j, (edges[j], j)) := by
    simp [timedItems, hj]
  have hearlier : (times i, (edges[i], i)) ∈ (timedItems times edges.zipIdx).take j := by
    refine List.mem_iff_getElem?.mpr ⟨i, ?_⟩
    simp [timedItems, hi, hij]
  have hless : liveNumber (ledger.find edges[i].edge) <
      liveNumber (leftBy ((timedItems times edges.zipIdx).take j) ledger.find edges[i].edge) :=
    liveNumber_leftBy_lt hearlier (Option.not_isSome_iff_eq_none.mp hnot)
  have hboth := congrArg (fun list => list[j]?) hsame
  simp only [List.getElem?_map, hread, answersOf_getElem?, hlater, Option.map_some,
    Option.some.injEq] at hboth
  rw [← hedge] at hless
  cases hcase : standingOf
      (leftBy ((timedItems times edges.zipIdx).take j) ledger.find edges[j].edge) edges[j] with
  | none =>
      rw [assertOne_appending hcase] at hboth
      simp [Assertion.undated] at hboth
  | some other =>
      rw [assertOne_standing hcase] at hboth
      have hnumber : version.version = other.version := by
        have hundated := congrArg RelationshipVersion.version (Assertion.unchanged.inj hboth)
        exact hundated
      rw [← standing_number hcase, ← standing_number hversion, hnumber] at hless
      exact Nat.lt_irrefl _ hless

/--
One call is its claims one at a time exactly when no claim that the version live at
the start makes comes after a claim of the same edge that it does not make.
-/
theorem assertEdges_same_iff (clock times : Nat -> Instant) (edges : List Asked)
    (ledger : Ledger) :
    SameOutcome (assertEdges clock edges ledger) (assertSingly times edges.zipIdx ledger) <->
      StandingFirst ledger edges :=
  ⟨standingFirst_of_same clock times edges ledger,
    assertEdges_same_of_standingFirst clock times edges ledger⟩

/-!
## An entry answered too soon
-/

def linkedEdge : Edge :=
  { fromTopic := 1, toTopic := 2, kind := EdgeKind.relatedTo, distinct := by decide }

def linkedVersion : RelationshipVersion :=
  { id := 20, relationshipId := 10, version := 1, validity := Validity.ALWAYS, createdAt := 0
    invalidatedAt := none, supersedes := none, causedByTopicState := none
    confidence := Confidence.one, derivation := Derivation.explicit, tombstoneReason := none }

def linkedLedger : Ledger := [{ id := 10, edge := linkedEdge, versions := [linkedVersion] }]

def alternating : List Asked :=
  [{ edge := linkedEdge, claim := EdgeClaim.explicit, relationship := 11, version := 21 },
    { edge := linkedEdge, claim := EdgeClaim.derived 5 Confidence.one, relationship := 12,
      version := 22 },
    { edge := linkedEdge, claim := EdgeClaim.explicit, relationship := 13, version := 23 }]

/-- One call leaves the derived claim live; three calls leave the link live. -/
theorem alternating_claims_part :
    ¬ SameOutcome (assertEdges (fun _ => 1) alternating linkedLedger)
      (assertSingly (fun _ => 1) alternating.zipIdx linkedLedger) := by
  intro hsame
  have hfirst := standingFirst_of_same (fun _ => 1) (fun _ => 1) alternating linkedLedger hsame
  exact absurd hfirst (by decide)

end Graph
end PaminMemory
