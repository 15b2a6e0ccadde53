import PaminMemory.Graph.Serial
import Mathlib.Data.List.Permutation

/-!
# Every interleaving of the calls

A transaction's locks keep the edges it wrote as they were, so what it committed
is what it read under them.  What it decided before its locks is covered by
`DecidedUnderLock`: where that holds, the order the calls returned in explains
what was recorded and reported.
-/

namespace PaminMemory
namespace Graph

open Foundation

/-!
## A transaction's own view
-/

theorem find_filter_edge (cond : Edge -> Bool) (ledger : Ledger) (edge : Edge) :
    Ledger.find (ledger.filter fun relationship => cond relationship.edge) edge =
      if cond edge then ledger.find edge else none := by
  induction ledger with
  | nil => simp [Ledger.find]
  | cons first rest ih =>
      unfold Ledger.find at ih ⊢
      by_cases hfirst : first.edge = edge
      · subst hfirst
        cases hcond : cond first.edge with
        | true => simp [hcond]
        | false => simpa [hcond] using ih
      · cases hcond : cond first.edge with
        | true => simpa [hcond, hfirst] using ih
        | false => simpa [hcond, hfirst] using ih

theorem overlay_edge (own : Ledger) (relationship : Relationship) :
    ((own.find relationship.edge).getD relationship).edge = relationship.edge := by
  cases hfind : own.find relationship.edge with
  | none => rfl
  | some other => exact edge_of_find hfind

theorem find_overlay (own ledger : Ledger) (edge : Edge) :
    (overlay own ledger).find edge = (own.find edge).or (ledger.find edge) := by
  unfold overlay
  rw [find_append, find_map (overlay_edge own),
    find_filter_edge (fun edge => (ledger.find edge).isNone)]
  cases hfind : ledger.find edge with
  | none => simp
  | some relationship =>
      rw [Option.map_some, edge_of_find hfind]
      cases own.find edge with
      | none => rfl
      | some other => rfl

theorem overlay_distinct {own ledger : Ledger} (hown : Distinct own)
    (hledger : Distinct ledger) : Distinct (overlay own ledger) := by
  unfold Distinct overlay
  have hsame : (ledger.map fun relationship =>
      (own.find relationship.edge).getD relationship).map Relationship.edge =
        ledger.map Relationship.edge := by
    rw [List.map_map]
    exact List.map_congr_left fun relationship _ => overlay_edge own relationship
  rw [List.map_append, hsame]
  apply List.Nodup.append hledger
  · exact hown.sublist (List.filter_sublist.map Relationship.edge)
  · intro edge hleft hright
    rcases List.mem_map.mp hright with ⟨relationship, hmem, rfl⟩
    rcases List.mem_map.mp hleft with ⟨other, hother, hedge⟩
    have hnone := (List.mem_filter.mp hmem).2
    rw [← hedge, find_of_mem hledger hother] at hnone
    cases hnone

theorem find_none_of_not_held {own : Ledger} {edge : Edge}
    (h : forall relationship, relationship ∈ own -> relationship.edge ≠ edge) :
    own.find edge = none := by
  cases hfind : own.find edge with
  | none => rfl
  | some relationship =>
      exact absurd (edge_of_find hfind) (h relationship (mem_of_find hfind))

theorem writeDecided_edges {now : Instant} {decided : List Decided} {ledger final : Ledger}
    {answers : List Assertion} (h : writeDecided now decided ledger = some (final, answers)) :
    final.map Relationship.edge = ledger.map Relationship.edge := by
  unfold writeDecided at h
  cases hanswers : decided.mapM (answerDecided now ledger) with
  | none => simp [hanswers] at h
  | some found =>
      rw [hanswers] at h
      cases h
      unfold appendVersions
      rw [List.map_map]
      exact List.map_congr_left fun relationship _ => appendFrom_edge _ _ relationship

theorem answersOf_congr {items : List Timed} {chains chains' : Edge -> Option Relationship}
    (h : forall item, item ∈ items -> chains item.2.1.edge = chains' item.2.1.edge) :
    answersOf items chains = answersOf items chains' := by
  induction items generalizing chains chains' with
  | nil => rfl
  | cons item rest ih =>
      rcases item with ⟨now, asked, place⟩
      have hhere := h _ List.mem_cons_self
      rw [answersOf, answersOf, hhere]
      congr 1
      apply ih
      intro other hother
      by_cases hedge : other.2.1.edge = asked.edge
      · rw [hedge, Function.update_self, Function.update_self]
      · rw [Function.update_of_ne hedge, Function.update_of_ne hedge]
        exact h other (List.mem_cons_of_mem _ hother)

theorem leftBy_congr {items : List Timed} {chains chains' : Edge -> Option Relationship}
    {edge : Edge} (h : chains edge = chains' edge) :
    leftBy items chains edge = leftBy items chains' edge := by
  rw [leftBy_eq_chain, leftBy_eq_chain, h]

theorem leftBy_of_not_mem {items : List Timed} (chains : Edge -> Option Relationship)
    {edge : Edge} (h : forall item, item ∈ items -> item.2.1.edge ≠ edge) :
    leftBy items chains edge = chains edge := by
  have hnone : ofEdge edge items = [] := by
    unfold ofEdge
    rw [List.filter_eq_nil_iff]
    intro item hitem hedge
    exact h item hitem (by simpa using hedge)
  rw [leftBy_eq_chain, hnone]
  rfl

/-!
## What a transaction has written
-/

def Viewed (own ledger : Ledger) (timed : List Timed) (rounds : List (List Item))
    (edge : Edge) : Prop :=
  ((overlay own ledger).find edge = leftBy timed ledger.find edge ∧
      ((overlay own ledger).find edge).isSome) ∨
    exists round rest item, rounds = round :: rest ∧ item ∈ round ∧ item.1.edge = edge ∧
      leftBy timed ledger.find edge = none ∧
        (overlay own ledger).find edge = some (created item.1)

theorem viewed_congr {own own' ledger ledger' : Ledger} {timed : List Timed}
    {rounds : List (List Item)} {edge : Edge} (h : Viewed own ledger timed rounds edge)
    (hview : (overlay own' ledger').find edge = (overlay own ledger).find edge)
    (hledger : ledger'.find edge = ledger.find edge) :
    Viewed own' ledger' timed rounds edge := by
  unfold Viewed
  rw [hview, leftBy_congr hledger]
  exact h

/-- Where an assertion stands: the entries written so far were written in order. -/
structure Drafting (ledger : Ledger) (locks : List (Edge × Nat)) (id : Nat)
    (state : Asserting) (timed : List Timed) : Prop where
  order : timed.map Prod.snd ++ state.rounds.flatten =
    (repeatsApart (unanswered state.read state.edges)).flatten
  roundsDistinct : forall round, round ∈ state.rounds -> (edgesOf round).Nodup
  timedHeld : forall item, item ∈ timed -> (item.2.1.edge, id) ∈ locks
  written : state.written = answersOf timed ledger.find
  ownHeld : forall relationship, relationship ∈ state.own -> (relationship.edge, id) ∈ locks
  ownDistinct : Distinct state.own
  viewed : forall edge, (edge, id) ∈ locks ->
    Viewed state.own ledger timed state.rounds edge
  decided : forall decisions, state.decided = some decisions ->
    exists round rest, state.rounds = round :: rest ∧
      (forall item, item ∈ round -> (item.1.edge, id) ∈ locks) ∧
        decisions = decisionsOf (leftBy timed ledger.find) (round.map Prod.fst)

theorem drafting_congr {ledger ledger' : Ledger} {locks locks' : List (Edge × Nat)} {id : Nat}
    {state : Asserting} {timed : List Timed} (h : Drafting ledger locks id state timed)
    (hlocks : forall edge, (edge, id) ∈ locks' <-> (edge, id) ∈ locks)
    (hledger : forall edge, (edge, id) ∈ locks -> ledger'.find edge = ledger.find edge) :
    Drafting ledger' locks' id state timed := by
  have hview : forall edge, (edge, id) ∈ locks ->
      (overlay state.own ledger').find edge = (overlay state.own ledger).find edge := by
    intro edge hedge
    rw [find_overlay, find_overlay, hledger edge hedge]
  constructor
  case order => exact h.order
  case roundsDistinct => exact h.roundsDistinct
  case timedHeld =>
    intro item hitem
    exact (hlocks _).mpr (h.timedHeld item hitem)
  case written =>
    rw [h.written]
    apply answersOf_congr
    intro item hitem
    exact (hledger _ (h.timedHeld item hitem)).symm
  case ownHeld =>
    intro relationship hmem
    exact (hlocks _).mpr (h.ownHeld relationship hmem)
  case ownDistinct => exact h.ownDistinct
  case viewed =>
    intro edge hedge
    have hheld := (hlocks edge).mp hedge
    exact viewed_congr (h.viewed edge hheld) (hview edge hheld) (hledger edge hheld)
  case decided =>
    intro decisions hdecisions
    rcases h.decided decisions hdecisions with ⟨round, rest, hrounds, hheld, hsame⟩
    refine ⟨round, rest, hrounds, fun item hitem => (hlocks _).mpr (hheld item hitem), ?_⟩
    rw [hsame]
    apply List.map_congr_left
    intro asked hasked
    rcases List.mem_map.mp hasked with ⟨item, hitem, rfl⟩
    rw [leftBy_congr (hledger _ (hheld item hitem))]

theorem viewed_round {ledger : Ledger} {locks : List (Edge × Nat)} {id : Nat}
    {state : Asserting} {timed : List Timed} {round : List Item} {rest : List (List Item)}
    (h : Drafting ledger locks id state timed) (hrounds : state.rounds = round :: rest)
    (hheld : forall item, item ∈ round -> (item.1.edge, id) ∈ locks) {asked : Asked}
    (hasked : asked ∈ round.map Prod.fst) :
    (overlay state.own ledger).find asked.edge =
      some ((leftBy timed ledger.find asked.edge).getD (created asked)) := by
  rcases List.mem_map.mp hasked with ⟨item, hitem, rfl⟩
  rcases h.viewed _ (hheld item hitem) with ⟨hview, hsome⟩ | ⟨round', rest', other, hsame,
    hother, hedge, hnone, hview⟩
  · rw [hview] at hsome ⊢
    rcases Option.isSome_iff_exists.mp hsome with ⟨relationship, hrelationship⟩
    rw [hrelationship]
    rfl
  · rw [hrounds] at hsame
    cases hsame
    have hdistinct := h.roundsDistinct round (by rw [hrounds]; exact List.mem_cons_self)
    have hitems := List.inj_on_of_nodup_map hdistinct hother hitem hedge
    rw [hview, hnone, hitems]
    rfl

theorem drafting_begin (db : Db) (id : Nat) (clock : Nat -> Instant) (edges : List Asked)
    (hfree : forall edge, (edge, id) ∉ db.locks) :
    Drafting db.ledger db.locks id
      { clock := clock, edges := edges, read := db.ledger, done := 0
        rounds := repeatsApart (unanswered db.ledger edges)
        own := [], decided := none, written := [] } [] where
  order := rfl
  roundsDistinct := (repeatsApart_placed _).1
  timedHeld := by simp
  written := rfl
  ownHeld := by simp
  ownDistinct := List.nodup_nil
  viewed := fun edge hedge => absurd hedge (hfree edge)
  decided := by simp

theorem drafting_take {db : Db} {id : Nat} {state : Asserting} {timed : List Timed}
    {round : List Item} {rest : List (List Item)} {item : Item} {edge : Edge}
    (h : Drafting db.ledger db.locks id state timed) (hrounds : state.rounds = round :: rest)
    (hdecided : state.decided = none) (hnew : edge ∉ db.locks.map Prod.fst)
    (hitem : item ∈ round) (hedge : item.1.edge = edge) :
    Drafting db.ledger ((edge, id) :: db.locks) id
      { state with
        own :=
          if ((overlay state.own db.ledger).find edge).isSome then state.own
          else state.own ++ [created item.1] } timed := by
  have hnotHeld : forall other, (other, id) ∈ db.locks -> other ≠ edge := by
    intro other hother hsame
    exact hnew (List.mem_map.mpr ⟨(other, id), hother, hsame⟩)
  have hownNone : state.own.find edge = none :=
    find_none_of_not_held fun relationship hmem => hnotHeld _ (h.ownHeld relationship hmem)
  have hleft : leftBy timed db.ledger.find edge = db.ledger.find edge :=
    leftBy_of_not_mem _ fun item hitem => hnotHeld _ (h.timedHeld item hitem)
  have hviewEdge : (overlay state.own db.ledger).find edge = db.ledger.find edge := by
    rw [find_overlay, hownNone]
    rfl
  have hcreated : Ledger.find [created item.1] edge = some (created item.1) := by
    simp [Ledger.find, created, hedge]
  have hcreatedOther : forall other, other ≠ edge ->
      Ledger.find [created item.1] other = none := by
    intro other hother
    have hne : ¬ edge = other := fun hsame => hother hsame.symm
    simp [Ledger.find, created, hedge, hne]
  cases hfind : db.ledger.find edge with
  | some relationship =>
      rw [hviewEdge, hfind]
      constructor
      case order => exact h.order
      case roundsDistinct => exact h.roundsDistinct
      case timedHeld => exact fun item hitem => List.mem_cons_of_mem _ (h.timedHeld item hitem)
      case written => exact h.written
      case ownHeld =>
        exact fun relationship hmem => List.mem_cons_of_mem _ (h.ownHeld relationship hmem)
      case ownDistinct => exact h.ownDistinct
      case viewed =>
        intro other hother
        rcases List.mem_cons.mp hother with hsame | hheld
        · cases hsame
          refine Or.inl ⟨?_, ?_⟩
          · show (overlay state.own db.ledger).find edge = _
            rw [hviewEdge, hleft]
          · show ((overlay state.own db.ledger).find edge).isSome
            rw [hviewEdge, hfind]
            rfl
        · exact h.viewed other hheld
      case decided =>
        intro decisions hdecisions
        rw [hdecided] at hdecisions
        cases hdecisions
  | none =>
      rw [hviewEdge, hfind]
      constructor
      case order => exact h.order
      case roundsDistinct => exact h.roundsDistinct
      case timedHeld => exact fun item hitem => List.mem_cons_of_mem _ (h.timedHeld item hitem)
      case written => exact h.written
      case ownHeld =>
        intro relationship hmem
        rcases List.mem_append.mp hmem with hold | hnew
        · exact List.mem_cons_of_mem _ (h.ownHeld relationship hold)
        · rw [List.mem_singleton.mp hnew]
          show (item.1.edge, id) ∈ _
          rw [hedge]
          exact List.mem_cons_self
      case ownDistinct =>
        show ((state.own ++ [created item.1]).map Relationship.edge).Nodup
        rw [List.map_append, List.map_singleton, ← List.concat_eq_append]
        apply List.Nodup.concat
        · intro hmem
          rcases List.mem_map.mp hmem with ⟨relationship, hrelationship, hsame⟩
          exact hnotHeld _ (h.ownHeld relationship hrelationship) (hsame.trans hedge)
        · exact h.ownDistinct
      case viewed =>
        intro other hother
        rcases List.mem_cons.mp hother with hsame | hheld
        · cases hsame
          refine Or.inr ⟨round, rest, item, hrounds, hitem, hedge, ?_, ?_⟩
          · rw [hleft, hfind]
          · show (overlay (state.own ++ [created item.1]) db.ledger).find edge = _
            rw [find_overlay, find_append, hownNone, hcreated]
            rfl
        · have hview : (overlay (state.own ++ [created item.1]) db.ledger).find other =
              (overlay state.own db.ledger).find other := by
            rw [find_overlay, find_overlay, find_append, hcreatedOther other
              (hnotHeld other hheld), Option.or_none]
          exact viewed_congr (h.viewed other hheld) hview rfl
      case decided =>
        intro decisions hdecisions
        rw [hdecided] at hdecisions
        cases hdecisions

theorem drafting_look {db : Db} {id : Nat} {state : Asserting} {timed : List Timed}
    {round : List Item} {rest : List (List Item)} {decisions : List Decided}
    (h : Drafting db.ledger db.locks id state timed) (hrounds : state.rounds = round :: rest)
    (hheld : forall item, item ∈ round -> (item.1.edge, id) ∈ db.locks)
    (hread : readLive (round.map Prod.fst) (overlay state.own db.ledger) = some decisions) :
    Drafting db.ledger db.locks id { state with decided := some decisions } timed where
  order := h.order
  roundsDistinct := h.roundsDistinct
  timedHeld := h.timedHeld
  written := h.written
  ownHeld := h.ownHeld
  ownDistinct := h.ownDistinct
  viewed := h.viewed
  decided := by
    intro decisions' hsame
    cases hsame
    refine ⟨round, rest, hrounds, hheld, ?_⟩
    rw [readLive_eq fun asked hasked => viewed_round h hrounds hheld hasked] at hread
    exact (Option.some.inj hread).symm

theorem find_overlay_held {own ledger final : Ledger} {locks : List (Edge × Nat)} {id : Nat}
    (hown : forall relationship, relationship ∈ own -> (relationship.edge, id) ∈ locks)
    (hsome : forall edge, (edge, id) ∈ locks -> (final.find edge).isSome)
    (hother : forall edge, (edge, id) ∉ locks ->
      final.find edge = (overlay own ledger).find edge) (edge : Edge) :
    (overlay (final.filter fun relationship => (relationship.edge, id) ∈ locks) ledger).find
        edge = final.find edge := by
  rw [find_overlay, find_filter_edge fun edge => (edge, id) ∈ locks]
  by_cases hheld : (edge, id) ∈ locks
  · rcases Option.isSome_iff_exists.mp (hsome edge hheld) with ⟨relationship, hfind⟩
    simp [hheld, hfind]
  · have hnone : own.find edge = none := by
      apply find_none_of_not_held
      intro relationship hmem hsame
      exact hheld (hsame ▸ hown relationship hmem)
    rw [hother edge hheld, find_overlay, hnone]
    simp [hheld]

theorem drafting_write {db : Db} {id : Nat} {state : Asserting} {timed : List Timed}
    {round : List Item} {rest : List (List Item)} {decisions : List Decided} {now : Instant}
    {final : Ledger} {answers : List Assertion} (hdistinct : Distinct db.ledger)
    (h : Drafting db.ledger db.locks id state timed) (hrounds : state.rounds = round :: rest)
    (hdecided : state.decided = some decisions)
    (hwrite : writeDecided now decisions (overlay state.own db.ledger) =
      some (final, answers)) :
    Drafting db.ledger db.locks id
      { state with
        done := state.done + 1
        rounds := rest
        own := final.filter fun relationship => (relationship.edge, id) ∈ db.locks
        decided := none
        written := state.written ++ (round.map Prod.snd).zip answers }
      (timed ++ round.map fun item => (now, item)) := by
  rcases h.decided decisions hdecided with ⟨round', rest', hsame, hheld, hdecisions⟩
  rw [hrounds] at hsame
  cases hsame
  have hround := h.roundsDistinct round (by rw [hrounds]; exact List.mem_cons_self)
  have hasked : ((round.map Prod.fst).map Asked.edge).Nodup := by
    rw [List.map_map]
    exact hround
  rcases writeDecided_eq now hasked fun asked hmem => viewed_round h hrounds hheld hmem with
    ⟨final', hwrite', hwritten, hkept⟩
  have hedges := writeDecided_edges hwrite
  rw [hdecisions, hwrite'] at hwrite
  cases hwrite
  have houtside : forall edge, edge ∉ edgesOf round ->
      final.find edge = (overlay state.own db.ledger).find edge := by
    intro edge hedge
    apply hkept
    rw [List.map_map]
    exact hedge
  have hinside : forall item, item ∈ round ->
      final.find item.1.edge =
        (assertOne now item.1 (leftBy timed db.ledger.find item.1.edge)).1 :=
    fun item hitem => hwritten item.1 (List.mem_map_of_mem hitem)
  have hsome : forall edge, (edge, id) ∈ db.locks -> (final.find edge).isSome := by
    intro edge hedge
    by_cases hmem : edge ∈ edgesOf round
    · rcases List.mem_map.mp hmem with ⟨item, hitem, rfl⟩
      rw [hinside item hitem]
      rfl
    · rw [houtside edge hmem]
      rcases h.viewed edge hedge with ⟨_, hsome⟩ | ⟨_, _, _, _, _, _, _, hview⟩
      · exact hsome
      · rw [hview]
        rfl
  have hview := find_overlay_held h.ownHeld hsome (by
    intro edge hedge
    apply houtside
    intro hmem
    rcases List.mem_map.mp hmem with ⟨item, hitem, rfl⟩
    exact hedge (hheld item hitem))
  constructor
  case order =>
    rw [← h.order, hrounds]
    simp [Function.comp_def]
  case roundsDistinct =>
    intro other hother
    exact h.roundsDistinct other (by rw [hrounds]; exact List.mem_cons_of_mem _ hother)
  case timedHeld =>
    intro item hitem
    rcases List.mem_append.mp hitem with hold | hnew
    · exact h.timedHeld item hold
    · rcases List.mem_map.mp hnew with ⟨entry, hentry, rfl⟩
      exact hheld entry hentry
  case written =>
    rw [answersOf_append, answersOf_distinct now _ hround, h.written, List.map_map,
      List.zip_map']
    rfl
  case ownHeld =>
    intro relationship hmem
    simpa using (List.mem_filter.mp hmem).2
  case ownDistinct =>
    have hall : Distinct final := by
      unfold Distinct
      rw [hedges]
      exact overlay_distinct h.ownDistinct hdistinct
    exact hall.sublist (List.filter_sublist.map Relationship.edge)
  case viewed =>
    intro edge hedge
    refine Or.inl ⟨?_, ?_⟩
    · rw [hview, leftBy_append]
      by_cases hmem : edge ∈ edgesOf round
      · rcases List.mem_map.mp hmem with ⟨item, hitem, rfl⟩
        rw [hinside item hitem, (leftBy_distinct now _ hround).2 item hitem]
      · rw [(leftBy_distinct now _ hround).1 edge hmem, houtside edge hmem]
        rcases h.viewed edge hedge with ⟨hsame, _⟩ | ⟨round', rest', item, hthere, hitem,
          hitemEdge, _⟩
        · exact hsame
        · rw [hrounds] at hthere
          cases hthere
          exact absurd (List.mem_map.mpr ⟨item, hitem, hitemEdge⟩) hmem
    · rw [hview]
      exact hsome edge hedge
  case decided =>
    intro decisions' hsame
    cases hsame

theorem drafting_finished {ledger : Ledger} {locks : List (Edge × Nat)} {id : Nat}
    {state : Asserting} {timed : List Timed} (h : Drafting ledger locks id state timed)
    (hrounds : state.rounds = []) :
    (forall edge, itemsOf edge (timed.map Prod.snd) =
        itemsOf edge (unanswered state.read state.edges)) ∧
      forall edge, (overlay state.own ledger).find edge = leftBy timed ledger.find edge := by
  constructor
  · intro edge
    have horder := h.order
    rw [hrounds, List.flatten_nil, List.append_nil] at horder
    rw [horder]
    exact (repeatsApart_placed _).2 edge
  · intro edge
    by_cases hheld : (edge, id) ∈ locks
    · rcases h.viewed edge hheld with ⟨hsame, _⟩ | ⟨round, rest, _, hthere, _⟩
      · exact hsame
      · rw [hrounds] at hthere
        cases hthere
    · have hnone : state.own.find edge = none := by
        apply find_none_of_not_held
        intro relationship hmem hsame
        exact hheld (hsame ▸ h.ownHeld relationship hmem)
      rw [find_overlay, hnone, leftBy_of_not_mem]
      · rfl
      · intro item hitem hsame
        exact hheld (hsame ▸ h.timedHeld item hitem)

/-!
## The identity table keeps one row for an edge
-/

theorem createIdentity_distinct {ledger : Ledger} (h : Distinct ledger) (asked : Asked) :
    Distinct (createIdentity ledger asked) := by
  unfold createIdentity
  cases hfind : ledger.find asked.edge with
  | some relationship => simpa using h
  | none =>
      show ((ledger ++ [created asked]).map Relationship.edge).Nodup
      rw [List.map_append, List.map_singleton, ← List.concat_eq_append]
      apply List.Nodup.concat
      · intro hmem
        rcases List.mem_map.mp hmem with ⟨relationship, hrelationship, hsame⟩
        have hedge : relationship.edge = asked.edge := hsame
        rw [← hedge, find_of_mem h hrelationship] at hfind
        cases hfind
      · exact h

theorem createIdentities_distinct {ledger : Ledger} (h : Distinct ledger)
    (round : List Asked) : Distinct (round.foldl createIdentity ledger) := by
  induction round generalizing ledger with
  | nil => exact h
  | cons asked rest ih => exact ih (createIdentity_distinct h asked)

theorem assertWithin_distinct {now : Instant} {round : List Asked} {ledger final : Ledger}
    {answers : List Assertion} (h : Distinct ledger)
    (hwithin : assertWithin now round ledger = some (final, answers)) : Distinct final := by
  unfold assertWithin at hwithin
  cases hread : readLive round (round.foldl createIdentity ledger) with
  | none => simp [hread] at hwithin
  | some decided =>
      simp only [hread] at hwithin
      unfold Distinct
      rw [writeDecided_edges hwithin]
      exact createIdentities_distinct h round

theorem assertRounds_distinct {clock : Nat -> Instant} {n : Nat} {rounds : List (List Item)}
    {ledger final : Ledger} {written : List (Nat × Assertion)} (h : Distinct ledger)
    (hrounds : assertRounds clock n rounds ledger = some (final, written)) :
    Distinct final := by
  induction rounds generalizing n ledger written with
  | nil =>
      cases hrounds
      exact h
  | cons round rest ih =>
      rw [assertRounds] at hrounds
      cases hwithin : assertWithin (clock n) (round.map Prod.fst) ledger with
      | none => simp [hwithin] at hrounds
      | some result =>
          rcases result with ⟨between, answers⟩
          simp only [hwithin] at hrounds
          cases hrest : assertRounds clock (n + 1) rest between with
          | none => simp [hrest] at hrounds
          | some later =>
              rcases later with ⟨last, answers'⟩
              simp only [hrest] at hrounds
              cases hrounds
              exact ih (assertWithin_distinct h hwithin) hrest

theorem assertEdges_distinct {clock : Nat -> Instant} {edges : List Asked}
    {ledger final : Ledger} {answers : List Assertion} (h : Distinct ledger)
    (hcall : assertEdges clock edges ledger = some (final, answers)) : Distinct final := by
  unfold assertEdges at hcall
  cases hrounds : assertRounds clock 0 (repeatsApart (unanswered ledger edges)) ledger with
  | none => simp [hrounds] at hcall
  | some result =>
      rcases result with ⟨last, written⟩
      simp only [hrounds] at hcall
      cases hcollect : collect ledger edges written with
      | none => simp [hcollect] at hcall
      | some found =>
          simp only [hcollect] at hcall
          cases hcall
          exact assertRounds_distinct h hrounds

/-!
## The order the calls returned in
-/

theorem replay_snoc {calls : List Call} {call : Call} {start final final' : Ledger}
    {outcomes : List Outcome} {outcome : Outcome}
    (h : replay calls start = some (final, outcomes))
    (hcall : call.run final = some (final', outcome)) :
    replay (calls ++ [call]) start = some (final', outcomes ++ [outcome]) := by
  induction calls generalizing start outcomes with
  | nil =>
      cases h
      simp [replay, hcall]
  | cons first rest ih =>
      rw [replay] at h
      cases hfirst : first.run start with
      | none => simp [hfirst] at h
      | some result =>
          rcases result with ⟨between, outcome'⟩
          simp only [hfirst] at h
          cases hrest : replay rest between with
          | none => simp [hrest] at h
          | some later =>
              rcases later with ⟨last, outcomes'⟩
              simp only [hrest] at h
              cases h
              rw [List.cons_append, replay, hfirst]
              simp [ih hrest]

def Explained (start ledger : Ledger) (finished : List (Call × Outcome)) : Prop :=
  exists final outcomes, replay (finished.map Prod.fst) start = some (final, outcomes) ∧
    Alike final ledger ∧ Distinct final ∧
      outcomes.map Outcome.undated = finished.map fun entry => entry.2.undated

theorem explained_return {start ledger ledger' : Ledger} {finished : List (Call × Outcome)}
    {call : Call} {outcome : Outcome} (h : Explained start ledger finished)
    (hcall : forall final, Alike final ledger -> Distinct final ->
      exists final' outcome', call.run final = some (final', outcome') ∧
        Alike final' ledger' ∧ Distinct final' ∧ outcome'.undated = outcome.undated) :
    Explained start ledger' (finished ++ [(call, outcome)]) := by
  rcases h with ⟨final, outcomes, hreplay, halike, hdistinct, houtcomes⟩
  rcases hcall final halike hdistinct with ⟨final', outcome', hrun, halike', hdistinct', hsame⟩
  refine ⟨final', outcomes ++ [outcome'], ?_, halike', hdistinct', ?_⟩
  · rw [List.map_append]
    exact replay_snoc hreplay hrun
  · simp [houtcomes, hsame]

theorem explained_assert {start ledger final : Ledger} {finished : List (Call × Outcome)}
    {clock : Nat -> Instant} {edges : List Asked} {answers : List Assertion}
    (h : Explained start ledger finished)
    (hcall : exists alone answers', assertEdges clock edges ledger = some (alone, answers') ∧
      Alike alone final ∧
        answers'.map Assertion.undated = answers.map Assertion.undated) :
    Explained start final
      (finished ++ [(Call.assert clock edges, Outcome.asserted answers)]) := by
  apply explained_return h
  intro replayed halike hdistinct
  rcases hcall with ⟨alone, answers', halone, hfinal, hanswers⟩
  rcases assertEdges_alike clock edges halike with
    ⟨final', found, alone', found', hrun, halone', hsame, hfound⟩
  rw [halone] at halone'
  cases halone'
  refine ⟨final', Outcome.asserted found, ?_, hsame.trans hfinal,
    assertEdges_distinct hdistinct hrun, ?_⟩
  · simp [Call.run, hrun]
  · show Outcome.asserted _ = Outcome.asserted _
    rw [hfound, hanswers]

theorem explained_close {start ledger : Ledger} {finished : List (Call × Outcome)}
    (statement : Closing) (h : Explained start ledger finished) (hdistinct : Distinct ledger) :
    Explained start (statement.run ledger).1
      (finished ++ [(Call.close statement, statement.report (statement.run ledger).2)]) := by
  apply explained_return h
  intro replayed halike hreplayed
  rcases closing_alike statement halike hreplayed hdistinct with ⟨hfinal, hcount⟩
  refine ⟨(statement.run replayed).1, statement.report (statement.run replayed).2,
    call_close_run statement replayed, hfinal, closing_distinct statement hreplayed, ?_⟩
  rw [hcount]

/-!
## Steps
-/

structure Inv (start : Ledger) (db : Db) : Prop where
  distinct : Distinct db.ledger
  locksDistinct : (db.locks.map Prod.fst).Nodup
  running : forall edge id, (edge, id) ∈ db.locks ->
    db.txns id ≠ Txn.idle ∧ db.txns id ≠ Txn.ended
  explained : Explained start db.ledger db.finished
  drafting : forall id state, db.txns id = Txn.asserting state ->
    exists timed, Drafting db.ledger db.locks id state timed

theorem inv_start {start : Ledger} (h : Distinct start) : Inv start (Db.start start) where
  distinct := h
  locksDistinct := List.nodup_nil
  running := by simp [Db.start]
  explained := ⟨start, [], rfl, fun _ => rfl, h, rfl⟩
  drafting := by simp [Db.start]

theorem mem_release {db : Db} {id : Nat} {edge : Edge} {other : Nat} :
    (edge, other) ∈ db.release id <-> (edge, other) ∈ db.locks ∧ other ≠ id := by
  simp [Db.release]

theorem held_by_one {db : Db} (h : (db.locks.map Prod.fst).Nodup) {edge : Edge}
    {id other : Nat} (hfirst : (edge, id) ∈ db.locks) (hsecond : (edge, other) ∈ db.locks) :
    id = other := by
  have hsame := List.inj_on_of_nodup_map h hfirst hsecond rfl
  exact congrArg Prod.snd hsame

theorem inv_end {start ledger : Ledger} {db : Db} (id : Nat)
    {finished : List (Call × Outcome)} (h : Inv start db) (hdistinct : Distinct ledger)
    (hexplained : Explained start ledger finished)
    (hledger : forall edge other, other ≠ id -> (edge, other) ∈ db.locks ->
      ledger.find edge = db.ledger.find edge) :
    Inv start
      { ledger := ledger, txns := Function.update db.txns id Txn.ended
        locks := db.release id, finished := finished } where
  distinct := hdistinct
  locksDistinct := h.locksDistinct.sublist (List.filter_sublist.map Prod.fst)
  running := by
    intro edge other hheld
    rcases mem_release.mp hheld with ⟨hlock, hother⟩
    show Function.update db.txns id Txn.ended other ≠ _ ∧
      Function.update db.txns id Txn.ended other ≠ _
    rw [Function.update_of_ne hother]
    exact h.running edge other hlock
  explained := hexplained
  drafting := by
    intro other state hstate
    by_cases hother : other = id
    · subst hother
      simp at hstate
    · have hstate : db.txns other = Txn.asserting state := by
        simpa [Function.update_of_ne hother] using hstate
      rcases h.drafting other state hstate with ⟨timed, hdrafting⟩
      refine ⟨timed, drafting_congr hdrafting ?_ fun edge hheld => hledger edge other hother hheld⟩
      intro edge
      rw [mem_release]
      exact ⟨fun hboth => hboth.1, fun hlock => ⟨hlock, hother⟩⟩

theorem inv_move {start : Ledger} {db : Db} {id : Nat} (txn : Txn)
    {locks : List (Edge × Nat)} (h : Inv start db) (hlocks : (locks.map Prod.fst).Nodup)
    (hothers : forall edge other, other ≠ id -> ((edge, other) ∈ locks <-> (edge, other) ∈ db.locks))
    (hrunning : txn ≠ Txn.idle ∧ txn ≠ Txn.ended)
    (hdrafting : forall state, txn = Txn.asserting state ->
      exists timed, Drafting db.ledger locks id state timed) :
    Inv start { db with txns := Function.update db.txns id txn, locks := locks } where
  distinct := h.distinct
  locksDistinct := hlocks
  running := by
    intro edge other hheld
    show Function.update db.txns id txn other ≠ _ ∧ Function.update db.txns id txn other ≠ _
    by_cases hother : other = id
    · rw [hother, Function.update_self]
      exact hrunning
    · rw [Function.update_of_ne hother]
      exact h.running edge other ((hothers edge other hother).mp hheld)
  explained := h.explained
  drafting := by
    intro other state hstate
    by_cases hother : other = id
    · subst hother
      have hstate : txn = Txn.asserting state := by simpa using hstate
      exact hdrafting state hstate
    · have hstate : db.txns other = Txn.asserting state := by
        simpa [Function.update_of_ne hother] using hstate
      rcases h.drafting other state hstate with ⟨timed, hdrafted⟩
      exact ⟨timed, drafting_congr hdrafted (fun edge => hothers edge other hother)
        fun _ _ => rfl⟩

theorem not_held {start : Ledger} {db : Db} {id : Nat} (h : Inv start db)
    (hidle : db.txns id = Txn.idle) (edge : Edge) : (edge, id) ∉ db.locks := by
  intro hheld
  exact (h.running edge id hheld).1 hidle

theorem release_of_not_held {db : Db} {id : Nat} (h : forall edge, (edge, id) ∉ db.locks) :
    db.release id = db.locks := by
  unfold Db.release
  rw [List.filter_eq_self]
  intro lock hlock
  rw [decide_eq_true_eq]
  intro hsame
  exact h lock.1 (by rw [← hsame]; exact hlock)

theorem assertEdges_of_answered (clock : Nat -> Instant) {edges : List Asked} {ledger : Ledger}
    {answers : List Assertion} (hnone : unanswered ledger edges = [])
    (hcollect : collect ledger edges [] = some answers) :
    assertEdges clock edges ledger = some (ledger, answers) := by
  rw [assertEdges, hnone]
  simp [repeatsApart, assertRounds, hcollect]

theorem inv_begin {start : Ledger} {db t : Db} {id : Nat} {call : Call} (h : Inv start db)
    (hidle : db.txns id = Txn.idle) (hstep : db.begin id call = some t) : Inv start t := by
  have hfree := not_held h hidle
  cases call with
  | assert clock edges =>
      unfold Db.begin at hstep
      by_cases hanswered : (unanswered db.ledger edges).isEmpty
      · simp only [hanswered, if_true] at hstep
        cases hcollect : collect db.ledger edges [] with
        | none => simp [hcollect] at hstep
        | some answers =>
            simp only [hcollect, Option.some.injEq] at hstep
            have hcall := assertEdges_of_answered clock
              (List.isEmpty_iff.mp hanswered) hcollect
            have hend := inv_end id h h.distinct
              (explained_assert h.explained ⟨db.ledger, answers, hcall, fun _ => rfl, rfl⟩)
              fun _ _ _ _ => rfl
            rw [release_of_not_held hfree] at hend
            rw [← hstep]
            exact hend
      · simp only [hanswered, Bool.false_eq_true, if_false, Option.some.injEq] at hstep
        rw [← hstep]
        apply inv_move _ h h.locksDistinct
        · exact fun _ _ _ => Iff.rfl
        · exact ⟨Txn.noConfusion, Txn.noConfusion⟩
        · intro state hstate
          cases hstate
          exact ⟨[], drafting_begin db id clock edges hfree⟩
  | close statement =>
      unfold Db.begin at hstep
      cases hstep
      apply inv_move _ h h.locksDistinct
      · exact fun _ _ _ => Iff.rfl
      · exact ⟨Txn.noConfusion, Txn.noConfusion⟩
      · intro state hstate
        cases hstate

theorem inv_take {start : Ledger} {db t : Db} {id : Nat} {edge : Edge} (h : Inv start db)
    (hstep : db.take id edge = some t) : Inv start t := by
  unfold Db.take at hstep
  by_cases hheld : edge ∈ db.locks.map Prod.fst
  · simp [hheld] at hstep
  · simp only [hheld, if_false] at hstep
    have hlocks : (((edge, id) :: db.locks).map Prod.fst).Nodup := by
      rw [List.map_cons, List.nodup_cons]
      exact ⟨hheld, h.locksDistinct⟩
    have hothers : forall other id', id' ≠ id ->
        ((other, id') ∈ (edge, id) :: db.locks <-> (other, id') ∈ db.locks) := by
      intro other id' hne
      simp [hne]
    cases htxn : db.txns id with
    | idle => simp [htxn] at hstep
    | ended => simp [htxn] at hstep
    | asserting state =>
        simp only [htxn] at hstep
        rcases h.drafting id state htxn with ⟨timed, hdrafting⟩
        cases hrounds : state.rounds with
        | nil => simp [hrounds] at hstep
        | cons round rest =>
            cases hdecided : state.decided with
            | some decisions => simp [hrounds, hdecided] at hstep
            | none =>
                simp only [hrounds, hdecided] at hstep
                cases hitem : round.find? fun item => item.1.edge = edge with
                | none => simp [hitem] at hstep
                | some item =>
                    simp only [hitem, Option.some.injEq] at hstep
                    rw [← hstep]
                    apply inv_move _ h hlocks hothers
                    · exact ⟨Txn.noConfusion, Txn.noConfusion⟩
                    · intro state' hstate
                      cases hstate
                      have hedge : item.1.edge = edge := by simpa using List.find?_some hitem
                      have hdraft := drafting_take hdrafting hrounds hdecided hheld
                        (List.mem_of_find?_eq_some hitem) hedge
                      rw [hrounds, hdecided] at hdraft
                      exact ⟨timed, hdraft⟩
    | closing statement snapshot =>
        simp only [htxn] at hstep
        by_cases hdooms : Dooms snapshot statement edge = true
        · simp only [hdooms, if_true, Option.some.injEq] at hstep
          have hmove := inv_move (Txn.closing statement snapshot) h hlocks hothers
            ⟨Txn.noConfusion, Txn.noConfusion⟩
            (fun state hstate => by cases hstate)
          rw [← htxn, Function.update_eq_self] at hmove
          rw [← hstep]
          exact hmove
        · simp [hdooms] at hstep

theorem inv_look {start : Ledger} {db t : Db} {id : Nat} (h : Inv start db)
    (hstep : db.look id = some t) : Inv start t := by
  unfold Db.look at hstep
  cases htxn : db.txns id with
  | idle => simp [htxn] at hstep
  | ended => simp [htxn] at hstep
  | closing statement snapshot => simp [htxn] at hstep
  | asserting state =>
      simp only [htxn] at hstep
      rcases h.drafting id state htxn with ⟨timed, hdrafting⟩
      cases hrounds : state.rounds with
      | nil => simp [hrounds] at hstep
      | cons round rest =>
          cases hdecided : state.decided with
          | some decisions => simp [hrounds, hdecided] at hstep
          | none =>
              simp only [hrounds, hdecided] at hstep
              by_cases hheld : forall item, item ∈ round -> (item.1.edge, id) ∈ db.locks
              · rw [if_pos hheld] at hstep
                cases hread : readLive (round.map Prod.fst) (overlay state.own db.ledger) with
                | none => simp [hread] at hstep
                | some decisions =>
                    simp only [hread, Option.some.injEq] at hstep
                    rw [← hstep]
                    apply inv_move _ h h.locksDistinct
                    · exact fun _ _ _ => Iff.rfl
                    · exact ⟨Txn.noConfusion, Txn.noConfusion⟩
                    · intro state' hstate
                      cases hstate
                      have hdraft := drafting_look hdrafting hrounds hheld hread
                      rw [hrounds] at hdraft
                      exact ⟨timed, hdraft⟩
              · rw [if_neg hheld] at hstep
                cases hstep

theorem inv_write {start : Ledger} {db t : Db} {id : Nat} (h : Inv start db)
    (hstep : db.write id = some t) : Inv start t := by
  unfold Db.write at hstep
  cases htxn : db.txns id with
  | idle => simp [htxn] at hstep
  | ended => simp [htxn] at hstep
  | closing statement snapshot => simp [htxn] at hstep
  | asserting state =>
      simp only [htxn] at hstep
      rcases h.drafting id state htxn with ⟨timed, hdrafting⟩
      cases hrounds : state.rounds with
      | nil => simp [hrounds] at hstep
      | cons round rest =>
          cases hdecided : state.decided with
          | none => simp [hrounds, hdecided] at hstep
          | some decisions =>
              simp only [hrounds, hdecided] at hstep
              cases hwrite : writeDecided (state.clock state.done) decisions
                  (overlay state.own db.ledger) with
              | none => simp [hwrite] at hstep
              | some result =>
                  rcases result with ⟨final, answers⟩
                  simp only [hwrite, Option.some.injEq] at hstep
                  rw [← hstep]
                  apply inv_move _ h h.locksDistinct
                  · exact fun _ _ _ => Iff.rfl
                  · exact ⟨Txn.noConfusion, Txn.noConfusion⟩
                  · intro state' hstate
                    cases hstate
                    exact ⟨_, drafting_write h.distinct hdrafting hrounds hdecided hwrite⟩

theorem dooms_mem {snapshot : Ledger} {statement : Closing} {edge : Edge}
    (h : Dooms snapshot statement edge = true) :
    exists relationship, relationship ∈ snapshot ∧ relationship.edge = edge := by
  unfold Dooms at h
  cases hfind : snapshot.find edge with
  | none => simp [hfind] at h
  | some relationship => exact ⟨relationship, mem_of_find hfind, edge_of_find hfind⟩

theorem closeSeen_edge (snapshot : Ledger) (statement : Closing)
    (relationship : Relationship) :
    (closeSeen snapshot statement relationship).edge = relationship.edge := by
  unfold closeSeen
  split
  · rfl
  · rfl

theorem inv_finish {start : Ledger} {db t : Db} {id : Nat} (h : Inv start db)
    (hdecided : DecidedUnderLock db (Action.finish id)) (hstep : db.finish id = some t) :
    Inv start t := by
  have hstill : (db.txns id).StillSo db.ledger := hdecided
  unfold Db.finish at hstep
  cases htxn : db.txns id with
  | idle => simp [htxn] at hstep
  | ended => simp [htxn] at hstep
  | asserting state =>
      rw [htxn] at hstill
      simp only [htxn] at hstep
      rcases h.drafting id state htxn with ⟨timed, hdrafting⟩
      cases hrounds : state.rounds with
      | cons round rest => simp [hrounds] at hstep
      | nil =>
          cases hcollect : collect state.read state.edges state.written with
          | none => simp [hrounds, hcollect] at hstep
          | some answers =>
              simp only [hrounds, hcollect, Option.some.injEq] at hstep
              rcases drafting_finished hdrafting hrounds with ⟨hitems, hfinal⟩
              rw [hdrafting.written] at hcollect
              have halone := committed_as_alone state.clock hitems hfinal hcollect
                hstill
              rw [← hstep]
              apply inv_end id h
              · exact overlay_distinct hdrafting.ownDistinct h.distinct
              · exact explained_assert h.explained halone
              · intro edge other hother hheld
                have hnone : state.own.find edge = none := by
                  apply find_none_of_not_held
                  intro relationship hmem hsame
                  have hmine := hdrafting.ownHeld relationship hmem
                  rw [hsame] at hmine
                  exact hother (held_by_one h.locksDistinct hheld hmine)
                rw [find_overlay, hnone]
                rfl
  | closing statement snapshot =>
      rw [htxn] at hstill
      simp only [htxn] at hstep
      by_cases hheld : forall relationship, relationship ∈ snapshot ->
          Dooms snapshot statement relationship.edge = true ->
            (relationship.edge, id) ∈ db.locks
      · rw [if_pos hheld] at hstep
        have halone := closing_as_alone hstill
        have hledger := congrArg Prod.fst halone
        have hcount := congrArg Prod.snd halone
        simp only at hledger hcount
        have hexplained := explained_close statement h.explained h.distinct
        have hdistinct := closing_distinct statement h.distinct
        rw [← hledger] at hexplained hdistinct
        rw [← hcount] at hexplained
        cases hstep
        apply inv_end id h hdistinct hexplained
        intro edge other hother hlock
        have hspared : Dooms snapshot statement edge = false := by
          cases hdooms : Dooms snapshot statement edge with
          | false => rfl
          | true =>
              rcases dooms_mem hdooms with ⟨relationship, hmem, rfl⟩
              have hmine := hheld relationship hmem hdooms
              exact absurd (held_by_one h.locksDistinct hlock hmine) hother
        rw [find_map (closeSeen_edge snapshot statement)]
        cases hfind : db.ledger.find edge with
        | none => rfl
        | some relationship =>
            rw [Option.map_some, closeSeen, edge_of_find hfind, hspared]
            rfl
      · rw [if_neg hheld] at hstep
        cases hstep

theorem inv_abort {start : Ledger} {db t : Db} {id : Nat} (h : Inv start db)
    (hstep : db.abort id = some t) : Inv start t := by
  have hend := inv_end id h h.distinct h.explained fun _ _ _ _ => rfl
  unfold Db.abort at hstep
  cases htxn : db.txns id with
  | idle => simp [htxn] at hstep
  | ended => simp [htxn] at hstep
  | asserting state =>
      simp only [htxn, Option.some.injEq] at hstep
      rw [← hstep]
      exact hend
  | closing statement snapshot =>
      simp only [htxn, Option.some.injEq] at hstep
      rw [← hstep]
      exact hend

theorem inv_step (start : Ledger) : PreservedWhen Db.step DecidedUnderLock (Inv start) := by
  intro db action t h hdecided hstep
  cases action with
  | begin id call =>
      unfold Db.step at hstep
      cases htxn : db.txns id with
      | idle =>
          simp only [htxn] at hstep
          exact inv_begin h htxn hstep
      | ended => simp [htxn] at hstep
      | asserting state => simp [htxn] at hstep
      | closing statement snapshot => simp [htxn] at hstep
  | take id edge => exact inv_take h hstep
  | look id => exact inv_look h hstep
  | write id => exact inv_write h hstep
  | finish id => exact inv_finish h hdecided hstep
  | abort id => exact inv_abort h hstep

/-!
## What a closing leaves open
-/

def NothingOpen (ledger : Ledger) (edge : Edge) : Prop :=
  forall relationship, relationship ∈ ledger -> relationship.edge = edge ->
    forall version, version ∈ relationship.versions -> version.isLive = false

/-- A closing of an edge that reports it closed nothing leaves no version live. -/
def NoneLeftBehind (db : Db) (action : Action) : Prop :=
  forall id now edge reason snapshot t, action = Action.finish id ->
    db.txns id = Txn.closing (Closing.edge now edge reason) snapshot ->
      db.step action = some t ->
        t.finished = db.finished ++
            [(Call.close (Closing.edge now edge reason), Outcome.closed false)] ->
          NothingOpen t.ledger edge

theorem close_live (now : Instant) (reason : TombstoneReason) (relationship : Relationship)
    (version : RelationshipVersion)
    (hmem : version ∈ (relationship.close now reason fun _ => true).versions) :
    version.isLive = false := by
  rcases List.mem_map.mp hmem with ⟨old, _, hclosed⟩
  rw [← hclosed]
  cases hlive : old.isLive with
  | false => simpa using hlive
  | true => simp [RelationshipVersion.close, RelationshipVersion.isLive]

theorem nothingOpen_closing {snapshot ledger : Ledger} {now : Instant} {edge : Edge}
    {reason : TombstoneReason}
    (h : SeesAll snapshot ledger (Closing.edge now edge reason)) :
    NothingOpen (ledger.map (closeSeen snapshot (Closing.edge now edge reason))) edge := by
  have hledger := congrArg Prod.fst (closing_as_alone h)
  simp only at hledger
  rw [hledger]
  intro relationship hmem hedge version hversion
  rcases List.mem_map.mp hmem with ⟨old, _, hclosed⟩
  by_cases hold : old.edge = edge
  · have hscope : (Closing.edge now edge reason).scope old.edge = true := by
      simp [Closing.scope, hold]
    rw [hscope] at hclosed
    rw [← hclosed] at hversion
    exact close_live now reason old version hversion
  · have hscope : (Closing.edge now edge reason).scope old.edge = false := by
      simp [Closing.scope, hold]
    rw [hscope] at hclosed
    rw [← hclosed] at hedge
    exact absurd hedge hold

theorem noneLeftBehind_of_decided (db : Db) (action : Action)
    (h : DecidedUnderLock db action) : NoneLeftBehind db action := by
  intro id now edge reason snapshot t haction htxn hstep _
  rw [haction] at h hstep
  have hsees : (db.txns id).StillSo db.ledger := h
  rw [htxn] at hsees
  simp only [Db.step, Db.finish, htxn] at hstep
  split at hstep
  · cases hstep
    exact nothingOpen_closing hsees
  · cases hstep

/--
Where every call decides under its locks, the order the calls returned in explains
the ledger and the reports, and a closing that reports nothing leaves nothing open.
-/
theorem calls_serializable {start : Ledger} {actions : List Action} {db : Db}
    (hdistinct : Distinct start)
    (hrun : RunFrom Db.step (Db.start start) actions = some db)
    (hdecided : Along Db.step DecidedUnderLock (Db.start start) actions) :
    Serializable start db ∧ Along Db.step NoneLeftBehind (Db.start start) actions := by
  have hinv := runFrom_preservedWhen (inv_step start) (inv_start hdistinct) hdecided hrun
  rcases hinv.explained with ⟨final, outcomes, hreplay, halike, _, houtcomes⟩
  constructor
  · exact ⟨db.finished, List.Perm.refl _, final, outcomes, hreplay, halike, houtcomes⟩
  · exact along_mono noneLeftBehind_of_decided hdecided

/-!
## A closing that waits for an assertion
-/

def derivedAgain : List Asked :=
  [{ edge := linkedEdge, claim := EdgeClaim.derived 5 Confidence.one, relationship := 12,
     version := 22 }]

def derivedCall : Call := Call.assert (fun _ => 1) derivedAgain

def closingCall : Call := Call.close (Closing.edge 2 linkedEdge TombstoneReason.closed)

def earlyClosing : List Action :=
  [Action.begin 0 derivedCall, Action.begin 1 closingCall, Action.take 1 linkedEdge,
    Action.finish 1, Action.take 0 linkedEdge, Action.look 0, Action.write 0, Action.finish 0]

theorem calls_serializable_early_closing :
    exists db, RunFrom Db.step (Db.start linkedLedger) earlyClosing = some db ∧
      Serializable linkedLedger db ∧
        Along Db.step NoneLeftBehind (Db.start linkedLedger) earlyClosing := by
  have hruns : (RunFrom Db.step (Db.start linkedLedger) earlyClosing).isSome = true := by
    decide
  rcases Option.isSome_iff_exists.mp hruns with ⟨db, hrun⟩
  exact ⟨db, hrun, calls_serializable (by unfold Distinct; decide) hrun (by decide)⟩

def lateClosing : List Action :=
  [Action.begin 0 derivedCall, Action.take 0 linkedEdge, Action.look 0, Action.write 0,
    Action.begin 1 closingCall, Action.finish 0, Action.take 1 linkedEdge, Action.finish 1]

theorem lateClosing_run :
    exists db answers, RunFrom Db.step (Db.start linkedLedger) lateClosing = some db ∧
      db.finished =
        [(derivedCall, Outcome.asserted answers), (closingCall, Outcome.closed false)] :=
  ⟨_, _, rfl, rfl⟩

/-- In either order, the closing has a version to close. -/
theorem late_closing_unexplained :
    exists db, RunFrom Db.step (Db.start linkedLedger) lateClosing = some db ∧
      ¬ Serializable linkedLedger db := by
  rcases lateClosing_run with ⟨db, answers, hrun, hfinished⟩
  refine ⟨db, hrun, ?_⟩
  rintro ⟨order, hperm, final, outcomes, hreplay, _, houtcomes⟩
  rw [hfinished, List.perm_pair] at hperm
  rcases hperm with rfl | rfl
  · have hreport : (replay [derivedCall, closingCall] linkedLedger).map (fun run => run.2[1]?) =
        some (some (Outcome.closed true)) := by decide
    have hclosed := congrArg (fun list => list[1]?) houtcomes
    rw [List.map_cons, List.map_cons, List.map_nil] at hreplay
    rw [hreplay, Option.map_some, Option.some.injEq] at hreport
    simp [hreport, Outcome.undated] at hclosed
  · have hreport : (replay [closingCall, derivedCall] linkedLedger).map (fun run => run.2[0]?) =
        some (some (Outcome.closed true)) := by decide
    have hclosed := congrArg (fun list => list[0]?) houtcomes
    rw [List.map_cons, List.map_cons, List.map_nil] at hreplay
    rw [hreplay, Option.map_some, Option.some.injEq] at hreport
    simp [hreport, Outcome.undated] at hclosed

end Graph
end PaminMemory
