import PaminMemory.Graph.Transactions
import Mathlib.Algebra.BigOperators.Group.Multiset.Basic

/-!
# Calls against ledgers that record alike

A call decides by what is recorded, never by when, so calls against ledgers that
record alike leave ledgers that do and report the same.
-/

namespace PaminMemory
namespace Graph

theorem Alike.symm {first second : Ledger} (h : Alike first second) : Alike second first :=
  fun edge => (h edge).symm

theorem Alike.trans {first second third : Ledger} (h : Alike first second)
    (h' : Alike second third) : Alike first third :=
  fun edge => (h edge).trans (h' edge)

/-- The identity table admits one row for an edge. -/
def Distinct (ledger : Ledger) : Prop := (ledger.map Relationship.edge).Nodup

/-!
## Assertions
-/

theorem standing_isSome (ledger : Ledger) (asked : Asked) :
    (standing ledger asked).isSome =
      (standingOf (undatedChains ledger asked.edge) asked).isSome := by
  rw [standingOf_undated, Option.isSome_map]

theorem unanswered_alike {first second : Ledger} (h : Alike first second)
    (edges : List Asked) : unanswered first edges = unanswered second edges := by
  apply List.filter_congr
  intro item _
  have hsame : (standing first item.1).isSome = (standing second item.1).isSome := by
    rw [standing_isSome, standing_isSome, h item.1.edge]
  cases hfirst : standing first item.1 with
  | none =>
      cases hsecond : standing second item.1 with
      | none => rfl
      | some version => simp [hfirst, hsecond] at hsame
  | some version =>
      cases hsecond : standing second item.1 with
      | none => simp [hfirst, hsecond] at hsame
      | some other => rfl

def followedAnswer (chains : Edge -> Option Relationship) (written : List Item)
    (item : Item) : Option Assertion :=
  match standingOf (chains item.1.edge) item.1 with
  | some version => some (Assertion.unchanged version)
  | none => (assertChain (atZero written) (chains item.1.edge)).2.lookup item.2

theorem edge_of_written {read : Ledger} {edges : List Asked} {timed : List Timed}
    (hitems : forall edge, itemsOf edge (timed.map Prod.snd) =
      itemsOf edge (unanswered read edges)) {item : Item} (hitem : item ∈ edges.zipIdx)
    {entry : Timed} (hentry : entry ∈ timed) (hplace : entry.2.2 = item.2) :
    entry.2.1.edge = item.1.edge := by
  have hown : entry.2 ∈ itemsOf entry.2.1.edge (timed.map Prod.snd) :=
    List.mem_filter.mpr ⟨List.mem_map_of_mem hentry, by simp⟩
  rw [hitems] at hown
  have hplaced := (List.mem_filter.mp (List.mem_filter.mp hown).1).1
  rw [zipIdx_edge_of_place hitem hplaced hplace]

theorem answerOf_followed {ledger : Ledger} {edges : List Asked} {timed : List Timed}
    (hitems : forall edge, itemsOf edge (timed.map Prod.snd) =
      itemsOf edge (unanswered ledger edges)) {item : Item} (hitem : item ∈ edges.zipIdx) :
    (answerOf ledger (answersOf timed ledger.find) item).map Assertion.undated =
      followedAnswer (undatedChains ledger)
        (itemsOf item.1.edge (unanswered ledger edges)) item := by
  unfold answerOf followedAnswer
  rw [standingOf_undated]
  cases hstanding : standing ledger item.1 with
  | some version => rfl
  | none =>
      have hfollowed := lookup_followed timed ledger item.1.edge item.2 fun entry hentry hplace =>
        edge_of_written hitems hitem hentry hplace
      rw [hitems] at hfollowed
      exact hfollowed

theorem map_some_injective {first second : List Assertion}
    (h : first.map some = second.map some) : first = second :=
  List.map_injective_iff.mpr (Option.some_injective _) h

theorem answers_undated {items : List Item} {answers answers' : List Assertion}
    {read read' : Item -> Option Assertion} (h : answers.map some = items.map read)
    (h' : answers'.map some = items.map read')
    (hsame : forall item, item ∈ items ->
      (read item).map Assertion.undated = (read' item).map Assertion.undated) :
    answers.map Assertion.undated = answers'.map Assertion.undated := by
  apply map_some_injective
  calc
    (answers.map Assertion.undated).map some =
        (answers.map some).map (Option.map Assertion.undated) := by simp
    _ = items.map fun item => (read item).map Assertion.undated := by
      rw [h, List.map_map]
      rfl
    _ = items.map fun item => (read' item).map Assertion.undated :=
      List.map_congr_left hsame
    _ = (answers'.map some).map (Option.map Assertion.undated) := by
      rw [h', List.map_map]
      rfl
    _ = (answers'.map Assertion.undated).map some := by simp

theorem assertEdges_alike (clock : Nat -> Instant) (edges : List Asked)
    {first second : Ledger} (h : Alike first second) :
    exists final answers final' answers',
      assertEdges clock edges first = some (final, answers) ∧
        assertEdges clock edges second = some (final', answers') ∧
          Alike final final' ∧
            answers.map Assertion.undated = answers'.map Assertion.undated := by
  rcases assertEdges_eq clock edges first with
    ⟨final, answers, timed, hcall, hitems, hfinal, hanswers⟩
  rcases assertEdges_eq clock edges second with
    ⟨final', answers', timed', hcall', hitems', hfinal', hanswers'⟩
  have hchains : undatedChains first = undatedChains second := funext h
  refine ⟨final, answers, final', answers', hcall, hcall', ?_, ?_⟩
  · intro edge
    unfold undatedChains
    rw [hfinal, hfinal', leftBy_followed, leftBy_followed, hitems, hitems',
      unanswered_alike h, h edge]
  · apply answers_undated hanswers hanswers'
    intro item hitem
    rw [answerOf_followed hitems hitem, answerOf_followed hitems' hitem, hchains,
      unanswered_alike h]

theorem mapM_some {first second : Type} {f : first -> Option second} {entries : List first}
    {answers : List second} (h : entries.mapM f = some answers) :
    answers.map some = entries.map f := by
  induction entries generalizing answers with
  | nil =>
      cases h
      rfl
  | cons entry rest ih =>
      rw [List.mapM_cons] at h
      cases hentry : f entry with
      | none => simp [hentry] at h
      | some answer =>
          cases hrest : rest.mapM f with
          | none => simp [hentry, hrest] at h
          | some later =>
              have hsame : answer :: later = answers := by simpa [hentry, hrest] using h
              rw [← hsame, List.map_cons, List.map_cons, ih hrest, hentry]

theorem standing_liveAt (ledger : Ledger) (asked : Asked) :
    standing ledger asked =
      (liveAt ledger asked.edge).filter fun version => asked.claim.Matches version := by
  unfold standing liveAt
  cases ledger.find asked.edge with
  | none => rfl
  | some relationship => rfl

theorem itemsOf_unanswered (ledger : Ledger) (edges : List Asked) (edge : Edge) :
    itemsOf edge (unanswered ledger edges) =
      (itemsOf edge edges.zipIdx).filter fun item => (standing ledger item.1).isNone := by
  unfold itemsOf unanswered
  rw [List.filter_filter, List.filter_filter]
  apply List.filter_congr
  intro item _
  rw [Bool.and_comm]

theorem edge_of_itemsOf {edge : Edge} {items : List Item} {item : Item}
    (h : item ∈ itemsOf edge items) : item.1.edge = edge := by
  simpa using (List.mem_filter.mp h).2

theorem itemsOf_unanswered_of_live {read ledger : Ledger} {edge : Edge}
    (h : liveAt read edge = liveAt ledger edge) (edges : List Asked) :
    itemsOf edge (unanswered read edges) = itemsOf edge (unanswered ledger edges) := by
  rw [itemsOf_unanswered, itemsOf_unanswered]
  apply List.filter_congr
  intro item hitem
  rw [standing_liveAt, standing_liveAt, edge_of_itemsOf hitem, h]

theorem itemsOf_unanswered_of_none {read : Ledger} {edges : List Asked} {edge : Edge}
    (h : forall asked, asked ∈ edges -> asked.edge = edge -> standing read asked = none) :
    itemsOf edge (unanswered read edges) = itemsOf edge edges.zipIdx := by
  rw [itemsOf_unanswered, List.filter_eq_self]
  intro item hitem
  have hasked : item.1 ∈ edges := by
    have hmem : item.1 ∈ edges.zipIdx.map Prod.fst :=
      List.mem_map_of_mem (List.mem_filter.mp hitem).1
    rwa [List.zipIdx_map_fst] at hmem
  rw [h item.1 hasked (edge_of_itemsOf hitem)]
  rfl

theorem itemsOf_zipIdx_nil {edges : List Asked} {edge : Edge}
    (h : edge ∉ edges.map Asked.edge) : itemsOf edge edges.zipIdx = [] := by
  apply itemsOf_eq_nil
  unfold edgesOf
  intro hmem
  rcases List.mem_map.mp hmem with ⟨item, hitem, hedge⟩
  have hasked : item.1 ∈ edges.zipIdx.map Prod.fst := List.mem_map_of_mem hitem
  rw [List.zipIdx_map_fst] at hasked
  exact h (List.mem_map.mpr ⟨item.1, hasked, hedge⟩)

theorem chain_of_undisturbed {read ledger : Ledger} {edges : List Asked} {edge : Edge}
    (h : edge ∈ edges.map Asked.edge -> Undisturbed read ledger edges edge) :
    (assertChain (atZero (itemsOf edge (unanswered read edges)))
        (undatedChains ledger edge)).1 =
      (assertChain (atZero (itemsOf edge (unanswered ledger edges)))
        (undatedChains ledger edge)).1 := by
  by_cases hasked : edge ∈ edges.map Asked.edge
  · rcases h hasked with hlive | ⟨hnone, hfirst⟩
    · rw [itemsOf_unanswered_of_live hlive]
    · rw [itemsOf_unanswered_of_none hnone, assertChain_split hfirst]
  · have hnothing := itemsOf_zipIdx_nil hasked
    rw [itemsOf_unanswered, itemsOf_unanswered, hnothing]
    rfl

theorem answer_of_undisturbed {read ledger : Ledger} {edges : List Asked}
    {timed : List Timed} (hitems : forall edge, itemsOf edge (timed.map Prod.snd) =
      itemsOf edge (unanswered read edges)) {item : Item} (hitem : item ∈ edges.zipIdx)
    (h : Undisturbed read ledger edges item.1.edge) :
    (answerOf read (answersOf timed ledger.find) item).map Assertion.undated =
      followedAnswer (undatedChains ledger)
        (itemsOf item.1.edge (unanswered ledger edges)) item := by
  have hfollowed := lookup_followed timed ledger item.1.edge item.2 fun entry hentry hplace =>
    edge_of_written hitems hitem hentry hplace
  rw [hitems] at hfollowed
  have hasked : item.1 ∈ edges.zipIdx.map Prod.fst := List.mem_map_of_mem hitem
  rw [List.zipIdx_map_fst] at hasked
  rcases h with hlive | ⟨hnone, hfirst⟩
  · have hstanding : standing read item.1 = standing ledger item.1 := by
      rw [standing_liveAt, standing_liveAt, hlive]
    rw [itemsOf_unanswered_of_live hlive] at hfollowed
    unfold answerOf followedAnswer
    rw [standingOf_undated, hstanding]
    cases standing ledger item.1 with
    | some version => rfl
    | none => exact hfollowed
  · rcases assertEdges_eq (fun _ => 0) edges ledger with ⟨_, _, alone, _, halone, _, _⟩
    rw [itemsOf_unanswered_of_none hnone] at hfollowed
    have hsingly := lookup_followed (timedItems (fun _ => 0) edges.zipIdx) ledger item.1.edge
      item.2 (by
        intro entry hentry hplace
        rcases List.mem_map.mp hentry with ⟨other, hother, rfl⟩
        rw [zipIdx_edge_of_place hitem hother hplace])
    have hentries : (timedItems (fun _ => 0) edges.zipIdx).map Prod.snd = edges.zipIdx := by
      simp [timedItems, Function.comp_def]
    rw [hentries] at hsingly
    have hread : answerOf read (answersOf timed ledger.find) item =
        (answersOf timed ledger.find).lookup item.2 := by
      unfold answerOf
      rw [hnone item.1 hasked rfl]
    rw [hread, hfollowed, ← hsingly, ← answer_followed (fun _ => 0) halone hitem hfirst,
      answerOf_followed halone hitem]

theorem committed_as_alone (clock : Nat -> Instant) {edges : List Asked}
    {read ledger final : Ledger} {timed : List Timed} {answers : List Assertion}
    (hitems : forall edge, itemsOf edge (timed.map Prod.snd) =
      itemsOf edge (unanswered read edges))
    (hfinal : forall edge, final.find edge = leftBy timed ledger.find edge)
    (hcollect : collect read edges (answersOf timed ledger.find) = some answers)
    (h : forall asked, asked ∈ edges -> Undisturbed read ledger edges asked.edge) :
    exists alone answers', assertEdges clock edges ledger = some (alone, answers') ∧
      Alike alone final ∧
        answers'.map Assertion.undated = answers.map Assertion.undated := by
  rcases assertEdges_eq clock edges ledger with
    ⟨alone, answers', timed', hcall, hitems', hfinal', hanswers'⟩
  refine ⟨alone, answers', hcall, ?_, ?_⟩
  · intro edge
    unfold undatedChains
    rw [hfinal, hfinal', leftBy_followed, leftBy_followed, hitems, hitems',
      ← chain_of_undisturbed]
    intro hasked
    rcases List.mem_map.mp hasked with ⟨asked, hmem, rfl⟩
    exact h asked hmem
  · apply answers_undated hanswers' (mapM_some hcollect)
    intro item hitem
    have hasked : item.1 ∈ edges.zipIdx.map Prod.fst := List.mem_map_of_mem hitem
    rw [List.zipIdx_map_fst] at hasked
    rw [answerOf_followed hitems' hitem]
    exact (answer_of_undisturbed hitems hitem (h item.1 hasked)).symm

/-!
## Closings
-/

theorem find_of_mem {ledger : Ledger} (hdistinct : Distinct ledger)
    {relationship : Relationship} (hmem : relationship ∈ ledger) :
    ledger.find relationship.edge = some relationship := by
  cases hfind : ledger.find relationship.edge with
  | none =>
      have hnone := List.find?_eq_none.mp hfind relationship hmem
      simp at hnone
  | some other =>
      have hother : other ∈ ledger := List.mem_of_find?_eq_some hfind
      rw [List.inj_on_of_nodup_map hdistinct hother hmem (edge_of_find hfind)]

theorem mem_of_find {ledger : Ledger} {edge : Edge} {relationship : Relationship}
    (h : ledger.find edge = some relationship) : relationship ∈ ledger :=
  List.mem_of_find?_eq_some h

theorem edges_undated (ledger : Ledger) :
    (ledger.map Relationship.undated).map Relationship.edge = ledger.map Relationship.edge := by
  rw [List.map_map]
  rfl

theorem perm_of_alike {first second : Ledger} (h : Alike first second)
    (hfirst : Distinct first) (hsecond : Distinct second) :
    (first.map Relationship.undated).Perm (second.map Relationship.undated) := by
  have hnodup : forall ledger, Distinct ledger ->
      (ledger.map Relationship.undated).Nodup := by
    intro ledger hdistinct
    apply List.Nodup.of_map Relationship.edge
    rw [edges_undated]
    exact hdistinct
  have hsub : forall left right : Ledger, Alike left right -> Distinct left ->
      forall relationship, relationship ∈ left.map Relationship.undated ->
        relationship ∈ right.map Relationship.undated := by
    intro left right halike hleft relationship hmem
    rcases List.mem_map.mp hmem with ⟨old, hold, rfl⟩
    have hsame := halike old.edge
    unfold undatedChains at hsame
    rw [find_of_mem hleft hold, Option.map_some] at hsame
    rcases Option.map_eq_some_iff.mp hsame.symm with ⟨other, hother, hundated⟩
    exact List.mem_map.mpr ⟨other, mem_of_find hother, hundated⟩
  rw [List.perm_ext_iff_of_nodup (hnodup first hfirst) (hnodup second hsecond)]
  intro relationship
  exact ⟨hsub first second h hfirst relationship, hsub second first h.symm hsecond relationship⟩

theorem picks_undated (statement : Closing) (version : RelationshipVersion) :
    statement.picks version.undated = statement.picks version := by
  cases statement with
  | edge now edge reason => rfl
  | derived now kind keep => rfl

theorem closing_undated (statement : Closing) (relationship : Relationship) :
    relationship.undated.closing statement.picks = relationship.closing statement.picks := by
  unfold Relationship.closing Relationship.undated
  rw [List.filter_map, List.length_map]
  congr 1
  apply List.filter_congr
  intro version _
  show (version.undated.isLive && statement.picks version.undated) = _
  rw [isLive_undated, picks_undated]

theorem close_undated (statement : Closing) (relationship : Relationship) :
    (relationship.close statement.now statement.reason statement.picks).undated =
      relationship.undated.close 0 statement.reason statement.picks := by
  unfold Relationship.close Relationship.undated
  simp only [List.map_map]
  congr 1
  apply List.map_congr_left
  intro version _
  show RelationshipVersion.undated (if version.isLive && statement.picks version then _ else _) =
    if version.undated.isLive && statement.picks version.undated then _ else _
  rw [isLive_undated, picks_undated]
  split
  · rfl
  · rfl

def Closing.run (statement : Closing) (ledger : Ledger) : Ledger × Nat :=
  closeWhere statement.now statement.reason statement.scope statement.picks ledger

theorem call_close_run (statement : Closing) (ledger : Ledger) :
    (Call.close statement).run ledger =
      some ((statement.run ledger).1, statement.report (statement.run ledger).2) := by
  cases statement with
  | edge now edge reason => rfl
  | derived now kind keep => rfl

theorem edge_closing (statement : Closing) (relationship : Relationship) :
    (if statement.scope relationship.edge then
        relationship.close statement.now statement.reason statement.picks
      else relationship).edge = relationship.edge := by
  split
  · rfl
  · rfl

theorem undatedChains_closing (statement : Closing) (ledger : Ledger) (edge : Edge) :
    undatedChains (statement.run ledger).1 edge =
      (undatedChains ledger edge).map fun relationship =>
        if statement.scope edge then
          relationship.close 0 statement.reason statement.picks
        else relationship := by
  unfold undatedChains Closing.run closeWhere
  rw [find_map (edge_closing statement)]
  cases hfind : ledger.find edge with
  | none => rfl
  | some relationship =>
      rw [Option.map_some, Option.map_some, Option.map_some, Option.map_some,
        edge_of_find hfind]
      by_cases hscope : statement.scope edge
      · simp [hscope, close_undated]
      · simp [hscope]

theorem count_closing (statement : Closing) (ledger : Ledger) :
    (statement.run ledger).2 =
      (((ledger.map Relationship.undated).filter fun relationship =>
        statement.scope relationship.edge).map
          (Relationship.closing statement.picks)).sum := by
  rw [List.filter_map, List.map_map]
  show ((ledger.filter fun relationship => statement.scope relationship.edge).map
    (Relationship.closing statement.picks)).sum = _
  congr 1
  apply List.map_congr_left
  intro relationship _
  exact (closing_undated statement relationship).symm

theorem closing_alike (statement : Closing) {first second : Ledger} (h : Alike first second)
    (hfirst : Distinct first) (hsecond : Distinct second) :
    Alike (statement.run first).1 (statement.run second).1 ∧
      (statement.run first).2 = (statement.run second).2 := by
  constructor
  · intro edge
    rw [undatedChains_closing, undatedChains_closing, h edge]
  · rw [count_closing, count_closing]
    exact (((perm_of_alike h hfirst hsecond).filter _).map _).sum_eq

theorem closing_distinct (statement : Closing) {ledger : Ledger} (h : Distinct ledger) :
    Distinct (statement.run ledger).1 := by
  unfold Distinct Closing.run closeWhere
  rw [List.map_map]
  have hsame : (ledger.map (Relationship.edge ∘ fun relationship =>
      if statement.scope relationship.edge then
        relationship.close statement.now statement.reason statement.picks
      else relationship)) = ledger.map Relationship.edge :=
    List.map_congr_left fun relationship _ => edge_closing statement relationship
  rw [hsame]
  exact h

/-!
## A closing statement that saw everything
-/

theorem dooms_scope {snapshot : Ledger} {statement : Closing} {edge : Edge}
    (h : statement.scope edge = false) : Dooms snapshot statement edge = false := by
  unfold Dooms
  rw [h]
  rfl

theorem dooms_of_seen {snapshot : Ledger} {statement : Closing} {edge : Edge}
    {version : RelationshipVersion} (hscope : statement.scope edge = true)
    (hseen : Seen snapshot statement edge version = true) :
    Dooms snapshot statement edge = true := by
  unfold Seen at hseen
  unfold Dooms
  rw [hscope]
  cases hfind : snapshot.find edge with
  | none => simp [hfind] at hseen
  | some relationship =>
      rw [hfind] at hseen
      cases statement with
      | edge now wanted reason => rfl
      | derived now kind keep =>
          rcases List.any_eq_true.mp hseen with ⟨seen, hmem, hboth⟩
          simp only [Bool.and_eq_true] at hboth
          simp only [Bool.true_and]
          exact List.any_eq_true.mpr ⟨seen, hmem, by
            rw [Bool.and_eq_true]
            exact ⟨hboth.1.2, hboth.2⟩⟩

theorem picks_seen {snapshot ledger : Ledger} {statement : Closing}
    (h : SeesAll snapshot ledger statement) {relationship : Relationship}
    (hmem : relationship ∈ ledger) (hscope : statement.scope relationship.edge = true)
    {version : RelationshipVersion} (hversion : version ∈ relationship.versions) :
    (version.isLive && (statement.picks version &&
        Seen snapshot statement relationship.edge version)) =
      (version.isLive && statement.picks version) := by
  cases hlive : version.isLive with
  | false => rfl
  | true =>
      cases hpick : statement.picks version with
      | false => rfl
      | true =>
          rw [h relationship hmem hscope version hversion hlive hpick]
          rfl

theorem nothing_picked {snapshot ledger : Ledger} {statement : Closing}
    (h : SeesAll snapshot ledger statement) {relationship : Relationship}
    (hmem : relationship ∈ ledger) (hscope : statement.scope relationship.edge = true)
    (hspared : Dooms snapshot statement relationship.edge = false)
    {version : RelationshipVersion} (hversion : version ∈ relationship.versions) :
    (version.isLive && statement.picks version) = false := by
  cases hlive : version.isLive with
  | false => rfl
  | true =>
      cases hpick : statement.picks version with
      | false => rfl
      | true =>
          have hseen := h relationship hmem hscope version hversion hlive hpick
          rw [dooms_of_seen hscope hseen] at hspared
          cases hspared

theorem closeSeen_eq {snapshot ledger : Ledger} {statement : Closing}
    (h : SeesAll snapshot ledger statement) {relationship : Relationship}
    (hmem : relationship ∈ ledger) :
    closeSeen snapshot statement relationship =
      if statement.scope relationship.edge then
        relationship.close statement.now statement.reason statement.picks
      else relationship := by
  unfold closeSeen
  cases hscope : statement.scope relationship.edge with
  | false =>
      rw [dooms_scope hscope]
      rfl
  | true =>
      cases hdooms : Dooms snapshot statement relationship.edge with
      | true =>
          simp only [if_true, Relationship.close, Relationship.mk.injEq, true_and]
          apply List.map_congr_left
          intro version hversion
          rw [picks_seen h hmem hscope hversion]
      | false =>
          have hsame : (relationship.versions.map fun version =>
              if version.isLive && statement.picks version then
                version.close statement.now statement.reason
              else version) = relationship.versions.map id := by
            apply List.map_congr_left
            intro version hversion
            rw [nothing_picked h hmem hscope hdooms hversion]
            rfl
          show relationship = { relationship with versions := _ }
          rw [hsame, List.map_id]

theorem closingSeen_eq {snapshot ledger : Ledger} {statement : Closing}
    (h : SeesAll snapshot ledger statement) {relationship : Relationship}
    (hmem : relationship ∈ ledger) :
    closingSeen snapshot statement relationship =
      if statement.scope relationship.edge then relationship.closing statement.picks
      else 0 := by
  unfold closingSeen
  cases hscope : statement.scope relationship.edge with
  | false =>
      rw [dooms_scope hscope]
      rfl
  | true =>
      cases hdooms : Dooms snapshot statement relationship.edge with
      | true =>
          simp only [if_true, Relationship.closing]
          congr 1
          apply List.filter_congr
          intro version hversion
          exact picks_seen h hmem hscope hversion
      | false =>
          have hnone : (relationship.versions.filter fun version =>
              version.isLive && statement.picks version) = [] := by
            rw [List.filter_eq_nil_iff]
            intro version hversion
            rw [nothing_picked h hmem hscope hdooms hversion]
            exact Bool.false_ne_true
          simp [Relationship.closing, hnone]

theorem sum_map_ite (scope : Edge -> Bool) (count : Relationship -> Nat) (ledger : Ledger) :
    (ledger.map fun relationship =>
        if scope relationship.edge then count relationship else 0).sum =
      ((ledger.filter fun relationship => scope relationship.edge).map count).sum := by
  induction ledger with
  | nil => rfl
  | cons relationship rest ih =>
      cases hscope : scope relationship.edge with
      | true => simp [hscope, ih]
      | false => simp [hscope, ih]

theorem closing_as_alone {snapshot ledger : Ledger} {statement : Closing}
    (h : SeesAll snapshot ledger statement) :
    (ledger.map (closeSeen snapshot statement),
        (ledger.map (closingSeen snapshot statement)).sum) = statement.run ledger := by
  unfold Closing.run closeWhere
  rw [List.map_congr_left fun relationship hmem => closeSeen_eq h hmem,
    List.map_congr_left fun relationship hmem => closingSeen_eq h hmem,
    sum_map_ite statement.scope (Relationship.closing statement.picks)]

end Graph
end PaminMemory
