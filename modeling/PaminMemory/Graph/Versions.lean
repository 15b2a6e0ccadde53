import PaminMemory.Graph.Interleaving

/-!
# The versions of an edge

The versions of an identity are numbered as they were appended, and only the last
can be live.  A version that supersedes another closed it as it began; what is
closed stays as it is.
-/

namespace PaminMemory
namespace Graph

open Foundation

def SupersedesLast (versions : List RelationshipVersion) (version : RelationshipVersion) : Prop :=
  exists last, last ∈ versions ∧ version.supersedes = some last.id ∧
    last.version + 1 = version.version ∧ last.invalidatedAt = some version.createdAt ∧
      last.tombstoneReason = some TombstoneReason.superseded

/-- The versions of one identity, in the order they were appended. -/
structure Chained (relationship : Relationship) : Prop where
  numbered : Contiguous RelationshipVersion.version relationship.versions
    relationship.versions.length
  liveLast : forall version, version ∈ relationship.versions -> version.isLive = true ->
    version.version = relationship.versions.length
  supersedes : forall version, version ∈ relationship.versions -> version.supersedes = none ∨
    SupersedesLast relationship.versions version
  idsUnique : (relationship.versions.map RelationshipVersion.id).Nodup

def FreshVersions (ledger : Ledger) (edges : List Asked) : Prop :=
  (edges.map Asked.version).Nodup ∧ forall asked, asked ∈ edges ->
    forall relationship, relationship ∈ ledger ->
      asked.version ∉ relationship.versions.map RelationshipVersion.id

instance (ledger : Ledger) (edges : List Asked) : Decidable (FreshVersions ledger edges) := by
  unfold FreshVersions
  infer_instance

def Call.drawsFresh (ledger : Ledger) : Call -> Prop
  | assert _ edges => FreshVersions ledger edges
  | close _ => True

instance (ledger : Ledger) : DecidablePred (Call.drawsFresh ledger) := by
  intro call
  cases call <;> (unfold Call.drawsFresh; infer_instance)

def transact (ledger : Ledger) (call : Call) : Option Ledger :=
  if call.drawsFresh ledger then (call.run ledger).map Prod.fst else none

/-!
## One identity
-/

section Identity

variable {relationship : Relationship} {version : RelationshipVersion} {asked : Asked}
  {now : Instant}

theorem chained_created (asked : Asked) : Chained (created asked) where
  numbered := rfl
  liveLast := by simp [created]
  supersedes := by simp [created]
  idsUnique := List.nodup_nil

theorem eq_of_number (h : Chained relationship) {other : RelationshipVersion}
    (hversion : version ∈ relationship.versions) (hother : other ∈ relationship.versions)
    (hnumber : version.version = other.version) : version = other := by
  have hnodup : (relationship.versions.map RelationshipVersion.version).Nodup := by
    rw [h.numbered]
    exact List.nodup_range'
  exact List.inj_on_of_nodup_map hnodup hversion hother hnumber

theorem live_of_isLive (h : Chained relationship) (hversion : version ∈ relationship.versions)
    (hlive : version.isLive = true) : relationship.live = some version := by
  cases hread : relationship.live with
  | none =>
      have hnone := List.argmax_eq_none.mp hread
      have hmem := List.mem_filter.mpr ⟨hversion, hlive⟩
      rw [hnone] at hmem
      cases hmem
  | some read =>
      rcases live_mem hread with ⟨hmem, hopen⟩
      have hnumber := (h.liveLast read hmem hopen).trans (h.liveLast version hversion hlive).symm
      rw [eq_of_number h hmem hversion hnumber]

theorem liveVersions_le (h : Chained relationship) :
    (relationship.versions.filter RelationshipVersion.isLive).length <= 1 := by
  have hnodup : (relationship.versions.filter RelationshipVersion.isLive).Nodup :=
    (List.Nodup.of_map _ h.idsUnique).filter _
  have hsame : forall version,
      version ∈ relationship.versions.filter RelationshipVersion.isLive ->
        some version = relationship.live := by
    intro version hversion
    rcases List.mem_filter.mp hversion with ⟨hmem, hlive⟩
    exact (live_of_isLive h hmem hlive).symm
  cases hfilter : relationship.versions.filter RelationshipVersion.isLive with
  | nil => exact Nat.zero_le 1
  | cons first rest =>
      cases rest with
      | nil => exact Nat.le_refl 1
      | cons second rest =>
          rw [hfilter] at hnodup hsame
          have hfirst := hsame first List.mem_cons_self
          have hsecond := hsame second (List.mem_cons_of_mem _ List.mem_cons_self)
          have heq : first = second := Option.some.inj (hfirst.trans hsecond.symm)
          rw [heq] at hnodup
          exact absurd List.mem_cons_self (List.nodup_cons.mp hnodup).1

structure ClosesLive (update : RelationshipVersion -> RelationshipVersion) : Prop where
  closed : forall version, version.isLive = false -> update version = version
  id : forall version, (update version).id = version.id
  number : forall version, (update version).version = version.version
  createdAt : forall version, (update version).createdAt = version.createdAt
  supersedes : forall version, (update version).supersedes = version.supersedes
  live : forall version, (update version).isLive = true -> update version = version

theorem map_number {update : RelationshipVersion -> RelationshipVersion}
    (h : ClosesLive update) (versions : List RelationshipVersion) :
    (versions.map update).map RelationshipVersion.version =
      versions.map RelationshipVersion.version := by
  rw [List.map_map]
  exact List.map_congr_left fun version _ => h.number version

theorem map_id {update : RelationshipVersion -> RelationshipVersion}
    (h : ClosesLive update) (versions : List RelationshipVersion) :
    (versions.map update).map RelationshipVersion.id =
      versions.map RelationshipVersion.id := by
  rw [List.map_map]
  exact List.map_congr_left fun version _ => h.id version

theorem supersedesLast_closing {update : RelationshipVersion -> RelationshipVersion}
    (hupdate : ClosesLive update) {versions : List RelationshipVersion}
    (h : SupersedesLast versions version) :
    SupersedesLast (versions.map update) (update version) := by
  rcases h with ⟨last, hmem, hsupersedes, hnumber, hended, hreason⟩
  have hclosed : last.isLive = false := by simp [RelationshipVersion.isLive, hended]
  refine ⟨last, List.mem_map.mpr ⟨last, hmem, hupdate.closed last hclosed⟩, ?_, ?_, ?_, hreason⟩
  · rw [hupdate.supersedes, hsupersedes]
  · rw [hupdate.number, hnumber]
  · rw [hupdate.createdAt, hended]

theorem chained_closing {update : RelationshipVersion -> RelationshipVersion}
    (hupdate : ClosesLive update) (h : Chained relationship) :
    Chained { relationship with versions := relationship.versions.map update } where
  numbered := by
    unfold Contiguous
    rw [map_number hupdate, List.length_map]
    exact h.numbered
  liveLast := by
    intro version hversion hlive
    rcases List.mem_map.mp hversion with ⟨old, hold, rfl⟩
    have hsame := hupdate.live old hlive
    rw [hsame] at hlive ⊢
    rw [List.length_map]
    exact h.liveLast old hold hlive
  supersedes := by
    intro version hversion
    rcases List.mem_map.mp hversion with ⟨old, hold, rfl⟩
    rcases h.supersedes old hold with hnone | hlast
    · exact Or.inl ((hupdate.supersedes old).trans hnone)
    · exact Or.inr (supersedesLast_closing hupdate hlast)
  idsUnique := by
    rw [map_id hupdate]
    exact h.idsUnique

theorem superseding_update (now : Instant) (h : Chained relationship) :
    exists update, ClosesLive update ∧
      relationship.superseding now relationship.live = relationship.versions.map update := by
  cases hread : relationship.live with
  | none =>
      refine ⟨id, ?_, (List.map_id _).symm⟩
      exact ⟨fun _ _ => rfl, fun _ => rfl, fun _ => rfl, fun _ => rfl, fun _ => rfl,
        fun _ _ => rfl⟩
  | some read =>
      rcases live_mem hread with ⟨hmem, hopen⟩
      -- An identifier names one version, so only the live one is closed.
      refine ⟨fun version => if version.isLive then Relationship.supersede now read.id version
        else version, ?_, ?_⟩
      · constructor
        case closed =>
          intro version hclosed
          simp [hclosed]
        case live =>
          intro version hlive
          unfold Relationship.supersede at hlive ⊢
          split at hlive
          · split at hlive
            · cases hlive
            · next hne => simp [hne]
          · next hclosed => simp [hclosed]
        all_goals
          intro version
          unfold Relationship.supersede
          split
          · split
            · rfl
            · rfl
          · rfl
      · refine List.map_congr_left fun version hversion => ?_
        split
        · rfl
        · next hclosed =>
            unfold Relationship.supersede
            rw [if_neg]
            intro hid
            have hsame := List.inj_on_of_nodup_map h.idsUnique hversion hmem hid
            rw [hsame] at hclosed
            exact hclosed hopen

theorem superseding_closed (h : Chained relationship)
    (hversion : version ∈ relationship.superseding now relationship.live) :
    version.isLive = false := by
  cases hread : relationship.live with
  | none =>
      rw [hread] at hversion
      by_contra hlive
      have hsome := live_of_isLive h hversion (eq_true_of_ne_false hlive)
      rw [hread] at hsome
      cases hsome
  | some read =>
      rw [hread] at hversion
      rcases List.mem_map.mp hversion with ⟨old, hold, rfl⟩
      unfold Relationship.supersede
      split
      · rfl
      · next hne =>
          by_contra hlive
          have hsome := live_of_isLive h hold (eq_true_of_ne_false hlive)
          rw [hread] at hsome
          exact hne (congrArg RelationshipVersion.id (Option.some.inj hsome)).symm

theorem appending_supersedes (h : Chained relationship) :
    (relationship.appending now asked relationship.live).supersedes = none ∨
      SupersedesLast (relationship.superseding now relationship.live)
        (relationship.appending now asked relationship.live) := by
  cases hread : relationship.live with
  | none => exact Or.inl rfl
  | some read =>
      rcases live_mem hread with ⟨hmem, hopen⟩
      refine Or.inr ⟨Relationship.supersede now read.id read,
        List.mem_map_of_mem hmem, ?_, ?_, ?_, ?_⟩
      · simp [Relationship.appending, Relationship.supersede]
      · have hnext : relationship.nextVersion = relationship.versions.length + 1 :=
          nextNumber_of_contiguous h.numbered
        simp [Relationship.appending, Relationship.supersede, hnext,
          h.liveLast read hmem hopen]
      · simp [Relationship.appending, Relationship.supersede]
      · simp [Relationship.supersede]

theorem chained_append (h : Chained relationship)
    (hfresh : asked.version ∉ relationship.versions.map RelationshipVersion.id) :
    Chained (relationship.append now asked relationship.live) := by
  rcases superseding_update now h with ⟨update, hupdate, hversions⟩
  have hsuperseded := chained_closing hupdate h
  have hnext : relationship.nextVersion = relationship.versions.length + 1 :=
    nextNumber_of_contiguous h.numbered
  constructor
  case numbered =>
    unfold Relationship.append
    rw [hversions, List.length_append, List.length_map]
    apply contiguous_append
    · have hnumbered := hsuperseded.numbered
      rw [List.length_map] at hnumbered
      exact hnumbered
    · unfold nextNumber
      rw [map_number hupdate]
      rfl
  case liveLast =>
    intro version hversion hlive
    rcases List.mem_append.mp hversion with hold | hnew
    · rw [superseding_closed h hold] at hlive
      cases hlive
    · rw [List.mem_singleton.mp hnew]
      simp [Relationship.append, hversions, Relationship.appending, hnext]
  case supersedes =>
    intro version hversion
    have hwider : forall version, SupersedesLast (relationship.superseding now relationship.live)
        version -> SupersedesLast (relationship.append now asked relationship.live).versions
          version := by
      rintro version ⟨last, hmem, hlast⟩
      exact ⟨last, List.mem_append_left _ hmem, hlast⟩
    rcases List.mem_append.mp hversion with hold | hnew
    · rw [hversions] at hold
      rcases hsuperseded.supersedes version hold with hnone | hlast
      · exact Or.inl hnone
      · rw [← hversions] at hlast
        exact Or.inr (hwider version hlast)
    · rw [List.mem_singleton.mp hnew]
      exact (appending_supersedes h).imp id (hwider _)
  case idsUnique =>
    unfold Relationship.append
    rw [hversions, List.map_append, map_id hupdate, List.map_singleton, ← List.concat_eq_append]
    exact h.idsUnique.concat hfresh

theorem closed_append (h : Chained relationship) (hversion : version ∈ relationship.versions)
    (hclosed : version.isLive = false) :
    version ∈ (relationship.append now asked relationship.live).versions := by
  rcases superseding_update now h with ⟨update, hupdate, hversions⟩
  apply List.mem_append_left
  rw [hversions]
  exact List.mem_map.mpr ⟨version, hversion, hupdate.closed version hclosed⟩

theorem closesLive_close (now : Instant) (reason : TombstoneReason)
    (picks : RelationshipVersion -> Bool) :
    ClosesLive fun version =>
      if version.isLive && picks version then version.close now reason else version := by
  constructor
  case closed =>
    intro version hclosed
    simp [hclosed]
  case live =>
    intro version hlive
    split at hlive
    · cases hlive
    · next hnot => rw [if_neg hnot]
  all_goals
    intro version
    split
    · rfl
    · rfl

/-!
## The entries of one edge
-/

def ChainedOf (chain : Option Relationship) : Prop :=
  forall relationship, chain = some relationship -> Chained relationship

def Unused (chain : Option Relationship) (id : RelationshipVersionId) : Prop :=
  forall relationship, chain = some relationship ->
    id ∉ relationship.versions.map RelationshipVersion.id

def Records (chain : Option Relationship) (version : RelationshipVersion) : Prop :=
  exists relationship, chain = some relationship ∧ version ∈ relationship.versions

variable {chain : Option Relationship} {items : List Timed}

theorem chained_getD (h : ChainedOf chain) (asked : Asked) :
    Chained (chain.getD (created asked)) := by
  cases hchain : chain with
  | none => exact chained_created asked
  | some relationship => exact h relationship hchain

theorem unused_getD {id : RelationshipVersionId} (h : Unused chain id) (asked : Asked) :
    id ∉ (chain.getD (created asked)).versions.map RelationshipVersion.id := by
  cases hchain : chain with
  | none => simp [created]
  | some relationship => exact h relationship hchain

theorem ids_append (h : Chained relationship) :
    (relationship.append now asked relationship.live).versions.map RelationshipVersion.id =
      relationship.versions.map RelationshipVersion.id ++ [asked.version] := by
  rcases superseding_update now h with ⟨update, hupdate, hversions⟩
  unfold Relationship.append
  rw [hversions, List.map_append, map_id hupdate]
  rfl

theorem chained_assertOne (now : Instant) (h : ChainedOf chain)
    (hfresh : Unused chain asked.version) :
    ChainedOf (assertOne now asked chain).1 ∧
      (forall id, Unused chain id -> id ≠ asked.version ->
        Unused (assertOne now asked chain).1 id) ∧
        forall version, version.isLive = false -> Records chain version ->
          Records (assertOne now asked chain).1 version := by
  cases hstanding : standingOf chain asked with
  | some standing =>
      rw [assertOne_standing hstanding]
      exact ⟨h, fun id hid _ => hid, fun version _ hversion => hversion⟩
  | none =>
      rw [assertOne_appending hstanding]
      have hbefore := chained_getD h asked
      refine ⟨?_, ?_, ?_⟩
      · intro relationship hrelationship
        rw [← Option.some.inj hrelationship]
        exact chained_append hbefore (unused_getD hfresh asked)
      · intro id hid hne relationship hrelationship
        rw [← Option.some.inj hrelationship, ids_append hbefore, List.mem_append,
          List.mem_singleton, not_or]
        exact ⟨unused_getD hid asked, hne⟩
      · rintro version hclosed ⟨relationship, rfl, hversion⟩
        exact ⟨_, rfl, closed_append hbefore hversion hclosed⟩

theorem chained_assertChain (h : ChainedOf chain)
    (hdistinct : (items.map fun item => item.2.1.version).Nodup)
    (hfresh : forall item, item ∈ items -> Unused chain item.2.1.version) :
    ChainedOf (assertChain items chain).1 ∧
      forall version, version.isLive = false -> Records chain version ->
        Records (assertChain items chain).1 version := by
  induction items generalizing chain with
  | nil => exact ⟨h, fun version _ hversion => hversion⟩
  | cons item rest ih =>
      rcases item with ⟨now, asked, place⟩
      rw [List.map_cons, List.nodup_cons] at hdistinct
      rcases chained_assertOne now h (hfresh _ List.mem_cons_self) with
        ⟨hchained, hunused, hkept⟩
      rcases ih hchained hdistinct.2 (fun item hmem => by
          refine hunused _ (hfresh item (List.mem_cons_of_mem _ hmem)) ?_
          intro hsame
          exact hdistinct.1 (List.mem_map.mpr ⟨item, hmem, hsame⟩)) with ⟨hlast, hstill⟩
      exact ⟨hlast, fun version hclosed hversion =>
        hstill version hclosed (hkept version hclosed hversion)⟩

def appendChain : List Timed -> Option Relationship -> Option Relationship
  | [], chain => chain
  | (now, asked, _) :: rest, chain =>
      appendChain rest
        (some ((chain.getD (created asked)).append now asked (chain.getD (created asked)).live))

def Assertion.isNew : Assertion -> Bool
  | Assertion.appended _ => true
  | Assertion.unchanged _ => false

theorem assertChain_written (hplaces : (items.map fun item => item.2.2).Nodup) :
    (assertChain items chain).1 =
      appendChain (items.filter fun item =>
        ((assertChain items chain).2.lookup item.2.2).any Assertion.isNew) chain := by
  induction items generalizing chain with
  | nil => rfl
  | cons item rest ih =>
      rcases item with ⟨now, asked, place⟩
      rw [List.map_cons, List.nodup_cons] at hplaces
      have hrest : (rest.filter fun item =>
            ((assertChain ((now, asked, place) :: rest) chain).2.lookup item.2.2).any
              Assertion.isNew) =
          rest.filter fun item =>
            ((assertChain rest (assertOne now asked chain).1).2.lookup item.2.2).any
              Assertion.isNew := by
        apply List.filter_congr
        intro item hmem
        have hne : (item.2.2 == place) = false := by
          rw [beq_eq_false_iff_ne]
          intro hsame
          exact hplaces.1 (List.mem_map.mpr ⟨item, hmem, hsame⟩)
        simp [assertChain, List.lookup_cons, hne]
      have hfirst : ((assertChain ((now, asked, place) :: rest) chain).2.lookup place) =
          some (assertOne now asked chain).2 := by
        simp [assertChain]
      rw [List.filter_cons, hrest]
      simp only [hfirst]
      rw [assertChain, ih hplaces.2]
      cases hstanding : standingOf chain asked with
      | some standing =>
          rw [assertOne_standing hstanding]
          rfl
      | none =>
          rw [assertOne_appending hstanding]
          rfl

end Identity

/-!
## Calls
-/

section Calls

variable {ledger final : Ledger} {edges : List Asked} {clock : Nat -> Instant} {edge : Edge}

theorem ofEdge_items (edge : Edge) (timed : List Timed) :
    (ofEdge edge timed).map Prod.snd = itemsOf edge (timed.map Prod.snd) := by
  unfold ofEdge itemsOf
  rw [List.filter_map]
  rfl

theorem itemsOf_sublist (edge : Edge) (ledger : Ledger) (edges : List Asked) :
    List.Sublist (itemsOf edge (unanswered ledger edges)) edges.zipIdx :=
  List.filter_sublist.trans List.filter_sublist

theorem unused_of_fresh (h : FreshVersions ledger edges) {asked : Asked} (hasked : asked ∈ edges)
    (edge : Edge) : Unused (ledger.find edge) asked.version :=
  fun relationship hfind => h.2 asked hasked relationship (mem_of_find hfind)

theorem find_assertEdges {answers : List Assertion}
    (hcall : assertEdges clock edges ledger = some (final, answers)) (edge : Edge) :
    exists items, items.map Prod.snd = itemsOf edge (unanswered ledger edges) ∧
      final.find edge = (assertChain items (ledger.find edge)).1 ∧
        forall item, item ∈ itemsOf edge edges.zipIdx -> answers[item.2]? =
          answerOf ledger (assertChain items (ledger.find edge)).2 item := by
  rcases assertEdges_eq clock edges ledger with
    ⟨final', answers', timed, hcall', hitems, hfinal, hanswers⟩
  rw [hcall] at hcall'
  rcases hcall' with ⟨⟩
  refine ⟨ofEdge edge timed, ?_, ?_, ?_⟩
  · rw [ofEdge_items, hitems]
  · rw [hfinal, leftBy_eq_chain]
  · intro item hitem
    rcases List.mem_filter.mp hitem with ⟨hmem, hedge⟩
    have hedge : item.1.edge = edge := by simpa using hedge
    have hplace : forall other, other ∈ timed -> other.2.2 = item.2 -> other.2.1.edge = edge := by
      intro other hother hsame
      have hown : other.2 ∈ itemsOf other.2.1.edge (timed.map Prod.snd) :=
        List.mem_filter.mpr ⟨List.mem_map_of_mem hother, by simp⟩
      rw [hitems] at hown
      have hasked := (itemsOf_sublist _ ledger edges).subset hown
      rw [zipIdx_edge_of_place hmem hasked hsame]
      exact hedge
    have hlookup := lookup_answersOf timed ledger.find edge item.2 hplace
    have hat : edges.zipIdx[item.2]? = some item := by
      rw [List.getElem?_zipIdx, List.mem_zipIdx_iff_getElem?.mp hmem]
      simp
    have hanswer := congrArg (fun list => list[item.2]?) hanswers
    simp only [List.getElem?_map, hat, Option.map_some] at hanswer
    have hsome : answers[item.2]? = answerOf ledger (answersOf timed ledger.find) item := by
      cases hnth : answers[item.2]? with
      | none => simp [hnth] at hanswer
      | some answer => simpa [hnth] using hanswer
    rw [hsome]
    unfold answerOf
    rw [hlookup]

theorem places_itemsOf (edge : Edge) (ledger : Ledger) (edges : List Asked) :
    ((itemsOf edge (unanswered ledger edges)).map Prod.snd).Nodup :=
  (zipIdx_places_nodup edges).sublist ((itemsOf_sublist edge ledger edges).map Prod.snd)

theorem assertEdges_writes {answers : List Assertion}
    (hcall : assertEdges clock edges ledger = some (final, answers)) (edge : Edge) :
    exists writes,
      writes.map Prod.snd = ((itemsOf edge edges.zipIdx).filter fun item =>
          answers[item.2]?.any Assertion.isNew) ∧
        final.find edge = appendChain writes (ledger.find edge) := by
  rcases find_assertEdges hcall edge with ⟨items, hitems, hfinal, hanswers⟩
  have hplaces : (items.map fun item => item.2.2).Nodup := by
    have hnodup := places_itemsOf edge ledger edges
    rw [← hitems, List.map_map] at hnodup
    exact hnodup
  let written : Item -> Bool := fun item =>
    ((assertChain items (ledger.find edge)).2.lookup item.2).any Assertion.isNew
  have hcomp : (fun item : Timed => written item.2) = written ∘ Prod.snd := rfl
  have hunread : itemsOf edge (unanswered ledger edges) =
      (itemsOf edge edges.zipIdx).filter fun item => (standing ledger item.1).isNone := by
    unfold itemsOf unanswered
    rw [List.filter_filter, List.filter_filter]
    exact List.filter_congr fun item _ => Bool.and_comm _ _
  refine ⟨items.filter fun item => written item.2, ?_,
    hfinal.trans (assertChain_written hplaces)⟩
  rw [hcomp, ← List.filter_map, hitems, hunread, List.filter_filter]
  apply List.filter_congr
  intro item hitem
  rw [hanswers item hitem, answerOf]
  cases standing ledger item.1 with
  | some version => simp [Assertion.isNew]
  | none => simp [written]

/-!
## Runs
-/

/-- The ledger has one row for an edge, and the versions of each are in order. -/
structure InOrder (ledger : Ledger) : Prop where
  distinct : Distinct ledger
  chained : forall edge, ChainedOf (ledger.find edge)

theorem chained_of_mem (h : InOrder ledger) {relationship : Relationship}
    (hmem : relationship ∈ ledger) : Chained relationship :=
  h.chained relationship.edge relationship (find_of_mem h.distinct hmem)

/-- Every closed version stays as it is. -/
def KeepsClosed (ledger final : Ledger) : Prop :=
  forall edge version, version.isLive = false -> Records (ledger.find edge) version ->
    Records (final.find edge) version

theorem inOrder_assert (h : InOrder ledger) (hfresh : FreshVersions ledger edges)
    {answers : List Assertion} (hcall : assertEdges clock edges ledger = some (final, answers)) :
    InOrder final ∧ KeepsClosed ledger final := by
  have hchain : forall edge, ChainedOf (final.find edge) ∧
      forall version, version.isLive = false -> Records (ledger.find edge) version ->
        Records (final.find edge) version := by
    intro edge
    rcases find_assertEdges hcall edge with ⟨items, hitems, hfinal, _⟩
    have hasked : List.Sublist (items.map fun item => item.2.1) edges := by
      have hmap := (itemsOf_sublist edge ledger edges).map Prod.fst
      rw [← hitems, List.map_map, List.zipIdx_map_fst] at hmap
      exact hmap
    rw [hfinal]
    apply chained_assertChain (h.chained edge)
    · have hnodup := hfresh.1.sublist (hasked.map Asked.version)
      rw [List.map_map] at hnodup
      exact hnodup
    · intro item hmem
      exact unused_of_fresh hfresh (hasked.subset (List.mem_map_of_mem hmem)) edge
  exact ⟨⟨assertEdges_distinct h.distinct hcall, fun edge => (hchain edge).1⟩,
    fun edge => (hchain edge).2⟩

theorem find_closing (statement : Closing) (ledger : Ledger) (edge : Edge) :
    (statement.run ledger).1.find edge = (ledger.find edge).map fun relationship =>
      if statement.scope relationship.edge then
        relationship.close statement.now statement.reason statement.picks
      else relationship :=
  find_map (edge_closing statement) ledger edge

theorem inOrder_close (h : InOrder ledger) (statement : Closing) :
    InOrder (statement.run ledger).1 ∧ KeepsClosed ledger (statement.run ledger).1 := by
  have hcloses := closesLive_close statement.now statement.reason statement.picks
  refine ⟨⟨closing_distinct statement h.distinct, ?_⟩, ?_⟩
  · intro edge relationship hrelationship
    rw [find_closing] at hrelationship
    rcases Option.map_eq_some_iff.mp hrelationship with ⟨old, hold, rfl⟩
    have hchained := h.chained edge old hold
    split
    · exact chained_closing hcloses hchained
    · exact hchained
  · rintro edge version hclosed ⟨relationship, hfind, hversion⟩
    refine ⟨_, by rw [find_closing, hfind, Option.map_some], ?_⟩
    split
    · exact List.mem_map.mpr ⟨version, hversion, hcloses.closed version hclosed⟩
    · exact hversion

theorem inOrder_transact {call : Call} (h : InOrder ledger)
    (hstep : transact ledger call = some final) : InOrder final ∧ KeepsClosed ledger final := by
  unfold transact at hstep
  rcases (Option.ite_none_right_eq_some.mp hstep) with ⟨hfresh, hrun⟩
  rcases Option.map_eq_some_iff.mp hrun with ⟨⟨result, outcome⟩, hcall, rfl⟩
  cases call with
  | assert clock edges =>
      unfold Call.run at hcall
      cases hasserted : assertEdges clock edges ledger with
      | none =>
          simp only [hasserted] at hcall
          cases hcall
      | some asserted =>
          rcases asserted with ⟨written, answers⟩
          simp only [hasserted] at hcall
          cases hcall
          exact inOrder_assert h hfresh hasserted
  | close statement =>
      rw [call_close_run] at hcall
      cases hcall
      exact inOrder_close h statement

theorem inOrder_preserved : Preserved transact InOrder :=
  fun _ _ _ h hstep => (inOrder_transact h hstep).1

theorem inOrder_empty : InOrder [] where
  distinct := List.nodup_nil
  chained := by
    intro edge relationship hfind
    cases hfind

theorem keepsClosed_run {calls : List Call} (h : InOrder ledger)
    (hrun : RunFrom transact ledger calls = some final) : KeepsClosed ledger final := by
  induction calls generalizing ledger with
  | nil =>
      cases hrun
      exact fun _ _ _ hversion => hversion
  | cons call rest ih =>
      rcases runFrom_cons_some.mp hrun with ⟨middle, hstep, hrest⟩
      rcases inOrder_transact h hstep with ⟨hmiddle, hkept⟩
      intro edge version hclosed hversion
      exact ih hmiddle hrest edge version hclosed (hkept edge version hclosed hversion)

/--
After any calls, an edge has one identity; its versions are numbered from one as
they were appended, only the last can be live, and each ends nothing or the one
before it.  What is closed is in every later ledger as it was, and a call leaves of
every edge what its entries answered as appended leave.
-/
theorem edge_versions_sound {calls : List Call}
    (hrun : RunFrom transact [] calls = some ledger) :
    Distinct ledger ∧
      (forall relationship, relationship ∈ ledger -> Chained relationship ∧
        (relationship.versions.filter RelationshipVersion.isLive).length <= 1) ∧
      (forall later final, RunFrom transact ledger later = some final ->
        KeepsClosed ledger final) ∧
      forall clock edges final answers,
        assertEdges clock edges ledger = some (final, answers) -> forall edge, exists writes,
          writes.map Prod.snd = ((itemsOf edge edges.zipIdx).filter fun item =>
              answers[item.2]?.any Assertion.isNew) ∧
            final.find edge = appendChain writes (ledger.find edge) := by
  have h := runFrom_preserved inOrder_preserved inOrder_empty hrun
  refine ⟨h.distinct, ?_, ?_, ?_⟩
  · intro relationship hmem
    have hchained := chained_of_mem h hmem
    exact ⟨hchained, liveVersions_le hchained⟩
  · intro later final hlater
    exact keepsClosed_run h hlater
  · intro clock edges final answers hcall edge
    exact assertEdges_writes hcall edge

def relinked : List Call :=
  [Call.assert (fun _ => 1)
      [{ edge := linkedEdge, claim := EdgeClaim.explicit, relationship := 10, version := 20 }],
    Call.assert (fun _ => 2)
      [{ edge := linkedEdge, claim := EdgeClaim.derived 5 Confidence.one, relationship := 11,
         version := 21 }],
    Call.close (Closing.edge 3 linkedEdge TombstoneReason.closed),
    Call.assert (fun _ => 4)
      [{ edge := linkedEdge, claim := EdgeClaim.explicit, relationship := 12, version := 22 }]]

theorem edge_versions_sound_relinked :
    exists ledger, RunFrom transact [] relinked = some ledger ∧ Distinct ledger ∧
      forall relationship, relationship ∈ ledger -> Chained relationship := by
  refine ⟨_, rfl, ?_⟩
  have h := @edge_versions_sound _ relinked rfl
  exact ⟨h.1, fun relationship hmem => (h.2.1 relationship hmem).1⟩

end Calls

end Graph
end PaminMemory
