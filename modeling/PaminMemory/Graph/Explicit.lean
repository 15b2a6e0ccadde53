import PaminMemory.Graph.Derived
import PaminMemory.Graph.Versions

/-!
# Edges that a caller asserted

An identity has one live version at most, whoever asserted it.  A rule's claim does
not match a caller's version of the edge, so it takes its place; a retraction reads
the derivation and leaves it.
-/

namespace PaminMemory
namespace Graph

open Foundation

def explicitIn (chain : Option Relationship) : List RelationshipVersion :=
  match chain with
  | none => []
  | some relationship =>
      relationship.versions.filter fun version =>
        version.isLive && version.derivation = Derivation.explicit

def SinglyLive (chain : Option Relationship) : Prop :=
  forall relationship, chain = some relationship ->
    forall version, version ∈ relationship.versions -> version.isLive = true ->
      relationship.live = some version

theorem mem_explicitIn {chain : Option Relationship} {version : RelationshipVersion} :
    version ∈ explicitIn chain <->
      exists relationship, chain = some relationship ∧ version ∈ relationship.versions ∧
        version.isLive = true ∧ version.derivation = Derivation.explicit := by
  cases chain with
  | none => simp [explicitIn]
  | some relationship => simp [explicitIn]

section Identity

variable {chain : Option Relationship} {relationship : Relationship}
  {version : RelationshipVersion} {asked : Asked} {items : List Timed}

/-!
## One live version
-/

theorem live_of_only (hmem : version ∈ relationship.versions) (hlive : version.isLive = true)
    (honly : forall other, other ∈ relationship.versions -> other.isLive = true ->
      other = version) : relationship.live = some version := by
  cases hread : relationship.live with
  | none =>
      have hnone := List.argmax_eq_none.mp hread
      have hopen := List.mem_filter.mpr ⟨hmem, hlive⟩
      rw [hnone] at hopen
      cases hopen
  | some read =>
      rcases live_mem hread with ⟨hreadMem, hreadLive⟩
      rw [honly read hreadMem hreadLive]

theorem superseding_notLive (now : Instant) (h : SinglyLive (some relationship))
    (hmem : version ∈ relationship.superseding now relationship.live) :
    version.isLive = false := by
  cases hread : relationship.live with
  | none =>
      rw [hread] at hmem
      rw [Bool.eq_false_iff]
      intro hlive
      have hsome := h relationship rfl version hmem hlive
      rw [hread] at hsome
      cases hsome
  | some read =>
      rw [hread] at hmem
      rcases List.mem_map.mp hmem with ⟨old, hold, rfl⟩
      unfold Relationship.supersede
      split
      · rfl
      · next hother =>
          rw [Bool.eq_false_iff]
          intro hlive
          have hsome := h relationship rfl old hold hlive
          rw [hread, Option.some.injEq] at hsome
          exact hother (congrArg RelationshipVersion.id hsome.symm)

theorem live_appended (now : Instant) (h : SinglyLive (some relationship))
    (hmem : version ∈ (relationship.append now asked relationship.live).versions)
    (hlive : version.isLive = true) :
    version = relationship.appending now asked relationship.live := by
  rcases List.mem_append.mp hmem with hold | hnew
  · rw [superseding_notLive now h hold] at hlive
    cases hlive
  · exact List.mem_singleton.mp hnew

theorem singlyLive_created (asked : Asked) : SinglyLive (some (created asked)) := by
  intro relationship hchain version hmem
  cases hchain
  cases hmem

theorem singlyLive_getD (h : SinglyLive chain) (asked : Asked) :
    SinglyLive (some (chain.getD (created asked))) := by
  cases chain with
  | none => exact singlyLive_created asked
  | some relationship => exact h

theorem singlyLive_append (now : Instant) (h : SinglyLive (some relationship)) :
    SinglyLive (some (relationship.append now asked relationship.live)) := by
  intro appended hchain version hmem hlive
  cases hchain
  rw [live_append, live_appended now h hmem hlive]

theorem singlyLive_assertOne (now : Instant) (h : SinglyLive chain) :
    SinglyLive (assertOne now asked chain).1 := by
  cases hstanding : standingOf chain asked with
  | some read =>
      rw [assertOne_standing hstanding]
      exact h
  | none =>
      rw [assertOne_appending hstanding]
      exact singlyLive_append now (singlyLive_getD h asked)

theorem singlyLive_assertChain (h : SinglyLive chain) :
    SinglyLive (assertChain items chain).1 := by
  induction items generalizing chain with
  | nil => exact h
  | cons item rest ih =>
      rcases item with ⟨now, asked, place⟩
      exact ih (singlyLive_assertOne now h)

theorem singlyLive_close (now : Instant) (reason : TombstoneReason)
    (picks : RelationshipVersion -> Bool) (h : SinglyLive (some relationship)) :
    SinglyLive (some (relationship.close now reason picks)) := by
  have hkept : forall version, version ∈ (relationship.close now reason picks).versions ->
      version.isLive = true -> version ∈ relationship.versions := by
    intro version hmem hlive
    rcases List.mem_map.mp hmem with ⟨old, hold, hclosing⟩
    split at hclosing
    · rw [← hclosing] at hlive
      cases hlive
    · rw [← hclosing]
      exact hold
  intro closed hchain version hmem hlive
  cases hchain
  apply live_of_only hmem hlive
  intro other hother hotherLive
  have hfirst := h relationship rfl other (hkept other hother hotherLive) hotherLive
  have hsecond := h relationship rfl version (hkept version hmem hlive) hlive
  exact Option.some.inj (hfirst.symm.trans hsecond)

/-!
## A rule's claim takes its place
-/

theorem explicitIn_eq_nil (h : SinglyLive (some relationship))
    (hlive : relationship.live = some version) (hderived : version.derivation ≠ Derivation.explicit) :
    explicitIn (some relationship) = [] := by
  rw [List.eq_nil_iff_forall_not_mem]
  intro other hother
  rcases mem_explicitIn.mp hother with ⟨found, hchain, hmem, hopen, hexplicit⟩
  cases hchain
  have hsame := h relationship rfl other hmem hopen
  rw [hlive, Option.some.injEq] at hsame
  exact hderived (hsame ▸ hexplicit)

theorem explicitIn_assertOne (now : Instant) (h : SinglyLive chain)
    (hclaim : asked.claim.derivation ≠ Derivation.explicit) :
    explicitIn (assertOne now asked chain).1 = [] := by
  cases hstanding : standingOf chain asked with
  | some read =>
      rw [assertOne_standing hstanding]
      rcases Option.bind_eq_some_iff.mp hstanding with ⟨relationship, rfl, hread⟩
      rcases Option.filter_eq_some_iff.mp hread with ⟨hlive, hmatches⟩
      have hmatches : asked.claim.Matches read := by simpa using hmatches
      apply explicitIn_eq_nil h hlive
      rw [hmatches.1]
      exact hclaim
  | none =>
      rw [assertOne_appending hstanding]
      exact explicitIn_eq_nil (singlyLive_append now (singlyLive_getD h asked))
        (live_append _ _ _ _) hclaim

theorem explicitIn_assertChain (h : SinglyLive chain) (hitems : items ≠ [])
    (hclaims : forall item, item ∈ items ->
      item.2.1.claim.derivation ≠ Derivation.explicit) :
    explicitIn (assertChain items chain).1 = [] := by
  induction items generalizing chain with
  | nil => exact absurd rfl hitems
  | cons item rest ih =>
      rcases item with ⟨now, asked, place⟩
      have hfirst := explicitIn_assertOne now h (hclaims _ List.mem_cons_self)
      cases rest with
      | nil => exact hfirst
      | cons second rest =>
          exact ih (singlyLive_assertOne now h) (List.cons_ne_nil _ _)
            fun item hmem => hclaims item (List.mem_cons_of_mem _ hmem)

theorem explicitIn_close (now : Instant) (reason : TombstoneReason)
    (picks : RelationshipVersion -> Bool)
    (hpicks : forall version, picks version = true ->
      version.derivation ≠ Derivation.explicit)
    (hversion : version ∈ explicitIn (some relationship)) :
    version ∈ explicitIn (some (relationship.close now reason picks)) := by
  rcases mem_explicitIn.mp hversion with ⟨found, hchain, hmem, hlive, hexplicit⟩
  cases hchain
  refine mem_explicitIn.mpr ⟨_, rfl, ?_, hlive, hexplicit⟩
  apply List.mem_map.mpr
  refine ⟨version, hmem, if_neg ?_⟩
  intro hclosed
  rw [Bool.and_eq_true] at hclosed
  exact hpicks version hclosed.2 hexplicit

end Identity

/-!
## The ledger
-/

def Ledger.SinglyLive (ledger : Ledger) : Prop :=
  forall edge, Graph.SinglyLive (ledger.find edge)

section Calls

variable {read ledger final : Ledger} {edges : List Asked} {clock : Nat -> Instant}
  {answers : List Assertion}

/-- What a call leaves of an edge: its entries that the read did not answer, in order. -/
theorem find_assertAfter (h : assertAfter clock edges read ledger = some (final, answers))
    (edge : Edge) :
    exists items, items.map Prod.snd = itemsOf edge (unanswered read edges) ∧
      final.find edge = (assertChain items (ledger.find edge)).1 := by
  rcases assertAfter_eq clock edges read ledger with ⟨final', answers', timed, hcall, hitems, hfinal⟩
  rw [h] at hcall
  rcases hcall with ⟨⟩
  refine ⟨ofEdge edge timed, ?_, ?_⟩
  · rw [ofEdge_items, hitems]
  · rw [hfinal, leftBy_eq_chain]

theorem singlyLive_assertAfter (hledger : ledger.SinglyLive)
    (h : assertAfter clock edges read ledger = some (final, answers)) : final.SinglyLive := by
  intro edge
  rcases find_assertAfter h edge with ⟨items, _, hfinal⟩
  rw [hfinal]
  exact singlyLive_assertChain (hledger edge)

theorem find_assertAfter_other (h : assertAfter clock edges read ledger = some (final, answers))
    {edge : Edge} (hnot : edge ∉ edges.map Asked.edge) :
    final.find edge = ledger.find edge := by
  rcases find_assertAfter h edge with ⟨items, hitems, hfinal⟩
  cases items with
  | nil => exact hfinal
  | cons entry rest =>
      have hasked : entry.2 ∈ itemsOf edge (unanswered read edges) := by
        rw [← hitems]
        exact List.mem_cons_self
      rcases List.mem_filter.mp hasked with ⟨hpending, hedge⟩
      have hfirst := List.mem_map_of_mem (f := Prod.fst) (List.mem_filter.mp hpending).1
      rw [List.zipIdx_map_fst] at hfirst
      have hedge : entry.2.1.edge = edge := by simpa using hedge
      exact absurd (hedge ▸ List.mem_map_of_mem hfirst) hnot

theorem find_closeWhere (now : Instant) (reason : TombstoneReason) (scope : Edge -> Bool)
    (picks : RelationshipVersion -> Bool) (ledger : Ledger) (edge : Edge) :
    (closeWhere now reason scope picks ledger).1.find edge = (ledger.find edge).map
      fun relationship =>
        if scope relationship.edge then relationship.close now reason picks
        else relationship := by
  apply find_map
  intro relationship
  split <;> rfl

theorem find_closeWhere_other {now : Instant} {reason : TombstoneReason}
    (scope : Edge -> Bool) {picks : RelationshipVersion -> Bool} {edge : Edge}
    (h : scope edge = false) :
    (closeWhere now reason scope picks ledger).1.find edge = ledger.find edge := by
  rw [find_closeWhere]
  cases hfind : ledger.find edge with
  | none => rfl
  | some relationship =>
      rw [Option.map_some, edge_of_find hfind, h]
      rfl

theorem singlyLive_closeWhere (hledger : ledger.SinglyLive) (now : Instant)
    (reason : TombstoneReason) (scope : Edge -> Bool) (picks : RelationshipVersion -> Bool) :
    (closeWhere now reason scope picks ledger).1.SinglyLive := by
  intro edge
  rw [find_closeWhere]
  cases hfind : ledger.find edge with
  | none =>
      intro relationship hchain
      cases hchain
  | some relationship =>
      have hone : Graph.SinglyLive (some relationship) := hfind ▸ hledger edge
      rw [Option.map_some]
      split
      · exact singlyLive_close now reason picks hone
      · exact hone

theorem singlyLive_closeSeen (hledger : ledger.SinglyLive) (snapshot : Ledger)
    (statement : Closing) : Ledger.SinglyLive (ledger.map (closeSeen snapshot statement)) := by
  intro edge
  rw [find_closeSeen]
  cases hfind : ledger.find edge with
  | none =>
      intro relationship hchain
      cases hchain
  | some relationship =>
      have hone : Graph.SinglyLive (some relationship) := hfind ▸ hledger edge
      rw [Option.map_some, closeSeen]
      split
      · exact singlyLive_close _ _ _ hone
      · exact hone

theorem explicitIn_closeSeen {snapshot : Ledger} {now : Instant} {kind : EdgeKind}
    {keep : List (TopicId × List TopicId)} {edge : Edge} {version : RelationshipVersion}
    (hversion : version ∈ explicitIn (ledger.find edge)) :
    version ∈ explicitIn
      (Ledger.find (ledger.map (closeSeen snapshot (Closing.derived now kind keep))) edge) := by
  rw [find_closeSeen]
  cases hfind : ledger.find edge with
  | none =>
      rw [hfind] at hversion
      cases hversion
  | some relationship =>
      rw [hfind] at hversion
      rw [Option.map_some, closeSeen]
      split
      · apply explicitIn_close _ _ _ _ hversion
        intro picked hpicked hexplicit
        rw [Bool.and_eq_true] at hpicked
        have hderived : picked.isDerived = true := hpicked.1
        rw [RelationshipVersion.isDerived, hexplicit] at hderived
        cases hderived
      · exact hversion

/--
A call of rules' claims leaves every version a caller asserted if and only if it has no
entry, of those its read did not answer, for an edge that has one.
-/
theorem spares_assertAfter (hledger : ledger.SinglyLive) (hclaims : AllDerived edges)
    (h : assertAfter clock edges read ledger = some (final, answers)) :
    (forall edge version, version ∈ explicitIn (ledger.find edge) ->
        version ∈ explicitIn (final.find edge)) <->
      forall item, item ∈ unanswered read edges ->
        explicitIn (ledger.find item.1.edge) = [] := by
  constructor
  · intro hspares item hitem
    rcases find_assertAfter h item.1.edge with ⟨items, hitems, hfinal⟩
    have hown : item ∈ items.map Prod.snd := by
      rw [hitems]
      exact List.mem_filter.mpr ⟨hitem, by simp⟩
    have hderived : forall entry, entry ∈ items ->
        entry.2.1.claim.derivation ≠ Derivation.explicit := by
      intro entry hentry
      have hasked : entry.2 ∈ itemsOf item.1.edge (unanswered read edges) :=
        hitems ▸ List.mem_map_of_mem hentry
      have hfirst := List.mem_map_of_mem (f := Prod.fst)
        ((itemsOf_sublist item.1.edge read edges).subset hasked)
      rw [List.zipIdx_map_fst] at hfirst
      rw [hclaims _ hfirst]
      simp
    have hnone : explicitIn (final.find item.1.edge) = [] := by
      rw [hfinal]
      apply explicitIn_assertChain (hledger _) _ hderived
      rintro rfl
      cases hown
    rw [List.eq_nil_iff_forall_not_mem]
    intro version hversion
    have hkept := hspares item.1.edge version hversion
    rw [hnone] at hkept
    cases hkept
  · intro hnone edge version hversion
    rcases find_assertAfter h edge with ⟨items, hitems, hfinal⟩
    cases items with
    | nil =>
        rw [hfinal]
        exact hversion
    | cons entry rest =>
        have hasked : entry.2 ∈ itemsOf edge (unanswered read edges) := by
          rw [← hitems]
          exact List.mem_cons_self
        rcases List.mem_filter.mp hasked with ⟨hpending, hedge⟩
        have hedge : entry.2.1.edge = edge := by simpa using hedge
        have hempty := hnone entry.2 hpending
        rw [hedge] at hempty
        rw [hempty] at hversion
        cases hversion

end Calls

end Graph
end PaminMemory
