import PaminMemory.Graph.Ledger
import Mathlib.Order.Nat

/-!
# The chain of one edge

Everything a call does to an edge depends on that edge alone, so a call is
followed edge by edge: the entries for one edge, in order, fold over the
identity of that edge.
-/

namespace PaminMemory
namespace Graph

open Foundation

/-!
## One claim against one identity
-/

def Relationship.assertClaim (now : Instant) (asked : Asked) (relationship : Relationship) :
    Relationship × Assertion :=
  match relationship.standing asked.claim with
  | some version => (relationship, Assertion.unchanged version)
  | none =>
      (relationship.append now asked relationship.live,
        Assertion.appended (relationship.appending now asked relationship.live))

def assertOne (now : Instant) (asked : Asked) (chain : Option Relationship) :
    Option Relationship × Assertion :=
  (some ((chain.getD (created asked)).assertClaim now asked).1,
    ((chain.getD (created asked)).assertClaim now asked).2)

abbrev Timed := Instant × Item

def assertChain : List Timed -> Option Relationship ->
    Option Relationship × List (Nat × Assertion)
  | [], chain => (chain, [])
  | (now, asked, place) :: rest, chain =>
      let written := assertOne now asked chain
      let later := assertChain rest written.1
      (later.1, (place, written.2) :: later.2)

def answersOf : List Timed -> (Edge -> Option Relationship) -> List (Nat × Assertion)
  | [], _ => []
  | (now, asked, place) :: rest, chains =>
      let written := assertOne now asked (chains asked.edge)
      (place, written.2) ::
        answersOf rest (Function.update chains asked.edge written.1)

def leftBy : List Timed -> (Edge -> Option Relationship) -> Edge -> Option Relationship
  | [], chains => chains
  | (now, asked, _) :: rest, chains =>
      leftBy rest
        (Function.update chains asked.edge (assertOne now asked (chains asked.edge)).1)

def ofEdge (edge : Edge) (items : List Timed) : List Timed :=
  items.filter fun item => item.2.1.edge = edge

theorem leftBy_eq_chain (items : List Timed) (chains : Edge -> Option Relationship)
    (edge : Edge) :
    leftBy items chains edge = (assertChain (ofEdge edge items) (chains edge)).1 := by
  induction items generalizing chains with
  | nil => rfl
  | cons item rest ih =>
      rcases item with ⟨now, asked, place⟩
      rw [leftBy, ih]
      by_cases hedge : asked.edge = edge
      · subst hedge
        simp [ofEdge, assertChain]
      · have hother : edge ≠ asked.edge := fun h => hedge h.symm
        simp [ofEdge, hedge, Function.update_of_ne hother]

theorem lookup_answersOf (items : List Timed) (chains : Edge -> Option Relationship)
    (edge : Edge) (place : Nat)
    (hplace : forall item, item ∈ items -> item.2.2 = place -> item.2.1.edge = edge) :
    (answersOf items chains).lookup place =
      (assertChain (ofEdge edge items) (chains edge)).2.lookup place := by
  induction items generalizing chains with
  | nil => rfl
  | cons item rest ih =>
      rcases item with ⟨now, asked, here⟩
      have hrest := ih (Function.update chains asked.edge
        (assertOne now asked (chains asked.edge)).1)
        (fun item hmem => hplace item (List.mem_cons_of_mem _ hmem))
      by_cases hedge : asked.edge = edge
      · subst hedge
        simp only [Function.update_self] at hrest
        simp [answersOf, ofEdge, assertChain, List.lookup_cons, hrest]
      · have hother : edge ≠ asked.edge := fun h => hedge h.symm
        have hhere : place ≠ here := by
          intro hsame
          exact hedge (hplace _ List.mem_cons_self hsame.symm)
        have hbeq : (place == here) = false := beq_eq_false_iff_ne.mpr hhere
        rw [Function.update_of_ne hother] at hrest
        simp [answersOf, ofEdge, hedge, List.lookup_cons, hbeq]
        exact hrest

theorem answersOf_append (first second : List Timed) (chains : Edge -> Option Relationship) :
    answersOf (first ++ second) chains =
      answersOf first chains ++ answersOf second (leftBy first chains) := by
  induction first generalizing chains with
  | nil => rfl
  | cons item rest ih =>
      rcases item with ⟨now, asked, place⟩
      simp [answersOf, leftBy, ih]

theorem leftBy_append (first second : List Timed) (chains : Edge -> Option Relationship) :
    leftBy (first ++ second) chains = leftBy second (leftBy first chains) := by
  induction first generalizing chains with
  | nil => rfl
  | cons item rest ih =>
      rcases item with ⟨now, asked, place⟩
      simp [leftBy, ih]

theorem answersOf_places (items : List Timed) (chains : Edge -> Option Relationship) :
    (answersOf items chains).map Prod.fst = items.map fun item => item.2.2 := by
  induction items generalizing chains with
  | nil => rfl
  | cons item rest ih =>
      rcases item with ⟨now, asked, place⟩
      simp [answersOf, ih]

/-!
## What is recorded, apart from when

Two runs that draw the same identifiers record the same things at different
instants, so they are compared with the instants taken out.
-/

def RelationshipVersion.undated (version : RelationshipVersion) : RelationshipVersion :=
  { version with
    createdAt := 0
    invalidatedAt := version.invalidatedAt.map fun _ => 0 }

def Relationship.undated (relationship : Relationship) : Relationship :=
  { relationship with versions := relationship.versions.map RelationshipVersion.undated }

def Assertion.undated : Assertion -> Assertion
  | Assertion.unchanged version => Assertion.unchanged version.undated
  | Assertion.appended version => Assertion.appended version.undated

theorem isLive_undated (version : RelationshipVersion) :
    version.undated.isLive = version.isLive := by
  simp [RelationshipVersion.isLive, RelationshipVersion.undated]

theorem argmax_undated (versions : List RelationshipVersion) :
    (versions.map RelationshipVersion.undated).argmax RelationshipVersion.version =
      (versions.argmax RelationshipVersion.version).map RelationshipVersion.undated := by
  induction versions using List.reverseRecOn with
  | nil => rfl
  | append_singleton rest last ih =>
      rw [List.map_append, List.map_singleton, List.argmax_concat, List.argmax_concat, ih]
      cases rest.argmax RelationshipVersion.version with
      | none => rfl
      | some best =>
          change (if best.version < last.version then _ else _) = _
          by_cases hless : best.version < last.version
          · simp [hless]
          · simp [hless]

theorem live_undated (relationship : Relationship) :
    relationship.undated.live = relationship.live.map RelationshipVersion.undated := by
  unfold Relationship.live Relationship.undated
  rw [List.filter_map, ← argmax_undated]
  have hsame : RelationshipVersion.isLive ∘ RelationshipVersion.undated =
      RelationshipVersion.isLive := funext isLive_undated
  rw [hsame]

theorem standing_undated (relationship : Relationship) (claim : EdgeClaim) :
    relationship.undated.standing claim =
      (relationship.standing claim).map RelationshipVersion.undated := by
  unfold Relationship.standing
  rw [live_undated]
  cases relationship.live with
  | none => rfl
  | some version =>
      have hsame : claim.Matches version.undated <-> claim.Matches version := Iff.rfl
      by_cases hmatch : claim.Matches version
      · simp [Option.filter, hsame, hmatch]
      · simp [Option.filter, hsame, hmatch]

theorem appending_undated (now : Instant) (asked : Asked)
    (current : Option RelationshipVersion) (relationship : Relationship) :
    (relationship.appending now asked current).undated =
      relationship.undated.appending 0 asked (current.map RelationshipVersion.undated) := by
  have hversions : relationship.undated.versions.map RelationshipVersion.version =
      relationship.versions.map RelationshipVersion.version := by
    simp [Relationship.undated, RelationshipVersion.undated, Function.comp_def]
  unfold Relationship.appending Relationship.nextVersion nextNumber
  rw [hversions]
  cases current with
  | none => rfl
  | some version => rfl

theorem superseding_undated (now : Instant) (current : Option RelationshipVersion)
    (relationship : Relationship) :
    (relationship.superseding now current).map RelationshipVersion.undated =
      relationship.undated.superseding 0 (current.map RelationshipVersion.undated) := by
  cases current with
  | none => rfl
  | some current =>
      simp only [Relationship.superseding, Option.map_some, Relationship.undated, List.map_map]
      apply List.map_congr_left
      intro version _
      show (Relationship.supersede now current.id version).undated =
        Relationship.supersede 0 current.undated.id version.undated
      unfold Relationship.supersede
      show _ = if version.id = current.id then _ else _
      split
      · rfl
      · rfl

theorem append_undated (now : Instant) (asked : Asked) (current : Option RelationshipVersion)
    (relationship : Relationship) :
    (relationship.append now asked current).undated =
      relationship.undated.append 0 asked (current.map RelationshipVersion.undated) := by
  unfold Relationship.append
  rw [← appending_undated now asked current relationship,
    ← superseding_undated now current relationship]
  simp [Relationship.undated]

theorem assertOne_undated (now : Instant) (asked : Asked) (chain : Option Relationship) :
    (assertOne now asked chain).1.map Relationship.undated =
        (assertOne 0 asked (chain.map Relationship.undated)).1 ∧
      (assertOne now asked chain).2.undated =
        (assertOne 0 asked (chain.map Relationship.undated)).2 := by
  have hlocked : (chain.map Relationship.undated).getD (created asked) =
      (chain.getD (created asked)).undated := by
    cases chain with
    | none => rfl
    | some relationship => rfl
  unfold assertOne Relationship.assertClaim
  rw [hlocked, standing_undated, live_undated]
  cases (chain.getD (created asked)).standing asked.claim with
  | none => simp [append_undated, appending_undated, Assertion.undated]
  | some version => simp [Assertion.undated]

def undatedItems (items : List Timed) : List Timed := items.map fun item => (0, item.2)

theorem leftBy_undated (items : List Timed) (chains : Edge -> Option Relationship) (edge : Edge) :
    (leftBy items chains edge).map Relationship.undated =
      leftBy (undatedItems items) (fun edge => (chains edge).map Relationship.undated) edge := by
  induction items generalizing chains with
  | nil => rfl
  | cons item rest ih =>
      rcases item with ⟨now, asked, place⟩
      rw [leftBy, ih]
      change _ = leftBy (undatedItems rest) _ edge
      congr 1
      funext other
      by_cases hother : other = asked.edge
      · rw [hother, Function.update_self, Function.update_self,
          (assertOne_undated now asked (chains asked.edge)).1]
      · rw [Function.update_of_ne hother, Function.update_of_ne hother]

theorem answersOf_undated (items : List Timed) (chains : Edge -> Option Relationship) :
    (answersOf items chains).map (fun answer => (answer.1, answer.2.undated)) =
      answersOf (undatedItems items) fun edge => (chains edge).map Relationship.undated := by
  induction items generalizing chains with
  | nil => rfl
  | cons item rest ih =>
      rcases item with ⟨now, asked, place⟩
      rw [answersOf, List.map_cons, ih, (assertOne_undated now asked (chains asked.edge)).2]
      change _ = _ :: answersOf (undatedItems rest) _
      congr 2
      funext other
      by_cases hother : other = asked.edge
      · rw [hother, Function.update_self, Function.update_self,
          (assertOne_undated now asked (chains asked.edge)).1]
      · rw [Function.update_of_ne hother, Function.update_of_ne hother]

/-!
## The number of the live version

A claim the live version does not make is given a greater number, so an answer
read before such a claim is not the answer after it.
-/

def liveNumber (chain : Option Relationship) : Nat :=
  ((chain.bind Relationship.live).map RelationshipVersion.version).getD 0

theorem version_lt_next {relationship : Relationship} {version : RelationshipVersion}
    (hmem : version ∈ relationship.versions) : version.version < relationship.nextVersion :=
  number_lt_next hmem

theorem live_mem {relationship : Relationship} {version : RelationshipVersion}
    (hlive : relationship.live = some version) :
    version ∈ relationship.versions ∧ version.isLive := by
  have hmem := List.argmax_mem hlive
  exact List.mem_filter.mp hmem

theorem liveNumber_lt_next (relationship : Relationship) :
    liveNumber (some relationship) < relationship.nextVersion := by
  unfold liveNumber
  cases hlive : relationship.live with
  | none => simp [hlive, Relationship.nextVersion, nextNumber]
  | some version =>
      simp only [Option.bind_some, hlive, Option.map_some, Option.getD_some]
      exact version_lt_next (live_mem hlive).1

theorem superseding_mem {now : Instant} {current : Option RelationshipVersion}
    {relationship : Relationship} {version : RelationshipVersion}
    (hmem : version ∈ relationship.superseding now current) :
    exists old, old ∈ relationship.versions ∧ old.version = version.version := by
  cases current with
  | none => exact ⟨version, hmem, rfl⟩
  | some current =>
      rcases List.mem_map.mp hmem with ⟨old, hold, rfl⟩
      refine ⟨old, hold, ?_⟩
      unfold Relationship.supersede
      split
      · rfl
      · rfl

theorem live_append (now : Instant) (asked : Asked) (current : Option RelationshipVersion)
    (relationship : Relationship) :
    (relationship.append now asked current).live =
      some (relationship.appending now asked current) := by
  have hsingle : [relationship.appending now asked current].filter RelationshipVersion.isLive =
      [relationship.appending now asked current] := rfl
  unfold Relationship.live Relationship.append
  rw [List.filter_append, hsingle]
  apply argmax_append_greatest
  intro version hversion
  rcases superseding_mem (List.mem_of_mem_filter hversion) with ⟨old, hold, hnumber⟩
  rw [← hnumber]
  exact version_lt_next hold

def standingOf (chain : Option Relationship) (asked : Asked) : Option RelationshipVersion :=
  chain.bind fun relationship => relationship.standing asked.claim

theorem standing_eq (ledger : Ledger) (asked : Asked) :
    standing ledger asked = standingOf (ledger.find asked.edge) asked := rfl

theorem standing_getD (chain : Option Relationship) (asked : Asked) :
    (chain.getD (created asked)).standing asked.claim = standingOf chain asked := by
  cases chain with
  | none => rfl
  | some relationship => rfl

theorem standing_number {chain : Option Relationship} {asked : Asked}
    {version : RelationshipVersion} (h : standingOf chain asked = some version) :
    version.version = liveNumber chain := by
  cases chain with
  | none => simp [standingOf] at h
  | some relationship =>
      have hlive : relationship.live = some version := by
        simp only [standingOf, Option.bind_some, Relationship.standing,
          Option.filter_eq_some_iff] at h
        exact h.1
      simp [liveNumber, hlive]

theorem assertOne_standing {now : Instant} {asked : Asked} {chain : Option Relationship}
    {version : RelationshipVersion} (h : standingOf chain asked = some version) :
    assertOne now asked chain = (chain, Assertion.unchanged version) := by
  unfold assertOne Relationship.assertClaim
  rw [standing_getD, h]
  cases chain with
  | none => simp [standingOf] at h
  | some relationship => rfl

theorem assertOne_appending {now : Instant} {asked : Asked} {chain : Option Relationship}
    (h : standingOf chain asked = none) :
    assertOne now asked chain =
      (some ((chain.getD (created asked)).append now asked (chain.getD (created asked)).live),
        Assertion.appended ((chain.getD (created asked)).appending now asked
          (chain.getD (created asked)).live)) := by
  unfold assertOne Relationship.assertClaim
  rw [standing_getD, h]

theorem liveNumber_assertOne_lt (now : Instant) {asked : Asked} {chain : Option Relationship}
    (h : standingOf chain asked = none) :
    liveNumber chain < liveNumber (assertOne now asked chain).1 := by
  have hnext : liveNumber (some ((chain.getD (created asked)).append now asked
      (chain.getD (created asked)).live)) = (chain.getD (created asked)).nextVersion := by
    simp [liveNumber, live_append, Relationship.appending]
  rw [assertOne_appending h, hnext]
  cases chain with
  | none => exact Nat.succ_pos _
  | some relationship => exact liveNumber_lt_next relationship

theorem liveNumber_assertOne_le (now : Instant) (asked : Asked) (chain : Option Relationship) :
    liveNumber chain <= liveNumber (assertOne now asked chain).1 := by
  cases h : standingOf chain asked with
  | none => exact Nat.le_of_lt (liveNumber_assertOne_lt now h)
  | some version => rw [assertOne_standing h]

theorem liveNumber_leftBy_le (items : List Timed) (chains : Edge -> Option Relationship)
    (edge : Edge) : liveNumber (chains edge) <= liveNumber (leftBy items chains edge) := by
  induction items generalizing chains with
  | nil => exact Nat.le_refl _
  | cons item rest ih =>
      rcases item with ⟨now, asked, place⟩
      have hrest := ih (Function.update chains asked.edge
        (assertOne now asked (chains asked.edge)).1)
      by_cases hedge : edge = asked.edge
      · rw [hedge, Function.update_self] at hrest
        rw [hedge]
        exact Nat.le_trans (liveNumber_assertOne_le now asked _) hrest
      · rwa [Function.update_of_ne hedge] at hrest

theorem liveNumber_leftBy_lt {items : List Timed} {chains : Edge -> Option Relationship}
    {item : Timed} (hmem : item ∈ items)
    (hnot : standingOf (chains item.2.1.edge) item.2.1 = none) :
    liveNumber (chains item.2.1.edge) < liveNumber (leftBy items chains item.2.1.edge) := by
  induction items generalizing chains with
  | nil => simp at hmem
  | cons first rest ih =>
      rcases first with ⟨now, asked, place⟩
      rw [leftBy]
      cases hfirst : standingOf (chains asked.edge) asked with
      | none =>
          by_cases hedge : item.2.1.edge = asked.edge
          · rw [hedge]
            have hless := liveNumber_assertOne_lt now hfirst
            have hle := liveNumber_leftBy_le rest
              (Function.update chains asked.edge (assertOne now asked (chains asked.edge)).1)
              asked.edge
            rw [Function.update_self] at hle
            exact Nat.lt_of_lt_of_le hless hle
          · have hlater : item ∈ rest := by
              rcases List.mem_cons.mp hmem with rfl | hlater
              · exact absurd rfl hedge
              · exact hlater
            have hkept : Function.update chains asked.edge
                (assertOne now asked (chains asked.edge)).1 item.2.1.edge =
                  chains item.2.1.edge := Function.update_of_ne hedge _ _
            rw [← hkept] at hnot ⊢
            exact ih hlater hnot
      | some version =>
          have hlater : item ∈ rest := by
            rcases List.mem_cons.mp hmem with rfl | hlater
            · rw [hfirst] at hnot
              simp at hnot
            · exact hlater
          rw [assertOne_standing hfirst, Function.update_eq_self]
          exact ih hlater hnot

end Graph
end PaminMemory
