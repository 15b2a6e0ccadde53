import PaminMemory.Graph.Interleaving

/-!
# Edges that a rule derived

An edge is derived while some live version of it is.  A call that asserts derived
claims makes its edges derived and leaves the others alone, whatever was committed
since its read; a retraction only ever closes versions.
-/

namespace PaminMemory
namespace Graph

open Foundation

def derivedIn (chain : Option Relationship) : List RelationshipVersion :=
  match chain with
  | none => []
  | some relationship =>
      relationship.versions.filter fun version => version.isLive && version.isDerived

def Ledger.derives (ledger : Ledger) (edge : Edge) : Bool :=
  !(derivedIn (ledger.find edge)).isEmpty

def assertAfter (clock : Nat -> Instant) (edges : List Asked) (read ledger : Ledger) :
    Option (Ledger × List Assertion) :=
  match assertRounds clock 0 (repeatsApart (unanswered read edges)) ledger with
  | none => none
  | some (final, written) =>
      match collect read edges written with
      | none => none
      | some answers => some (final, answers)

theorem mem_derivedIn {chain : Option Relationship} {version : RelationshipVersion} :
    version ∈ derivedIn chain <->
      exists relationship, chain = some relationship ∧ version ∈ relationship.versions ∧
        version.isLive = true ∧ version.isDerived = true := by
  cases chain with
  | none => simp [derivedIn]
  | some relationship => simp [derivedIn]

theorem derives_iff {ledger : Ledger} {edge : Edge} :
    ledger.derives edge = true <-> exists version, version ∈ derivedIn (ledger.find edge) := by
  unfold Ledger.derives
  cases derivedIn (ledger.find edge) with
  | nil => simp
  | cons version rest => simp

theorem derives_congr {first second : Ledger} {edge : Edge}
    (h : first.find edge = second.find edge) : first.derives edge = second.derives edge := by
  unfold Ledger.derives
  rw [h]

/-!
## Asserting derived claims
-/

def AllDerived (edges : List Asked) : Prop :=
  forall asked, asked ∈ edges -> asked.claim.derivation = Derivation.deterministic

theorem derivedIn_of_standing {chain : Option Relationship} {asked : Asked}
    {version : RelationshipVersion} (hclaim : asked.claim.derivation = Derivation.deterministic)
    (h : standingOf chain asked = some version) : version ∈ derivedIn chain := by
  unfold standingOf at h
  rcases Option.bind_eq_some_iff.mp h with ⟨relationship, hchain, hstanding⟩
  unfold Relationship.standing at hstanding
  rcases Option.filter_eq_some_iff.mp hstanding with ⟨hlive, hmatches⟩
  have hmatches : asked.claim.Matches version := by simpa using hmatches
  rcases live_mem hlive with ⟨hmem, hopen⟩
  refine mem_derivedIn.mpr ⟨relationship, hchain, hmem, hopen, ?_⟩
  simp [RelationshipVersion.isDerived, hmatches.1, hclaim]

theorem derivedIn_assertOne (now : Instant) {asked : Asked} (chain : Option Relationship)
    (hclaim : asked.claim.derivation = Derivation.deterministic) :
    exists version, version ∈ derivedIn (assertOne now asked chain).1 := by
  cases hstanding : standingOf chain asked with
  | some version =>
      rw [assertOne_standing hstanding]
      exact ⟨version, derivedIn_of_standing hclaim hstanding⟩
  | none =>
      rw [assertOne_appending hstanding]
      let before := chain.getD (created asked)
      refine ⟨before.appending now asked before.live, mem_derivedIn.mpr
        ⟨before.append now asked before.live, rfl, ?_, rfl, ?_⟩⟩
      · exact List.mem_append_right _ (List.mem_singleton.mpr rfl)
      · simp [RelationshipVersion.isDerived, Relationship.appending, hclaim]

theorem derivedIn_leftBy {timed : List Timed} {chains : Edge -> Option Relationship}
    (hclaims : forall entry, entry ∈ timed ->
      entry.2.1.claim.derivation = Derivation.deterministic) {edge : Edge}
    (h : (exists version, version ∈ derivedIn (chains edge)) ∨
      exists entry, entry ∈ timed ∧ entry.2.1.edge = edge) :
    exists version, version ∈ derivedIn (leftBy timed chains edge) := by
  induction timed generalizing chains with
  | nil =>
      rcases h with hbefore | ⟨entry, hmem, _⟩
      · exact hbefore
      · cases hmem
  | cons first rest ih =>
      rcases first with ⟨now, asked, place⟩
      rw [leftBy]
      apply ih fun entry hmem => hclaims entry (List.mem_cons_of_mem _ hmem)
      by_cases hedge : asked.edge = edge
      · apply Or.inl
        rw [hedge, Function.update_self]
        exact derivedIn_assertOne now _ (hclaims _ List.mem_cons_self)
      · have hother : edge ≠ asked.edge := fun heq => hedge heq.symm
        rw [Function.update_of_ne hother]
        rcases h with hbefore | ⟨entry, hmem, hsame⟩
        · exact Or.inl hbefore
        · rcases List.mem_cons.mp hmem with rfl | hmem
          · exact absurd hsame hedge
          · exact Or.inr ⟨entry, hmem, hsame⟩

structure AssertsDerived (edges : List Asked) (read ledger final : Ledger) : Prop where
  others : forall edge, edge ∉ edges.map Asked.edge -> final.find edge = ledger.find edge
  keeps : forall edge, ledger.derives edge = true -> final.derives edge = true
  writes : forall asked, asked ∈ edges -> standing read asked = none ->
    final.derives asked.edge = true

theorem assertAfter_eq (clock : Nat -> Instant) (edges : List Asked) (read ledger : Ledger) :
    exists final answers timed,
      assertAfter clock edges read ledger = some (final, answers) ∧
        (forall edge, itemsOf edge (timed.map Prod.snd) =
            itemsOf edge (unanswered read edges)) ∧
          forall edge, final.find edge = leftBy timed ledger.find edge := by
  rcases assertRounds_collect clock edges read ledger with
    ⟨final, answers, timed, hrounds, hcollect, hitems, hfinal, _⟩
  refine ⟨final, answers, timed, ?_, hitems, hfinal⟩
  rw [assertAfter, hrounds]
  simp only [hcollect]

theorem asked_of_timed {edges : List Asked} {read : Ledger} {timed : List Timed}
    (hitems : forall edge, itemsOf edge (timed.map Prod.snd) =
      itemsOf edge (unanswered read edges)) {entry : Timed} (hentry : entry ∈ timed) :
    entry.2.1 ∈ edges := by
  have hown : entry.2 ∈ itemsOf entry.2.1.edge (timed.map Prod.snd) :=
    List.mem_filter.mpr ⟨List.mem_map_of_mem hentry, by simp⟩
  rw [hitems] at hown
  have hplaced := (List.mem_filter.mp (List.mem_filter.mp hown).1).1
  have hfirst : entry.2.1 ∈ edges.zipIdx.map Prod.fst := List.mem_map_of_mem hplaced
  rwa [List.zipIdx_map_fst] at hfirst

theorem assertAfter_derived {clock : Nat -> Instant} {edges : List Asked}
    {read ledger final : Ledger} {answers : List Assertion} (hclaims : AllDerived edges)
    (h : assertAfter clock edges read ledger = some (final, answers)) :
    AssertsDerived edges read ledger final := by
  rcases assertAfter_eq clock edges read ledger with
    ⟨final', answers', timed, hcall, hentries, hfinal⟩
  rw [h] at hcall
  rcases hcall with ⟨⟩
  have hderived : forall entry, entry ∈ timed ->
      entry.2.1.claim.derivation = Derivation.deterministic :=
    fun entry hentry => hclaims _ (asked_of_timed hentries hentry)
  constructor
  · intro edge hnot
    rw [hfinal]
    apply leftBy_of_not_mem
    intro entry hentry hedge
    exact hnot (hedge ▸ List.mem_map_of_mem (asked_of_timed hentries hentry))
  · intro edge hbefore
    rw [derives_iff] at hbefore ⊢
    rw [hfinal]
    exact derivedIn_leftBy hderived (Or.inl hbefore)
  · intro asked hmem hnone
    rw [derives_iff, hfinal]
    apply derivedIn_leftBy hderived
    apply Or.inr
    have hzip : asked ∈ edges.zipIdx.map Prod.fst := by
      rw [List.zipIdx_map_fst]
      exact hmem
    rcases List.mem_map.mp hzip with ⟨item, hitem, hfirst⟩
    have hpending : item ∈ itemsOf asked.edge (unanswered read edges) :=
      List.mem_filter.mpr ⟨List.mem_filter.mpr ⟨hitem, by simp [hfirst, hnone]⟩, by simp [hfirst]⟩
    rw [← hentries] at hpending
    rcases List.mem_map.mp (List.mem_filter.mp hpending).1 with ⟨entry, hentry, hitemOf⟩
    exact ⟨entry, hentry, by rw [hitemOf, hfirst]⟩

theorem derives_of_standing {ledger : Ledger} {asked : Asked} {version : RelationshipVersion}
    (hclaim : asked.claim.derivation = Derivation.deterministic)
    (h : standing ledger asked = some version) : ledger.derives asked.edge = true := by
  rw [standing_eq] at h
  exact derives_iff.mpr ⟨version, derivedIn_of_standing hclaim h⟩

/-!
## Retracting derived edges
-/

theorem find_closeSeen (snapshot : Ledger) (statement : Closing) (ledger : Ledger)
    (edge : Edge) :
    Ledger.find (ledger.map (closeSeen snapshot statement)) edge =
      (ledger.find edge).map (closeSeen snapshot statement) :=
  find_map (closeSeen_edge snapshot statement) ledger edge

theorem find_closeSeen_of_scope {snapshot : Ledger} {statement : Closing} {ledger : Ledger}
    {edge : Edge} (h : statement.scope edge = false) :
    Ledger.find (ledger.map (closeSeen snapshot statement)) edge = ledger.find edge := by
  rw [find_closeSeen]
  cases hfind : ledger.find edge with
  | none => rfl
  | some relationship =>
      rw [Option.map_some, closeSeen, edge_of_find hfind, dooms_scope h]
      rfl

theorem derivedIn_closeSeen {snapshot : Ledger} {statement : Closing} {ledger : Ledger}
    {edge : Edge} {version : RelationshipVersion}
    (h : version ∈ derivedIn (Ledger.find (ledger.map (closeSeen snapshot statement)) edge)) :
    version ∈ derivedIn (ledger.find edge) := by
  rw [find_closeSeen] at h
  rcases mem_derivedIn.mp h with ⟨closed, hclosed, hmem, hlive, hderived⟩
  rcases Option.map_eq_some_iff.mp hclosed with ⟨relationship, hfind, hsame⟩
  refine mem_derivedIn.mpr ⟨relationship, hfind, ?_, hlive, hderived⟩
  rw [← hsame, closeSeen] at hmem
  split at hmem
  · rcases List.mem_map.mp hmem with ⟨old, hold, hold'⟩
    split at hold'
    · rw [← hold'] at hlive
      simp [RelationshipVersion.close, RelationshipVersion.isLive] at hlive
    · rw [← hold']
      exact hold
  · exact hmem

theorem not_derives_closeSeen {snapshot ledger : Ledger} {now : Instant} {kind : EdgeKind}
    {keep : List (TopicId × List TopicId)} {edge : Edge} (hscope : Retracts kind keep edge)
    (hseen : forall version, version ∈ derivedIn (ledger.find edge) ->
      Seen snapshot (Closing.derived now kind keep) edge version = true) :
    Ledger.derives (ledger.map (closeSeen snapshot (Closing.derived now kind keep))) edge =
      false := by
  rw [Bool.eq_false_iff]
  intro hderives
  rcases derives_iff.mp hderives with ⟨version, hversion⟩
  have hbefore := derivedIn_closeSeen hversion
  rw [find_closeSeen] at hversion
  rcases mem_derivedIn.mp hbefore with ⟨relationship, hfind, _, hlive, hderived⟩
  rcases mem_derivedIn.mp hversion with ⟨closed, hclosed, hmem, _, _⟩
  rw [hfind, Option.map_some, Option.some.injEq] at hclosed
  have hscope' : (Closing.derived now kind keep).scope edge = true := by
    simpa [Closing.scope] using hscope
  have hdooms := dooms_of_seen hscope' (hseen version hbefore)
  rw [← hclosed, closeSeen, edge_of_find hfind, if_pos hdooms] at hmem
  rcases List.mem_map.mp hmem with ⟨old, hold, hclosing⟩
  by_cases hshut : (old.isLive && ((Closing.derived now kind keep).picks old &&
      Seen snapshot (Closing.derived now kind keep) edge old)) = true
  · rw [if_pos hshut] at hclosing
    rw [← hclosing] at hlive
    simp [RelationshipVersion.close, RelationshipVersion.isLive] at hlive
  · rw [if_neg hshut] at hclosing
    rw [hclosing] at hshut
    apply hshut
    rw [hlive, hseen version hbefore]
    simpa [Closing.picks] using hderived

theorem seen_of_snapshot {snapshot : Ledger} {now : Instant} {kind : EdgeKind}
    {keep : List (TopicId × List TopicId)} {edge : Edge} {version : RelationshipVersion}
    (h : version ∈ derivedIn (snapshot.find edge)) :
    Seen snapshot (Closing.derived now kind keep) edge version = true := by
  rcases mem_derivedIn.mp h with ⟨relationship, hfind, hmem, hlive, hderived⟩
  unfold Seen
  rw [hfind]
  apply List.any_eq_true.mpr
  refine ⟨version, hmem, ?_⟩
  simp [hlive, Closing.picks, hderived]

end Graph
end PaminMemory
