import PaminMemory.Cascade.Meeting
import PaminMemory.Graph.Explicit

/-!
# Edges a user links by hand

A user links two topics with a claim of their own, and unlinks them.  The rounds that
derive mentions assert the same edges, and an edge has one live version.
-/

namespace PaminMemory
namespace Linking

open Foundation PaminMemory.Graph
open Cascade (Found claims asks allDerived_asks)

/-- An action of the drains and the writes, or one of a user's on the graph. -/
inductive HandAction where
  | round (action : Action)
  | link (clock : Nat -> Instant) (edge : Edge) (validity : Validity)
      (relationship : RelationshipId) (version : RelationshipVersionId)
  | unlink (now : Instant) (edge : Edge) (reason : TombstoneReason)

/-- What linking asks: a claim of the user's, which holds when they say. -/
def linked (edge : Edge) (validity : Validity) (relationship : RelationshipId)
    (version : RelationshipVersionId) : Asked :=
  { edge := edge, claim := { EdgeClaim.explicit with validity := validity }
    relationship := relationship, version := version }

def HandAction.Handles (edge : Edge) : HandAction -> Prop
  | round _ => False
  | link _ other _ _ _ => other = edge
  | unlink _ other _ => other = edge

def Stage.asking : Stage -> Option (List Found × Ledger)
  | looked _ links before => some (links, before)
  | _ => none

section Model

variable (naming : String -> List TopicId) (width : TopicId -> Nat) (project : ProjectId)

def handStep (s : System) : HandAction -> Option System
  | HandAction.round action => step naming width project s action
  | HandAction.link clock edge validity relationship version =>
      (assertEdges clock [linked edge validity relationship version] s.ledger).map
        fun final => { s with ledger := final.1 }
  | HandAction.unlink now edge reason =>
      some { s with ledger := (closeEdge now edge reason s.ledger).1 }

/--
Through every stretch of the run in which the user leaves an edge alone, its live
versions that they asserted stay as they are.
-/
def LinksStand (actions : List HandAction) : Prop :=
  forall before during after s t, actions = before ++ (during ++ after) ->
    RunFrom (handStep naming width project) System.empty before = some s ->
      RunFrom (handStep naming width project) s during = some t ->
        forall edge, (forall action, action ∈ during -> ¬ action.Handles edge) ->
          forall version, version ∈ explicitIn (s.ledger.find edge) ->
            version ∈ explicitIn (t.ledger.find edge)

def KeepsLinks (s : System) (action : HandAction) : Prop :=
  forall t, handStep naming width project s action = some t ->
    forall edge, ¬ action.Handles edge ->
      forall version, version ∈ explicitIn (s.ledger.find edge) ->
        version ∈ explicitIn (t.ledger.find edge)

/--
A round asserts no edge of which a version the user asserted is live, apart from those
that its read before the transaction found derived already.
-/
def SparesLinks (s : System) : HandAction -> Prop
  | HandAction.round (Action.assert id _ drawn) =>
      forall asking, asking ∈ (partyOf s.drains id).bind (fun drain => drain.stage.asking) ->
        forall item, item ∈ unanswered asking.2 (asks drawn (claims asking.1)) ->
          explicitIn (s.ledger.find item.1.edge) = []
  | _ => True

instance (s : System) : DecidablePred (SparesLinks s) := by
  intro action
  unfold SparesLinks
  split <;> infer_instance

/-!
## What one action does to the ledger
-/

variable {naming width project} {s t : System} {id : Nat}

theorem ledger_advance {next : Drain -> Option Drain} (h : s.advance id next = some t) :
    t.ledger = s.ledger := by
  unfold System.advance at h
  rcases Option.bind_eq_some_iff.mp h with ⟨drain, _, hmoved⟩
  rcases Option.map_eq_some_iff.mp hmoved with ⟨moved, _, rfl⟩
  rfl

theorem ledger_settle {statement : Jobs.Statement} (h : s.settle statement = some t) :
    t.ledger = s.ledger := by
  rcases Option.map_eq_some_iff.mp h with ⟨outbox, _, rfl⟩
  rfl

inductive LedgerStep (s t : System) : Action -> Prop where
  | same {action : Action} (hledger : t.ledger = s.ledger)
      (hnot : forall id clock drawn, action ≠ Action.assert id clock drawn) :
      LedgerStep s t action
  | asserted {id : Nat} {clock : Nat -> Instant}
      {drawn : Nat -> RelationshipId × RelationshipVersionId} {found : List Found}
      {read : Ledger} {answers : List Assertion}
      (hasking : (partyOf s.drains id).bind (fun drain => drain.stage.asking) = some (found, read))
      (hcall : assertAfter clock (asks drawn (claims found)) read s.ledger =
        some (t.ledger, answers)) :
      LedgerStep s t (Action.assert id clock drawn)
  | retracted {id : Nat} {now : Instant} {snapshot : Ledger} {kind : EdgeKind}
      {keep : List (TopicId × List TopicId)}
      (hledger : t.ledger = s.ledger.map (closeSeen snapshot (Closing.derived now kind keep))) :
      LedgerStep s t (Action.close id now)

theorem ledger_step {action : Action} (h : step naming width project s action = some t) :
    LedgerStep s t action := by
  cases action with
  | write now topic current drawn =>
      rcases Option.map_eq_some_iff.mp h with ⟨u, hsettle, rfl⟩
      have hsame := ledger_settle hsettle
      exact LedgerStep.same hsame (by simp)
  | claim id now worker batch kinds locked =>
      rcases Option.ite_none_left_eq_some.mp h with ⟨_, hclaim⟩
      rcases Option.map_eq_some_iff.mp hclaim with ⟨u, hsettle, rfl⟩
      have hsame := ledger_settle hsettle
      exact LedgerStep.same hsame (by simp)
  | sync id batch =>
      rcases Option.ite_none_right_eq_some.mp h with ⟨_, hsync⟩
      rcases Option.map_eq_some_iff.mp hsync with ⟨u, hadvance, rfl⟩
      have hsame := ledger_advance hadvance
      exact LedgerStep.same hsame (by simp)
  | store id topic =>
      have h : s.store id topic = some t := h
      unfold System.store at h
      split at h
      · rcases Option.map_eq_some_iff.mp h with ⟨current, _, rfl⟩
        exact LedgerStep.same rfl (by simp)
      · cases h
  | synced id =>
      rcases Option.map_eq_some_iff.mp h with ⟨u, hadvance, rfl⟩
      have hsame := ledger_advance hadvance
      exact LedgerStep.same hsame (by simp)
  | read id batch => exact LedgerStep.same (ledger_advance h) (by simp)
  | measure id => exact LedgerStep.same (ledger_advance h) (by simp)
  | lookup id => exact LedgerStep.same (ledger_advance h) (by simp)
  | probe id batch returned =>
      rcases Option.ite_none_right_eq_some.mp h with ⟨_, hprobe⟩
      exact LedgerStep.same (ledger_advance hprobe) (by simp)
  | weigh id => exact LedgerStep.same (ledger_advance h) (by simp)
  | look id => exact LedgerStep.same (ledger_advance h) (by simp)
  | assert id clock drawn =>
      have h : s.assert id clock drawn = some t := h
      unfold System.assert at h
      split at h
      · next worker jobs batch pass found read done hparty =>
          rcases Option.map_eq_some_iff.mp h with ⟨⟨final, answers⟩, hcall, rfl⟩
          have hasking : (partyOf s.drains id).bind (fun drain => drain.stage.asking) =
              some (found, read) := by
            rw [hparty]
            rfl
          exact LedgerStep.asserted hasking hcall
      · cases h
  | retract id => exact LedgerStep.same (ledger_advance h) (by simp)
  | close id now =>
      have h : s.close id now = some t := h
      unfold System.close at h
      split at h
      · cases h
        exact LedgerStep.retracted rfl
      · cases h
  | complete id jobs =>
      rcases Option.bind_eq_some_iff.mp h with ⟨drain, _, hcomplete⟩
      rcases Option.ite_none_right_eq_some.mp hcomplete with ⟨_, hsettle⟩
      exact LedgerStep.same (ledger_settle hsettle) (by simp)
  | fail id now job error =>
      rcases Option.bind_eq_some_iff.mp h with ⟨drain, _, hfail⟩
      rcases Option.ite_none_right_eq_some.mp hfail with ⟨_, hsettle⟩
      exact LedgerStep.same (ledger_settle hsettle) (by simp)
  | stop id =>
      rcases Option.map_eq_some_iff.mp h with ⟨u, hadvance, rfl⟩
      have hsame := ledger_advance hadvance
      exact LedgerStep.same hsame (by simp)
  | die id =>
      cases h
      exact LedgerStep.same rfl (by simp)
  | replay now => exact LedgerStep.same (ledger_settle h) (by simp)

theorem ledger_asserting (naming : String -> List TopicId) (width : TopicId -> Nat)
    (project : ProjectId) {clock : Nat -> Instant}
    {drawn : Nat -> RelationshipId × RelationshipVersionId} {found : List Found}
    {read final : Ledger} {answers : List Assertion}
    (hasking : (partyOf s.drains id).bind (fun drain => drain.stage.asking) = some (found, read))
    (hcall : assertAfter clock (asks drawn (claims found)) read s.ledger =
      some (final, answers)) :
    (step naming width project s (Action.assert id clock drawn)).map System.ledger =
      some final := by
  rcases Option.bind_eq_some_iff.mp hasking with ⟨drain, hparty, hstage⟩
  rcases drain with ⟨worker, jobs, batch, stage, done⟩
  cases stage with
  | looked pass links before =>
      cases hstage
      rw [step, System.assert, hparty]
      simp only [hcall, Option.map_some]
  | _ => cases hstage

theorem singlyLive_handStep {action : HandAction} (hledger : s.ledger.SinglyLive)
    (h : handStep naming width project s action = some t) : t.ledger.SinglyLive := by
  cases action with
  | round action =>
      cases ledger_step h with
      | same hsame _ =>
          rw [hsame]
          exact hledger
      | asserted _ hcall => exact singlyLive_assertAfter hledger hcall
      | retracted hretracted =>
          rw [hretracted]
          exact singlyLive_closeSeen hledger _ _
  | link clock edge validity relationship version =>
      rcases Option.map_eq_some_iff.mp h with ⟨⟨final, answers⟩, hcall, rfl⟩
      exact singlyLive_assertAfter hledger hcall
  | unlink now edge reason =>
      cases h
      exact singlyLive_closeWhere hledger now reason (fun other => other = edge) fun _ => true

theorem singlyLive_preserved :
    Preserved (handStep naming width project) fun s => s.ledger.SinglyLive :=
  fun _ _ _ hledger h => singlyLive_handStep hledger h

theorem keepsLinks_link {clock : Nat -> Instant} {edge : Edge} {validity : Validity}
    {relationship : RelationshipId} {version : RelationshipVersionId} :
    KeepsLinks naming width project s
      (HandAction.link clock edge validity relationship version) := by
  intro t h other hother kept hkept
  rcases Option.map_eq_some_iff.mp h with ⟨⟨final, answers⟩, hcall, rfl⟩
  have hsame : Ledger.find final other = s.ledger.find other := by
    apply find_assertAfter_other hcall
    simpa [linked, HandAction.Handles, eq_comm] using hother
  rw [hsame]
  exact hkept

theorem keepsLinks_unlink {now : Instant} {edge : Edge} {reason : TombstoneReason} :
    KeepsLinks naming width project s (HandAction.unlink now edge reason) := by
  intro t h other hother kept hkept
  cases h
  have hsame : (closeEdge now edge reason s.ledger).1.find other = s.ledger.find other := by
    apply find_closeWhere_other fun other => other = edge
    rw [decide_eq_false_iff_not]
    exact fun hsame => hother hsame.symm
  rw [hsame]
  exact hkept

theorem keepsLinks_iff (hledger : s.ledger.SinglyLive) (action : HandAction) :
    KeepsLinks naming width project s action <-> SparesLinks s action := by
  cases action with
  | link clock edge validity relationship version =>
      exact ⟨fun _ => True.intro, fun _ => keepsLinks_link⟩
  | unlink now edge reason => exact ⟨fun _ => True.intro, fun _ => keepsLinks_unlink⟩
  | round action =>
      constructor
      case mp =>
        intro hkeeps
        unfold SparesLinks
        split
        case h_2 => exact True.intro
        case h_1 id clock drawn heq =>
          cases heq
          rintro ⟨found, read⟩ hasking
          rcases assertAfter_eq clock (asks drawn (claims found)) read s.ledger with
            ⟨final, answers, _, hcall, _, _⟩
          rcases Option.map_eq_some_iff.mp (ledger_asserting naming width project hasking hcall)
            with ⟨t, hstep, hfinal⟩
          refine (spares_assertAfter hledger (allDerived_asks drawn _) hcall).mp ?_
          intro edge version hversion
          rw [← hfinal]
          exact hkeeps t hstep edge not_false version hversion
      case mpr =>
        intro hspares t hstep edge _ version hversion
        cases ledger_step hstep with
        | same hsame _ =>
            rw [hsame]
            exact hversion
        | asserted hasking hcall =>
            exact (spares_assertAfter hledger (allDerived_asks _ _) hcall).mpr
              (hspares _ hasking) edge version hversion
        | retracted hretracted =>
            rw [hretracted]
            exact explicitIn_closeSeen hversion

theorem keepsLinks_run {actions : List HandAction} {edge : Edge}
    {version : RelationshipVersion}
    (hkeeps : Along (handStep naming width project) (KeepsLinks naming width project) s actions)
    (hhands : forall action, action ∈ actions -> ¬ action.Handles edge)
    (hrun : RunFrom (handStep naming width project) s actions = some t)
    (hversion : version ∈ explicitIn (s.ledger.find edge)) :
    version ∈ explicitIn (t.ledger.find edge) := by
  induction actions generalizing s with
  | nil =>
      cases hrun
      exact hversion
  | cons action rest ih =>
      rcases runFrom_cons_some.mp hrun with ⟨u, hstep, hrest⟩
      rcases along_cons hkeeps hstep with ⟨hhere, hlater⟩
      apply ih hlater (fun other hother => hhands other (List.mem_cons_of_mem _ hother)) hrest
      exact hhere u hstep edge (hhands action List.mem_cons_self) version hversion

theorem linksStand_iff_keepsLinks {actions : List HandAction} :
    LinksStand naming width project actions <->
      Along (handStep naming width project) (KeepsLinks naming width project) System.empty
        actions := by
  constructor
  · intro hstand
    rw [along_iff_split]
    intro before action after s hactions hbefore t hstep edge hhands version hversion
    refine hstand before [action] after s t hactions hbefore ?_ edge ?_ version hversion
    · exact runFrom_cons_some.mpr ⟨t, hstep, rfl⟩
    · intro other hother
      rw [List.mem_singleton.mp hother]
      exact hhands
  · intro hkeeps before during after s t hactions hbefore hduring edge hhands version hversion
    rw [hactions] at hkeeps
    have hlater := along_append hkeeps hbefore
    exact keepsLinks_run (along_of_append hlater) hhands hduring hversion

variable (naming width project)

/--
What a user linked stands until the user says otherwise if and only if no round asserts an
edge they linked.
-/
theorem links_stand_iff (actions : List HandAction) :
    LinksStand naming width project actions <->
      Along (handStep naming width project) SparesLinks System.empty actions := by
  rw [linksStand_iff_keepsLinks]
  apply along_iff_of_preserved singlyLive_preserved fun s action hledger =>
    keepsLinks_iff hledger action
  intro edge relationship hfind
  cases hfind

end Model

section Relinked

open Cascade (namesSix)

def sixthEdge : Edge :=
  { fromTopic := 5, toTopic := 6, kind := EdgeKind.mentions, distinct := by decide }

def linkedByHand : List HandAction :=
  [HandAction.round (written 0 5 "none" 10), HandAction.round (written 1 6 "none" 20),
    HandAction.link (fun _ => 2) sixthEdge Validity.ALWAYS 7 8]

/-- One of the topics is written again, with the other's name, and its mentions restated. -/
def namedAfter : List HandAction :=
  ([written 3 5 "six" 30, claimOf 0 4] ++ restating 0 4 (deriveFor 5 10 4)).map HandAction.round

/-- The round that reads the name takes the place of the user's link. -/
theorem derived_mention_replaces_link :
    ¬ LinksStand namesSix oneWide 0 (linkedByHand ++ namedAfter) := by
  intro hstand
  have hends : ((RunFrom (handStep namesSix oneWide 0) System.empty linkedByHand).any
      fun s => (RunFrom (handStep namesSix oneWide 0) s namedAfter).any fun t =>
        (explicitIn (s.ledger.find sixthEdge)).any fun version =>
          decide (version ∉ explicitIn (t.ledger.find sixthEdge))) = true := by decide
  rcases (Option.any_eq_true _ _).mp hends with ⟨s, hbefore, hrest⟩
  rcases (Option.any_eq_true _ _).mp hrest with ⟨t, hduring, hlost⟩
  rcases List.any_eq_true.mp hlost with ⟨version, hversion, hgone⟩
  have hhands : forall action, action ∈ namedAfter -> ¬ action.Handles sixthEdge := by
    intro action hmem
    rcases List.mem_map.mp hmem with ⟨round, _, rfl⟩
    exact not_false
  exact of_decide_eq_true hgone
    (hstand linkedByHand namedAfter [] s t (by rw [List.append_nil]) hbefore hduring sixthEdge
      hhands version hversion)

end Relinked

end Linking
end PaminMemory
