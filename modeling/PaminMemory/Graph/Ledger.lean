import Mathlib.Algebra.GroupWithZero.Nat
import PaminMemory.Foundation.Binary32
import PaminMemory.Foundation.Numbered
import PaminMemory.Identifiers
import Mathlib.Data.List.MinMax
import Mathlib.Logic.Function.Basic
import Mathlib.Algebra.BigOperators.Group.List.Basic

/-!
# The relationship ledger

One project's edges.  An edge has one identity, and the identity holds the
versions that were asserted of it; nothing is overwritten but the closing of a
version.
-/

namespace PaminMemory
namespace Graph

open Foundation

inductive EdgeKind where
  | mentions
  | supports
  | contradicts
  | supersedes
  | relatedTo
  | partOf
  | derivedFrom
  | sameAs
  | dependsOn
deriving DecidableEq, Repr

inductive Derivation where
  | explicit
  | deterministic
  | model
  | imported
deriving DecidableEq, Repr

inductive TombstoneReason where
  | closed
  | superseded
  | deleted
deriving DecidableEq, Repr

/-- When a relationship is asserted to hold; the table admits no interval stated backwards. -/
structure Validity where
  validFrom : Option Instant
  validTo : Option Instant
  ordered : forall start finish, validFrom = some start -> validTo = some finish ->
    start < finish
deriving DecidableEq, Repr

def Validity.ALWAYS : Validity :=
  { validFrom := none, validTo := none, ordered := by simp }

structure Confidence where
  value : Binary32
  positive : Binary32.Less Binary32.zero value
  atMostOne : Binary32.AtMost value Binary32.one
deriving DecidableEq, Repr

def Confidence.one : Confidence :=
  { value := Binary32.one, positive := by decide, atMostOne := by decide }

/-- The identity of an edge; the table admits no edge from a topic to itself. -/
structure Edge where
  fromTopic : TopicId
  toTopic : TopicId
  kind : EdgeKind
  distinct : fromTopic ≠ toTopic
deriving DecidableEq, Repr

structure EdgeClaim where
  derivation : Derivation
  confidence : Confidence
  validity : Validity
  causedByTopicState : Option TopicStateId
deriving DecidableEq, Repr

namespace EdgeClaim

def explicit : EdgeClaim :=
  { derivation := Derivation.explicit, confidence := Confidence.one,
    validity := Validity.ALWAYS, causedByTopicState := none }

def derived (causedBy : TopicStateId) (confidence : Confidence) : EdgeClaim :=
  { derivation := Derivation.deterministic, confidence := confidence,
    validity := Validity.ALWAYS, causedByTopicState := some causedBy }

end EdgeClaim

/-- One immutable fact about an edge. -/
structure RelationshipVersion where
  id : RelationshipVersionId
  relationshipId : RelationshipId
  version : Nat
  validity : Validity
  createdAt : Instant
  invalidatedAt : Option Instant
  supersedes : Option RelationshipVersionId
  causedByTopicState : Option TopicStateId
  confidence : Confidence
  derivation : Derivation
  tombstoneReason : Option TombstoneReason
deriving DecidableEq, Repr

/-- Whether an existing version already says exactly this. -/
def EdgeClaim.Matches (claim : EdgeClaim) (version : RelationshipVersion) : Prop :=
  version.derivation = claim.derivation ∧
    Binary32.Same version.confidence.value claim.confidence.value ∧
      version.validity = claim.validity

instance (claim : EdgeClaim) (version : RelationshipVersion) :
    Decidable (claim.Matches version) := by
  unfold EdgeClaim.Matches
  infer_instance

structure Relationship where
  id : RelationshipId
  edge : Edge
  versions : List RelationshipVersion
deriving DecidableEq, Repr

/-- The rows of the identity table. -/
abbrev Ledger := List Relationship

def Ledger.find (ledger : Ledger) (edge : Edge) : Option Relationship :=
  ledger.find? fun relationship => relationship.edge = edge

/-- One edge of a call, with the identifiers generated for what it may write. -/
structure Asked where
  edge : Edge
  claim : EdgeClaim
  relationship : RelationshipId
  version : RelationshipVersionId
deriving DecidableEq, Repr

/-- What asserting an edge did. -/
inductive Assertion where
  | unchanged (version : RelationshipVersion)
  | appended (version : RelationshipVersion)
deriving DecidableEq, Repr

/-!
## Reading and writing one identity
-/

def RelationshipVersion.isLive (version : RelationshipVersion) : Bool :=
  version.invalidatedAt.isNone

namespace Relationship

def live (relationship : Relationship) : Option RelationshipVersion :=
  (relationship.versions.filter RelationshipVersion.isLive).argmax RelationshipVersion.version

def standing (relationship : Relationship) (claim : EdgeClaim) :
    Option RelationshipVersion :=
  relationship.live.filter fun version => claim.Matches version

def nextVersion (relationship : Relationship) : Nat :=
  nextNumber RelationshipVersion.version relationship.versions

def appending (now : Instant) (asked : Asked) (current : Option RelationshipVersion)
    (relationship : Relationship) : RelationshipVersion :=
  { id := asked.version
    relationshipId := relationship.id
    version := relationship.nextVersion
    validity := asked.claim.validity
    createdAt := now
    invalidatedAt := none
    supersedes := current.map RelationshipVersion.id
    causedByTopicState := asked.claim.causedByTopicState
    confidence := asked.claim.confidence
    derivation := asked.claim.derivation
    tombstoneReason := none }

def supersede (now : Instant) (id : RelationshipVersionId) (version : RelationshipVersion) :
    RelationshipVersion :=
  if version.id = id then
    { version with
      invalidatedAt := some now
      tombstoneReason := some TombstoneReason.superseded }
  else
    version

def superseding (now : Instant) (current : Option RelationshipVersion)
    (relationship : Relationship) : List RelationshipVersion :=
  match current with
  | none => relationship.versions
  | some version => relationship.versions.map (supersede now version.id)

def append (now : Instant) (asked : Asked) (current : Option RelationshipVersion)
    (relationship : Relationship) : Relationship :=
  { relationship with
    versions :=
      relationship.superseding now current ++ [relationship.appending now asked current] }

end Relationship

/-!
## Asserting edges
-/

def standing (ledger : Ledger) (asked : Asked) : Option RelationshipVersion :=
  (ledger.find asked.edge).bind fun relationship => relationship.standing asked.claim

def created (asked : Asked) : Relationship :=
  { id := asked.relationship, edge := asked.edge, versions := [] }

def createIdentity (ledger : Ledger) (asked : Asked) : Ledger :=
  if (ledger.find asked.edge).isSome then ledger else ledger ++ [created asked]

abbrev Decided := Asked × Option RelationshipVersion

def alreadySaid (decided : Decided) : Option RelationshipVersion :=
  decided.2.filter fun version => decided.1.claim.Matches version

/-- Reads the live version of every locked identity; it fails when one is missing. -/
def readLive (round : List Asked) (locked : Ledger) : Option (List Decided) :=
  round.mapM fun asked =>
    (locked.find asked.edge).map fun relationship => (asked, relationship.live)

def Relationship.appendFrom (now : Instant) (appending : List Decided)
    (relationship : Relationship) : Relationship :=
  match appending.find? fun decided => decided.1.edge = relationship.edge with
  | none => relationship
  | some decided => relationship.append now decided.1 decided.2

def appendVersions (now : Instant) (appending : List Decided) (ledger : Ledger) : Ledger :=
  ledger.map (Relationship.appendFrom now appending)

/-- What an entry answers: the version read, or the version its claim appends. -/
def answerDecided (now : Instant) (ledger : Ledger) (decided : Decided) : Option Assertion :=
  match alreadySaid decided with
  | some version => some (Assertion.unchanged version)
  | none =>
      (ledger.find decided.1.edge).map fun relationship =>
        Assertion.appended (relationship.appending now decided.1 decided.2)

def writeDecided (now : Instant) (decided : List Decided) (ledger : Ledger) :
    Option (Ledger × List Assertion) :=
  match decided.mapM (answerDecided now ledger) with
  | none => none
  | some answers =>
      some (appendVersions now (decided.filter fun d => (alreadySaid d).isNone) ledger, answers)

def assertWithin (now : Instant) (round : List Asked) (ledger : Ledger) :
    Option (Ledger × List Assertion) :=
  let locked := round.foldl createIdentity ledger
  match readLive round locked with
  | none => none
  | some decided => writeDecided now decided locked

abbrev Item := Asked × Nat

def place (state : List (List Item) × (Edge -> Nat)) (item : Item) :
    List (List Item) × (Edge -> Nat) :=
  let times := state.2 item.1.edge
  let rounds := if state.1.length = times then state.1 ++ [[]] else state.1
  (rounds.modify times (fun round => round ++ [item]),
    Function.update state.2 item.1.edge (times + 1))

def repeatsApart (pending : List Item) : List (List Item) :=
  (pending.foldl place ([], fun _ => 0)).1

def assertRounds (clock : Nat -> Instant) :
    Nat -> List (List Item) -> Ledger -> Option (Ledger × List (Nat × Assertion))
  | _, [], ledger => some (ledger, [])
  | n, round :: rest, ledger =>
      match assertWithin (clock n) (round.map Prod.fst) ledger with
      | none => none
      | some (written, answers) =>
          match assertRounds clock (n + 1) rest written with
          | none => none
          | some (final, later) => some (final, (round.map Prod.snd).zip answers ++ later)

def unanswered (ledger : Ledger) (edges : List Asked) : List Item :=
  edges.zipIdx.filter fun item => (standing ledger item.1).isNone

/-- The answers in the order of the call: what was read, or what was written. -/
def collect (ledger : Ledger) (edges : List Asked) (written : List (Nat × Assertion)) :
    Option (List Assertion) :=
  edges.zipIdx.mapM fun item =>
    match standing ledger item.1 with
    | some version => some (Assertion.unchanged version)
    | none => written.lookup item.2

/--
Asserts several edges in one call.  The live versions are read once, before the
transaction; a claim one of them already makes is answered from that read.
-/
def assertEdges (clock : Nat -> Instant) (edges : List Asked) (ledger : Ledger) :
    Option (Ledger × List Assertion) :=
  match assertRounds clock 0 (repeatsApart (unanswered ledger edges)) ledger with
  | none => none
  | some (final, written) =>
      match collect ledger edges written with
      | none => none
      | some answers => some (final, answers)

/-!
## Closing edges
-/

def RelationshipVersion.close (now : Instant) (reason : TombstoneReason)
    (version : RelationshipVersion) : RelationshipVersion :=
  { version with
    invalidatedAt := some now
    tombstoneReason := some reason }

def Relationship.close (now : Instant) (reason : TombstoneReason)
    (picks : RelationshipVersion -> Bool) (relationship : Relationship) : Relationship :=
  { relationship with
    versions := relationship.versions.map fun version =>
      if version.isLive && picks version then version.close now reason else version }

def Relationship.closing (picks : RelationshipVersion -> Bool) (relationship : Relationship) :
    Nat :=
  (relationship.versions.filter fun version => version.isLive && picks version).length

/--
Closes the live versions `picks` chooses of the edges in `scope`, and returns how
many.
-/
def closeWhere (now : Instant) (reason : TombstoneReason) (scope : Edge -> Bool)
    (picks : RelationshipVersion -> Bool) (ledger : Ledger) : Ledger × Nat :=
  (ledger.map fun relationship =>
      if scope relationship.edge then relationship.close now reason picks else relationship,
    ((ledger.filter fun relationship => scope relationship.edge).map
      (Relationship.closing picks)).sum)

def closeEdge (now : Instant) (edge : Edge) (reason : TombstoneReason) (ledger : Ledger) :
    Ledger × Bool :=
  let closed := closeWhere now reason (fun other => other = edge) (fun _ => true) ledger
  (closed.1, 0 < closed.2)

def RelationshipVersion.isDerived (version : RelationshipVersion) : Bool :=
  version.derivation = Derivation.deterministic

/-- Whether a retraction is about this edge: one of its topics', and not kept. -/
def Retracts (kind : EdgeKind) (keep : List (TopicId × List TopicId)) (edge : Edge) : Prop :=
  edge.kind = kind ∧ edge.fromTopic ∈ keep.map Prod.fst ∧
    forall kept, kept ∈ keep -> kept.1 = edge.fromTopic -> edge.toTopic ∉ kept.2

instance (kind : EdgeKind) (keep : List (TopicId × List TopicId)) (edge : Edge) :
    Decidable (Retracts kind keep edge) := by
  unfold Retracts
  infer_instance

/--
Closes the derived edges of one kind out of each topic that are no longer claimed,
and returns how many.
-/
def retractDerivedAll (now : Instant) (kind : EdgeKind)
    (keep : List (TopicId × List TopicId)) (ledger : Ledger) : Ledger × Nat :=
  closeWhere now TombstoneReason.closed (fun edge => Retracts kind keep edge)
    RelationshipVersion.isDerived ledger

/-!
## What each statement does to an edge
-/

theorem find_map {update : Relationship -> Relationship}
    (hedge : forall relationship, (update relationship).edge = relationship.edge)
    (ledger : Ledger) (edge : Edge) :
    Ledger.find (ledger.map update) edge = (ledger.find edge).map update := by
  unfold Ledger.find
  rw [List.find?_map]
  congr 2
  funext relationship
  simp [hedge]

theorem edge_of_find {ledger : Ledger} {edge : Edge} {relationship : Relationship}
    (h : ledger.find edge = some relationship) : relationship.edge = edge := by
  have hfound := List.find?_some h
  simpa using hfound

theorem find_append (ledger more : Ledger) (edge : Edge) :
    Ledger.find (ledger ++ more) edge = (ledger.find edge).or (Ledger.find more edge) := by
  unfold Ledger.find
  rw [List.find?_append]

theorem find_createIdentity (ledger : Ledger) (asked : Asked) (edge : Edge) :
    (createIdentity ledger asked).find edge =
      if asked.edge = edge then some ((ledger.find edge).getD (created asked))
      else ledger.find edge := by
  unfold createIdentity
  by_cases hsame : asked.edge = edge
  · rw [← hsame, if_pos rfl]
    cases hfind : ledger.find asked.edge with
    | none =>
        have hnew : Ledger.find [created asked] asked.edge = some (created asked) := by
          simp [Ledger.find, created]
        simp [find_append, hfind, hnew]
    | some relationship => simp [hfind]
  · rw [if_neg hsame]
    split
    · rfl
    · have hnew : Ledger.find [created asked] edge = none := by
        simp [Ledger.find, created, hsame]
      rw [find_append, hnew, Option.or_none]

end Graph
end PaminMemory
