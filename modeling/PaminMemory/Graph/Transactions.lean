import PaminMemory.Foundation.Runs
import PaminMemory.Graph.Batch

/-!
# Calls against the ledger, statement by statement

A statement reads what was committed when it began, with what its own
transaction wrote.  An identity's lock is held until the transaction ends, and a
statement that waits for one keeps the snapshot it began with: of a row it
waited for, it checks again only that row.
-/

namespace PaminMemory
namespace Graph

open Foundation

inductive Closing where
  | edge (now : Instant) (edge : Edge) (reason : TombstoneReason)
  | derived (now : Instant) (kind : EdgeKind) (keep : List (TopicId × List TopicId))

namespace Closing

def now : Closing -> Instant
  | edge now _ _ => now
  | derived now _ _ => now

def reason : Closing -> TombstoneReason
  | edge _ _ reason => reason
  | derived _ _ _ => TombstoneReason.closed

def scope : Closing -> Edge -> Bool
  | edge _ wanted _, other => other = wanted
  | derived _ kind keep, other => Retracts kind keep other

def picks : Closing -> RelationshipVersion -> Bool
  | edge _ _ _, _ => true
  | derived _ _ _, version => version.isDerived

end Closing

/-- A call, with the instants and identifiers it draws. -/
inductive Call where
  | assert (clock : Nat -> Instant) (edges : List Asked)
  | close (statement : Closing)

inductive Outcome where
  | asserted (answers : List Assertion)
  | closed (any : Bool)
  | retracted (count : Nat)
deriving DecidableEq, Repr

def Closing.report : Closing -> Nat -> Outcome
  | edge _ _ _, count => Outcome.closed (0 < count)
  | derived _ _ _, count => Outcome.retracted count

def Call.run : Call -> Ledger -> Option (Ledger × Outcome)
  | assert clock edges, ledger =>
      match assertEdges clock edges ledger with
      | none => none
      | some (final, answers) => some (final, Outcome.asserted answers)
  | close (Closing.edge now edge reason), ledger =>
      some ((closeEdge now edge reason ledger).1,
        Outcome.closed (closeEdge now edge reason ledger).2)
  | close (Closing.derived now kind keep), ledger =>
      some ((retractDerivedAll now kind keep ledger).1,
        Outcome.retracted (retractDerivedAll now kind keep ledger).2)

def replay : List Call -> Ledger -> Option (Ledger × List Outcome)
  | [], ledger => some (ledger, [])
  | call :: rest, ledger =>
      match call.run ledger with
      | none => none
      | some (written, outcome) =>
          match replay rest written with
          | none => none
          | some (final, outcomes) => some (final, outcome :: outcomes)

structure Asserting where
  clock : Nat -> Instant
  edges : List Asked
  /-- What the read before the transaction saw. -/
  read : Ledger
  done : Nat
  /-- The rounds still to write, the current one first. -/
  rounds : List (List Item)
  /-- The identities the transaction created or wrote, as it left them. -/
  own : Ledger
  /-- What the current round read under its locks. -/
  decided : Option (List Decided)
  written : List (Nat × Assertion)

inductive Txn where
  | idle
  | asserting (state : Asserting)
  | closing (statement : Closing) (snapshot : Ledger)
  | ended

/-- The committed ledger, the transactions and the locks they hold. -/
structure Db where
  ledger : Ledger
  txns : Nat -> Txn
  locks : List (Edge × Nat)
  /-- The calls that returned, in the order they took effect. -/
  finished : List (Call × Outcome)

def Db.start (ledger : Ledger) : Db :=
  { ledger := ledger, txns := fun _ => Txn.idle, locks := [], finished := [] }

/-- What a transaction's statement reads: its own writes over what is committed. -/
def overlay (own ledger : Ledger) : Ledger :=
  (ledger.map fun relationship => (own.find relationship.edge).getD relationship) ++
    own.filter fun relationship => (ledger.find relationship.edge).isNone

def Seen (snapshot : Ledger) (statement : Closing) (edge : Edge)
    (version : RelationshipVersion) : Bool :=
  match snapshot.find edge with
  | none => false
  | some relationship =>
      relationship.versions.any fun seen =>
        seen.id = version.id && seen.isLive && statement.picks seen

def Dooms (snapshot : Ledger) (statement : Closing) (edge : Edge) : Bool :=
  statement.scope edge &&
    match snapshot.find edge with
    | none => false
    | some relationship =>
        match statement with
        | Closing.edge _ _ _ => true
        | Closing.derived _ _ _ =>
            relationship.versions.any fun seen => seen.isLive && seen.isDerived

def closeSeen (snapshot : Ledger) (statement : Closing) (relationship : Relationship) :
    Relationship :=
  if Dooms snapshot statement relationship.edge then
    relationship.close statement.now statement.reason fun version =>
      statement.picks version && Seen snapshot statement relationship.edge version
  else
    relationship

def closingSeen (snapshot : Ledger) (statement : Closing) (relationship : Relationship) :
    Nat :=
  if Dooms snapshot statement relationship.edge then
    relationship.closing fun version =>
      statement.picks version && Seen snapshot statement relationship.edge version
  else
    0

/-- One event of one transaction. -/
inductive Action where
  | begin (id : Nat) (call : Call)
  | take (id : Nat) (edge : Edge)
  | look (id : Nat)
  | write (id : Nat)
  | finish (id : Nat)
  | abort (id : Nat)

/-- Starts a call: the read before the transaction, or the snapshot of the one statement. -/
def Db.begin (db : Db) (id : Nat) : Call -> Option Db
  | Call.assert clock edges =>
      if (unanswered db.ledger edges).isEmpty then
        match collect db.ledger edges [] with
        | none => none
        | some answers =>
            some
              { db with
                txns := Function.update db.txns id Txn.ended
                finished :=
                  db.finished ++ [(Call.assert clock edges, Outcome.asserted answers)] }
      else
        some
          { db with
            txns := Function.update db.txns id
              (Txn.asserting
                { clock := clock, edges := edges, read := db.ledger, done := 0
                  rounds := repeatsApart (unanswered db.ledger edges)
                  own := [], decided := none, written := [] }) }
  | Call.close statement =>
      some
        { db with
          txns := Function.update db.txns id (Txn.closing statement db.ledger) }

def Db.take (db : Db) (id : Nat) (edge : Edge) : Option Db :=
  if edge ∈ db.locks.map Prod.fst then
    none
  else
    match db.txns id with
    | Txn.asserting state =>
        match state.rounds, state.decided with
        | round :: _, none =>
            match round.find? fun item => item.1.edge = edge with
            | none => none
            | some item =>
                some
                  { db with
                    locks := (edge, id) :: db.locks
                    txns := Function.update db.txns id
                      (Txn.asserting
                        { state with
                          own :=
                            if ((overlay state.own db.ledger).find edge).isSome then state.own
                            else state.own ++ [created item.1] }) }
        | _, _ => none
    | Txn.closing statement snapshot =>
        if Dooms snapshot statement edge then
          some { db with locks := (edge, id) :: db.locks }
        else
          none
    | _ => none

def Db.look (db : Db) (id : Nat) : Option Db :=
  match db.txns id with
  | Txn.asserting state =>
      match state.rounds, state.decided with
      | round :: _, none =>
          if forall item, item ∈ round -> (item.1.edge, id) ∈ db.locks then
            match readLive (round.map Prod.fst) (overlay state.own db.ledger) with
            | none => none
            | some decided =>
                some
                  { db with
                    txns := Function.update db.txns id
                      (Txn.asserting { state with decided := some decided }) }
          else
            none
      | _, _ => none
  | _ => none

def Db.write (db : Db) (id : Nat) : Option Db :=
  match db.txns id with
  | Txn.asserting state =>
      match state.rounds, state.decided with
      | round :: rest, some decided =>
          match writeDecided (state.clock state.done) decided
              (overlay state.own db.ledger) with
          | none => none
          | some (final, answers) =>
              some
                { db with
                  txns := Function.update db.txns id
                    (Txn.asserting
                      { state with
                        done := state.done + 1
                        rounds := rest
                        own := final.filter fun relationship =>
                          (relationship.edge, id) ∈ db.locks
                        decided := none
                        written :=
                          state.written ++ (round.map Prod.snd).zip answers }) }
      | _, _ => none
  | _ => none

def Db.release (db : Db) (id : Nat) : List (Edge × Nat) :=
  db.locks.filter fun lock => lock.2 ≠ id

def Db.finish (db : Db) (id : Nat) : Option Db :=
  match db.txns id with
  | Txn.asserting state =>
      match state.rounds, collect state.read state.edges state.written with
      | [], some answers =>
          some
            { ledger := overlay state.own db.ledger
              txns := Function.update db.txns id Txn.ended
              locks := db.release id
              finished := db.finished ++
                [(Call.assert state.clock state.edges, Outcome.asserted answers)] }
      | _, _ => none
  | Txn.closing statement snapshot =>
      if forall relationship, relationship ∈ snapshot ->
          Dooms snapshot statement relationship.edge = true ->
            (relationship.edge, id) ∈ db.locks then
        some
          { ledger := db.ledger.map (closeSeen snapshot statement)
            txns := Function.update db.txns id Txn.ended
            locks := db.release id
            finished := db.finished ++
              [(Call.close statement,
                statement.report (db.ledger.map (closingSeen snapshot statement)).sum)] }
      else
        none
  | _ => none

def Db.abort (db : Db) (id : Nat) : Option Db :=
  match db.txns id with
  | Txn.idle => none
  | Txn.ended => none
  | _ =>
      some
        { db with
          txns := Function.update db.txns id Txn.ended
          locks := db.release id }

def Db.step (db : Db) : Action -> Option Db
  | Action.begin id call =>
      match db.txns id with
      | Txn.idle => db.begin id call
      | _ => none
  | Action.take id edge => db.take id edge
  | Action.look id => db.look id
  | Action.write id => db.write id
  | Action.finish id => db.finish id
  | Action.abort id => db.abort id

/-!
## Serial orders
-/

def Outcome.undated : Outcome -> Outcome
  | Outcome.asserted answers => Outcome.asserted (answers.map Assertion.undated)
  | Outcome.closed any => Outcome.closed any
  | Outcome.retracted count => Outcome.retracted count

def Alike (first second : Ledger) : Prop :=
  forall edge, undatedChains first edge = undatedChains second edge

def ExplainedBy (start : Ledger) (db : Db) (order : List (Call × Outcome)) : Prop :=
  exists final outcomes, replay (order.map Prod.fst) start = some (final, outcomes) ∧
    Alike final db.ledger ∧
      outcomes.map Outcome.undated = order.map fun entry => entry.2.undated

/-- Some order of the calls that returned explains what was recorded and reported. -/
def Serializable (start : Ledger) (db : Db) : Prop :=
  exists order, order.Perm db.finished ∧ ExplainedBy start db order

/-!
## What a concurrent call can miss
-/

def liveAt (ledger : Ledger) (edge : Edge) : Option RelationshipVersion :=
  (ledger.find edge).bind Relationship.live

/--
What a call answered from its read of an edge still stands: the live version is the
one it read, or it answered nothing and one call now would not part from single
calls.
-/
def Undisturbed (read ledger : Ledger) (edges : List Asked) (edge : Edge) : Prop :=
  liveAt read edge = liveAt ledger edge ∨
    (forall asked, asked ∈ edges -> asked.edge = edge -> standing read asked = none) ∧
      StandingFirstOn ledger edges edge

def SeesAll (snapshot ledger : Ledger) (statement : Closing) : Prop :=
  forall relationship, relationship ∈ ledger -> statement.scope relationship.edge = true ->
    forall version, version ∈ relationship.versions -> version.isLive = true ->
      statement.picks version = true ->
        Seen snapshot statement relationship.edge version = true

instance (ledger : Ledger) (edges : List Asked) (edge : Edge) :
    Decidable (StandingFirstOn ledger edges edge) := by
  unfold StandingFirstOn
  infer_instance

instance (read ledger : Ledger) (edges : List Asked) (edge : Edge) :
    Decidable (Undisturbed read ledger edges edge) := by
  unfold Undisturbed
  infer_instance

instance (snapshot ledger : Ledger) (statement : Closing) :
    Decidable (SeesAll snapshot ledger statement) := by
  unfold SeesAll
  infer_instance

def Txn.StillSo (ledger : Ledger) : Txn -> Prop
  | asserting state =>
      forall asked, asked ∈ state.edges ->
        Undisturbed state.read ledger state.edges asked.edge
  | closing statement snapshot => SeesAll snapshot ledger statement
  | _ => True

instance (ledger : Ledger) : forall txn : Txn, Decidable (txn.StillSo ledger)
  | Txn.idle => isTrue True.intro
  | Txn.asserting state =>
      inferInstanceAs (Decidable (forall asked, asked ∈ state.edges ->
        Undisturbed state.read ledger state.edges asked.edge))
  | Txn.closing statement snapshot =>
      inferInstanceAs (Decidable (SeesAll snapshot ledger statement))
  | Txn.ended => isTrue True.intro

/-- When a call takes effect, what it decided before its locks is still so. -/
def DecidedUnderLock (db : Db) : Action -> Prop
  | Action.finish id => (db.txns id).StillSo db.ledger
  | _ => True

instance (db : Db) : forall action, Decidable (DecidedUnderLock db action)
  | Action.begin _ _ => isTrue True.intro
  | Action.take _ _ => isTrue True.intro
  | Action.look _ => isTrue True.intro
  | Action.write _ => isTrue True.intro
  | Action.finish id => inferInstanceAs (Decidable ((db.txns id).StillSo db.ledger))
  | Action.abort _ => isTrue True.intro

end Graph
end PaminMemory
