import Mathlib.Data.List.Sort
import PaminMemory.Spans.Growing
import PaminMemory.Topics.Saying

/-!
# Reading a topic

A topic is read so many versions back from its latest.  The read looks three times: for the topic,
for the versions it has, and for the one that was resolved; other transactions may commit between
two looks.
-/

namespace PaminMemory
namespace Topics

open Foundation
open Spans (Span SpanView)

def topicVersions (topic : TopicId) (store : Store) : List Nat :=
  (((store.statesOf topic).filter TopicState.survives).map TopicState.version).insertionSort
    (· <= ·)

def topicState (topic : TopicId) (version : Nat) (store : Store) :
    Option (TopicState × String) := do
  let state <- store.states.find? fun state => state.topicId = topic ∧ state.version = version
  let content <- store.contentOf state
  return (state, content)

structure ResolvedVersion where
  version : Nat
  /-- The offset actually applied: less than was asked for where that ran past the oldest. -/
  actualOffset : Nat
  isCurrent : Bool
  oldestVersion : Nat
  latestVersion : Nat
  availableVersions : Nat
deriving DecidableEq, Repr

def resolveVersion (versions : List Nat) (offset : Nat) : Option ResolvedVersion :=
  match versions.length with
  | 0 => none
  | latestIndex + 1 =>
      let index := latestIndex - offset
      some
        { version := versions.getD index 0
          actualOffset := (latestIndex - index) % 2 ^ 32
          isCurrent := index = latestIndex
          oldestVersion := versions.getD 0 0
          latestVersion := versions.getD latestIndex 0
          availableVersions := versions.length % 2 ^ 32 }

def viewAround (spans : List Span) (ordinal around : Nat) : Option SpanView := do
  let _ <- spans[ordinal]?
  let first <- spans[ordinal - around]?
  let last <- spans[min (ordinal + around) (spans.length - 1)]?
  return { ordinal := ordinal, of := spans.length % 2 ^ 32, header := first.header
           range := { start := first.range.start, stop := last.range.stop } }

structure Asking where
  topic : String
  versionOffset : Nat
  span : Option Nat
  around : Nat

inductive ReadError where
  | noTopic (name : String)
  | noLiveVersions (name : String)
  | missing (version : Nat) (name : String)
  | noSpan (name : String) (version of : Nat)
deriving DecidableEq, Repr

def ReadError.text : ReadError -> String
  | noTopic name => s!"no topic named {name}"
  | noLiveVersions name => s!"topic {name} has no live versions"
  | missing version name => s!"version {version} of {name} is missing"
  | noSpan name version of => s!"{name} v{version} has {of} spans, numbered from 0"

/-- What was found: the text is of a version, or of some of its spans. -/
structure Shown where
  /-- The name it goes by now. -/
  topic : String
  content : String
  resolved : ResolvedVersion
  recordedAt : Instant
  observedAt : Instant
  validFrom : Option Instant
  validTo : Option Instant
  sourceSpan : SourceSpanId
  span : Option SpanView

def shownOf (cut : String -> String -> List Span) (asking : Asking) (name : String)
    (version : Nat) (content : String) : Except ReadError (String × Option SpanView) :=
  match asking.span with
  | none => Except.ok (content, none)
  | some ordinal =>
      match viewAround (cut name content) ordinal asking.around with
      | none => Except.error (ReadError.noSpan asking.topic version (cut name content).length)
      | some view =>
          Except.ok (String.ofList (Spans.slice content.toList view.range), some view)

/-- Reads a topic; the ledger may have gone on between its looks. -/
def read (cut : String -> String -> List Span) (asking : Asking) (first second third : Store) :
    Except ReadError Shown :=
  match findTopic asking.topic first with
  | none => Except.error (ReadError.noTopic asking.topic)
  | some topic =>
      match resolveVersion (topicVersions topic.id second) asking.versionOffset with
      | none => Except.error (ReadError.noLiveVersions asking.topic)
      | some resolved =>
          match topicState topic.id resolved.version third with
          | none => Except.error (ReadError.missing resolved.version asking.topic)
          | some (state, content) =>
              (shownOf cut asking topic.name resolved.version content).map fun shown =>
                { topic := topic.name, content := shown.1, resolved := resolved
                  recordedAt := state.recordedAt, observedAt := state.observedAt
                  validFrom := state.validFrom, validTo := state.validTo
                  sourceSpan := state.sourceSpanId, span := shown.2 }

end Topics
end PaminMemory
