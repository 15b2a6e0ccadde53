import PaminMemory.Foundation.Apart
import PaminMemory.Index.Collection
import PaminMemory.Spans.Text
import PaminMemory.Topics.Remember

/-!
# An import

A file of memories is grouped by topic, and the groups are recorded a chunk at a time: the
groups of a chunk at once, the memories of a group one after another.  A memory is a read of
what its topic says and a write of the verdict reached over it.
-/

namespace PaminMemory
namespace Importing

open Foundation Topics

/-- One line of the file. -/
structure Memory where
  topic : String
  content : String
deriving DecidableEq, Repr

def numberedLines (text : String) : List (Nat × String) :=
  let lines := (text.toList.splitOn '\n').map fun line =>
    Spans.trimEnd (Spans.trimStart line)
  ((lines.filter fun line => line ≠ []).map String.ofList).zipIdx.map fun line =>
    (line.2 + 1, line.1)

def readMemories (parse : String -> Option Memory) (text : String) :
    Except Nat (List Memory) :=
  (numberedLines text).mapM fun line =>
    match parse line.2 with
    | some memory => Except.ok memory
    | none => Except.error line.1

def byTopic (memories : List Memory) : List (List Memory) :=
  (grouped Memory.topic memories).map Prod.snd

/-!
## The tasks of an import

A task records one group; as many run at once as the pool allows, and no more are begun while
the derivations lag behind.
-/

def BETWEEN_CHECKS : Nat := 1000

def LEAST_AT_ONCE : Nat := 2

/-- A group being recorded: what is left of it, and the verdict on the first of that. -/
structure Recording where
  group : List Memory
  left : List Memory
  judged : Option (Option Rejection)
  promoted : Nat
deriving DecidableEq, Repr

structure Imported where
  memories : Nat
  promoted : Nat
  held : Nat
  cascade : String
  cascadeLagging : Bool
deriving DecidableEq, Repr

/-- How an import ends. -/
inductive Ended where
  | failed
  | imported (result : Imported)
deriving DecidableEq, Repr

/-- What an import brings to every memory of its file. -/
structure Args where
  text : String
  validFrom : Option Instant
  validTo : Option Instant
  maxConnections : Nat

/-- An import, the ledger it writes to, and the chunk whose groups are awaited together. -/
structure Import where
  ledger : Store
  memories : List Memory
  validFrom : Option Instant
  validTo : Option Instant
  awaited : List (Nat × Recording)
  chunks : List (List (List Memory))
  promoted : Nat
  lagging : Bool
  sinceCheck : Nat
  ended : Option Ended
deriving DecidableEq, Repr

def execute (parse : String -> Option Memory) (args : Args) (ledger : Store) :
    Except Nat Import := do
  let memories <- readMemories parse args.text
  let atOnce := max args.maxConnections LEAST_AT_ONCE
  pure
    { ledger := ledger, memories := memories, validFrom := args.validFrom
      validTo := args.validTo, awaited := [], chunks := Index.chunks atOnce (byTopic memories)
      promoted := 0, lagging := false, sinceCheck := 0, ended := none }

/-!
## What an import does and finds
-/

/-- What happens in an import, and to the ledger beside it. -/
inductive Action where
  | await
  | look (id : Nat)
  | record (id : Nat) (observedAt now : Instant) (drawn : Drawn)
  | join
  | finish
  | fail
  | elsewhere (after : Store)

def Import.asked (s : Import) (memory : Memory) : Asked :=
  { caller := Caller.remember, topic := memory.topic, content := memory.content
    validFrom := s.validFrom, validTo := s.validTo }

def Recording.start (group : List Memory) : Recording :=
  { group := group, left := group, judged := none, promoted := 0 }

def recordings (chunk : List (List Memory)) : List (Nat × Recording) :=
  chunk.zipIdx.map fun group => (group.2, Recording.start group.1)

def Import.look (s : Import) (id : Nat) : Option Import := do
  let recording <- partyOf s.awaited id
  match recording.left, recording.judged with
  | memory :: _, none =>
      let verdict := judge memory.content (s.ledger.currentContent memory.topic)
      some { s with awaited := setParty id { recording with judged := some verdict } s.awaited }
  | _, _ => none

def Import.record (engine : Engine) (s : Import) (id : Nat) (observedAt now : Instant)
    (drawn : Drawn) : Option Import := do
  let recording <- partyOf s.awaited id
  match recording.left, recording.judged with
  | memory :: rest, some verdict =>
      if Unused s.ledger drawn then do
        let written <- writeFrom engine.segment now engine.project
          (Topics.record engine observedAt (s.asked memory) verdict) SourceKind.manual none drawn
          s.ledger
        some { s with
          ledger := written.1
          awaited := setParty id
            { recording with
              left := rest, judged := none
              promoted := recording.promoted + if verdict.isNone then 1 else 0 } s.awaited }
      else
        none
  | _, _ => none

def Import.join (engine : Engine) (s : Import) : Import :=
  let since := s.sinceCheck + (s.awaited.map fun entry => entry.2.group.length).sum
  let checks : Bool := BETWEEN_CHECKS <= since
  let behind := Jobs.pending engine.project s.ledger.jobs
  { s with
    awaited := []
    promoted := s.promoted + (s.awaited.map fun entry => entry.2.promoted).sum
    sinceCheck := if checks then 0 else since
    lagging := s.lagging || (checks && !Jobs.mayDefer behind) }

def Import.result (engine : Engine) (s : Import) : Imported :=
  let owed := Jobs.pending engine.project s.ledger.jobs
  { memories := s.memories.length, promoted := s.promoted
    held := s.memories.length - s.promoted
    cascade := if owed = 0 then "applied" else "queued", cascadeLagging := s.lagging }

/--
One thing that happens.  An import that has ended does nothing more; what the cascade drains
and what anybody else writes happens elsewhere.
-/
def step (engine : Engine) (s : Import) : Action -> Option Import
  | Action.await =>
      match s.ended, s.awaited, s.chunks with
      | none, [], chunk :: rest => some { s with awaited := recordings chunk, chunks := rest }
      | _, _, _ => none
  | Action.look id => if s.ended.isNone then s.look id else none
  | Action.record id observedAt now drawn =>
      if s.ended.isNone then s.record engine id observedAt now drawn else none
  | Action.join =>
      if s.ended.isNone && !s.awaited.isEmpty && s.awaited.all (fun entry => entry.2.left = [])
      then some (s.join engine) else none
  | Action.finish =>
      if s.ended.isNone && s.awaited.isEmpty && s.chunks.isEmpty then
        some { s with ended := some (Ended.imported (s.result engine)) }
      else
        none
  | Action.fail => if s.ended.isNone then some { s with ended := some Ended.failed } else none
  | Action.elsewhere after => some { s with ledger := after }

end Importing
end PaminMemory
