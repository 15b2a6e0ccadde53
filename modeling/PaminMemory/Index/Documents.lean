import PaminMemory.Identifiers
import Mathlib.Logic.Function.Basic

/-!
# The documents of an index

An index holds a document for each span of a memory, keyed by the topic and the
span's ordinal.  Ordinals have no gap, so what it holds of a topic is a list.
-/

namespace PaminMemory
namespace Index

/-- What the lexical channels match of a span, and what it lost by being cut out. -/
structure Span where
  text : String
  header : String
deriving DecidableEq, Repr

/-- What a memory is cut into: a memory that says nothing is one span still. -/
abbrev Cut := { spans : List Span // spans ≠ [] }

abbrev Documents := TopicId -> List Span

namespace Documents

def empty : Documents := fun _ => []

def writeSpans (topic : TopicId) (spans : List Span) (documents : Documents) : Documents :=
  Function.update documents topic (spans ++ (documents topic).drop spans.length)

def truncate (topic : TopicId) (ordinal : Nat) (documents : Documents) : Documents :=
  Function.update documents topic ((documents topic).take ordinal)

def replace (topic : TopicId) (cut : Cut) (documents : Documents) : Documents :=
  truncate topic cut.val.length (writeSpans topic cut.val documents)

def delete (topic : TopicId) (documents : Documents) : Documents :=
  truncate topic 0 documents

section Documents

variable {topic other : TopicId} {documents : Documents}

theorem writeSpans_of_ne {spans : List Span} (h : other ≠ topic) :
    writeSpans topic spans documents other = documents other :=
  Function.update_of_ne h _ _

theorem writeSpans_congr {spans : List Span} {documents' : Documents}
    (h : documents topic = documents' topic) :
    writeSpans topic spans documents topic = writeSpans topic spans documents' topic := by
  unfold writeSpans
  rw [Function.update_self, Function.update_self, h]

@[simp] theorem replace_eq (cut : Cut) :
    replace topic cut documents = Function.update documents topic cut.val := by
  unfold replace truncate writeSpans
  rw [Function.update_self, Function.update_idem, List.take_left]

@[simp] theorem delete_eq :
    delete topic documents = Function.update documents topic [] := by
  unfold delete truncate
  rw [List.take_zero]

end Documents

end Documents

end Index
end PaminMemory
