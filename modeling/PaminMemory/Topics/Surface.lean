import PaminMemory.Identifiers
import Mathlib.Data.List.AList

/-!
# What topics say now

The state each topic points at, apart from the history that led to it.
-/

namespace PaminMemory
namespace Topics

structure Current where
  state : TopicStateId
  content : String
deriving DecidableEq, Repr

abbrev Memories := AList fun _ : TopicId => Current

def currentStatesOf (memories : Memories) (topics : List TopicId) :
    List (TopicId × Current) :=
  topics.filterMap fun topic => (memories.lookup topic).map fun current => (topic, current)

end Topics
end PaminMemory
