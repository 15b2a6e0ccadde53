import Mathlib.Data.List.Sort
import PaminMemory.Search.Trace

/-!
# Placing a reranked head

The reranker is shown the head of a list and a few finds from below it.  The shown items
fill the head and as many places after it as there are finds, in the model's order.
-/

namespace PaminMemory
namespace Search

open Foundation

theorem half_bounded : 0x3F000000 < 2 ^ 31 := by decide

/-- A half: the least graph score a find below the head is shown with. -/
def GRAPH_SHOWN_FROM : Binary32 := ⟨false, 0x3F000000, half_bounded⟩

def GRAPH_SHOWN_AT_MOST : Nat := 4

/-- The graph score and the last topic of what only the graph found, given what came before. -/
def graphOnlyFrom : Option Binary32 -> Option String -> List (Why Binary32) ->
    Option (Binary32 × Option String)
  | graph, via, [] => graph.map fun score => (score, via)
  | _, via, Why.channel channel _ score _ _ :: rest =>
      if channel ≠ Channel.graph then
        none
      else
        graphOnlyFrom (some (score.getD Binary32.zero)) via rest
  | graph, _, Why.path _ through _ :: rest => graphOnlyFrom graph (some through) rest
  | graph, via, Why.reranked _ :: rest => graphOnlyFrom graph via rest

def graphOnly (why : List (Why Binary32)) : Option (Binary32 × Option String) :=
  graphOnlyFrom none none why

section Shown

/-!
A find's strength is its score divided by the square root of how many finds came the same
way, in double precision.
-/

variable {strength : Type _} [LinearOrder strength] (shared : Binary32 -> Nat -> strength)

structure Find where
  position : Nat
  score : Binary32
  via : Option String
deriving DecidableEq

def eligible (traces : List (List (Why Binary32))) (head : Nat) : List Find :=
  ((List.range traces.length).drop head).filterMap fun position =>
    (graphOnly (traces.getD position [])).bind fun found =>
      if Binary32.AtMost GRAPH_SHOWN_FROM found.1 then
        some { position := position, score := found.1, via := found.2 }
      else
        none

def strengthOf (finds : List Find) (find : Find) : strength :=
  shared find.score (finds.filter fun other => other.via = find.via).length

def stronger (finds : List Find) (left right : Find) : Prop :=
  strengthOf shared finds right < strengthOf shared finds left ∨
    strengthOf shared finds right = strengthOf shared finds left ∧
      left.position <= right.position

instance (finds : List Find) (left right : Find) : Decidable (stronger shared finds left right) :=
  inferInstanceAs (Decidable (_ ∨ _))

def finds (traces : List (List (Why Binary32))) (head : Nat) : List Nat :=
  (((eligible traces head).insertionSort (stronger shared (eligible traces head))).take
    GRAPH_SHOWN_AT_MOST).map Find.position

def rerankable (traces : List (List (Why Binary32))) (depth : Nat) : List Nat :=
  let head := min depth traces.length
  (List.range head ++ finds shared traces head).insertionSort (· <= ·)

end Shown

section Place

variable {item : Type _}

/-- Takes the items at some positions out of their slots; none where the source panics. -/
def takeAll : List (Option item) -> List Nat ->
    Option (List (Option item) × List (Option item))
  | slots, [] => some (slots, [])
  | slots, position :: rest =>
      match slots[position]? with
      | none => none
      | some held =>
          (takeAll (slots.set position none) rest).map fun taken => (taken.1, held :: taken.2)

/-- Puts the picked items in their slots; none where the source panics. -/
def refill : List (Option item) -> List (Option item) -> List (Nat × Nat) ->
    Option (List (Option item))
  | slots, _, [] => some slots
  | slots, taken, (slot, pick) :: rest =>
      match taken[pick]? with
      | none => none
      | some held =>
          if slot < slots.length then
            refill (slots.set slot held) (taken.set pick none) rest
          else
            none

/-- The items of slots that are all filled; none where the source panics. -/
def unwrapAll : List (Option item) -> Option (List item)
  | [] => some []
  | none :: _ => none
  | some first :: rest => (unwrapAll rest).map fun items => first :: items

def place (list : List item) (shown : List Nat) (head : Nat) (best_first : List Nat) :
    Option (List item) :=
  let head := min head list.length
  (takeAll (list.map some) shown).bind fun taken =>
    let below := (shown.filter fun position => head <= position).length
    let rest := (taken.1.drop head).filter Option.isSome
    let slots := taken.1.take head ++ List.replicate below none ++ rest
    let targets := shown.filter (fun position => position < head) ++ List.range' head below
    (refill slots taken.2 (targets.zip best_first)).bind unwrapAll

end Place

def canBeSeen (unlexical : List Nat) (limit : Nat) : Bool :=
  if unlexical.length < 2 then
    false
  else
    match unlexical.head? with
    | none => false
    | some highest => highest < limit

end Search
end PaminMemory
