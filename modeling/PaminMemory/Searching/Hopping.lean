import PaminMemory.Foundation.Fallible
import PaminMemory.Walking.Certificate
import PaminMemory.Walking.Keeping

/-!
# A walk that others write beside

A walk asks the ledger for each hop's edges in one to three statements, and each of them reads
the edges of its own moment or fails.  Where every statement reads the edges of one moment the
walk is the one of that moment.
-/

namespace PaminMemory
namespace Searching

open Foundation
open Walking (Answers Cut Expansion Live Neighbor Progress Score State Unread Walk cross crossEvery
  crossReading cutsMade edgesOf enough listed nextFrontier oneHop rowsRead strongest strongestEdges
  touchedBy unreadAt walk)

def MAX_DEPTH : Nat := 4

structure Moment where
  ledger : Graph.Ledger
  answers : forall options, Answers (edgesOf ledger options)

/-- What the statements of a hop read: the strongest edges of each topic, those between what was
cut and what was touched, and every edge. -/
structure HopReads where
  strongest : Except String Moment
  between : Except String Moment
  every : Except String Moment

def HopReads.still (moment : Moment) : HopReads where
  strongest := Except.ok moment
  between := Except.ok moment
  every := Except.ok moment

def HopsFail (walked : Nat -> HopReads) (error : String) : Prop :=
  exists hop, (walked hop).strongest = Except.error error ∨
    (walked hop).between = Except.error error ∨ (walked hop).every = Except.error error

section Hopping

variable (walked : Nat -> HopReads) (options : Expansion)

def everyOver (hop : Nat) (s : State) : Except String Progress := do
  let moment <- (walked hop).every
  Except.ok (crossEvery (moment.answers options) hop s)

def betweenOver (hop : Nat) (cuts : List Cut) (rows : List Live) : Except String (List Live) :=
  if cuts = [] then
    Except.ok []
  else
    (walked hop).between.map fun moment =>
      (moment.answers options).between hop (cuts.map Cut.standing) (touchedBy rows)

/-- A frontier's edges, at most `perTopic` of them each way per topic, and where that left
something unread. -/
def strongestOver (hop perTopic : Nat) (s : State) : Except String (List Live × List Cut) := do
  let moment <- (walked hop).strongest
  let rows := rowsRead (moment.answers options) hop perTopic s.positions
  let cuts := cutsMade (moment.answers options) hop perTopic s.positions
  let pairs <- betweenOver walked options hop cuts rows
  Except.ok (firsts Live.edge ∅ (rows ++ pairs), cuts)

def crossOver (perTopic : Option Nat) (hop : Nat) (s : State) :
    Except String (Progress × List Unread) :=
  match perTopic with
  | none => do
      let crossed <- everyOver walked options hop s
      Except.ok (crossed, [])
  | some perTopic => do
      let read <- strongestOver walked options hop perTopic s
      let crossed := cross hop s.frontier read.1 s.seen s.reached
      if read.2 = [] then
        Except.ok (crossed, [])
      else if hop = options.depth ∨ enough options.keep crossed.reached then
        Except.ok (crossed, read.2.map (unreadAt hop s.frontier))
      else do
        let crossed <- everyOver walked options hop s
        Except.ok (crossed, [])

def hopOver (perTopic : Option Nat) (s : State) (hop : Nat) : Except String State :=
  if s.stopped then
    Except.ok s
  else do
    let read <- crossOver walked options perTopic hop s
    let crossed := read.1
    if crossed.next = [] then
      Except.ok
        { s with
          seen := crossed.seen
          reached := crossed.reached
          unread := s.unread ++ read.2
          stopped := true }
    else
      Except.ok
        { frontier := nextFrontier crossed.next
          seen := crossed.seen
          reached := crossed.reached
          unread := s.unread ++ read.2
          stopped := enough options.keep crossed.reached }

def walkOver (seeds : List TopicId) (perTopic : Option Nat) : Except String Walk :=
  if seeds = [] ∨ options.depth = 0 then
    Except.ok { neighbors := [], unread := [] }
  else do
    let final <- (List.range' 1 options.depth).foldlM
      (hopOver walked options (perTopic.filter fun _ => options.moment.isNone))
      (State.start seeds)
    Except.ok
      { neighbors := (final.reached.entries.map Sigma.snd).insertionSort listed
        unread := final.unread }

end Hopping

/-- The neighbours a search keeps: of the bounded walk, or of the full one where that may differ. -/
def neighborsOver (walked again : Nat -> HopReads) (depth keep : Nat) (seeds : List TopicId)
    (score : Score) : Except String (List Neighbor) := do
  let options := ({ depth := min depth MAX_DEPTH, kinds := none, moment := none, keep := none } :
    Expansion).keeping keep
  let bounded <- walkOver walked options seeds (some (max keep 1))
  match bounded.strongest keep score with
  | some neighbors => Except.ok neighbors
  | none => do
      let full <- walkOver again options seeds none
      Except.ok (strongest full.neighbors keep score)

/-!
## A walk nobody writes beside
-/

section Still

variable {moment : Moment} {options : Expansion} {hop : Nat} {s : State}

theorem strongestOver_still (perTopic : Nat) :
    strongestOver (fun _ => HopReads.still moment) options hop perTopic s =
      Except.ok (strongestEdges (moment.answers options) hop s.positions perTopic) := by
  unfold strongestOver betweenOver strongestEdges HopReads.still
  dsimp only
  rw [ok_bind]
  split
  · rfl
  · rfl

theorem crossOver_still (perTopic : Option Nat) :
    crossOver (fun _ => HopReads.still moment) options perTopic hop s =
      Except.ok (crossReading (moment.answers options) options perTopic hop s) := by
  unfold crossOver crossReading
  cases perTopic with
  | none => rfl
  | some perTopic =>
      dsimp only
      rw [strongestOver_still, ok_bind]
      split
      · rfl
      · split
        · rfl
        · rfl

theorem hopOver_still (perTopic : Option Nat) :
    hopOver (fun _ => HopReads.still moment) options perTopic s hop =
      Except.ok (oneHop (moment.answers options) options perTopic s hop) := by
  unfold hopOver oneHop
  split
  · rfl
  · rw [crossOver_still, ok_bind]
    dsimp only
    split
    · rfl
    · rfl

theorem walkOver_still (seeds : List TopicId) (perTopic : Option Nat) :
    walkOver (fun _ => HopReads.still moment) options seeds perTopic =
      Except.ok (walk moment.ledger options (moment.answers options) seeds perTopic) := by
  have hhops : forall (hops : List Nat) (s : State) (perTopic : Option Nat),
      hops.foldlM (hopOver (fun _ => HopReads.still moment) options perTopic) s =
        Except.ok (hops.foldl (oneHop (moment.answers options) options perTopic) s) := by
    intro hops
    induction hops with
    | nil => exact fun _ _ => rfl
    | cons hop rest ih =>
        intro s perTopic
        rw [List.foldlM_cons, hopOver_still, ok_bind, List.foldl_cons]
        exact ih _ perTopic
  unfold walkOver walk
  split
  · rfl
  · rw [hhops]
    rfl

end Still

/-!
## A walk that fails
-/

section Failing

variable {walked : Nat -> HopReads} {options : Expansion} {error : String} {hop : Nat} {s : State}

end Failing

end Searching
end PaminMemory
