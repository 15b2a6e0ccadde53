import PaminMemory.Walking.Crossing

/-!
# The walk

A walk goes outward from some seeds a hop at a time.  It reads every edge of every topic
it stands on, or the strongest few of each and then says what it left unread.
-/

namespace PaminMemory
namespace Walking

open Foundation PaminMemory.Graph

def near (outward : Bool) (live : Live) : TopicId :=
  if outward then live.edge.fromTopic else live.edge.toTopic

def far (outward : Bool) (live : Live) : TopicId :=
  if outward then live.edge.toTopic else live.edge.fromTopic

def sideKey (outward : Bool) (live : Live) : Int ×ₗ Nat :=
  toLex (-strength live.confidence, far outward live)

def touching (positions : List TopicId) (live : Live) : Bool :=
  live.edge.fromTopic ∈ positions || live.edge.toTopic ∈ positions

def between (cut touched : List TopicId) (live : Live) : Bool :=
  (live.edge.fromTopic ∈ cut && live.edge.toTopic ∈ touched) ||
    (live.edge.toTopic ∈ cut && live.edge.fromTopic ∈ touched)

/-- What the statements of a walk answer; rows no order tells apart come in any order. -/
structure Answers (edges : List Live) where
  every : Nat -> List TopicId -> List Live
  everyPerm : forall hop positions,
    (every hop positions).Perm (edges.filter (touching positions))
  side : Nat -> TopicId -> Bool -> List Live
  sidePerm : forall hop standing outward,
    (side hop standing outward).Perm (edges.filter fun live => near outward live = standing)
  sideSorted : forall hop standing outward,
    (side hop standing outward).Pairwise fun left right =>
      sideKey outward left <= sideKey outward right
  between : Nat -> List TopicId -> List TopicId -> List Live
  betweenPerm : forall hop cut touched,
    (between hop cut touched).Perm (edges.filter (Walking.between cut touched))

instance (outward : Bool) : Std.Total fun left right : Live =>
    sideKey outward left <= sideKey outward right where
  total left right := le_total (sideKey outward left) (sideKey outward right)

instance (outward : Bool) : IsTrans Live fun left right =>
    sideKey outward left <= sideKey outward right where
  trans _ _ _ := le_trans

def Answers.stored (edges : List Live) : Answers edges where
  every _ positions := edges.filter (touching positions)
  everyPerm _ _ := List.Perm.refl _
  side _ standing outward :=
    (edges.filter fun live => near outward live = standing).insertionSort fun left right =>
      sideKey outward left <= sideKey outward right
  sidePerm _ _ _ := List.perm_insertionSort _ _
  sideSorted _ _ _ := List.pairwise_insertionSort _ _
  between _ cut touched := edges.filter (Walking.between cut touched)
  betweenPerm _ _ _ := List.Perm.refl _

structure Cut where
  standing : TopicId
  confidence : Confidence
  after : TopicId
deriving DecidableEq, Repr

def later (outward : Bool) (last : Confidence × TopicId) (live : Live) : Confidence × TopicId :=
  if strength live.confidence < strength last.1 ∨
      (strength live.confidence = strength last.1 ∧ last.2 < far outward live) then
    (live.confidence, far outward live)
  else
    last

def lastOf (outward : Bool) : List Live -> Option (Confidence × TopicId)
  | [] => none
  | first :: rest => some (rest.foldl (later outward) (first.confidence, far outward first))

/-!
## What a side was cut to

A topic with as many edges read on one side as are read at most may have more; what is left
unread is at most as confident as the last that was read.
-/

def sideCut (perTopic : Nat) (outward : Bool) (rows : List Live) :
    Option (Confidence × TopicId) :=
  if rows.length < perTopic then none else lastOf outward rows

def earlier (left right : Confidence × TopicId) : Confidence × TopicId :=
  if strength right.1 > strength left.1 ∨
      (strength right.1 = strength left.1 ∧ right.2 < left.2) then
    right
  else
    left

def cutOf (perTopic : Nat) (standing : TopicId) (outward inward : List Live) : Option Cut :=
  let sides := [sideCut perTopic true outward, sideCut perTopic false inward].reduceOption
  match sides with
  | [] => none
  | first :: rest =>
      let place := rest.foldl earlier first
      some { standing := standing, confidence := place.1, after := place.2 }

section Reading

variable {edges : List Live} (answers : Answers edges)

def sideRows (hop perTopic : Nat) (standing : TopicId) (outward : Bool) : List Live :=
  (answers.side hop standing outward).take perTopic

def rowsRead (hop perTopic : Nat) (positions : List TopicId) : List Live :=
  positions.flatMap (fun standing => sideRows answers hop perTopic standing true) ++
    positions.flatMap fun standing => sideRows answers hop perTopic standing false

def cutsMade (hop perTopic : Nat) (positions : List TopicId) : List Cut :=
  positions.filterMap fun standing =>
    cutOf perTopic standing (sideRows answers hop perTopic standing true)
      (sideRows answers hop perTopic standing false)

def touchedBy (rows : List Live) : List TopicId :=
  ((rows.flatMap fun live => [live.edge.fromTopic, live.edge.toTopic]).insertionSort
    (· <= ·)).dedup

/-- A frontier's edges, at most `perTopic` of them each way per topic, and where that left
something unread. -/
def strongestEdges (hop : Nat) (positions : List TopicId) (perTopic : Nat) :
    List Live × List Cut :=
  let rows := rowsRead answers hop perTopic positions
  let cuts := cutsMade answers hop perTopic positions
  let pairs :=
    if cuts = [] then [] else answers.between hop (cuts.map Cut.standing) (touchedBy rows)
  -- the same edge arrives once per side that read it, and again from the pairs
  (firsts Live.edge ∅ (rows ++ pairs), cuts)

end Reading

/-!
## What a walk holds

The unread, what was reached so far, and the topics gone on from.
-/

structure Unread where
  hops : Nat
  via : TopicId
  confidence : Confidence
  after : TopicId
  origins : List TopicId
deriving DecidableEq, Repr

structure Walk where
  neighbors : List Neighbor
  unread : List Unread
deriving DecidableEq, Repr

def MAX_FRONTIER : Nat := 2000

/-- How far a walk is. -/
structure State where
  frontier : List Step
  seen : Finset (TopicId × TopicId)
  reached : AList fun _ : TopicId => Neighbor
  unread : List Unread
  stopped : Bool

def State.start (seeds : List TopicId) : State :=
  { frontier := seeds.map fun seed => { topic := seed, origin := seed, via := seed }
    seen := ∅, reached := ∅, unread := [], stopped := false }

def State.positions (s : State) : List TopicId :=
  ((s.frontier.map Step.topic).insertionSort (· <= ·)).dedup

def enough (keep : Option Nat) (reached : AList fun _ : TopicId => Neighbor) : Bool :=
  keep.any fun keep => keep <= reached.keys.length

def unreadAt (hop : Nat) (frontier : List Step) (cut : Cut) : Unread :=
  { hops := hop, via := cut.standing, confidence := cut.confidence, after := cut.after
    origins := (((frontier.filter fun step => step.topic = cut.standing).map
      Step.origin).insertionSort (· <= ·)).dedup }

section Loop

variable {edges : List Live} (answers : Answers edges) (options : Expansion)

def crossEvery (hop : Nat) (s : State) : Progress :=
  cross hop s.frontier (answers.every hop s.positions) s.seen s.reached

def crossReading (perTopic : Option Nat) (hop : Nat) (s : State) : Progress × List Unread :=
  match perTopic with
  | none => (crossEvery answers hop s, [])
  | some perTopic =>
      let read := strongestEdges answers hop s.positions perTopic
      let crossed := cross hop s.frontier read.1 s.seen s.reached
      if read.2 = [] then
        (crossed, [])
      else if hop = options.depth ∨ enough options.keep crossed.reached then
        (crossed, read.2.map (unreadAt hop s.frontier))
      else
        -- the walk goes on, and past a cut what it would stand on is not known
        (crossEvery answers hop s, [])

def confident (left right : Step × Confidence) : Prop :=
  strength left.2 >= strength right.2

instance : DecidableRel confident := fun left right =>
  inferInstanceAs (Decidable (strength left.2 >= strength right.2))

def nextFrontier (next : List (Step × Confidence)) : List Step :=
  ((next.insertionSort confident).take MAX_FRONTIER).map Prod.fst

def oneHop (perTopic : Option Nat) (s : State) (hop : Nat) : State :=
  if s.stopped then
    s
  else
    let read := crossReading answers options perTopic hop s
    let crossed := read.1
    if crossed.next = [] then
      { s with
        seen := crossed.seen
        reached := crossed.reached
        unread := s.unread ++ read.2
        stopped := true }
    else
      { frontier := nextFrontier crossed.next
        seen := crossed.seen
        reached := crossed.reached
        unread := s.unread ++ read.2
        stopped := enough options.keep crossed.reached }

def after (perTopic : Option Nat) (seeds : List TopicId) (hops : Nat) : State :=
  (List.range' 1 hops).foldl (oneHop answers options perTopic) (State.start seeds)

end Loop

/-!
## The walk and its neighbours
-/

/-- What neighbours are listed in the order of: hops, then confidence, then topic. -/
def neighborKey (neighbor : Neighbor) : Nat ×ₗ Int ×ₗ Nat :=
  toLex (neighbor.hops, toLex (-strength neighbor.confidence, neighbor.topic))

def listed (left right : Neighbor) : Prop :=
  neighborKey left <= neighborKey right

instance : DecidableRel listed := fun left right =>
  inferInstanceAs (Decidable (neighborKey left <= neighborKey right))

section Loop

variable (ledger : Ledger) (options : Expansion) (answers : Answers (edgesOf ledger options))

def walk (seeds : List TopicId) (perTopic : Option Nat) : Walk :=
  if seeds = [] ∨ options.depth = 0 then
    { neighbors := [], unread := [] }
  else
    let perTopic := perTopic.filter fun _ => options.moment.isNone
    let final := after answers options perTopic seeds options.depth
    { neighbors := (final.reached.entries.map Sigma.snd).insertionSort listed
      unread := final.unread }

def expand (seeds : List TopicId) : List Neighbor :=
  (walk ledger options answers seeds none).neighbors

/-- The walk that reads at most `perTopic` of each topic's edges each way, strongest first. -/
def expandReading (seeds : List TopicId) (perTopic : Nat) : Walk :=
  walk ledger options answers seeds (some (max perTopic 1))

end Loop

end Walking
end PaminMemory
