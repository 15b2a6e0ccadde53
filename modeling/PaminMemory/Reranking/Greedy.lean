import PaminMemory.Foundation.Filling
import PaminMemory.Reranking.Planning

/-!
# What each pass takes

The passes are the positions in the order of their lengths, filled one after another: a pass
takes the next pair while it stays within both bounds.
-/

namespace PaminMemory
namespace Reranking

open Foundation

section Greedy

variable {lengths : List Nat} {budget most : Nat} {batching_length : Nat -> Nat}

/-!
## The passes as groups
-/

def fullPass (budget most : Nat) (padded : Nat -> Nat) (positions : List Nat) (position : Nat) :
    Bool :=
  positions.length = most || budget < (positions.length + 1) * padded position

def paddedAt (batching_length : Nat -> Nat) (lengths : List Nat) (position : Nat) : Nat :=
  batching_length (lengths.getD position 0)

theorem splitLengths_batchesFrom {padded : Nat -> Nat} {taken : List Nat} (rest : List Nat)
    (htaken : taken ≠ []) :
    (batchesFrom budget most taken.length (rest.map padded)).splitLengths (taken ++ rest) =
      fillFrom (fullPass budget most padded) taken rest := by
  induction rest generalizing taken with
  | nil =>
      have hopen : 0 < taken.length := List.length_pos_iff.mpr htaken
      rw [List.map_nil, batchesFrom, if_pos hopen, List.splitLengths_cons, List.append_nil,
        List.take_length]
      rfl
  | cons position rest ih =>
      have hopen : 0 < taken.length := List.length_pos_iff.mpr htaken
      rw [List.map_cons, batchesFrom, fillFrom]
      simp only [hopen, decide_true, Bool.true_and]
      split
      · next hfull =>
          have hroom : fullPass budget most padded taken position = true := hfull
          rw [if_pos hroom, List.splitLengths_cons, List.take_left, List.drop_left]
          have hnext := ih (List.cons_ne_nil position [])
          rw [List.length_singleton, List.singleton_append] at hnext
          rw [hnext]
      · next hfull =>
          have hroom : ¬ fullPass budget most padded taken position = true := hfull
          have hsome : taken ++ [position] ≠ [] :=
            List.append_ne_nil_of_right_ne_nil taken (List.cons_ne_nil position [])
          have hnext := ih hsome
          rw [List.length_append, List.length_singleton, List.append_assoc,
            List.singleton_append] at hnext
          rw [if_neg hroom, hnext]

def byLength (lengths : List Nat) : List Nat :=
  (List.range lengths.length).insertionSort (shorter lengths)

theorem planPositions_eq_fill :
    planPositions lengths budget most batching_length =
      fill (fullPass budget most (paddedAt batching_length lengths)) (byLength lengths) := by
  show (batches ((byLength lengths).map (paddedAt batching_length lengths)) budget
    most).splitLengths (byLength lengths) = _
  cases byLength lengths with
  | nil => rfl
  | cons position rest => exact splitLengths_batchesFrom rest (List.cons_ne_nil position [])

/-!
## The order of the passes
-/

def Before (lengths : List Nat) (left right : Nat) : Prop :=
  lengths.getD left 0 < lengths.getD right 0 ∨
    lengths.getD left 0 = lengths.getD right 0 ∧ left < right

instance : Std.Total (shorter lengths) where
  total left right := by
    unfold shorter
    omega

instance : IsTrans Nat (shorter lengths) where
  trans first second third hleft hright := by
    unfold shorter at hleft hright ⊢
    omega

theorem pairwise_byLength (lengths : List Nat) :
    (byLength lengths).Pairwise (Before lengths) := by
  have hsorted : (byLength lengths).Pairwise (shorter lengths) :=
    List.pairwise_insertionSort _ _
  have hnodup : (byLength lengths).Nodup :=
    (List.perm_insertionSort _ _).nodup_iff.mpr List.nodup_range
  refine (hsorted.and hnodup).imp ?_
  intro left right hboth
  rcases hboth with ⟨hshorter | ⟨hsame, hle⟩, hne⟩
  · exact Or.inl hshorter
  · exact Or.inr ⟨hsame, Nat.lt_of_le_of_ne hle hne⟩

theorem length_le_last {pass : List Nat} {position last : Nat}
    (hpass : pass.Pairwise (Before lengths)) (hposition : position ∈ pass)
    (hlast : pass.getLast? = some last) :
    lengths.getD position 0 <= lengths.getD last 0 := by
  rcases List.getLast?_eq_some_iff.mp hlast with ⟨earlier, rfl⟩
  rcases List.mem_append.mp hposition with hearlier | hsame
  · rcases (List.pairwise_append.mp hpass).2.2 position hearlier last List.mem_cons_self with
      hshorter | hsame
    · exact Nat.le_of_lt hshorter
    · exact Nat.le_of_eq hsame.1
  · rw [List.mem_singleton.mp hsame]

/-!
## What a pass holds
-/

structure Within (budget most : Nat) (padded : Nat -> Nat) (pass : List Nat) : Prop where
  nonempty : pass ≠ []
  counted : pass.length <= most
  budgeted : 1 < pass.length -> forall last, pass.getLast? = some last ->
    pass.length * padded last <= budget

theorem admits_within (padded : Nat -> Nat) (hmost : 1 <= most) :
    Admits (fullPass budget most padded) (Within budget most padded) where
  alone position :=
    { nonempty := List.cons_ne_nil position []
      counted := hmost
      budgeted := fun hlength => absurd hlength (Nat.lt_irrefl 1) }
  taking taken position htaken hroom := by
    unfold fullPass at hroom
    rcases Bool.or_eq_false_iff.mp hroom with ⟨hcount, hbudget⟩
    have hlength : (taken ++ [position]).length = taken.length + 1 := by simp
    constructor
    · simp
    · rw [hlength]
      exact Nat.lt_of_le_of_ne htaken.counted (of_decide_eq_false hcount)
    · intro _ last hlast
      rw [List.getLast?_concat] at hlast
      cases hlast
      rw [hlength]
      exact Nat.le_of_not_lt (of_decide_eq_false hbudget)

/-- The positions of some lengths, each in one of the passes a greedy plan makes of them. -/
structure GreedyCover (lengths : List Nat) (budget most : Nat) (batching_length : Nat -> Nat)
    (passes : List (List Nat)) : Prop where
  exactlyOnce : passes.flatten.Perm (List.range lengths.length)
  nonempty : forall pass, pass ∈ passes -> pass ≠ []
  ordered : passes.flatten.Pairwise (Before lengths)
  counted : forall pass, pass ∈ passes -> pass.length <= most
  budgeted : forall pass, pass ∈ passes -> 1 < pass.length -> forall longest, longest ∈ pass ->
    (forall position, position ∈ pass ->
      lengths.getD position 0 <= lengths.getD longest 0) ->
      pass.length * batching_length (lengths.getD longest 0) <= budget
  /-- No pass but the last could have taken the position after it. -/
  filled : passes.IsChain fun pass next => forall position, next.head? = some position ->
    ¬ (pass.length + 1 <= most ∧
      (pass.length + 1) * batching_length (lengths.getD position 0) <= budget)

/-- Every pair is in one pass, in order, and no pass could have taken one more. -/
theorem plan_positions_greedy (lengths : List Nat) (budget most : Nat)
    (batching_length : Nat -> Nat) (hmost : 1 <= most) :
    GreedyCover lengths budget most batching_length
      (planPositions lengths budget most batching_length) := by
  let padded := paddedAt batching_length lengths
  have hflatten : (planPositions lengths budget most batching_length).flatten =
      byLength lengths := by
    rw [planPositions_eq_fill]
    exact flatten_fill _ _
  have hordered : (planPositions lengths budget most batching_length).flatten.Pairwise
      (Before lengths) := by
    rw [hflatten]
    exact pairwise_byLength lengths
  have hwithin : forall pass, pass ∈ planPositions lengths budget most batching_length ->
      Within budget most padded pass := by
    rw [planPositions_eq_fill]
    exact forall_fill (admits_within padded hmost)
  constructor
  · rw [hflatten]
    exact List.perm_insertionSort _ _
  · exact fun pass hpass => (hwithin pass hpass).nonempty
  · exact hordered
  · exact fun pass hpass => (hwithin pass hpass).counted
  · intro pass hpass hlength longest hlongest hall
    have hpairwise := (List.pairwise_flatten.mp hordered).1 pass hpass
    have hlast := List.getLast?_eq_some_getLast (hwithin pass hpass).nonempty
    have hsame := Nat.le_antisymm (length_le_last hpairwise hlongest hlast)
      (hall _ (List.getLast_mem (hwithin pass hpass).nonempty))
    have hbudget := (hwithin pass hpass).budgeted hlength _ hlast
    rw [hsame]
    exact hbudget
  · rw [planPositions_eq_fill]
    refine (isChain_fill _ _).imp ?_
    intro pass next hclosed position hposition
    rintro ⟨hcount, hbudget⟩
    have hfull := hclosed position hposition
    unfold fullPass at hfull
    rcases (Bool.or_eq_true _ _).mp hfull with hmany | hlong
    · exact Nat.not_succ_le_self _ (of_decide_eq_true hmany ▸ hcount)
    · exact Nat.not_lt.mpr hbudget (of_decide_eq_true hlong)

theorem plan_positions_greedy_four :
    1 <= 3 ∧ GreedyCover [5, 20, 3, 4] 12 3 id (planPositions [5, 20, 3, 4] 12 3 id) :=
  ⟨by decide, plan_positions_greedy [5, 20, 3, 4] 12 3 id (by decide)⟩

example : planPositions [5, 20, 3, 4] 12 3 id = [[2, 3], [0], [1]] := by decide

end Greedy

end Reranking
end PaminMemory
