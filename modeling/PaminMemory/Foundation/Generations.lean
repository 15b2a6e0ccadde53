import Mathlib.Algebra.Order.BigOperators.Group.List
import Mathlib.Algebra.Order.Ring.Nat
import Mathlib.Data.List.AList

/-!
# Two generations of entries

What is kept is kept in the current generation until it has no room for the next entry; then
it becomes the previous one, and the one before is forgotten.  An entry found in the previous
generation is moved to the current one.
-/

namespace PaminMemory
namespace Foundation

variable {key value : Type} [DecidableEq key]

def occupied (size : value -> Nat) (entries : AList fun _ : key => value) : Nat :=
  (entries.entries.map fun entry => size entry.2).sum

/-- The entries of the current generation with their running count, and the previous one's. -/
structure Generations (key value : Type) where
  current : AList fun _ : key => value
  bytes : Nat
  previous : AList fun _ : key => value

namespace Generations

def empty : Generations key value where
  current := ∅
  bytes := 0
  previous := ∅

section Operations

variable (size : value -> Nat) (budget : Nat)

def turn (entry : value) (generations : Generations key value) : Generations key value :=
  if budget < generations.bytes + size entry ∧ ¬ generations.current.entries.isEmpty then
    { current := ∅, bytes := 0, previous := generations.current }
  else
    generations

def insert (k : key) (entry : value) (generations : Generations key value) :
    Generations key value :=
  if budget < size entry then
    generations
  else
    let turned := generations.turn size budget entry
    let added := turned.bytes + size entry
    { current := turned.current.insert k entry
      bytes :=
        match turned.current.lookup k with
        | some replaced => added - size replaced
        | none => added
      previous := turned.previous }

def get (k : key) (generations : Generations key value) :
    Option value × Generations key value :=
  match generations.current.lookup k with
  | some entry => (some entry, generations)
  | none =>
      match generations.previous.lookup k with
      | none => (none, generations)
      | some entry =>
          (some entry,
            insert size budget k entry
              { generations with previous := generations.previous.erase k })

/-- The count is of what the current generation holds, neither is over the budget, and every
entry is the one its key stands for. -/
structure Sound (entryOf : key -> value) (generations : Generations key value) : Prop where
  counted : generations.bytes = occupied size generations.current
  current : occupied size generations.current <= budget
  previous : occupied size generations.previous <= budget
  currentOf : forall k entry, generations.current.lookup k = some entry -> entry = entryOf k
  previousOf : forall k entry, generations.previous.lookup k = some entry -> entry = entryOf k

end Operations

section Counting

variable {size : value -> Nat} {budget : Nat} {entryOf : key -> value} {k : key} {entry : value}
  {entries : AList fun _ : key => value} {generations : Generations key value}

theorem occupied_insert (size : value -> Nat) (k : key) (entry : value)
    (entries : AList fun _ : key => value) :
    occupied size (entries.insert k entry) + ((entries.lookup k).map size).getD 0 =
      occupied size entries + size entry := by
  unfold occupied
  rw [AList.entries_insert, List.map_cons, List.sum_cons]
  cases hlookup : entries.lookup k with
  | none =>
      have habsent : k ∉ entries.entries.keys := AList.lookup_eq_none.mp hlookup
      rw [List.kerase_of_notMem_keys habsent, Option.map_none, Option.getD_none, Nat.add_zero]
      exact Nat.add_comm _ _
  | some replaced =>
      have hpresent : k ∈ entries.entries.keys :=
        AList.lookup_isSome.mp (Option.isSome_iff_exists.mpr ⟨replaced, hlookup⟩)
      rcases List.exists_of_kerase hpresent with ⟨old, before, after, hbefore, hsplit, hrest⟩
      have hold : old = replaced := by
        have hfound : entries.entries.dlookup k = some replaced := hlookup
        rw [hsplit, List.dlookup_append, List.dlookup_eq_none.mpr hbefore, Option.none_or,
          List.dlookup_cons_eq] at hfound
        exact Option.some.inj hfound
      rw [hrest, hsplit, hold]
      simp only [List.map_append, List.map_cons, List.sum_append, List.sum_cons, Option.map_some,
        Option.getD_some]
      omega

theorem size_le_occupied (hlookup : entries.lookup k = some entry) :
    size entry <= occupied size entries := by
  have hcount := occupied_insert size k entry entries
  rw [hlookup] at hcount
  have hmore : size entry <= occupied size (entries.insert k entry) := by
    unfold occupied
    rw [AList.entries_insert, List.map_cons, List.sum_cons]
    exact Nat.le_add_right _ _
  rw [Option.map_some, Option.getD_some] at hcount
  rw [← Nat.add_right_cancel hcount]
  exact hmore

theorem occupied_erase_le (size : value -> Nat) (k : key) (entries : AList fun _ : key => value) :
    occupied size (entries.erase k) <= occupied size entries :=
  ((List.kerase_sublist k entries.entries).map _).sum_le_sum fun _ _ => Nat.zero_le _

theorem sound_empty : (empty : Generations key value).Sound size budget entryOf where
  counted := rfl
  current := Nat.zero_le budget
  previous := Nat.zero_le budget
  currentOf := fun _ _ hlookup => nomatch hlookup
  previousOf := fun _ _ hlookup => nomatch hlookup

theorem sound_turn (h : generations.Sound size budget entryOf) (entry : value) :
    (generations.turn size budget entry).Sound size budget entryOf := by
  unfold turn
  split
  · exact
      { counted := rfl
        current := Nat.zero_le budget
        previous := h.current
        currentOf := fun _ _ hlookup => nomatch hlookup
        previousOf := h.currentOf }
  · exact h

theorem turn_room (h : generations.Sound size budget entryOf) (hsize : size entry <= budget) :
    (generations.turn size budget entry).bytes + size entry <= budget := by
  unfold turn
  split
  · rw [Nat.zero_add]
    exact hsize
  · next hroom =>
      rcases Nat.lt_or_ge budget (generations.bytes + size entry) with hover | hwithin
      · have hempty : generations.current.entries = [] := by
          rcases Decidable.em (generations.current.entries.isEmpty = true) with hnone | hsome
          · exact List.isEmpty_iff.mp hnone
          · exact absurd ⟨hover, hsome⟩ hroom
        have hnothing : generations.bytes = 0 := by
          rw [h.counted]
          unfold occupied
          rw [hempty]
          rfl
        rw [hnothing, Nat.zero_add]
        exact hsize
      · exact hwithin

theorem sound_insert (h : generations.Sound size budget entryOf) (k : key) :
    (generations.insert size budget k (entryOf k)).Sound size budget entryOf := by
  unfold insert
  split
  · exact h
  · next hsize =>
      have hturned := sound_turn h (entryOf k)
      have hroom := turn_room h (Nat.le_of_not_lt hsize)
      generalize generations.turn size budget (entryOf k) = turned at hturned hroom
      have hinserted := occupied_insert size k (entryOf k) turned.current
      have hcounted : (match turned.current.lookup k with
          | some replaced => turned.bytes + size (entryOf k) - size replaced
          | none => turned.bytes + size (entryOf k)) =
          occupied size (turned.current.insert k (entryOf k)) := by
        rw [hturned.counted, ← hinserted]
        cases hlookup : turned.current.lookup k with
        | none => exact Nat.add_zero _
        | some replaced => exact Nat.add_sub_cancel _ _
      have hless : occupied size (turned.current.insert k (entryOf k)) <= budget := by
        rw [hturned.counted, ← hinserted] at hroom
        exact Nat.le_trans (Nat.le_add_right _ _) hroom
      refine
        { counted := hcounted
          current := hless
          previous := hturned.previous
          currentOf := ?_
          previousOf := hturned.previousOf }
      intro other entry hlookup
      rcases Decidable.em (other = k) with rfl | hne
      · rw [AList.lookup_insert] at hlookup
        exact (Option.some.inj hlookup).symm
      · rw [AList.lookup_insert_ne hne] at hlookup
        exact hturned.currentOf other entry hlookup

theorem sound_get (h : generations.Sound size budget entryOf) (k : key) :
    (generations.get size budget k).2.Sound size budget entryOf ∧
      forall entry, (generations.get size budget k).1 = some entry -> entry = entryOf k := by
  unfold get
  cases hcurrent : generations.current.lookup k with
  | some found =>
      refine ⟨h, ?_⟩
      intro entry hentry
      cases hentry
      exact h.currentOf k _ hcurrent
  | none =>
      cases hprevious : generations.previous.lookup k with
      | none => exact ⟨h, fun _ hentry => nomatch hentry⟩
      | some found =>
          have hfound := h.previousOf k found hprevious
          have herased : Sound size budget entryOf
              { generations with previous := generations.previous.erase k } := by
            refine
              { counted := h.counted
                current := h.current
                previous := Nat.le_trans (occupied_erase_le size k _) h.previous
                currentOf := h.currentOf
                previousOf := ?_ }
            intro other entry hlookup
            rcases Decidable.em (other = k) with rfl | hne
            · rw [AList.lookup_erase] at hlookup
              cases hlookup
            · rw [AList.lookup_erase_ne hne] at hlookup
              exact h.previousOf other entry hlookup
          constructor
          · rw [hfound]
            exact sound_insert herased k
          · intro entry hentry
            cases hentry
            exact hfound

end Counting

end Generations

end Foundation
end PaminMemory
