import Mathlib.Data.List.MinMax
import Mathlib.Data.List.Range
import Mathlib.Order.Nat

/-!
# Rows numbered as they are appended

Rows are only ever appended, each under one more than the greatest number so
far.  The numbers then ascend in the order the rows were written, and a row just
written is the greatest.
-/

namespace PaminMemory
namespace Foundation

def nextNumber (number : row -> Nat) (rows : List row) : Nat :=
  (rows.map number).foldr max 0 + 1

section Numbered

variable {row : Type _} {number : row -> Nat} {rows : List row} {new : row}

theorem number_lt_next (h : new ∈ rows) : number new < nextNumber number rows := by
  have hle : number new <= (rows.map number).foldr max 0 :=
    List.le_max_of_le (List.mem_map_of_mem h) (Nat.le_refl (number new))
  exact Nat.lt_succ_of_le hle

def Ascending (number : row -> Nat) (rows : List row) : Prop :=
  rows.Pairwise fun earlier later => number earlier < number later

theorem ascending_append (h : Ascending number rows)
    (hnew : number new = nextNumber number rows) : Ascending number (rows ++ [new]) := by
  apply List.pairwise_append.mpr
  refine ⟨h, List.pairwise_singleton _ _, ?_⟩
  intro earlier hearlier later hlater
  rw [List.mem_singleton.mp hlater, hnew]
  exact number_lt_next hearlier

theorem ascending_map {update : row -> row} (hnumber : forall r, number (update r) = number r)
    (h : Ascending number rows) : Ascending number (rows.map update) := by
  apply List.pairwise_map.mpr
  apply h.imp
  intro earlier later hless
  rw [hnumber, hnumber]
  exact hless

/-- The numbers are 1, 2, .. in order. -/
def Contiguous (number : row -> Nat) (rows : List row) (count : Nat) : Prop :=
  rows.map number = List.range' 1 count

theorem foldr_max_append (numbers more : List Nat) :
    (numbers ++ more).foldr max 0 = max (numbers.foldr max 0) (more.foldr max 0) := by
  induction numbers with
  | nil => simp
  | cons n rest ih => rw [List.cons_append, List.foldr_cons, List.foldr_cons, ih, max_assoc]

theorem lt_foldr_max {numbers : List Nat} {n : Nat} :
    n < numbers.foldr max 0 <-> exists number, number ∈ numbers ∧ n < number := by
  induction numbers with
  | nil => simp
  | cons first rest ih => simp [ih]

theorem nextNumber_of_contiguous {count : Nat} (h : Contiguous number rows count) :
    nextNumber number rows = count + 1 := by
  unfold nextNumber
  rw [show rows.map number = List.range' 1 count from h]
  clear h
  induction count with
  | zero => rfl
  | succ n ih =>
      rw [List.range'_1_concat, foldr_max_append]
      simp only [List.foldr_cons, List.foldr_nil]
      omega

theorem contiguous_append {count : Nat} (h : Contiguous number rows count)
    (hnew : number new = nextNumber number rows) :
    Contiguous number (rows ++ [new]) (count + 1) := by
  unfold Contiguous
  rw [List.map_append, show rows.map number = List.range' 1 count from h, List.range'_1_concat,
    List.map_singleton, hnew, nextNumber_of_contiguous h, Nat.add_comm 1 count]

theorem length_filter_above {index : Nat} {at' : row} (h : Ascending number rows)
    (hat : rows[index]? = some at') :
    (rows.filter fun r => number at' < number r).length = rows.length - 1 - index := by
  induction rows generalizing index with
  | nil => cases hat
  | cons first rest ih =>
      rcases List.pairwise_cons.mp h with ⟨hfirst, hrest⟩
      cases index with
      | zero =>
          cases hat
          have hall : rest.filter (fun r => number at' < number r) = rest :=
            List.filter_eq_self.mpr fun r hr => decide_eq_true (hfirst r hr)
          rw [List.filter_cons_of_neg (by simp), hall]
          simp
      | succ index =>
          have hless : number first < number at' := hfirst at' (List.mem_of_getElem? hat)
          rw [List.filter_cons_of_neg (by simpa using Nat.le_of_lt hless), ih hrest hat,
            List.length_cons]
          omega

theorem argmax_append_greatest (h : forall r, r ∈ rows -> number r < number new) :
    (rows ++ [new]).argmax number = some new := by
  rw [List.argmax_concat]
  cases hbest : rows.argmax number with
  | none => rfl
  | some best => exact if_pos (h best (List.argmax_mem hbest))

end Numbered

end Foundation
end PaminMemory
