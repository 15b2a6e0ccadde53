import Mathlib.Order.MinMax
import Mathlib.Order.OrderDual

/-!
# The least and the most of a list

A fold that keeps the lesser, or the greater, of what it has and the next value.
-/

namespace PaminMemory
namespace Foundation

variable {α : Type _} [LinearOrder α] {values : List α} {start value : α}

theorem foldl_min_le_start (values : List α) (start : α) : values.foldl min start <= start := by
  induction values generalizing start with
  | nil => exact le_refl start
  | cons first rest ih => exact le_trans (ih (min start first)) (min_le_left start first)

theorem foldl_min_le (h : value ∈ values) : values.foldl min start <= value := by
  induction values generalizing start with
  | nil => cases h
  | cons first rest ih =>
      rcases List.mem_cons.mp h with rfl | hrest
      · exact le_trans (foldl_min_le_start rest (min start value)) (min_le_right start value)
      · exact ih hrest

theorem foldl_min_mem (values : List α) (start : α) :
    values.foldl min start = start ∨ values.foldl min start ∈ values := by
  induction values generalizing start with
  | nil => exact Or.inl rfl
  | cons first rest ih =>
      rw [List.foldl_cons]
      rcases ih (min start first) with hstart | hrest
      · rcases min_choice start first with hmin | hmin
        · rw [hmin] at hstart ⊢
          exact Or.inl hstart
        · rw [hmin] at hstart ⊢
          rw [hstart]
          exact Or.inr (List.mem_cons_self ..)
      · exact Or.inr (List.mem_cons_of_mem first hrest)

theorem least_mem (hvalues : values ≠ []) (hstart : forall value, value ∈ values -> value <= start) :
    values.foldl min start ∈ values := by
  rcases foldl_min_mem values start with hsame | hmem
  · cases values with
    | nil => exact absurd rfl hvalues
    | cons first rest =>
        have hle : (first :: rest).foldl min start <= first := foldl_min_le (List.mem_cons_self ..)
        rw [hsame] at hle ⊢
        rw [le_antisymm hle (hstart first (List.mem_cons_self ..))]
        exact List.mem_cons_self ..
  · exact hmem

theorem le_foldl_max (h : value ∈ values) : value <= values.foldl max start :=
  foldl_min_le (α := αᵒᵈ) h

theorem most_mem (hvalues : values ≠ []) (hstart : forall value, value ∈ values -> start <= value) :
    values.foldl max start ∈ values :=
  least_mem (α := αᵒᵈ) hvalues hstart

end Foundation
end PaminMemory
