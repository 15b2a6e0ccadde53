import Mathlib.Data.List.Infix
import Mathlib.Data.List.Range

/-!
# Windows of a list

The windows of a given width are the runs of that many neighbours in a list.
-/

namespace PaminMemory
namespace Foundation

variable {α : Type}

def windowsOf (width : Nat) (items : List α) : List (List α) :=
  (List.range (items.length + 1 - width)).map fun start => (items.drop start).take width

theorem infix_of_mem_windowsOf {width : Nat} {items window : List α}
    (h : window ∈ windowsOf width items) : window.length = width ∧ window <:+: items := by
  unfold windowsOf at h
  rcases List.mem_map.mp h with ⟨start, hstart, rfl⟩
  have hlt : start < items.length + 1 - width := List.mem_range.mp hstart
  constructor
  · rw [List.length_take, List.length_drop]
    omega
  · exact List.IsInfix.trans (List.IsPrefix.isInfix (List.take_prefix width (items.drop start)))
      (items.drop_suffix start).isInfix

theorem mem_windowsOf_of_infix {items window : List α} (h : window <:+: items) :
    window ∈ windowsOf window.length items := by
  rcases h with ⟨before, after, rfl⟩
  unfold windowsOf
  apply List.mem_map.mpr
  refine ⟨before.length, ?_, ?_⟩
  · simp only [List.length_append, List.mem_range]
    omega
  · rw [List.append_assoc, List.drop_left, List.take_left]

theorem mem_windowsOf {width : Nat} {items window : List α} :
    window ∈ windowsOf width items <-> window.length = width ∧ window <:+: items := by
  constructor
  · exact infix_of_mem_windowsOf
  · rintro ⟨rfl, h⟩
    exact mem_windowsOf_of_infix h

end Foundation
end PaminMemory
