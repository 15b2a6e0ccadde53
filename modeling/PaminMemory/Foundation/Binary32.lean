import Mathlib.Algebra.GroupWithZero.Nat
import Mathlib.Data.Int.Order.Basic

/-!
# Single precision numbers, as far as they are compared

A number is a sign and the 31 bits below it, read as a natural number.  Those
bits order the magnitudes, infinity and the payloads above it included, so every
comparison is one of integers.  No arithmetic is needed here.
-/

namespace PaminMemory
namespace Foundation

/-- A binary interchange number of 32 bits. -/
structure Binary32 where
  negative : Bool
  magnitude : Nat
  bounded : magnitude < 2 ^ 31
deriving DecidableEq, Repr

namespace Binary32

def infinityBits : Nat := 0x7F800000

theorem zero_bounded : 0 < 2 ^ 31 := by decide

theorem one_bounded : 0x3F800000 < 2 ^ 31 := by decide

def zero : Binary32 := ⟨false, 0, zero_bounded⟩

def one : Binary32 := ⟨false, 0x3F800000, one_bounded⟩

def IsNaN (x : Binary32) : Prop := infinityBits < x.magnitude

instance (x : Binary32) : Decidable x.IsNaN := by
  unfold IsNaN
  infer_instance

/-!
## The order of the numbers

A number that is not the negative zero has one place; the two zeros compare as one.
-/

/-- The place of a number on the line; both zeros stand at the same one. -/
def place (x : Binary32) : Int :=
  if x.negative then -(x.magnitude : Int) else x.magnitude

/-- What `total_cmp` compares: as the place, and the negative zero before the other. -/
def totalPlace (x : Binary32) : Int := if x.negative then -(x.magnitude : Int) - 1 else x.magnitude

def Same (x y : Binary32) : Prop := ¬ x.IsNaN ∧ ¬ y.IsNaN ∧ x.place = y.place

def Less (x y : Binary32) : Prop := ¬ x.IsNaN ∧ ¬ y.IsNaN ∧ x.place < y.place

def AtMost (x y : Binary32) : Prop := ¬ x.IsNaN ∧ ¬ y.IsNaN ∧ x.place <= y.place

instance (x y : Binary32) : Decidable (Same x y) := by
  unfold Same
  infer_instance

instance (x y : Binary32) : Decidable (Less x y) := by
  unfold Less
  infer_instance

instance (x y : Binary32) : Decidable (AtMost x y) := by
  unfold AtMost
  infer_instance

/-- The greatest number below a number; of either zero, the least negative. -/
def nextDown (x : Binary32) : Binary32 :=
  if hends : x.IsNaN ∨ (x.negative = true ∧ x.magnitude = infinityBits) then
    x
  else if hzero : x.magnitude = 0 then
    ⟨true, 1, by decide⟩
  else if hnegative : x.negative = true then
    ⟨true, x.magnitude + 1, by
      have hinfinity : x.magnitude ≠ infinityBits := fun h => hends (Or.inr ⟨hnegative, h⟩)
      have hnumber : ¬ infinityBits < x.magnitude := fun h => hends (Or.inl h)
      unfold infinityBits at hinfinity hnumber
      omega⟩
  else
    ⟨false, x.magnitude - 1, Nat.lt_of_le_of_lt (Nat.sub_le ..) x.bounded⟩

end Binary32

end Foundation
end PaminMemory
