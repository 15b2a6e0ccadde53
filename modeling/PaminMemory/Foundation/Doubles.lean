import Mathlib.Data.Nat.Log
import Mathlib.Data.Rat.Floor
import Mathlib.Algebra.Order.Field.Basic

/-!
# Quotients of counts in double precision

The quotient of two natural numbers, the first at most the second, as the division of two
doubles gives it: the nearest number of 53 significant bits, of two that are as near the one
whose last bit is zero.
-/

namespace PaminMemory
namespace Foundation

def nearestEven (n d : Nat) : Nat :=
  if 2 * (n % d) < d ∨ (2 * (n % d) = d ∧ n / d % 2 = 0) then n / d else n / d + 1

def places (n d : Nat) : Nat := Nat.clog 2 ((2 ^ 52 * d + n - 1) / n)

def quotient (n d : Nat) : ℚ :=
  if n = 0 then 0 else (nearestEven (n * 2 ^ places n d) d : ℚ) / 2 ^ places n d

theorem nearestEven_le {n d k : Nat} (hd : 0 < d) (h : n <= k * d) : nearestEven n d <= k := by
  have hquotient : n / d <= k := Nat.div_le_of_le_mul (by rw [Nat.mul_comm]; exact h)
  unfold nearestEven
  split
  · exact hquotient
  · next hup =>
      rcases Nat.lt_or_ge (n / d) k with hless | hsame
      · exact hless
      · -- the quotient is whole, and is not rounded up
        have hwhole : n % d = 0 := by
          have hdivided := Nat.div_add_mod n d
          have hle : k * d <= d * (n / d) := by
            rw [Nat.mul_comm d]
            exact Nat.mul_le_mul_right d hsame
          omega
        rw [hwhole] at hup
        omega

theorem quotient_le_one {n d : Nat} (hd : 0 < d) (h : n <= d) : quotient n d <= 1 := by
  unfold quotient
  split
  · exact zero_le_one
  · have hle : nearestEven (n * 2 ^ places n d) d <= 2 ^ places n d := by
      apply nearestEven_le hd
      rw [Nat.mul_comm]
      exact Nat.mul_le_mul_left _ h
    rw [div_le_one (by positivity)]
    exact_mod_cast hle

end Foundation
end PaminMemory
