import Mathlib.Algebra.GroupWithZero.Nat
import Mathlib.Data.List.Basic

/-!
# Byte strings that can be read back

Numbers of a fixed width and blocks of a fixed length leave no doubt where they end, so
what is written one after the other is determined by the bytes.
-/

namespace PaminMemory
namespace Foundation

def littleEndian : Nat -> Nat -> List UInt8
  | 0, _ => []
  | width + 1, n => UInt8.ofNat n :: littleEndian width (n / 256)

theorem length_littleEndian (width n : Nat) : (littleEndian width n).length = width := by
  induction width generalizing n with
  | zero => rfl
  | succ width ih =>
      unfold littleEndian
      rw [List.length_cons, ih]

theorem littleEndian_inj {width m n : Nat} (hm : m < 256 ^ width) (hn : n < 256 ^ width)
    (h : littleEndian width m = littleEndian width n) : m = n := by
  induction width generalizing m n with
  | zero =>
      rw [Nat.pow_zero, Nat.lt_one_iff] at hm hn
      rw [hm, hn]
  | succ width ih =>
      unfold littleEndian at h
      injection h with hlow hhigh
      rw [Nat.pow_succ] at hm hn
      have hdiv : m / 256 = n / 256 :=
        ih (Nat.div_lt_of_lt_mul (by omega)) (Nat.div_lt_of_lt_mul (by omega)) hhigh
      have hmod : m % 256 = n % 256 := by
        have hsame := congrArg UInt8.toNat hlow
        rw [UInt8.toNat_ofNat', UInt8.toNat_ofNat'] at hsame
        exact hsame
      omega

theorem blocks_inj {thing : Type _} {bytes : thing -> List UInt8} {size : Nat} (hsize : 0 < size)
    (hlength : forall x, (bytes x).length = size)
    (hinj : forall x y, bytes x = bytes y -> x = y) :
    forall {xs ys : List thing}, xs.flatMap bytes = ys.flatMap bytes -> xs = ys
  | [], [], _ => rfl
  | [], y :: ys, h => by
      have hempty := congrArg List.length h
      rw [List.flatMap_cons, List.length_append, hlength] at hempty
      simp only [List.flatMap_nil, List.length_nil] at hempty
      omega
  | x :: xs, [], h => by
      have hempty := congrArg List.length h
      rw [List.flatMap_cons, List.length_append, hlength] at hempty
      simp only [List.flatMap_nil, List.length_nil] at hempty
      omega
  | x :: xs, y :: ys, h => by
      rw [List.flatMap_cons, List.flatMap_cons] at h
      rcases List.append_inj h ((hlength x).trans (hlength y).symm) with ⟨hfirst, hrest⟩
      rw [hinj x y hfirst, blocks_inj hsize hlength hinj hrest]

end Foundation
end PaminMemory
