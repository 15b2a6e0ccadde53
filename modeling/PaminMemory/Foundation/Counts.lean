import Mathlib.Data.List.AList
import Mathlib.Logic.Function.Basic

/-!
# Counts of what is wanted

A map keeps for each key how many want it.  A key nobody wants has no entry, so that what is
kept for the sake of the wanted keys can be let go with the last of them.
-/

namespace PaminMemory
namespace Foundation

variable {κ : Type} [DecidableEq κ]

abbrev Counts (κ : Type) := AList fun _ : κ => Nat

namespace Counts

def more (key : κ) (counts : Counts κ) : Counts κ :=
  counts.insert key ((counts.lookup key).getD 0 + 1)

def less (key : κ) (counts : Counts κ) : Counts κ :=
  match counts.lookup key with
  | none => counts
  | some count => if 0 < count - 1 then counts.insert key (count - 1) else counts.erase key

def Tells (counts : Counts κ) (wanted : κ -> Nat) : Prop :=
  forall key, counts.lookup key = if wanted key = 0 then none else some (wanted key)

variable {counts : Counts κ} {wanted wanted' : κ -> Nat} {key : κ}

theorem Tells.congr (h : Tells counts wanted) (hsame : forall key, wanted' key = wanted key) :
    Tells counts wanted' := by
  intro key
  rw [hsame]
  exact h key

theorem tells_empty : Tells (∅ : Counts κ) fun _ => 0 := by
  intro key
  rw [if_pos rfl]
  exact AList.lookup_empty key

theorem Tells.isSome (h : Tells counts wanted) (key : κ) :
    (counts.lookup key).isSome = true <-> 0 < wanted key := by
  rw [h key]
  split
  · next hzero => simp [hzero]
  · next hsome => simp [Nat.pos_of_ne_zero hsome]

theorem Tells.getD (h : Tells counts wanted) (key : κ) :
    (counts.lookup key).getD 0 = wanted key := by
  rw [h key]
  split
  · next hzero => rw [hzero, Option.getD_none]
  · rw [Option.getD_some]

theorem Tells.more (h : Tells counts wanted) (key : κ) :
    Tells (counts.more key) (Function.update wanted key (wanted key + 1)) := by
  intro other
  unfold Counts.more
  by_cases hsame : other = key
  · rw [hsame, AList.lookup_insert, Function.update_self, h.getD, if_neg (Nat.succ_ne_zero _)]
  · rw [AList.lookup_insert_ne hsame, Function.update_of_ne hsame]
    exact h other

theorem lookup_less_of_ne {other : κ} (hne : other ≠ key) :
    (counts.less key).lookup other = counts.lookup other := by
  unfold Counts.less
  split
  · rfl
  · split
    · exact AList.lookup_insert_ne hne
    · exact AList.lookup_erase_ne hne

theorem Tells.less (h : Tells counts wanted) (hwanted : 0 < wanted key) :
    Tells (counts.less key) (Function.update wanted key (wanted key - 1)) := by
  intro other
  by_cases hsame : other = key
  · have hentry : counts.lookup key = some (wanted key) := by
      rw [h key, if_neg (Nat.pos_iff_ne_zero.mp hwanted)]
    rw [hsame, Function.update_self]
    unfold Counts.less
    rw [hentry]
    simp only
    split
    · next hleft => rw [AList.lookup_insert, if_neg (Nat.pos_iff_ne_zero.mp hleft)]
    · next hlast => rw [AList.lookup_erase, if_pos (Nat.eq_zero_of_not_pos hlast)]
  · rw [lookup_less_of_ne hsame, Function.update_of_ne hsame]
    exact h other

end Counts

end Foundation
end PaminMemory
