import Mathlib.Data.List.Basic
import Std.Data.TreeMap.Lemmas

/-!
# Gathering items by key

A pass over some items absorbs each into what its key has gathered so far.  What a key
has gathered in the end is what its own items give, in the order they came.
-/

namespace PaminMemory
namespace Foundation

variable {ι κ β : Type} [Ord κ] [Std.TransOrd κ] [Std.LawfulEqOrd κ]

theorem map_toList_congr {γ : Type} {left right : Std.TreeMap κ β} (f : κ -> β -> γ)
    (h : forall k : κ, left[k]?.map (f k) = right[k]?.map (f k)) :
    (left.toList.map fun entry => (entry.1, f entry.1 entry.2)) =
      right.toList.map fun entry => (entry.1, f entry.1 entry.2) := by
  rw [← Std.TreeMap.toList_map, ← Std.TreeMap.toList_map]
  apply Std.TreeMap.Equiv.toList_eq
  apply Std.TreeMap.Equiv.of_forall_constGet?_eq
  intro k
  rw [Std.TreeMap.getElem?_map, Std.TreeMap.getElem?_map, h]

theorem nodup_keys_toList (map : Std.TreeMap κ β) : (map.toList.map Prod.fst).Nodup := by
  unfold List.Nodup
  rw [List.pairwise_map]
  apply (Std.TreeMap.distinct_keys_toList (t := map)).imp
  intro left right hdistinct hsame
  exact hdistinct (Std.LawfulEqOrd.compare_eq_iff_eq.mpr hsame)

variable [DecidableEq κ]

/-- Absorbs each item into what its key has gathered, from `start` where it has nothing. -/
def gather (key : ι -> κ) (absorb : β -> ι -> β) (start : β) (items : List ι)
    (gathered : Std.TreeMap κ β) : Std.TreeMap κ β :=
  items.foldl (fun gathered item =>
    gathered.insert (key item) (absorb (gathered.getD (key item) start) item)) gathered

theorem getElem?_gather (key : ι -> κ) (absorb : β -> ι -> β) (start : β) (items : List ι)
    (gathered : Std.TreeMap κ β) (k : κ) :
    (gather key absorb start items gathered)[k]? =
      if k ∈ items.map key then
        some ((items.filter fun item => key item = k).foldl absorb (gathered.getD k start))
      else
        gathered[k]? := by
  induction items generalizing gathered with
  | nil => rfl
  | cons item rest ih =>
      have hstep : gather key absorb start (item :: rest) gathered =
          gather key absorb start rest
            (gathered.insert (key item) (absorb (gathered.getD (key item) start) item)) := rfl
      rw [hstep, ih, Std.TreeMap.getElem?_insert, Std.TreeMap.getD_insert]
      simp only [Std.LawfulEqOrd.compare_eq_iff_eq, List.map_cons, List.mem_cons]
      by_cases hkey : key item = k
      · subst hkey
        by_cases hrest : key item ∈ rest.map key
        · simp [hrest]
        · have hnone : rest.filter (fun other => key other = key item) = [] := by
            apply List.filter_eq_nil_iff.mpr
            intro other hother
            have hne : key other ≠ key item := by
              intro hsame
              exact hrest (List.mem_map.mpr ⟨other, hother, hsame⟩)
            simpa using hne
          simp [hrest, hnone]
      · have hother : ¬ k = key item := fun hsame => hkey hsame.symm
        simp [hkey, hother]

theorem getElem?_gather_empty (key : ι -> κ) (absorb : β -> ι -> β) (start : β)
    (items : List ι) (k : κ) :
    (gather key absorb start items ∅)[k]? =
      if k ∈ items.map key then
        some ((items.filter fun item => key item = k).foldl absorb start)
      else
        none := by
  rw [getElem?_gather]
  simp

end Foundation
end PaminMemory
