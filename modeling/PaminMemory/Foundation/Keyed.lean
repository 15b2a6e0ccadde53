import Mathlib.Data.List.Destutter
import Mathlib.Data.List.Sort
import Mathlib.Order.Basic

/-!
# The later of a key

Numbered keys in order, each once: of a key numbered more than once the later number is kept.
-/

namespace PaminMemory
namespace Foundation

section Keyed

variable {κ ω : Type} [LinearOrder ω] (order : κ -> ω)

def laterFirst (left right : κ × Nat) : Prop :=
  order left.1 < order right.1 ∨ order left.1 = order right.1 ∧ right.2 <= left.2

instance : DecidableRel (laterFirst order) := by
  intro left right
  unfold laterFirst
  infer_instance

instance : Std.Total (laterFirst order) where
  total := by
    intro left right
    rcases lt_trichotomy (order left.1) (order right.1) with hlt | hsame | hgt
    · exact Or.inl (Or.inl hlt)
    · rcases Nat.le_total right.2 left.2 with hle | hge
      · exact Or.inl (Or.inr ⟨hsame, hle⟩)
      · exact Or.inr (Or.inr ⟨hsame.symm, hge⟩)
    · exact Or.inr (Or.inl hgt)

instance : IsTrans (κ × Nat) (laterFirst order) where
  trans := by
    rintro first second third (hlt | ⟨hsame, hle⟩) (hlt' | ⟨hsame', hle'⟩)
    · exact Or.inl (lt_trans hlt hlt')
    · exact Or.inl (hsame' ▸ hlt)
    · exact Or.inl (hsame ▸ hlt')
    · exact Or.inr ⟨hsame.trans hsame', Nat.le_trans hle' hle⟩

def keepLater (entries : List (κ × Nat)) : List (κ × Nat) :=
  (entries.insertionSort (laterFirst order)).destutter fun kept next =>
    order kept.1 ≠ order next.1

variable {order} {entries : List (κ × Nat)} {entry : κ × Nat}

theorem mem_of_mem_keepLater (h : entry ∈ keepLater order entries) : entry ∈ entries :=
  (List.mem_insertionSort _).mp ((List.destutter_sublist _ _).subset h)

theorem exists_destutter' {first : κ × Nat} {rest : List (κ × Nat)}
    (hsorted : (first :: rest).Pairwise (laterFirst order)) (hentry : entry ∈ first :: rest) :
    exists kept, kept ∈ rest.destutter' (fun kept next => order kept.1 ≠ order next.1) first ∧
      order kept.1 = order entry.1 ∧ entry.2 <= kept.2 := by
  induction rest generalizing first entry with
  | nil =>
      rw [List.mem_singleton.mp hentry]
      exact ⟨first, List.mem_singleton_self first, rfl, Nat.le_refl _⟩
  | cons second rest ih =>
      rcases List.pairwise_cons.mp hsorted with ⟨hfirst, hmore⟩
      rw [List.destutter'_cons]
      split
      · rcases List.mem_cons.mp hentry with rfl | hlater
        · exact ⟨entry, List.mem_cons_self, rfl, Nat.le_refl _⟩
        · rcases ih hmore hlater with ⟨kept, hkept, hsame, hle⟩
          exact ⟨kept, List.mem_cons_of_mem _ hkept, hsame, hle⟩
      · next hpassed =>
          have hsame : order first.1 = order second.1 := not_not.mp hpassed
          have hwithout : (first :: rest).Pairwise (laterFirst order) :=
            List.pairwise_cons.mpr ⟨fun other hother =>
              hfirst other (List.mem_cons_of_mem _ hother), (List.pairwise_cons.mp hmore).2⟩
          rcases List.mem_cons.mp hentry with hfirst' | hlater
          · exact ih hwithout (hfirst' ▸ List.mem_cons_self)
          · rcases List.mem_cons.mp hlater with rfl | hrest
            · rcases ih hwithout List.mem_cons_self with ⟨kept, hkept, hkey, hle⟩
              refine ⟨kept, hkept, hkey.trans hsame, Nat.le_trans ?_ hle⟩
              rcases hfirst entry List.mem_cons_self with hlt | ⟨_, hnumber⟩
              · exact absurd hsame (ne_of_lt hlt)
              · exact hnumber
            · exact ih hwithout (List.mem_cons_of_mem _ hrest)

theorem exists_keepLater (h : entry ∈ entries) :
    exists kept, kept ∈ keepLater order entries ∧ order kept.1 = order entry.1 ∧
      entry.2 <= kept.2 := by
  have hsorted := List.pairwise_insertionSort (laterFirst order) entries
  have hmem := (List.mem_insertionSort (laterFirst order)).mpr h
  unfold keepLater
  cases hlist : entries.insertionSort (laterFirst order) with
  | nil =>
      rw [hlist] at hmem
      cases hmem
  | cons first rest =>
      rw [hlist] at hmem hsorted
      exact exists_destutter' hsorted hmem

theorem nodup_keepLater : ((keepLater order entries).map fun kept => order kept.1).Nodup := by
  have hsorted : (keepLater order entries).Pairwise (laterFirst order) :=
    (List.pairwise_insertionSort (laterFirst order) entries).sublist (List.destutter_sublist _ _)
  have hchain : (keepLater order entries).IsChain fun left right =>
      order left.1 ≠ order right.1 := List.isChain_destutter _ _
  have hrising : (keepLater order entries).IsChain fun left right =>
      order left.1 < order right.1 := by
    apply List.isChain_iff_getElem.mpr
    intro place hplace
    rcases List.isChain_iff_getElem.mp hsorted.isChain place hplace with hlt | ⟨hsame, _⟩
    · exact hlt
    · exact absurd hsame (List.isChain_iff_getElem.mp hchain place hplace)
  rw [List.nodup_iff_pairwise_ne, List.pairwise_map]
  have htrans : IsTrans (κ × Nat) fun left right => order left.1 < order right.1 :=
    ⟨fun _ _ _ => lt_trans⟩
  exact hrising.pairwise.imp fun hlt => ne_of_lt hlt

end Keyed

end Foundation
end PaminMemory
