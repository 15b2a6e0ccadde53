import Mathlib.Data.Finset.Insert
import Mathlib.Data.List.Nodup

/-!
# Greedy matching

Candidates pair an item of one side with an item of the other.  A pass takes each candidate
neither end of which is taken yet, so that what it takes is one to one.
-/

namespace PaminMemory
namespace Foundation

variable {ι α β : Type} [DecidableEq α] [DecidableEq β]

def greedy (left : ι -> α) (right : ι -> β) : Finset α -> Finset β -> List ι -> List ι
  | _, _, [] => []
  | taken, used, candidate :: rest =>
      if left candidate ∉ taken ∧ right candidate ∉ used then
        candidate :: greedy left right (insert (left candidate) taken)
          (insert (right candidate) used) rest
      else
        greedy left right taken used rest

variable {left : ι -> α} {right : ι -> β} {taken : Finset α} {used : Finset β}
  {candidates : List ι}

theorem greedy_cons_free {candidate : ι} {rest : List ι}
    (h : left candidate ∉ taken ∧ right candidate ∉ used) :
    greedy left right taken used (candidate :: rest) =
      candidate :: greedy left right (insert (left candidate) taken)
        (insert (right candidate) used) rest :=
  if_pos h

theorem greedy_cons_taken {candidate : ι} {rest : List ι}
    (h : ¬ (left candidate ∉ taken ∧ right candidate ∉ used)) :
    greedy left right taken used (candidate :: rest) = greedy left right taken used rest :=
  if_neg h

theorem mem_of_mem_greedy {candidate : ι}
    (h : candidate ∈ greedy left right taken used candidates) :
    candidate ∈ candidates ∧ left candidate ∉ taken ∧ right candidate ∉ used := by
  induction candidates generalizing taken used with
  | nil => cases h
  | cons first rest ih =>
      by_cases hfree : left first ∉ taken ∧ right first ∉ used
      · rw [greedy_cons_free hfree] at h
        rcases List.mem_cons.mp h with rfl | hrest
        · exact ⟨List.mem_cons_self, hfree⟩
        · rcases ih hrest with ⟨hmem, hleft, hright⟩
          exact ⟨List.mem_cons_of_mem _ hmem,
            fun hin => hleft (Finset.mem_insert_of_mem hin),
            fun hin => hright (Finset.mem_insert_of_mem hin)⟩
      · rw [greedy_cons_taken hfree] at h
        rcases ih h with ⟨hmem, hends⟩
        exact ⟨List.mem_cons_of_mem _ hmem, hends⟩

theorem nodup_left_greedy : ((greedy left right taken used candidates).map left).Nodup := by
  induction candidates generalizing taken used with
  | nil => exact List.nodup_nil
  | cons first rest ih =>
      by_cases hfree : left first ∉ taken ∧ right first ∉ used
      · rw [greedy_cons_free hfree, List.map_cons, List.nodup_cons]
        refine ⟨?_, ih⟩
        intro hmem
        rcases List.mem_map.mp hmem with ⟨other, hother, hsame⟩
        apply (mem_of_mem_greedy hother).2.1
        rw [hsame]
        exact Finset.mem_insert_self _ _
      · rw [greedy_cons_taken hfree]
        exact ih

theorem nodup_right_greedy : ((greedy left right taken used candidates).map right).Nodup := by
  induction candidates generalizing taken used with
  | nil => exact List.nodup_nil
  | cons first rest ih =>
      by_cases hfree : left first ∉ taken ∧ right first ∉ used
      · rw [greedy_cons_free hfree, List.map_cons, List.nodup_cons]
        refine ⟨?_, ih⟩
        intro hmem
        rcases List.mem_map.mp hmem with ⟨other, hother, hsame⟩
        apply (mem_of_mem_greedy hother).2.2
        rw [hsame]
        exact Finset.mem_insert_self _ _
      · rw [greedy_cons_taken hfree]
        exact ih

theorem taken_or_blocked {r : ι -> ι -> Prop} (hsorted : candidates.Pairwise r) {candidate : ι}
    (h : candidate ∈ candidates) (hleft : left candidate ∉ taken)
    (hright : right candidate ∉ used) :
    candidate ∈ greedy left right taken used candidates ∨
      exists blocker, blocker ∈ greedy left right taken used candidates ∧
        r blocker candidate ∧
          (left blocker = left candidate ∨ right blocker = right candidate) := by
  induction candidates generalizing taken used with
  | nil => cases h
  | cons first rest ih =>
      rcases List.pairwise_cons.mp hsorted with ⟨hfirst, hrest⟩
      rcases List.mem_cons.mp h with rfl | hlater
      · left
        rw [greedy_cons_free ⟨hleft, hright⟩]
        exact List.mem_cons_self
      · by_cases hfree : left first ∉ taken ∧ right first ∉ used
        · rw [greedy_cons_free hfree]
          by_cases hends : left first = left candidate ∨ right first = right candidate
          · exact Or.inr ⟨first, List.mem_cons_self, hfirst candidate hlater, hends⟩
          · rw [not_or] at hends
            have hleft' : left candidate ∉ insert (left first) taken := by
              rw [Finset.mem_insert, not_or]
              exact ⟨Ne.symm hends.1, hleft⟩
            have hright' : right candidate ∉ insert (right first) used := by
              rw [Finset.mem_insert, not_or]
              exact ⟨Ne.symm hends.2, hright⟩
            rcases ih hrest hlater hleft' hright' with hmem | ⟨blocker, hmem, hblocks⟩
            · exact Or.inl (List.mem_cons_of_mem _ hmem)
            · exact Or.inr ⟨blocker, List.mem_cons_of_mem _ hmem, hblocks⟩
        · rw [greedy_cons_taken hfree]
          exact ih hrest hlater hleft hright

end Foundation
end PaminMemory
