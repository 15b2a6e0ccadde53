import Mathlib.Data.List.Sort
import Mathlib.Data.List.Nodup

/-!
# What comes first in an order

Some items are put in order and the first of them kept.  The same are kept of more items exactly
when each that is kept comes before every item there is more.
-/

namespace PaminMemory
namespace Foundation

variable {α : Type} {r : α -> α -> Prop} [DecidableRel r] [Std.Total r]
  [IsTrans α r] {part whole : List α} {keep : Nat}

theorem after_of_leading
    (h : (whole.insertionSort r).take keep = (part.insertionSort r).take keep)
    {item kept : α} (hitem : item ∈ whole) (hnot : item ∉ part)
    (hkept : kept ∈ (part.insertionSort r).take keep) : r kept item := by
  have hsorted := List.pairwise_insertionSort r whole
  rw [← List.take_append_drop keep (whole.insertionSort r), List.pairwise_append] at hsorted
  apply hsorted.2.2 kept (h ▸ hkept)
  have hmem : item ∈ (whole.insertionSort r).take keep ++ (whole.insertionSort r).drop keep := by
    rw [List.take_append_drop]
    exact (List.mem_insertionSort r).mpr hitem
  cases List.mem_append.mp hmem with
  | inl hfirst =>
      rw [h] at hfirst
      exact absurd ((List.mem_insertionSort r).mp (List.mem_of_mem_take hfirst)) hnot
  | inr hlater => exact hlater

theorem sorted_of_perm (hperm : part.Perm whole)
    (hanti : forall one other, one ∈ whole -> other ∈ whole -> r one other -> r other one ->
      one = other) : part.insertionSort r = whole.insertionSort r := by
  apply List.Perm.eq_of_pairwise _ (List.pairwise_insertionSort r part)
    (List.pairwise_insertionSort r whole)
  · exact (List.perm_insertionSort r part).trans
      (hperm.trans (List.perm_insertionSort r whole).symm)
  · intro one other hone hother
    apply hanti one other (hperm.mem_iff.mp ((List.mem_insertionSort r).mp hone))
    exact (List.mem_insertionSort r).mp hother

variable [DecidableEq α]

theorem leading_of_after (hpart : part.Nodup) (hwhole : whole.Nodup)
    (hsub : forall item, item ∈ part -> item ∈ whole)
    (hanti : forall one other, one ∈ whole -> other ∈ whole -> r one other -> r other one ->
      one = other) (hkeep : keep <= part.length)
    (hafter : forall item kept, item ∈ whole -> item ∉ part ->
      kept ∈ (part.insertionSort r).take keep -> r kept item) :
    (whole.insertionSort r).take keep = (part.insertionSort r).take keep := by
  let sorted := part.insertionSort r
  let extra := whole.filter fun item => item ∉ part
  let rest := (sorted.drop keep ++ extra).insertionSort r
  have hsorted : sorted.Pairwise r := List.pairwise_insertionSort r part
  have hperm : (whole.insertionSort r).Perm (sorted.take keep ++ rest) := by
    have hparts : whole.Perm (part ++ extra) := by
      rw [List.perm_ext_iff_of_nodup hwhole]
      · intro item
        rw [List.mem_append, List.mem_filter, decide_eq_true_eq]
        have hpartial := hsub item
        tauto
      · apply List.Nodup.append hpart (hwhole.filter _)
        intro item hitem hextra
        exact of_decide_eq_true (List.mem_filter.mp hextra).2 hitem
    have hsplit : (sorted.take keep ++ rest).Perm (part ++ extra) := by
      apply (List.Perm.append_left _ (List.perm_insertionSort r _)).trans
      rw [← List.append_assoc, List.take_append_drop]
      exact (List.perm_insertionSort r part).append_right extra
    exact (List.perm_insertionSort r whole).trans (hparts.trans hsplit.symm)
  have hordered : (sorted.take keep ++ rest).Pairwise r := by
    rw [List.pairwise_append]
    constructor
    · exact hsorted.take
    · constructor
      · exact List.pairwise_insertionSort r _
      · intro kept hkept item hitem
        cases List.mem_append.mp ((List.mem_insertionSort r).mp hitem) with
        | inl hlater =>
            rw [← List.take_append_drop keep sorted, List.pairwise_append] at hsorted
            exact hsorted.2.2 kept hkept item hlater
        | inr hextra =>
            rcases List.mem_filter.mp hextra with ⟨hmem, hnot⟩
            exact hafter item kept hmem (of_decide_eq_true hnot) hkept
  have heq : whole.insertionSort r = sorted.take keep ++ rest := by
    apply List.Perm.eq_of_pairwise _ (List.pairwise_insertionSort r whole) hordered hperm
    intro one other hone hother
    apply hanti one other ((List.mem_insertionSort r).mp hone)
    exact (List.mem_insertionSort r).mp (hperm.mem_iff.mpr hother)
  have hlength : (sorted.take keep).length = keep := by
    rw [List.length_take, List.length_insertionSort]
    exact Nat.min_eq_left hkeep
  rw [heq]
  exact List.take_left' hlength

end Foundation
end PaminMemory
