import Mathlib.Data.List.Basic

/-!
# Splitting at the last place

What comes before and after the last place a pattern is found at.
-/

namespace PaminMemory
namespace Foundation

variable {α : Type} [DecidableEq α] {pattern text before after : List α}

def rsplitOnce (pattern : List α) : List α -> Option (List α × List α)
  | [] => none
  | c :: rest =>
      match rsplitOnce pattern rest with
      | some (before, after) => some (c :: before, after)
      | none =>
          if pattern.isPrefixOf (c :: rest) then
            some ([], (c :: rest).drop pattern.length)
          else
            none

theorem eq_of_rsplitOnce (h : rsplitOnce pattern text = some (before, after)) :
    text = before ++ pattern ++ after := by
  induction text generalizing before with
  | nil => cases h
  | cons c rest ih =>
      cases hlater : rsplitOnce pattern rest with
      | some split =>
          simp only [rsplitOnce, hlater, Option.some.injEq, Prod.mk.injEq] at h
          rw [← h.1, List.cons_append, List.cons_append, ← ih (hlater.trans (by rw [← h.2]))]
      | none =>
          simp only [rsplitOnce, hlater, Option.ite_none_right_eq_some, Option.some.injEq,
            Prod.mk.injEq] at h
          rcases List.isPrefixOf_iff_prefix.mp h.1 with ⟨more, hmore⟩
          rw [← h.2.1, ← h.2.2, ← hmore, List.drop_left, List.nil_append]

theorem not_found_of_rsplitOnce (hpattern : pattern ≠ []) (h : rsplitOnce pattern text = none)
    (before after : List α) : text ≠ before ++ pattern ++ after := by
  induction text generalizing before with
  | nil =>
      intro htext
      simp [hpattern] at htext
  | cons c rest ih =>
      intro htext
      cases hlater : rsplitOnce pattern rest with
      | some split => simp [rsplitOnce, hlater] at h
      | none =>
          cases before with
          | nil =>
              have hstarts : pattern.isPrefixOf (c :: rest) = true :=
                List.isPrefixOf_iff_prefix.mpr ⟨after, by rw [htext, List.nil_append]⟩
              simp [rsplitOnce, hlater, hstarts] at h
          | cons d before => exact ih hlater before (List.cons.inj htext).2

theorem last_of_rsplitOnce (hpattern : pattern ≠ [])
    (h : rsplitOnce pattern text = some (before, after)) {before' after' : List α}
    (hfound : text = before' ++ pattern ++ after') : before'.length ≤ before.length := by
  induction text generalizing before before' with
  | nil => cases h
  | cons c rest ih =>
      cases before' with
      | nil => exact Nat.zero_le _
      | cons d before' =>
          have hrest := (List.cons.inj hfound).2
          cases hlater : rsplitOnce pattern rest with
          | none => exact absurd hrest (not_found_of_rsplitOnce hpattern hlater before' after')
          | some split =>
              simp only [rsplitOnce, hlater, Option.some.injEq, Prod.mk.injEq] at h
              rw [← h.1]
              exact Nat.succ_le_succ (ih (hlater.trans (by rw [← h.2])) hrest)

end Foundation
end PaminMemory
