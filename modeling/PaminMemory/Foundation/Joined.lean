import Mathlib.Data.List.Basic

/-!
# Words joined by a letter

Words that do not hold a letter can be told apart again after they are joined by it, and what
starts with some of them joined starts with those words.
-/

namespace PaminMemory
namespace Foundation

variable {α : Type} {letter : α} {words others : List (List α)}

variable [DecidableEq α]

theorem words_after (hwords : words ≠ []) (hletter : forall word, word ∈ words -> letter ∉ word)
    (hothers : forall word, word ∈ others -> letter ∉ word) {rest : List α}
    (h : [letter].intercalate others = [letter].intercalate words ++ letter :: rest) :
    exists more, more ≠ [] ∧ others = words ++ more := by
  have hne : others ≠ [] := by
    intro hnil
    rw [hnil] at h
    simp at h
  have hsplit := congrArg (List.splitOn letter) h
  rw [List.splitOn_intercalate letter hothers hne, List.splitOn_append_cons_self,
    List.splitOn_intercalate letter hletter hwords] at hsplit
  exact ⟨rest.splitOn letter, List.splitOn_ne_nil letter rest, hsplit⟩

theorem intercalate_injective
    (hwords : forall word, word ∈ words -> word ≠ [] ∧ letter ∉ word)
    (hothers : forall word, word ∈ others -> word ≠ [] ∧ letter ∉ word)
    (h : [letter].intercalate words = [letter].intercalate others) : words = others := by
  have hempty : forall words : List (List α),
      (forall word, word ∈ words -> word ≠ [] ∧ letter ∉ word) ->
        [letter].intercalate words = [] -> words = [] := by
    intro words hwords hnil
    cases words with
    | nil => rfl
    | cons word rest =>
        have hword := (hwords word (List.mem_cons_self ..)).1
        cases rest with
        | nil => exact absurd (by simpa using hnil) hword
        | cons next rest => simp at hnil
  by_cases hnil : others = []
  · rw [hnil, List.intercalate_nil] at h
    rw [hnil]
    exact hempty words hwords h
  · have hne : words ≠ [] := by
      intro hwordsNil
      rw [hwordsNil, List.intercalate_nil] at h
      exact hnil (hempty others hothers h.symm)
    have hsplit := congrArg (List.splitOn letter) h
    rw [List.splitOn_intercalate letter (fun word hword => (hwords word hword).2) hne,
      List.splitOn_intercalate letter (fun word hword => (hothers word hword).2) hnil] at hsplit
    exact hsplit

end Foundation
end PaminMemory
