import Mathlib.Data.List.Chain

/-!
# Filling groups in order

A list is cut into groups: each takes the next item until it has no room for it, and the
item it has no room for opens the next.
-/

namespace PaminMemory
namespace Foundation

variable {α : Type _}

def fillFrom (full : List α -> α -> Bool) : List α -> List α -> List (List α)
  | taken, [] => [taken]
  | taken, item :: rest =>
      if full taken item then
        taken :: fillFrom full [item] rest
      else
        fillFrom full (taken ++ [item]) rest

def fill (full : List α -> α -> Bool) : List α -> List (List α)
  | [] => []
  | item :: rest => fillFrom full [item] rest

section Filling

variable {full : List α -> α -> Bool} {taken rest items : List α}

theorem flatten_fillFrom (full : List α -> α -> Bool) (taken rest : List α) :
    (fillFrom full taken rest).flatten = taken ++ rest := by
  induction rest generalizing taken with
  | nil => simp [fillFrom]
  | cons item rest ih =>
      unfold fillFrom
      split
      · rw [List.flatten_cons, ih]
        rfl
      · rw [ih, List.append_assoc]
        rfl

theorem flatten_fill (full : List α -> α -> Bool) (items : List α) :
    (fill full items).flatten = items := by
  cases items with
  | nil => rfl
  | cons item rest => exact flatten_fillFrom full [item] rest

structure Admits (full : List α -> α -> Bool) (P : List α -> Prop) : Prop where
  alone : forall item, P [item]
  taking : forall taken item, P taken -> full taken item = false -> P (taken ++ [item])

theorem forall_fillFrom {P : List α -> Prop} (hadmits : Admits full P) (htaken : P taken) :
    forall group, group ∈ fillFrom full taken rest -> P group := by
  induction rest generalizing taken with
  | nil =>
      intro group hgroup
      rw [List.mem_singleton.mp hgroup]
      exact htaken
  | cons item rest ih =>
      unfold fillFrom
      cases hfull : full taken item with
      | true =>
          intro group hgroup
          rcases List.mem_cons.mp hgroup with rfl | hlater
          · exact htaken
          · exact ih (hadmits.alone item) group hlater
      | false => exact ih (hadmits.taking taken item htaken hfull)

theorem forall_fill {P : List α -> Prop} (hadmits : Admits full P) :
    forall group, group ∈ fill full items -> P group := by
  cases items with
  | nil => exact fun _ hgroup => nomatch hgroup
  | cons item rest => exact forall_fillFrom hadmits (hadmits.alone item)

def Closed (full : List α -> α -> Bool) (group next : List α) : Prop :=
  forall item, next.head? = some item -> full group item = true

theorem exists_fillFrom (full : List α -> α -> Bool) (taken rest : List α) :
    exists more groups, fillFrom full taken rest = (taken ++ more) :: groups := by
  induction rest generalizing taken with
  | nil => exact ⟨[], [], by rw [List.append_nil]; rfl⟩
  | cons item rest ih =>
      unfold fillFrom
      split
      · exact ⟨[], _, by rw [List.append_nil]⟩
      · rcases ih (taken ++ [item]) with ⟨more, groups, hgroups⟩
        exact ⟨item :: more, groups, by rw [hgroups, List.append_assoc]; rfl⟩

theorem isChain_fillFrom (full : List α -> α -> Bool) (taken rest : List α) :
    (fillFrom full taken rest).IsChain (Closed full) := by
  induction rest generalizing taken with
  | nil => exact List.IsChain.singleton taken
  | cons item rest ih =>
      unfold fillFrom
      split
      · next hfull =>
          rcases exists_fillFrom full [item] rest with ⟨more, groups, hgroups⟩
          have hlater := ih [item]
          rw [hgroups] at hlater ⊢
          refine List.IsChain.cons_cons ?_ hlater
          intro first hfirst
          cases hfirst
          exact hfull
      · exact ih (taken ++ [item])

theorem isChain_fill (full : List α -> α -> Bool) (items : List α) :
    (fill full items).IsChain (Closed full) := by
  cases items with
  | nil => exact List.IsChain.nil
  | cons item rest => exact isChain_fillFrom full [item] rest

end Filling

end Foundation
end PaminMemory
