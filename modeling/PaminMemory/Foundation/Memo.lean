import Mathlib.Data.List.Nodup

/-!
# Asking once

What was asked before is looked up, so every question is asked once and always answered alike.
-/

namespace PaminMemory
namespace Foundation

variable {κ β : Type}

structure Remembers (ask : κ -> β) (memo : List (κ × β)) : Prop where
  asked : forall entry, entry ∈ memo -> entry.2 = ask entry.1
  once : (memo.map Prod.fst).Nodup

theorem remembers_nil (ask : κ -> β) : Remembers ask [] where
  asked := fun _ h => absurd h List.not_mem_nil
  once := List.nodup_nil

variable [DecidableEq κ]

/-- The answer to a question: the one there is, or the one now asked for and kept. -/
def remembered (ask : κ -> β) (memo : List (κ × β)) (question : κ) : β × List (κ × β) :=
  match memo.lookup question with
  | some answer => (answer, memo)
  | none => (ask question, memo ++ [(question, ask question)])

variable {ask : κ -> β} {memo : List (κ × β)} {question : κ}

theorem mem_of_lookup {answer : β} (h : memo.lookup question = some answer) :
    (question, answer) ∈ memo := by
  induction memo with
  | nil => cases h
  | cons entry rest ih =>
      rw [List.lookup_cons] at h
      cases hsame : question == entry.1 with
      | true =>
          rw [hsame] at h
          cases h
          rw [eq_of_beq hsame]
          exact List.mem_cons_self
      | false =>
          rw [hsame] at h
          exact List.mem_cons_of_mem _ (ih h)

theorem lookup_asked (ask : κ -> β) {questions : List κ} {answer : β}
    (h : (questions.map fun question => (question, ask question)).lookup question = some answer) :
    answer = ask question := by
  rcases List.mem_map.mp (mem_of_lookup h) with ⟨_, _, hsame⟩
  cases hsame
  rfl

theorem not_mem_keys_of_lookup (h : memo.lookup question = none) :
    question ∉ memo.map Prod.fst := by
  intro hmem
  rcases List.mem_map.mp hmem with ⟨entry, hentry, rfl⟩
  have hnot := List.lookup_eq_none_iff.mp h entry hentry
  rw [bne_self_eq_false] at hnot
  cases hnot

theorem remembered_answer (h : Remembers ask memo) :
    (remembered ask memo question).1 = ask question := by
  unfold remembered
  cases hlookup : memo.lookup question with
  | none => rfl
  | some answer => exact h.asked _ (mem_of_lookup hlookup)

theorem remembered_keeps (h : Remembers ask memo) :
    Remembers ask (remembered ask memo question).2 := by
  unfold remembered
  cases hlookup : memo.lookup question with
  | some answer => exact h
  | none =>
      constructor
      · intro entry hentry
        cases List.mem_append.mp hentry with
        | inl hold => exact h.asked entry hold
        | inr hnew =>
            rw [List.mem_singleton.mp hnew]
      · rw [List.map_append]
        apply List.Nodup.append h.once (List.nodup_singleton _)
        intro other hold hnew
        rw [List.mem_singleton.mp hnew] at hold
        exact not_mem_keys_of_lookup hlookup hold

end Foundation
end PaminMemory
