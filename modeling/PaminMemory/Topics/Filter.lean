import Mathlib.Data.List.Basic

/-!
# The sensory filter

Which content reaches the retrieval surface, judged against what its topic says now.
-/

namespace PaminMemory
namespace Topics

inductive Rejection where
  | empty
  | tooShort
  | restatement
deriving DecidableEq, Repr

def isWhitespace (c : Char) : Bool :=
  let code := c.toNat
  (9 <= code && code <= 13) || code = 32 || code = 133 || code = 160 || code = 5760 ||
    (8192 <= code && code <= 8202) || code = 8232 || code = 8233 || code = 8239 ||
    code = 8287 || code = 12288

def normalize (content : String) : String :=
  let words := (content.toList.splitOnP isWhitespace).filter fun word => word ≠ []
  String.ofList ([' '].intercalate words)

def MIN_CHARS : Nat := 8

/-- The filter's verdict on content: why it is held, or `none` when it is promoted. -/
def judge (content : String) (current : Option String) : Option Rejection :=
  let normalized := normalize content
  if normalized = "" then
    some Rejection.empty
  else if normalized.toList.length < MIN_CHARS then
    some Rejection.tooShort
  else if current.map normalize = some normalized then
    some Rejection.restatement
  else
    none

def Worthless (content : String) : Prop :=
  judge content none ≠ none

instance (content : String) : Decidable (Worthless content) := by
  unfold Worthless
  infer_instance

def Restates (first second : String) : Prop :=
  normalize first = normalize second

instance (first second : String) : Decidable (Restates first second) := by
  unfold Restates
  infer_instance

theorem judge_of_worthless {content : String} (h : Worthless content)
    (current : Option String) : judge content current = judge content none := by
  unfold Worthless judge at h
  unfold judge
  by_cases hempty : normalize content = ""
  · simp [hempty]
  · by_cases hshort : (normalize content).toList.length < MIN_CHARS
    · simp [hempty, hshort]
    · simp [hempty, hshort] at h

theorem worthless_ne_restatement {content : String} (h : Worthless content)
    (current : Option String) : judge content current ≠ some Rejection.restatement := by
  rw [judge_of_worthless h]
  unfold judge
  by_cases hempty : normalize content = ""
  · simp [hempty]
  · by_cases hshort : (normalize content).toList.length < MIN_CHARS
    · simp [hempty, hshort]
    · simp [hempty, hshort]

theorem judge_of_worthy {content : String} (h : ¬Worthless content) (current : Option String) :
    judge content current =
      if current.map normalize = some (normalize content) then
        some Rejection.restatement
      else
        none := by
  unfold Worthless judge at h
  unfold judge
  by_cases hempty : normalize content = ""
  · simp [hempty] at h
  · by_cases hshort : (normalize content).toList.length < MIN_CHARS
    · simp [hempty, hshort] at h
    · simp [hempty, hshort]

theorem restates_of_judge {content said : String}
    (h : judge content (some said) = some Rejection.restatement) : Restates said content := by
  by_cases hworthless : Worthless content
  · exact absurd h (worthless_ne_restatement hworthless _)
  · rw [judge_of_worthy hworthless] at h
    simpa [Restates] using h

theorem not_restates_of_judge {content said : String} (h : judge content (some said) = none) :
    ¬Restates said content := by
  intro hrestates
  by_cases hworthless : Worthless content
  · rw [judge_of_worthless hworthless] at h
    exact hworthless h
  · rw [judge_of_worthy hworthless] at h
    unfold Restates at hrestates
    simp [hrestates] at h

theorem says_of_restatement {content : String} {current : Option String}
    (h : judge content current = some Rejection.restatement) :
    exists said, current = some said ∧ Restates said content := by
  cases current with
  | some said => exact ⟨said, rfl, restates_of_judge h⟩
  | none =>
      by_cases hworthless : Worthless content
      · exact absurd h (worthless_ne_restatement hworthless none)
      · rw [judge_of_worthy hworthless] at h
        cases h

end Topics
end PaminMemory
