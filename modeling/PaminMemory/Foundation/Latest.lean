import Mathlib.Data.List.Induction
import Mathlib.Data.Option.Basic

/-!
# Who held a key last

A state says who holds a key, if anyone does.  Over a run of steps the last to have held it is
found by an answer that every step keeps, unless the key is held after the step.
-/

namespace PaminMemory
namespace Foundation

section Latest

variable {state action key holder : Type _}

/-- After some of the actions the holder held the key, and after more of them nobody did. -/
def Latest (step : state -> action -> state) (holds : state -> key -> Option holder)
    (start : state) (actions : List action) (k : key) (h : holder) : Prop :=
  exists made, made <= actions.length ∧
    holds ((actions.take made).foldl step start) k = some h ∧
      forall more, made < more -> more <= actions.length ->
        holds ((actions.take more).foldl step start) k = none

variable {step : state -> action -> state} {holds answer : state -> key -> Option holder}
  {start : state} {actions : List action} {k : key} {h : holder}

theorem latest_nil : Latest step holds start [] k h <-> holds start k = some h := by
  constructor
  · intro hlatest
    rcases hlatest with ⟨made, _, hheld, _⟩
    rw [List.take_nil] at hheld
    exact hheld
  · intro hheld
    refine ⟨0, Nat.le_refl 0, hheld, ?_⟩
    intro more hmore hle
    exact absurd (Nat.lt_of_lt_of_le hmore hle) (Nat.lt_irrefl 0)

theorem latest_concat (a : action) :
    Latest step holds start (actions ++ [a]) k h <->
      holds ((actions ++ [a]).foldl step start) k = some h ∨
        (holds ((actions ++ [a]).foldl step start) k = none ∧
          Latest step holds start actions k h) := by
  have hlength : (actions ++ [a]).length = actions.length + 1 := by simp
  have hearlier : forall made, made <= actions.length ->
      (actions ++ [a]).take made = actions.take made := by
    intro made hle
    exact List.take_append_of_le_length hle
  have hwhole : (actions ++ [a]).take (actions.length + 1) = actions ++ [a] := by
    rw [← hlength, List.take_length]
  constructor
  · intro hlatest
    rcases hlatest with ⟨made, hmade, hheld, hafter⟩
    rw [hlength] at hmade hafter
    rcases Nat.lt_or_ge actions.length made with hlast | hbefore
    · rw [show made = actions.length + 1 from Nat.le_antisymm hmade hlast, hwhole] at hheld
      exact Or.inl hheld
    · right
      constructor
      · have hnone := hafter (actions.length + 1) (Nat.lt_succ_of_le hbefore) (Nat.le_refl _)
        rw [hwhole] at hnone
        exact hnone
      · rw [hearlier made hbefore] at hheld
        refine ⟨made, hbefore, hheld, ?_⟩
        intro more hmore hle
        rw [← hearlier more hle]
        exact hafter more hmore (Nat.le_succ_of_le hle)
  · intro hlatest
    rcases hlatest with hnow | ⟨hnone, made, hmade, hheld, hafter⟩
    · refine ⟨actions.length + 1, Nat.le_of_eq hlength.symm, ?_, ?_⟩
      · rw [hwhole]
        exact hnow
      · intro more hmore hle
        rw [hlength] at hle
        exact absurd (Nat.lt_of_lt_of_le hmore hle) (Nat.lt_irrefl _)
    · refine ⟨made, hlength ▸ Nat.le_succ_of_le hmade, ?_, ?_⟩
      · rw [hearlier made hmade]
        exact hheld
      · intro more hmore hle
        rw [hlength] at hle
        rcases Nat.lt_or_ge actions.length more with hlast | hbefore
        · rw [show more = actions.length + 1 from Nat.le_antisymm hle hlast, hwhole]
          exact hnone
        · rw [hearlier more hbefore]
          exact hafter more hmore hbefore

theorem inv_foldl {Inv : state -> Prop} (hstart : Inv start)
    (hstep : forall s a, Inv s -> Inv (step s a)) (actions : List action) :
    Inv (actions.foldl step start) := by
  induction actions using List.reverseRecOn with
  | nil => exact hstart
  | append_singleton rest a ih =>
      rw [List.foldl_append]
      exact hstep _ a ih

/-- An answer that is the holder at first, and after every step the holder if there is one and
what it was if there is none, is the last holder. -/
theorem answer_iff_latest {Inv : state -> Prop} (hinv : Inv start)
    (hpreserved : forall s a, Inv s -> Inv (step s a))
    (hstart : answer start k = holds start k)
    (hstep : forall s a, Inv s -> answer (step s a) k = (holds (step s a) k).or (answer s k))
    (actions : List action) :
    answer (actions.foldl step start) k = some h <-> Latest step holds start actions k h := by
  induction actions using List.reverseRecOn with
  | nil =>
      rw [latest_nil, List.foldl_nil, hstart]
  | append_singleton rest a ih =>
      rw [latest_concat, ← ih, List.foldl_append, List.foldl_cons, List.foldl_nil,
        hstep _ a (inv_foldl hinv hpreserved rest), Option.or_eq_some_iff]

end Latest

end Foundation
end PaminMemory
