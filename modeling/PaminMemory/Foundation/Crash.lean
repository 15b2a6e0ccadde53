import Mathlib.Logic.Basic

/-!
# Programs that fail or die

A program changes a state and returns, fails, or ends with its process.  What is said of it
has three parts: of the state it returns in, of the one it fails in and of the one it dies in.
-/

namespace PaminMemory
namespace Foundation

inductive Ending (α : Type _) where
  | returned (value : α)
  | failed
  | died

def Ending.stopped {α : Type _} (dies : Bool) : Ending α :=
  if dies then Ending.died else Ending.failed

def Crash (state α : Type _) := state -> Ending α × state

namespace Crash

variable {state : Type _} {α β : Type _}

def bind (first : Crash state α) (next : α -> Crash state β) : Crash state β :=
  fun s =>
    match first s with
    | (Ending.returned value, t) => next value t
    | (Ending.failed, t) => (Ending.failed, t)
    | (Ending.died, t) => (Ending.died, t)

instance : Monad (Crash state) where
  pure value := fun s => (Ending.returned value, s)
  bind := bind

def fail : Crash state α := fun s => (Ending.failed, s)

def attempt (m : Crash state α) : Crash state Bool :=
  fun s =>
    match m s with
    | (Ending.returned _, t) => (Ending.returned true, t)
    | (Ending.failed, t) => (Ending.returned false, t)
    | (Ending.died, t) => (Ending.died, t)

/-!
## Programs one after another
-/

section Runs

variable {m : Crash state α} {next : α -> Crash state β} {s t : state}

theorem bind_returned {value : α} (h : m s = (Ending.returned value, t)) :
    (m >>= next) s = next value t := by
  change bind m next s = next value t
  unfold bind
  rw [h]

theorem bind_stopped {dies : Bool} (h : m s = (Ending.stopped dies, t)) :
    (m >>= next) s = (Ending.stopped dies, t) := by
  change bind m next s = (Ending.stopped dies, t)
  unfold bind
  rw [h]
  cases dies with
  | false => rfl
  | true => rfl

theorem bind_assoc {γ : Type _} (m : Crash state α) (next : α -> Crash state β)
    (last : β -> Crash state γ) :
    m >>= next >>= last = m >>= fun value => next value >>= last := by
  funext s
  change bind (bind m next) last s = bind m (fun value => bind (next value) last) s
  unfold bind
  cases m s with
  | mk ending t => cases ending <;> rfl

theorem bind_eq_returned {value : β} : (m >>= next) s = (Ending.returned value, t) <->
    exists first between, m s = (Ending.returned first, between) ∧
      next first between = (Ending.returned value, t) := by
  constructor
  · intro h
    change bind m next s = (Ending.returned value, t) at h
    unfold bind at h
    cases hrun : m s with
    | mk ending between =>
        rw [hrun] at h
        cases ending with
        | returned first => exact ⟨first, between, rfl, h⟩
        | failed => cases h
        | died => cases h
  · rintro ⟨first, between, hfirst, hnext⟩
    rw [bind_returned hfirst]
    exact hnext

theorem attempt_returned {value : α} (h : m s = (Ending.returned value, t)) :
    m.attempt s = (Ending.returned true, t) := by
  unfold attempt
  rw [h]

theorem attempt_failed (h : m s = (Ending.failed, t)) :
    m.attempt s = (Ending.returned false, t) := by
  unfold attempt
  rw [h]

theorem attempt_died (h : m s = (Ending.died, t)) : m.attempt s = (Ending.died, t) := by
  unfold attempt
  rw [h]

end Runs

/-!
## Rules

A condition on how a program ends is shown of its parts in order.
-/

def Ensures (before : state -> Prop) (m : Crash state α) (returns : α -> state -> Prop)
    (fails dies : state -> Prop) : Prop :=
  forall s, before s ->
    match m s with
    | (Ending.returned value, t) => returns value t
    | (Ending.failed, t) => fails t
    | (Ending.died, t) => dies t

section Rules

variable {before : state -> Prop} {fails dies : state -> Prop}

theorem ensures_pure {returns : α -> state -> Prop} (value : α)
    (h : forall s, before s -> returns value s) :
    Ensures before (pure value) returns fails dies :=
  h

theorem ensures_fail {returns : α -> state -> Prop} (h : forall s, before s -> fails s) :
    Ensures before fail returns fails dies :=
  h

theorem ensures_given {fact : Prop} {returns : α -> state -> Prop} {m : Crash state α}
    (h : fact -> Ensures before m returns fails dies) :
    Ensures (fun s => before s ∧ fact) m returns fails dies :=
  fun s hs => h hs.2 s hs.1

theorem ensures_bind {between : α -> state -> Prop} {returns : β -> state -> Prop}
    {first : Crash state α} {next : α -> Crash state β}
    (hfirst : Ensures before first between fails dies)
    (hnext : forall value, Ensures (between value) (next value) returns fails dies) :
    Ensures before (first >>= next) returns fails dies := by
  intro s hbefore
  have hhere := hfirst s hbefore
  change match bind first next s with
    | (Ending.returned value, t) => returns value t
    | (Ending.failed, t) => fails t
    | (Ending.died, t) => dies t
  unfold bind
  cases hrun : first s with
  | mk ending t =>
      rw [hrun] at hhere
      cases ending with
      | returned value => exact hnext value t hhere
      | failed => exact hhere
      | died => exact hhere

theorem ensures_attempt {returns : α -> state -> Prop} {after : Bool -> state -> Prop}
    {m : Crash state α} (h : Ensures before m returns (after false) dies)
    (hreturns : forall value s, returns value s -> after true s) :
    Ensures before m.attempt after fails dies := by
  intro s hbefore
  have hhere := h s hbefore
  unfold attempt
  cases hrun : m s with
  | mk ending t =>
      rw [hrun] at hhere
      cases ending with
      | returned value => exact hreturns value t hhere
      | failed => exact hhere
      | died => exact hhere

theorem ensures_state {P : state -> Prop} {m : Crash state α}
    (h : Ensures before m (fun _ => P) P P) {s : state} (hbefore : before s) : P (m s).2 := by
  have hhere := h s hbefore
  cases hrun : m s with
  | mk ending t =>
      rw [hrun] at hhere
      cases ending with
      | returned value => exact hhere
      | failed => exact hhere
      | died => exact hhere

theorem ensures_of_state {P : state -> Prop} {m : Crash state α}
    (h : forall s, before s -> P (m s).2) : Ensures before m (fun _ => P) P P := by
  intro s hbefore
  have hhere := h s hbefore
  cases hrun : m s with
  | mk ending t =>
      rw [hrun] at hhere
      cases ending with
      | returned value => exact hhere
      | failed => exact hhere
      | died => exact hhere

theorem ensures_returned {returns : α -> state -> Prop} {m : Crash state α}
    (h : Ensures before m returns fails dies) {s t : state} {value : α} (hbefore : before s)
    (hrun : m s = (Ending.returned value, t)) : returns value t := by
  have hhere := h s hbefore
  rw [hrun] at hhere
  exact hhere

theorem ensures_mono {before' : state -> Prop} {returns returns' : α -> state -> Prop}
    {fails' dies' : state -> Prop} {m : Crash state α}
    (h : Ensures before m returns fails dies) (hbefore : forall s, before' s -> before s)
    (hreturns : forall value s, returns value s -> returns' value s)
    (hfails : forall s, fails s -> fails' s) (hdies : forall s, dies s -> dies' s) :
    Ensures before' m returns' fails' dies' := by
  intro s hs
  have hhere := h s (hbefore s hs)
  cases hrun : m s with
  | mk ending t =>
      rw [hrun] at hhere
      cases ending with
      | returned value => exact hreturns value t hhere
      | failed => exact hfails t hhere
      | died => exact hdies t hhere

end Rules

end Crash

end Foundation
end PaminMemory
