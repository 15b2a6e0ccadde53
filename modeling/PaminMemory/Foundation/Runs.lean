import Mathlib.Data.List.Basic

/-!
# Runs of a guarded step function

A system is given by a step function that refuses an action a state does not
allow.  A run folds the function over a list of actions, so one interleaving of
any number of parties is one list.  The lemmas here carry a fact about one step
to every state a run reaches.
-/

namespace PaminMemory
namespace Foundation

/-- Performs the actions in order, stopping at the first one refused. -/
def RunFrom (step : state -> action -> Option state) :
    state -> List action -> Option state
  | s, [] => some s
  | s, a :: rest =>
      match step s a with
      | none => none
      | some t => RunFrom step t rest

/-- Every action of the run satisfies `Holds` in the state it is taken in. -/
def Along (step : state -> action -> Option state)
    (Holds : state -> action -> Prop) : state -> List action -> Prop
  | _, [] => True
  | s, a :: rest =>
      Holds s a ∧ forall t, step s a = some t -> Along step Holds t rest

instance decidableAlong {step : state -> action -> Option state}
    {Holds : state -> action -> Prop} [forall s a, Decidable (Holds s a)] :
    forall s actions, Decidable (Along step Holds s actions)
  | _, [] => isTrue True.intro
  | s, a :: rest =>
      match hstep : step s a with
      | none => decidable_of_iff (Holds s a) (by simp [Along, hstep])
      | some t =>
          have : Decidable (Along step Holds t rest) := decidableAlong t rest
          decidable_of_iff (Holds s a ∧ Along step Holds t rest) (by simp [Along, hstep])

def PreservedWhen (step : state -> action -> Option state)
    (Allowed : state -> action -> Prop) (Inv : state -> Prop) : Prop :=
  forall s a t, Inv s -> Allowed s a -> step s a = some t -> Inv t

def Preserved (step : state -> action -> Option state) (Inv : state -> Prop) : Prop :=
  forall s a t, Inv s -> step s a = some t -> Inv t

section Runs

variable {state action : Type _} {step : state -> action -> Option state}

@[simp] theorem runFrom_nil (s : state) : RunFrom step s [] = some s := rfl

theorem runFrom_cons (s : state) (a : action) (rest : List action) :
    RunFrom step s (a :: rest) =
      match step s a with
      | none => none
      | some t => RunFrom step t rest := rfl

theorem runFrom_cons_some {s u : state} {a : action} {rest : List action} :
    RunFrom step s (a :: rest) = some u <->
      exists t, step s a = some t ∧ RunFrom step t rest = some u := by
  rw [runFrom_cons]
  cases hstep : step s a with
  | none => simp
  | some t => simp

theorem runFrom_append_some {s u : state} {first second : List action} :
    RunFrom step s (first ++ second) = some u <->
      exists t, RunFrom step s first = some t ∧ RunFrom step t second = some u := by
  induction first generalizing s with
  | nil => simp
  | cons a rest ih =>
      rw [List.cons_append, runFrom_cons_some]
      constructor
      · rintro ⟨t, hstep, hrun⟩
        rcases ih.mp hrun with ⟨v, hfirst, hsecond⟩
        exact ⟨v, runFrom_cons_some.mpr ⟨t, hstep, hfirst⟩, hsecond⟩
      · rintro ⟨v, hfirst, hsecond⟩
        rcases runFrom_cons_some.mp hfirst with ⟨t, hstep, hrest⟩
        exact ⟨t, hstep, ih.mpr ⟨v, hrest, hsecond⟩⟩

theorem along_cons {Holds : state -> action -> Prop} {s t : state} {a : action}
    {rest : List action} (h : Along step Holds s (a :: rest))
    (hstep : step s a = some t) : Holds s a ∧ Along step Holds t rest :=
  ⟨h.1, h.2 t hstep⟩

theorem along_append {Holds : state -> action -> Prop} {s t : state}
    {first second : List action} (h : Along step Holds s (first ++ second))
    (hrun : RunFrom step s first = some t) : Along step Holds t second := by
  induction first generalizing s with
  | nil =>
      cases hrun
      exact h
  | cons a rest ih =>
      rcases runFrom_cons_some.mp hrun with ⟨u, hstep, hrest⟩
      exact ih (along_cons h hstep).2 hrest

theorem along_of_append {Holds : state -> action -> Prop} {s : state}
    {first second : List action} (h : Along step Holds s (first ++ second)) :
    Along step Holds s first := by
  induction first generalizing s with
  | nil => exact True.intro
  | cons a rest ih => exact ⟨h.1, fun t hstep => ih (h.2 t hstep)⟩

theorem along_mono {Holds Holds' : state -> action -> Prop}
    (himp : forall s a, Holds s a -> Holds' s a) {s : state} {actions : List action}
    (h : Along step Holds s actions) : Along step Holds' s actions := by
  induction actions generalizing s with
  | nil => exact True.intro
  | cons a rest ih => exact ⟨himp s a h.1, fun t hstep => ih (h.2 t hstep)⟩

theorem along_always (s : state) (actions : List action) :
    Along step (fun _ _ => True) s actions := by
  induction actions generalizing s with
  | nil => exact True.intro
  | cons a rest ih => exact ⟨True.intro, fun t _ => ih t⟩

theorem along_congr {Holds Holds' : state -> action -> Prop}
    (hiff : forall s a, Holds s a <-> Holds' s a) (s : state) (actions : List action) :
    Along step Holds s actions <-> Along step Holds' s actions :=
  ⟨along_mono fun s a => (hiff s a).mp, along_mono fun s a => (hiff s a).mpr⟩

theorem along_and {Holds Holds' : state -> action -> Prop} {s : state}
    {actions : List action} :
    Along step (fun s a => Holds s a ∧ Holds' s a) s actions <->
      Along step Holds s actions ∧ Along step Holds' s actions := by
  constructor
  · intro h
    exact ⟨along_mono (fun _ _ => And.left) h, along_mono (fun _ _ => And.right) h⟩
  · intro h
    induction actions generalizing s with
    | nil => exact True.intro
    | cons a rest ih =>
        exact ⟨⟨h.1.1, h.2.1⟩, fun t hstep => ih ⟨h.1.2 t hstep, h.2.2 t hstep⟩⟩

/-!
## The induction on a run
-/

theorem runFrom_preservedWhen {Allowed : state -> action -> Prop} {Inv : state -> Prop}
    (hkeep : PreservedWhen step Allowed Inv) {s t : state} {actions : List action}
    (hinv : Inv s) (hallowed : Along step Allowed s actions)
    (hrun : RunFrom step s actions = some t) : Inv t := by
  induction actions generalizing s with
  | nil =>
      cases hrun
      exact hinv
  | cons a rest ih =>
      rcases runFrom_cons_some.mp hrun with ⟨u, hstep, hrest⟩
      rcases along_cons hallowed hstep with ⟨hhere, hlater⟩
      exact ih (hkeep s a u hinv hhere hstep) hlater hrest

theorem runFrom_preserved {Inv : state -> Prop} (hkeep : Preserved step Inv)
    {s t : state} {actions : List action} (hinv : Inv s)
    (hrun : RunFrom step s actions = some t) : Inv t := by
  induction actions generalizing s with
  | nil =>
      cases hrun
      exact hinv
  | cons a rest ih =>
      rcases runFrom_cons_some.mp hrun with ⟨u, hstep, hrest⟩
      exact ih (hkeep s a u hinv hstep) hrest

/--
Two properties of a step that agree wherever the invariant holds agree along
every run of allowed actions that starts inside the invariant.
-/
theorem along_iff_of_preservedWhen {Allowed : state -> action -> Prop} {Inv : state -> Prop}
    (hkeep : PreservedWhen step Allowed Inv) {Holds Holds' : state -> action -> Prop}
    (hiff : forall s a, Inv s -> (Holds s a <-> Holds' s a))
    {s : state} (hinv : Inv s) {actions : List action}
    (hallowed : Along step Allowed s actions) :
    Along step Holds s actions <-> Along step Holds' s actions := by
  induction actions generalizing s with
  | nil => exact Iff.rfl
  | cons a rest ih =>
      have hlater := fun t hstep =>
        ih (hkeep s a t hinv hallowed.1 hstep) (hallowed.2 t hstep)
      constructor
      · intro h
        exact ⟨(hiff s a hinv).mp h.1, fun t hstep => (hlater t hstep).mp (h.2 t hstep)⟩
      · intro h
        exact ⟨(hiff s a hinv).mpr h.1, fun t hstep => (hlater t hstep).mpr (h.2 t hstep)⟩

theorem along_of_preservedWhen {Allowed Holds : state -> action -> Prop} {Inv : state -> Prop}
    (hkeep : PreservedWhen step Allowed Inv)
    (himp : forall s a, Inv s -> Allowed s a -> Holds s a) {s : state} (hinv : Inv s)
    {actions : List action} (hallowed : Along step Allowed s actions) :
    Along step Holds s actions := by
  induction actions generalizing s with
  | nil => exact True.intro
  | cons a rest ih =>
      refine ⟨himp s a hinv hallowed.1, ?_⟩
      intro t hstep
      exact ih (hkeep s a t hinv hallowed.1 hstep) (hallowed.2 t hstep)

theorem along_iff_of_preserved {Inv : state -> Prop} (hkeep : Preserved step Inv)
    {Holds Holds' : state -> action -> Prop}
    (hiff : forall s a, Inv s -> (Holds s a <-> Holds' s a))
    {s : state} (hinv : Inv s) (actions : List action) :
    Along step Holds s actions <-> Along step Holds' s actions :=
  along_iff_of_preservedWhen (fun s a t hinv _ => hkeep s a t hinv) hiff hinv (along_always s actions)

theorem along_iff_split {Holds : state -> action -> Prop} {s : state}
    {actions : List action} :
    Along step Holds s actions <->
      forall before a after t, actions = before ++ a :: after ->
        RunFrom step s before = some t -> Holds t a := by
  induction actions generalizing s with
  | nil => simp [Along]
  | cons first rest ih =>
      constructor
      · rintro ⟨hhere, hlater⟩ before a after t hactions hrun
        cases before with
        | nil =>
            cases hactions
            cases hrun
            exact hhere
        | cons head before =>
            cases hactions
            rcases runFrom_cons_some.mp hrun with ⟨u, hstep, hbefore⟩
            exact ih.mp (hlater u hstep) before a after t rfl hbefore
      · intro h
        refine ⟨h [] first rest s rfl rfl, ?_⟩
        intro u hstep
        apply ih.mpr
        intro before a after t hactions hrun
        exact h (first :: before) a after t (by rw [hactions, List.cons_append])
          (runFrom_cons_some.mpr ⟨u, hstep, hrun⟩)

end Runs

/-!
## Places in a history

A history only grows at its end, so a place in a longer history is a place in
the old one or in what was appended.
-/

section History

variable {event : Type _} {history new before after before' after' : List event} {e e' : event}

theorem append_eq_split (h : history ++ new = before ++ e :: after) :
    (exists mid, history = before ++ e :: mid ∧ after = mid ++ new) ∨
      exists mid, new = mid ++ e :: after ∧ before = history ++ mid := by
  rcases List.append_eq_append_iff.mp h with ⟨mid, hbefore, hnew⟩ | ⟨mid, hhistory, hrest⟩
  · exact Or.inr ⟨mid, hnew, hbefore⟩
  · cases mid with
    | nil => exact Or.inr ⟨[], by simpa using hrest.symm, by simpa using hhistory.symm⟩
    | cons head mid =>
        rw [List.cons_append, List.cons.injEq] at hrest
        rcases hrest with ⟨rfl, hafter⟩
        exact Or.inl ⟨mid, hhistory, hafter⟩

theorem split_of_not_after (h : before ++ e :: after = before' ++ e' :: after')
    (hne : e ≠ e') (hnot : e ∉ after') : exists mid, after = mid ++ e' :: after' := by
  rcases append_eq_split h with ⟨mid, _, hafter⟩ | ⟨mid, hrest, _⟩
  · exact absurd (by simp [hafter]) hnot
  · cases mid with
    | nil => exact absurd (List.cons.inj hrest).1 hne
    | cons head mid => exact ⟨mid, (List.cons.inj hrest).2⟩

end History

end Foundation
end PaminMemory
