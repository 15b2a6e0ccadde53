import PaminMemory.Foundation.Fallible
import PaminMemory.Foundation.Leading
import PaminMemory.Foundation.Pool

/-!
# Passes side by side

An encoder runs each batch in a pass of its own: one after another on its session, or on a
shared session by several workers that take the longest first from one queue.  What the
workers found is put back in the caller's order.
-/

namespace PaminMemory
namespace Encoder

open Foundation

structure SideBySide where
  loaded : Bool
  budget : Nat
deriving DecidableEq, Repr

section Model

variable {encoding error α : Type}

/--
How many passes run at once, with the session they share loaded if it can be; one that
cannot be stops passes from running side by side.
-/
def ready (loads : Bool) (sideBySide : Option SideBySide) (batches : Nat) :
    Nat × Option SideBySide :=
  match sideBySide with
  | none => (1, none)
  | some side =>
      let wanted := min side.budget batches
      if wanted < 2 then
        (1, some side)
      else if side.loaded then
        (wanted, some side)
      else if loads then
        (wanted, some { side with loaded := true })
      else
        (1, none)

/-- The tokens a batch runs once padded: its members times the longest. -/
def paddedTokens (len : encoding -> Nat) (batch : List encoding) : Nat :=
  batch.length * (batch.map len).foldr max 0

abbrev Task (encoding : Type) := Nat × List encoding

def enumerate (batches : List (List encoding)) : List (Task encoding) :=
  batches.zipIdx.map Prod.swap

def longer (len : encoding -> Nat) (left right : Task encoding) : Prop :=
  paddedTokens len right.2 < paddedTokens len left.2 ∨
    paddedTokens len right.2 = paddedTokens len left.2 ∧ left.1 <= right.1

instance (len : encoding -> Nat) : DecidableRel (longer len) := by
  intro left right
  unfold longer
  infer_instance

def queue (len : encoding -> Nat) (batches : List (List encoding)) : List (Task encoding) :=
  (enumerate batches).insertionSort (longer len)

def inOrder {batch : Type} (pass : batch -> Except error α) : List batch -> Except error (List α)
  | [] => Except.ok []
  | first :: rest => do
      let value ← pass first
      let values ← inOrder pass rest
      Except.ok (value :: values)

def started {batch : Type} (pass : batch -> Except error α) : List batch -> List batch
  | [] => []
  | first :: rest =>
      match pass first with
      | Except.error _ => [first]
      | Except.ok _ => first :: started pass rest

def numbered (pass : List encoding -> Except error α) (task : Task encoding) :
    Nat × Except error α :=
  (task.1, pass task.2)

def putBack (done : List (Nat × Except error α)) : Except error (List α) :=
  inOrder id ((done.insertionSort fun left right => left.1 <= right.1).map Prod.snd)

def Scheduled (len : encoding -> Nat) (pass : List encoding -> Except error α) (workers : Nat)
    (batches : List (List encoding)) (turns : List Turn)
    (pool : Pool (Task encoding) (Nat × Except error α)) : Prop :=
  RunFrom (Pool.step (numbered pass)) (Pool.begun workers (queue len batches)) turns = some pool

/-- What a call may come to: the passes one after another, or those of some workers. -/
inductive RunEach (len : encoding -> Nat) (pass : List encoding -> Except error α) (loads : Bool)
    (sideBySide : Option SideBySide) (batches : List (List encoding)) :
    Except error (List α) -> Prop where
  | alone
      (h : ¬ (1 < (ready loads sideBySide batches.length).1 ∧
        (ready loads sideBySide batches.length).2.any SideBySide.loaded)) :
      RunEach len pass loads sideBySide batches (inOrder pass batches)
  | sideBySide {turns : List Turn} {pool : Pool (Task encoding) (Nat × Except error α)}
      (hworkers : 1 < (ready loads sideBySide batches.length).1)
      (hloaded : (ready loads sideBySide batches.length).2.any SideBySide.loaded)
      (hrun : Scheduled len pass (ready loads sideBySide batches.length).1 batches turns pool)
      (hover : pool.Over) :
      RunEach len pass loads sideBySide batches (putBack pool.results)

end Model

/-!
## Passes in order
-/

section InOrder

variable {batch error α β : Type} {pass : batch -> Except error α} {batches : List batch}

theorem inOrder_map (found : List (Except error α)) (h : found = batches.map pass) :
    inOrder id found = inOrder pass batches := by
  subst h
  induction batches with
  | nil => rfl
  | cons first rest ih =>
      rw [List.map_cons, inOrder, inOrder, ih]
      rfl

theorem inOrder_ok {values : List α} (h : inOrder pass batches = Except.ok values) :
    List.Forall₂ (fun batch value => pass batch = Except.ok value) batches values := by
  induction batches generalizing values with
  | nil =>
      cases h
      exact List.Forall₂.nil
  | cons first rest ih =>
      rcases bind_eq_ok.mp h with ⟨value, hvalue, hmore⟩
      rcases bind_eq_ok.mp hmore with ⟨more, hrest, hvalues⟩
      cases hvalues
      exact List.Forall₂.cons hvalue (ih hrest)

theorem inOrder_eq_map {made : batch -> α}
    (hmade : forall first value, pass first = Except.ok value -> value = made first)
    {values : List α} (h : inOrder pass batches = Except.ok values) :
    values = batches.map made := by
  have hall := inOrder_ok h
  clear h
  induction hall with
  | nil => rfl
  | cons hfirst _ ih => rw [List.map_cons, ← hmade _ _ hfirst, ← ih]

theorem started_of_ok {values : List α} (h : inOrder pass batches = Except.ok values) :
    started pass batches = batches := by
  induction batches generalizing values with
  | nil => rfl
  | cons first rest ih =>
      rcases bind_eq_ok.mp h with ⟨value, hvalue, hmore⟩
      rcases bind_eq_ok.mp hmore with ⟨more, hrest, _⟩
      rw [started, hvalue, ih hrest]

theorem inOrder_error {e : error} (h : inOrder pass batches = Except.error e) :
    exists before failed after, batches = before ++ failed :: after ∧
      pass failed = Except.error e ∧
      forall earlier, earlier ∈ before -> exists value, pass earlier = Except.ok value := by
  induction batches with
  | nil => cases h
  | cons first rest ih =>
      rw [inOrder] at h
      cases hfirst : pass first with
      | error other =>
          rw [hfirst] at h
          cases h
          exact ⟨[], first, rest, rfl, hfirst, fun _ hmem => nomatch hmem⟩
      | ok value =>
          rw [hfirst] at h
          cases hrest : inOrder pass rest with
          | ok values =>
              rw [hrest] at h
              cases h
          | error other =>
              rw [hrest] at h
              cases h
              rcases ih hrest with ⟨before, failed, after, hsplit, hfailed, hbefore⟩
              refine ⟨first :: before, failed, after, by rw [hsplit]; rfl, hfailed, ?_⟩
              intro earlier hearlier
              rcases List.mem_cons.mp hearlier with rfl | hlater
              · exact ⟨value, hfirst⟩
              · exact hbefore earlier hlater

end InOrder

/-!
## Passes put back
-/

section PutBack

variable {encoding error α : Type} {len : encoding -> Nat}
  {pass : List encoding -> Except error α} {batches : List (List encoding)}
  {done : List (Nat × Except error α)}

theorem enumerate_fst (batches : List (List encoding)) :
    (enumerate batches).map Prod.fst = List.range batches.length := by
  unfold enumerate
  rw [List.map_map]
  exact List.zipIdx_map_snd 0 batches |>.trans (List.range_eq_range' ..).symm

theorem numbered_fst (batches : List (List encoding)) :
    ((enumerate batches).map (numbered pass)).map Prod.fst = List.range batches.length := by
  rw [List.map_map]
  exact enumerate_fst batches

theorem numbered_snd (batches : List (List encoding)) :
    ((enumerate batches).map (numbered pass)).map Prod.snd = batches.map pass := by
  unfold enumerate
  rw [List.map_map, List.map_map]
  show batches.zipIdx.map (pass ∘ Prod.fst) = _
  rw [← List.map_map, List.zipIdx_map_fst]

theorem putBack_eq_inOrder (h : done.Perm ((enumerate batches).map (numbered pass))) :
    putBack done = inOrder pass batches := by
  have hplaces : (((enumerate batches).map (numbered pass)).map Prod.fst).Pairwise (· < ·) := by
    rw [numbered_fst]
    exact List.pairwise_lt_range
  have hinOrder := List.pairwise_map.mp hplaces
  have hsorted : done.insertionSort (fun left right => left.1 <= right.1) =
      (enumerate batches).map (numbered pass) := by
    rw [sorted_of_perm h]
    · apply List.Pairwise.insertionSort_eq
      exact hinOrder.imp fun hlt => Nat.le_of_lt hlt
    · intro one other hone hother hle hge
      apply List.inj_on_of_nodup_map (hplaces.imp fun hlt => Nat.ne_of_lt hlt) hone hother
      exact Nat.le_antisymm hle hge
  unfold putBack
  rw [hsorted]
  exact inOrder_map _ (numbered_snd batches)

theorem inv_scheduled {workers : Nat} {turns : List Turn}
    {pool : Pool (Task encoding) (Nat × Except error α)}
    (hrun : Scheduled len pass workers batches turns pool) :
    pool.Inv (numbered pass) workers (queue len batches) :=
  Pool.inv_turns (Pool.inv_begun workers _) hrun

theorem scheduled_perm {workers : Nat} {turns : List Turn}
    {pool : Pool (Task encoding) (Nat × Except error α)} (hworkers : 0 < workers)
    (hrun : Scheduled len pass workers batches turns pool) (hover : pool.Over) :
    pool.results.Perm ((enumerate batches).map (numbered pass)) :=
  (Pool.results_perm hworkers (inv_scheduled hrun) hover).trans
    ((List.perm_insertionSort _ _).map _)

theorem runEach_eq_inOrder {loads : Bool} {sideBySide : Option SideBySide}
    {found : Except error (List α)} (h : RunEach len pass loads sideBySide batches found) :
    found = inOrder pass batches := by
  cases h with
  | alone => rfl
  | sideBySide hworkers _ hrun hover =>
      exact putBack_eq_inOrder (scheduled_perm (Nat.lt_of_succ_lt hworkers) hrun hover)

theorem exists_runEach (loads : Bool) (sideBySide : Option SideBySide) :
    exists found, RunEach len pass loads sideBySide batches found := by
  by_cases h : 1 < (ready loads sideBySide batches.length).1 ∧
      (ready loads sideBySide batches.length).2.any SideBySide.loaded
  · have hbegun : (Pool.begun (ready loads sideBySide batches.length).1
        (queue len batches)).Inv (numbered pass) _ _ := Pool.inv_begun _ _
    rcases Pool.exists_over hbegun with ⟨turns, pool, hrun, hover⟩
    exact ⟨putBack pool.results, RunEach.sideBySide h.1 h.2 hrun hover⟩
  · exact ⟨inOrder pass batches, RunEach.alone h⟩

end PutBack

/-!
## A call
-/

section Calls

variable {encoding error α : Type}

/-- Whoever runs the passes, they come to what passes in turn come to. -/
structure AsInOrder (len : encoding -> Nat) (pass : List encoding -> Except error α)
    (batches : List (List encoding)) : Prop where
  /-- A call returns, however its session is. -/
  returns : forall loads sideBySide, exists found, RunEach len pass loads sideBySide batches found
  result : forall loads sideBySide found, RunEach len pass loads sideBySide batches found ->
    found = inOrder pass batches
  /-- Every turn brings the workers nearer to their return. -/
  ends : forall workers turns pool, Scheduled len pass workers batches turns pool ->
    turns.length + pool.turnsLeft = workers + 2 * batches.length
  goes : forall workers turns pool, Scheduled len pass workers batches turns pool ->
    ¬ pool.Over -> exists turn, (pool.step (numbered pass) turn).isSome
  /-- Side by side every batch is run once, whatever fails. -/
  once : forall workers turns pool, 0 < workers ->
    Scheduled len pass workers batches turns pool -> pool.Over ->
      (pool.results.map Prod.fst).Perm (List.range batches.length)
  /-- However many workers there are, what they found is put back in order. -/
  inPlace : forall workers turns pool, 0 < workers ->
    Scheduled len pass workers batches turns pool -> pool.Over ->
      putBack pool.results = inOrder pass batches
  /-- One after another every batch is run once, if none fails. -/
  alone : forall values, inOrder pass batches = Except.ok values -> started pass batches = batches
  values : forall values, inOrder pass batches = Except.ok values ->
    List.Forall₂ (fun batch value => pass batch = Except.ok value) batches values
  /-- The error is that of the first batch that fails. -/
  error : forall e, inOrder pass batches = Except.error e ->
    exists before failed after, batches = before ++ failed :: after ∧
      pass failed = Except.error e ∧
      forall earlier, earlier ∈ before -> exists value, pass earlier = Except.ok value

theorem runEach_asInOrder (len : encoding -> Nat) (pass : List encoding -> Except error α)
    (batches : List (List encoding)) : AsInOrder len pass batches where
  returns := exists_runEach
  result := fun _ _ _ => runEach_eq_inOrder
  ends := by
    intro workers turns pool hrun
    have hturns := Pool.turnsLeft_turns (Pool.inv_begun workers _) hrun
    have htasks : (queue len batches).length = batches.length := by
      unfold queue enumerate
      rw [List.length_insertionSort, List.length_map, List.length_zipIdx]
    rw [Pool.turnsLeft_begun, htasks] at hturns
    rw [hturns, Nat.add_comm]
  goes := fun _ _ _ hrun hover => Pool.exists_turn (inv_scheduled hrun) hover
  once := by
    intro workers turns pool hworkers hrun hover
    have hperm := (scheduled_perm hworkers hrun hover).map Prod.fst
    rw [numbered_fst] at hperm
    exact hperm
  inPlace := fun _ _ _ hworkers hrun hover =>
    putBack_eq_inOrder (scheduled_perm hworkers hrun hover)
  alone := fun _ => started_of_ok
  values := fun _ => inOrder_ok
  error := fun _ => inOrder_error

end Calls

end Encoder
end PaminMemory
