import Mathlib.Algebra.GroupWithZero.Nat
import PaminMemory.Foundation.Parties
import PaminMemory.Foundation.Runs

/-!
# Workers on one queue

Some workers take tasks from one queue, each the next when it is done with the last, and return
when the queue is empty.  What each found is in the order it came to it.
-/

namespace PaminMemory
namespace Foundation

structure Worker (task result : Type _) where
  running : Option task
  done : List result
  returned : Bool
deriving DecidableEq, Repr

structure Pool (task result : Type _) where
  pending : List task
  workers : List (Nat × Worker task result)
deriving DecidableEq, Repr

/-- A worker looks for its next task, or is done with the one it has. -/
inductive Turn where
  | take (id : Nat)
  | finish (id : Nat)
deriving DecidableEq, Repr

namespace Pool

variable {task result : Type _}

def idle : Worker task result :=
  { running := none, done := [], returned := false }

def begun (workers : Nat) (tasks : List task) : Pool task result where
  pending := tasks
  workers := (List.range workers).map fun id => (id, idle)

def take (pool : Pool task result) (id : Nat) : Option (Pool task result) :=
  match partyOf pool.workers id with
  | some { running := none, done, returned := false } =>
      match pool.pending with
      | [] =>
          some
            { pending := []
              workers := setParty id { running := none, done, returned := true } pool.workers }
      | task :: rest =>
          some
            { pending := rest
              workers :=
                setParty id { running := some task, done, returned := false } pool.workers }
  | _ => none

section Steps

variable (work : task -> result)

def finish (pool : Pool task result) (id : Nat) : Option (Pool task result) :=
  match partyOf pool.workers id with
  | some { running := some task, done, returned } =>
      some
        { pool with
          workers :=
            setParty id { running := none, done := done ++ [work task], returned }
              pool.workers }
  | _ => none

def step (pool : Pool task result) : Turn -> Option (Pool task result)
  | Turn.take id => pool.take id
  | Turn.finish id => pool.finish work id

def Over (pool : Pool task result) : Prop :=
  forall entry, entry ∈ pool.workers -> entry.2.returned = true

instance : DecidablePred (Over : Pool task result -> Prop) := by
  intro pool
  unfold Over
  infer_instance

/-!
## What comes of the turns
-/

def results (pool : Pool task result) : List result :=
  pool.workers.flatMap fun entry => entry.2.done

def found (worker : Worker task result) : List result :=
  worker.done ++ (worker.running.map work).toList

def outcome (pool : Pool task result) : List result :=
  pool.workers.flatMap (fun entry => found work entry.2) ++ pool.pending.map work

def turnsOf (worker : Worker task result) : Nat :=
  worker.running.toList.length + (if worker.returned then 0 else 1)

def turnsLeft (pool : Pool task result) : Nat :=
  (pool.workers.map fun entry => turnsOf entry.2).sum + 2 * pool.pending.length

/-!
## What every turn keeps
-/

structure Inv (workers : Nat) (tasks : List task) (pool : Pool task result) : Prop where
  ids : pool.workers.map Prod.fst = List.range workers
  /-- A worker that returned has no task, and left none. -/
  returned : forall entry, entry ∈ pool.workers -> entry.2.returned = true ->
    entry.2.running = none ∧ pool.pending = []
  outcome : (pool.outcome work).Perm (tasks.map work)

end Steps

section Turns

variable {work : task -> result} {tasks : List task} {pool next : Pool task result} {turn : Turn}

theorem inv_begun (workers : Nat) (tasks : List task) :
    (begun workers tasks : Pool task result).Inv work workers tasks where
  ids := by
    show ((List.range workers).map fun id => (id, (idle : Worker task result))).map Prod.fst = _
    rw [List.map_map]
    exact List.map_id _
  returned := by
    intro entry hentry hreturned
    rcases List.mem_map.mp hentry with ⟨id, _, rfl⟩
    cases hreturned
  outcome := by
    have hnothing : (begun workers tasks : Pool task result).workers.flatMap
        (fun entry => found work entry.2) = [] := by
      rw [List.flatMap_eq_nil_iff]
      intro entry hentry
      rcases List.mem_map.mp hentry with ⟨id, _, rfl⟩
      rfl
    unfold outcome
    rw [hnothing]
    exact List.Perm.refl _

theorem turnsLeft_begun (workers : Nat) (tasks : List task) :
    (begun workers tasks : Pool task result).turnsLeft = workers + 2 * tasks.length := by
  show (((List.range workers).map fun id => (id, (idle : Worker task result))).map
    fun entry => turnsOf entry.2).sum + 2 * tasks.length = _
  rw [List.map_map]
  simp [turnsOf, idle, Function.comp_def]

theorem step_cases (hstep : pool.step work turn = some next) :
    exists id old new, partyOf pool.workers id = some old ∧
      next.workers = setParty id new pool.workers ∧
      ((pool.pending = [] ∧ next.pending = [] ∧ old.running = none ∧ old.returned = false ∧
          new = { old with returned := true }) ∨
        (exists task, pool.pending = task :: next.pending ∧ old.running = none ∧
          old.returned = false ∧ new = { old with running := some task }) ∨
        exists task, next.pending = pool.pending ∧ old.running = some task ∧
          new = { old with running := none, done := old.done ++ [work task] }) := by
  cases turn with
  | take id =>
      simp only [step, take] at hstep
      split at hstep
      · next done hworker =>
          split at hstep
          · next hpending =>
              cases hstep
              exact ⟨id, _, _, hworker, rfl, Or.inl ⟨hpending, rfl, rfl, rfl, rfl⟩⟩
          · next task rest hpending =>
              cases hstep
              exact ⟨id, _, _, hworker, rfl, Or.inr (Or.inl ⟨task, hpending, rfl, rfl, rfl⟩)⟩
      · cases hstep
  | finish id =>
      simp only [step, finish] at hstep
      split at hstep
      · next task done returned hworker =>
          cases hstep
          exact ⟨id, _, _, hworker, rfl, Or.inr (Or.inr ⟨task, rfl, rfl, rfl⟩)⟩
      · cases hstep

theorem outcome_step (hdistinct : (pool.workers.map Prod.fst).Nodup)
    (hstep : pool.step work turn = some next) :
    (next.outcome work).Perm (pool.outcome work) := by
  rcases step_cases hstep with ⟨id, old, new, hold, hworkers, hcases⟩
  rcases split_of_partyOf hdistinct hold with ⟨before, after, hpool, hset⟩
  unfold outcome
  rw [hworkers, hset new, hpool]
  rcases hcases with ⟨hnone, hleft, hidle, _, rfl⟩ | ⟨task, hpending, hidle, _, rfl⟩ |
    ⟨task, hpending, hrunning, rfl⟩
  · rw [hnone, hleft]
    simp [found, hidle]
  · rw [hpending]
    simp only [List.flatMap_append, List.flatMap_cons, found, hidle, Option.map_none,
      Option.map_some, Option.toList_none, Option.toList_some, List.append_nil, List.map_cons,
      List.append_assoc, List.singleton_append]
    exact (List.perm_middle.symm.append_left _).append_left _
  · rw [hpending]
    simp [found, hrunning]

theorem turnsLeft_step (hdistinct : (pool.workers.map Prod.fst).Nodup)
    (hstep : pool.step work turn = some next) : pool.turnsLeft = next.turnsLeft + 1 := by
  rcases step_cases hstep with ⟨id, old, new, hold, hworkers, hcases⟩
  rcases split_of_partyOf hdistinct hold with ⟨before, after, hpool, hset⟩
  unfold turnsLeft
  rw [hworkers, hset new, hpool]
  simp only [List.map_append, List.map_cons, List.sum_append, List.sum_cons, turnsOf]
  rcases hcases with ⟨hnone, hleft, hidle, hstays, rfl⟩ | ⟨task, hpending, hidle, hstays, rfl⟩ |
    ⟨task, hpending, hrunning, rfl⟩
  · simp [hnone, hleft, hidle, hstays]
    omega
  · simp [hpending, hidle, hstays]
    omega
  · simp [hpending, hrunning]
    omega

theorem inv_step {workers : Nat} (hinv : pool.Inv work workers tasks)
    (hstep : pool.step work turn = some next) : next.Inv work workers tasks := by
  have hdistinct : (pool.workers.map Prod.fst).Nodup := hinv.ids ▸ List.nodup_range
  rcases step_cases hstep with ⟨id, old, new, hold, hworkers, hcases⟩
  refine
    { ids := by rw [hworkers, ids_setParty, hinv.ids]
      returned := ?_
      outcome := (outcome_step hdistinct hstep).trans hinv.outcome }
  intro entry hentry hreturned
  rw [hworkers] at hentry
  have hmem := mem_of_partyOf hold
  rcases hcases with ⟨hnone, hleft, hidle, _, rfl⟩ | ⟨task, hpending, hidle, hstays, rfl⟩ |
    ⟨task, hpending, _, rfl⟩
  · rcases mem_setParty hentry with rfl | ⟨hthere, _⟩
    · exact ⟨hidle, hleft⟩
    · exact ⟨(hinv.returned entry hthere hreturned).1, hleft⟩
  · rcases mem_setParty hentry with rfl | ⟨hthere, _⟩
    · rw [hstays] at hreturned
      cases hreturned
    · have hempty := (hinv.returned entry hthere hreturned).2
      rw [hpending] at hempty
      cases hempty
  · rcases mem_setParty hentry with rfl | ⟨hthere, _⟩
    · exact ⟨rfl, hpending ▸ (hinv.returned (id, old) hmem hreturned).2⟩
    · exact ⟨(hinv.returned entry hthere hreturned).1,
        hpending ▸ (hinv.returned entry hthere hreturned).2⟩

theorem inv_turns {workers : Nat} {turns : List Turn} (hinv : pool.Inv work workers tasks)
    (hrun : RunFrom (step work) pool turns = some next) : next.Inv work workers tasks :=
  runFrom_preserved (fun _ _ _ hinv hstep => inv_step hinv hstep) hinv hrun

theorem turnsLeft_turns {workers : Nat} {turns : List Turn}
    (hinv : pool.Inv work workers tasks)
    (hrun : RunFrom (step work) pool turns = some next) :
    pool.turnsLeft = next.turnsLeft + turns.length := by
  induction turns generalizing pool with
  | nil =>
      cases hrun
      rfl
  | cons turn rest ih =>
      rcases runFrom_cons_some.mp hrun with ⟨middle, hstep, hrest⟩
      have hdistinct : (pool.workers.map Prod.fst).Nodup := hinv.ids ▸ List.nodup_range
      rw [turnsLeft_step hdistinct hstep, ih (inv_step hinv hstep) hrest, List.length_cons,
        Nat.add_assoc]

theorem exists_turn {workers : Nat} (hinv : pool.Inv work workers tasks) (hover : ¬ pool.Over) :
    exists turn, (pool.step work turn).isSome := by
  have hdistinct : (pool.workers.map Prod.fst).Nodup := hinv.ids ▸ List.nodup_range
  unfold Over at hover
  simp only [not_forall] at hover
  rcases hover with ⟨⟨id, worker⟩, hmem, hreturned⟩
  have hworker := partyOf_of_mem hdistinct hmem
  rcases worker with ⟨running, done, returned⟩
  have hstays : returned = false := Bool.eq_false_iff.mpr hreturned
  cases running with
  | some task =>
      refine ⟨Turn.finish id, ?_⟩
      simp only [step, finish, hworker, Option.isSome_some]
  | none =>
      cases hpending : pool.pending with
      | nil =>
          refine ⟨Turn.take id, ?_⟩
          simp only [step, take, hworker, hstays, hpending, Option.isSome_some]
      | cons task rest =>
          refine ⟨Turn.take id, ?_⟩
          simp only [step, take, hworker, hstays, hpending, Option.isSome_some]

theorem exists_over {workers : Nat} (hinv : pool.Inv work workers tasks) :
    exists turns last, RunFrom (step work) pool turns = some last ∧ last.Over := by
  generalize hleft : pool.turnsLeft = left
  induction left generalizing pool with
  | zero =>
      refine ⟨[], pool, rfl, ?_⟩
      by_contra hover
      rcases exists_turn hinv hover with ⟨turn, hturn⟩
      rcases Option.isSome_iff_exists.mp hturn with ⟨next, hstep⟩
      have hless := turnsLeft_step (hinv.ids ▸ List.nodup_range) hstep
      rw [hleft] at hless
      cases hless
  | succ left ih =>
      by_cases hover : pool.Over
      · exact ⟨[], pool, rfl, hover⟩
      · rcases exists_turn hinv hover with ⟨turn, hturn⟩
        rcases Option.isSome_iff_exists.mp hturn with ⟨next, hstep⟩
        have hless := turnsLeft_step (hinv.ids ▸ List.nodup_range) hstep
        rw [hleft] at hless
        rcases ih (inv_step hinv hstep) (Nat.succ.inj hless).symm with
          ⟨turns, last, hrun, hlast⟩
        exact ⟨turn :: turns, last, runFrom_cons_some.mpr ⟨next, hstep, hrun⟩, hlast⟩

theorem results_perm {workers : Nat} (hworkers : 0 < workers)
    (hinv : pool.Inv work workers tasks) (hover : pool.Over) :
    pool.results.Perm (tasks.map work) := by
  have hdone : pool.outcome work = pool.results := by
    have hpending : pool.pending = [] := by
      have hsome : pool.workers.map Prod.fst ≠ [] := by
        rw [hinv.ids]
        simp only [ne_eq, List.range_eq_nil]
        exact Nat.pos_iff_ne_zero.mp hworkers
      rcases List.exists_mem_of_ne_nil _ hsome with ⟨id, hid⟩
      rcases List.mem_map.mp hid with ⟨entry, hentry, _⟩
      exact (hinv.returned entry hentry (hover entry hentry)).2
    unfold outcome results
    rw [hpending, List.map_nil, List.append_nil]
    apply List.flatMap_congr
    intro entry hentry
    unfold found
    rw [(hinv.returned entry hentry (hover entry hentry)).1]
    exact List.append_nil _
  rw [← hdone]
  exact hinv.outcome

end Turns

end Pool

end Foundation
end PaminMemory
