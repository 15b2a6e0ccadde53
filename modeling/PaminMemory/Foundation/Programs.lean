import Mathlib.Logic.Relation

/-!
# Programs that call a shared store

A program is a tree of calls: it makes one and goes on with the reply.  The store answers each
call at once, others use the store between two calls, and the process can die between any two.
-/

namespace PaminMemory
namespace Foundation

inductive Program (call : Type) (reply : call -> Type) (α : Type) where
  | done (value : α)
  | ask (c : call) (next : reply c -> Program call reply α)

namespace Program

variable {call : Type} {reply : call -> Type} {store : Type} {α β γ : Type}

def bind : Program call reply α -> (α -> Program call reply β) -> Program call reply β
  | done value, next => next value
  | ask c rest, next => ask c fun r => (rest r).bind next

instance : Monad (Program call reply) where
  pure := done
  bind := bind

def make (c : call) : Program call reply (reply c) := ask c done

def forEach (body : β -> Program call reply γ) : List β -> Program call reply (List γ)
  | [] => pure []
  | entry :: rest => do
      let value ← body entry
      let values ← forEach body rest
      pure (value :: values)

/-!
# Running alone
-/

section Alone

variable (answer : (c : call) -> store -> reply c × store)

def run : Program call reply α -> store -> α × store
  | done value, s => (value, s)
  | ask c next, s => (next (answer c s).1).run (answer c s).2

def diesAfter : Nat -> Program call reply α -> store -> store
  | _, done _, s => s
  | 0, ask _ _, s => s
  | n + 1, ask c next, s => diesAfter n (next (answer c s).1) (answer c s).2

end Alone

/-!
# What a program ensures
-/

/--
What a program may count on: how its calls are answered, what others do between two of them,
and which calls are made only where a condition holds.  `dies` is what it promises of any
store it can die on.
-/
structure Setting (call : Type) (reply : call -> Type) (store : Type) where
  answer : (c : call) -> store -> reply c × store
  others : store -> store -> Prop
  allowed : call -> store -> Prop
  dies : store -> Prop
  others_refl : forall s, others s s
  others_trans : forall {s t u}, others s t -> others t u -> others s u

section Rules

variable (setting : Setting call reply store)

/-- From this store on, the promise holds wherever the program dies, and `after` in its end. -/
def Promises (after : α -> store -> Prop) : Program call reply α -> store -> Prop
  | done value, s => forall t, setting.others s t -> setting.dies t ∧ after value t
  | ask c next, s =>
      forall t, setting.others s t ->
        setting.dies t ∧
          (setting.allowed c t ->
            Promises after (next (setting.answer c t).1) (setting.answer c t).2)

def Ensures (before : store -> Prop) (program : Program call reply α)
    (after : α -> store -> Prop) : Prop :=
  forall s, before s -> program.Promises setting after s

variable {setting} {before : store -> Prop}

theorem promises_dies {after : α -> store -> Prop} {program : Program call reply α}
    {s : store} (h : program.Promises setting after s) : setting.dies s := by
  cases program with
  | done value => exact (h s (setting.others_refl s)).1
  | ask c next => exact (h s (setting.others_refl s)).1

theorem promises_others {after : α -> store -> Prop} {program : Program call reply α}
    {s t : store} (h : program.Promises setting after s) (hothers : setting.others s t) :
    program.Promises setting after t := by
  cases program with
  | done value => exact fun u hu => h u (setting.others_trans hothers hu)
  | ask c next => exact fun u hu => h u (setting.others_trans hothers hu)

theorem promises_answered {after : α -> store -> Prop} {c : call}
    {next : reply c -> Program call reply α} {s : store}
    (h : (ask c next).Promises setting after s) (hallowed : setting.allowed c s) :
    (next (setting.answer c s).1).Promises setting after (setting.answer c s).2 :=
  (h s (setting.others_refl s)).2 hallowed

theorem promises_after {after : α -> store -> Prop} {value : α} {s : store}
    (h : (done value : Program call reply α).Promises setting after s) : after value s :=
  (h s (setting.others_refl s)).2

theorem promises_mono {after after' : α -> store -> Prop}
    (himp : forall value s, after value s -> after' value s)
    {program : Program call reply α} {s : store}
    (h : program.Promises setting after s) : program.Promises setting after' s := by
  induction program generalizing s with
  | done value => exact fun t ht => ⟨(h t ht).1, himp value t (h t ht).2⟩
  | ask c next ih =>
      intro t ht
      exact ⟨(h t ht).1, fun hallowed => ih _ ((h t ht).2 hallowed)⟩

theorem promises_bind {between : α -> store -> Prop} {after : β -> store -> Prop}
    {program : Program call reply α} {next : α -> Program call reply β}
    (hnext : forall value, (next value).Ensures setting (between value) after) {s : store}
    (h : program.Promises setting between s) :
    (program >>= next).Promises setting after s := by
  induction program generalizing s with
  | done value => exact hnext value s (promises_after h)
  | ask c rest ih =>
      intro t ht
      exact ⟨(h t ht).1, fun hallowed => ih _ ((h t ht).2 hallowed)⟩

theorem ensures_bind {between : α -> store -> Prop} {after : β -> store -> Prop}
    {program : Program call reply α} {next : α -> Program call reply β}
    (hfirst : program.Ensures setting before between)
    (hnext : forall value, (next value).Ensures setting (between value) after) :
    (program >>= next).Ensures setting before after :=
  fun s hs => promises_bind hnext (hfirst s hs)

theorem ensures_mono {before' : store -> Prop} {after after' : α -> store -> Prop}
    {program : Program call reply α} (h : program.Ensures setting before after)
    (hbefore : forall s, before' s -> before s)
    (hafter : forall value s, after value s -> after' value s) :
    program.Ensures setting before' after' :=
  fun s hs => promises_mono hafter (h s (hbefore s hs))

theorem ensures_given {fact : Prop} {after : α -> store -> Prop}
    {program : Program call reply α} (h : fact -> program.Ensures setting before after) :
    program.Ensures setting (fun s => fact ∧ before s) after :=
  fun s hs => h hs.1 s hs.2

theorem ensures_pure {after : α -> store -> Prop} (value : α)
    (h : forall s t, before s -> setting.others s t -> setting.dies t ∧ after value t) :
    (pure value : Program call reply α).Ensures setting before after :=
  fun s hs t ht => h s t hs ht

theorem ensures_make {c : call} {after : reply c -> store -> Prop}
    (hstable : forall s t, before s -> setting.others s t -> before t)
    (hdies : forall s, before s -> setting.dies s)
    (hcall : forall s, before s -> setting.allowed c s ->
      after (setting.answer c s).1 (setting.answer c s).2)
    (hafter : forall value s, after value s -> setting.dies s)
    (hafterStable : forall value s t, after value s -> setting.others s t -> after value t) :
    (make c : Program call reply (reply c)).Ensures setting before after := by
  intro s hs t ht
  have hbefore := hstable s t hs ht
  constructor
  · exact hdies t hbefore
  · intro hallowed u hu
    have hhere := hafterStable _ _ u (hcall t hbefore hallowed) hu
    exact ⟨hafter _ u hhere, hhere⟩

theorem ensures_forEach_split {body : β -> Program call reply γ}
    {Done : List (β × γ) -> store -> Prop}
    (hstable : forall done s t, Done done s -> setting.others s t -> Done done t)
    (hdies : forall done s, Done done s -> setting.dies s) (done : List (β × γ))
    (entries : List β)
    (hbody : forall earlier entry later, earlier.map Prod.fst ++ entry :: later = entries ->
      (body entry).Ensures setting (Done (done ++ earlier))
        fun value => Done (done ++ earlier ++ [(entry, value)])) :
    (forEach body entries).Ensures setting (Done done)
      fun values s => values.length = entries.length ∧ Done (done ++ entries.zip values) s := by
  induction entries generalizing done with
  | nil =>
      apply ensures_pure
      intro s t hs ht
      have hhere := hstable done s t hs ht
      exact ⟨hdies done t hhere, rfl, by simpa using hhere⟩
  | cons entry rest ih =>
      have hfirst := hbody [] entry rest rfl
      rw [List.append_nil] at hfirst
      apply ensures_bind hfirst
      intro value
      apply ensures_bind
      · apply ih (done ++ [(entry, value)])
        intro earlier next later hrest
        have hnext := hbody ((entry, value) :: earlier) next later
          (congrArg (List.cons entry) hrest)
        rw [List.append_cons] at hnext
        exact hnext
      intro values
      apply ensures_pure
      intro s t hs ht
      have hhere := hstable _ s t hs.2 ht
      exact ⟨hdies _ t hhere, congrArg Nat.succ hs.1, by simpa using hhere⟩

theorem ensures_forEach {body : β -> Program call reply γ}
    {Done : List (β × γ) -> store -> Prop}
    (hstable : forall done s t, Done done s -> setting.others s t -> Done done t)
    (hdies : forall done s, Done done s -> setting.dies s) (done : List (β × γ))
    (entries : List β)
    (hbody : forall done entry, entry ∈ entries ->
      (body entry).Ensures setting (Done done) fun value => Done (done ++ [(entry, value)])) :
    (forEach body entries).Ensures setting (Done done)
      fun values s => values.length = entries.length ∧ Done (done ++ entries.zip values) s := by
  apply ensures_forEach_split hstable hdies done entries
  intro earlier entry later hentries
  exact hbody (done ++ earlier) entry (hentries ▸ List.mem_append_right _ List.mem_cons_self)

theorem ensures_forEach_map {body : β -> Program call reply γ} {value : β -> γ}
    (hbody : forall entry, (body entry).Ensures setting before
      fun given s => given = value entry ∧ before s)
    (hstable : forall s t, before s -> setting.others s t -> before t)
    (hdies : forall s, before s -> setting.dies s) (entries : List β) :
    (forEach body entries).Ensures setting before
      fun values s => values = entries.map value ∧ before s := by
  induction entries with
  | nil =>
      apply ensures_pure
      intro s t hs ht
      have hhere := hstable s t hs ht
      exact ⟨hdies t hhere, rfl, hhere⟩
  | cons entry rest ih =>
      apply ensures_bind (hbody entry)
      intro given
      apply ensures_given
      intro hgiven
      apply ensures_bind ih
      intro values
      apply ensures_given
      intro hvalues
      apply ensures_pure
      intro s t hs ht
      have hhere := hstable s t hs ht
      exact ⟨hdies t hhere, by rw [hgiven, hvalues]; rfl, hhere⟩

end Rules

/-!
# What follows of a run
-/

section Runs

variable {setting : Setting call reply store} {before : store -> Prop}
  {after : α -> store -> Prop} {program : Program call reply α}

theorem run_after (hallowed : forall c s, setting.allowed c s) {s : store}
    (h : program.Promises setting after s) :
    after (program.run setting.answer s).1 (program.run setting.answer s).2 := by
  induction program generalizing s with
  | done value => exact promises_after h
  | ask c next ih => exact ih _ ((h s (setting.others_refl s)).2 (hallowed c s))

theorem diesAfter_dies (hallowed : forall c s, setting.allowed c s) (n : Nat) {s : store}
    (h : program.Promises setting after s) :
    setting.dies (diesAfter setting.answer n program s) := by
  induction program generalizing n s with
  | done value => cases n <;> exact promises_dies h
  | ask c next ih =>
      cases n with
      | zero => exact promises_dies h
      | succ n => exact ih _ n ((h s (setting.others_refl s)).2 (hallowed c s))

end Runs

end Program

end Foundation
end PaminMemory
