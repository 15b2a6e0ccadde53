import Mathlib.Data.List.Basic
import PaminMemory.Foundation.Fallible

/-!
# Handing over in groups

Items wait in the group of their key and are handed over a group at a time, all that wait
whenever there are as many as the bound.  Every item is handed over once, among others of its
key, and never more of them than the bound.
-/

namespace PaminMemory
namespace Foundation

section Groups

variable {κ α error : Type} [DecidableEq κ] (le : κ -> κ -> Prop) [DecidableRel le]

def enqueue (key : κ) (item : α) : List (κ × List α) -> List (κ × List α)
  | [] => [(key, [item])]
  | (other, group) :: rest =>
      if other = key then
        (other, group ++ [item]) :: rest
      else if le key other then
        (key, [item]) :: (other, group) :: rest
      else
        (other, group) :: enqueue key item rest

/-- What takes a group over, after those it took before. -/
abbrev Taker (error κ α : Type) := List (κ × List α) -> List α -> κ -> Except error Unit

def handOver (take : Taker error κ α) :
    List (κ × List α) -> List (κ × List α) -> Except error (List (κ × List α) × List (κ × List α))
  | [], handed => Except.ok ([], handed)
  | (key, []) :: rest, handed => do
      let (pending, handed) ← handOver take rest handed
      Except.ok ((key, []) :: pending, handed)
  | (key, item :: group) :: rest, handed => do
      take handed (item :: group) key
      let (pending, handed) ← handOver take rest (handed ++ [(key, item :: group)])
      Except.ok ((key, []) :: pending, handed)

structure Waiting (κ α : Type) where
  pending : List (κ × List α)
  waiting : Nat
  handed : List (κ × List α)

/-- One item more waits; with as many as the bound, all of them are handed over. -/
def offer (take : Taker error κ α) (bound : Nat) (state : Waiting κ α) (item : κ × α) :
    Except error (Waiting κ α) := do
  let pending := enqueue le item.1 item.2 state.pending
  let waiting := state.waiting + 1
  if waiting = bound then
    let (pending, handed) ← handOver take pending state.handed
    Except.ok { pending := pending, waiting := 0, handed := handed }
  else
    Except.ok { pending := pending, waiting := waiting, handed := state.handed }

end Groups

/-!
## What is handed over
-/

section Handed

variable {κ α error : Type} {key : κ} {item : α}
  {groups : List (κ × List α)} {take : Taker error κ α} {bound : Nat}

def tagged (groups : List (κ × List α)) : List (κ × α) :=
  groups.flatMap fun group => group.2.map fun item => (group.1, item)

theorem tagged_append (first second : List (κ × List α)) :
    tagged (first ++ second) = tagged first ++ tagged second :=
  List.flatMap_append

theorem tagged_cons (group : κ × List α) (rest : List (κ × List α)) :
    tagged (group :: rest) = group.2.map (fun item => (group.1, item)) ++ tagged rest :=
  List.flatMap_cons

/-- The groups after a handing over: nothing waits, and what waited was handed over. -/
structure HandedOver (before after handed handed' : List (κ × List α)) : Prop where
  empty : tagged after = []
  handed : exists more, handed' = handed ++ more ∧ tagged more = tagged before ∧
    forall group, group ∈ more -> group.2 ≠ [] ∧ group ∈ before

theorem handedOver {handed after handed' : List (κ × List α)}
    (h : handOver take groups handed = Except.ok (after, handed')) :
    HandedOver groups after handed handed' := by
  induction groups generalizing handed after handed' with
  | nil =>
      cases h
      exact ⟨rfl, [], (List.append_nil _).symm, rfl, fun _ hgroup => absurd hgroup List.not_mem_nil⟩
  | cons group rest ih =>
      rcases group with ⟨key, items⟩
      cases items with
      | nil =>
          rcases bind_eq_ok.mp h with ⟨⟨pending, more⟩, hrest, hresult⟩
          cases hresult
          rcases ih hrest with ⟨hempty, added, hadded, htagged, hmem⟩
          refine ⟨hempty, added, hadded, htagged, ?_⟩
          intro group hgroup
          exact ⟨(hmem group hgroup).1, List.mem_cons_of_mem _ (hmem group hgroup).2⟩
      | cons item items =>
          rcases bind_eq_ok.mp h with ⟨_, _, hbind⟩
          rcases bind_eq_ok.mp hbind with ⟨⟨pending, more⟩, hrest, hresult⟩
          cases hresult
          rcases ih hrest with ⟨hempty, added, hadded, htagged, hmem⟩
          refine ⟨hempty, (key, item :: items) :: added, ?_, ?_, ?_⟩
          · rw [hadded, List.append_assoc, List.singleton_append]
          · rw [tagged_cons, tagged_cons, htagged]
          · intro group hgroup
            rcases List.mem_cons.mp hgroup with rfl | hlater
            · exact ⟨List.cons_ne_nil _ _, List.mem_cons_self⟩
            · exact ⟨(hmem group hlater).1, List.mem_cons_of_mem _ (hmem group hlater).2⟩

theorem length_le_tagged {group : κ × List α} (h : group ∈ groups) :
    group.2.length <= (tagged groups).length := by
  induction groups with
  | nil => cases h
  | cons first rest ih =>
      rw [tagged_cons, List.length_append, List.length_map]
      rcases List.mem_cons.mp h with rfl | hrest
      · exact Nat.le_add_right _ _
      · exact Nat.le_trans (ih hrest) (Nat.le_add_left _ _)

/-!
## Groups within a bound
-/

/-- After some items: each waits or was handed over, and fewer wait than the bound. -/
structure Batched (bound : Nat) (items : List (κ × α)) (state : Waiting κ α) : Prop where
  all : (tagged state.handed ++ tagged state.pending).Perm items
  counted : state.waiting = (tagged state.pending).length
  under : state.waiting < bound
  bounded : forall group, group ∈ state.handed -> group.2 ≠ [] ∧ group.2.length <= bound

theorem batched_start (h : 0 < bound) :
    Batched bound ([] : List (κ × α)) { pending := [], waiting := 0, handed := [] } where
  all := List.Perm.refl _
  counted := rfl
  under := h
  bounded := fun _ hgroup => absurd hgroup List.not_mem_nil

theorem bounded_handedOver {before after handed handed' : List (κ × List α)}
    (h : HandedOver before after handed handed') (hcount : (tagged before).length <= bound)
    (hbounded : forall group, group ∈ handed -> group.2 ≠ [] ∧ group.2.length <= bound) :
    forall group, group ∈ handed' -> group.2 ≠ [] ∧ group.2.length <= bound := by
  rcases h.handed with ⟨more, rfl, _, hmem⟩
  intro group hgroup
  cases List.mem_append.mp hgroup with
  | inl hold => exact hbounded group hold
  | inr hnew =>
      exact ⟨(hmem group hnew).1, Nat.le_trans (length_le_tagged (hmem group hnew).2) hcount⟩

theorem handed_all {items : List (κ × α)} {state : Waiting κ α} {after handed : List (κ × List α)}
    (h : Batched bound items state)
    (hover : handOver take state.pending state.handed = Except.ok (after, handed)) :
    (tagged handed).Perm items ∧
      forall group, group ∈ handed -> group.2 ≠ [] ∧ group.2.length <= bound := by
  have hover := handedOver hover
  constructor
  · rcases hover.handed with ⟨more, hmore, htagged, _⟩
    rw [hmore, tagged_append, htagged]
    exact h.all
  · have hcount := Nat.le_of_lt h.under
    rw [h.counted] at hcount
    exact bounded_handedOver hover hcount h.bounded

variable [DecidableEq κ] {le : κ -> κ -> Prop} [DecidableRel le]

theorem tagged_enqueue (key : κ) (item : α) (groups : List (κ × List α)) :
    (tagged (enqueue le key item groups)).Perm (tagged groups ++ [(key, item)]) := by
  induction groups with
  | nil => exact List.Perm.refl _
  | cons group rest ih =>
      rcases group with ⟨other, items⟩
      unfold enqueue
      split
      · next hsame =>
          rw [tagged_cons, tagged_cons, List.map_append, List.append_assoc, List.append_assoc,
            ← hsame]
          exact List.Perm.append_left _ List.perm_append_comm
      · split
        · rw [tagged_cons]
          exact (List.perm_append_singleton (key, item) _).symm
        · rw [tagged_cons, tagged_cons, List.append_assoc]
          exact List.Perm.append_left _ ih

theorem batched_offer {items : List (κ × α)} {state state' : Waiting κ α} {item : κ × α}
    (h : Batched bound items state) (hoffer : offer le take bound state item = Except.ok state') :
    Batched bound (items ++ [item]) state' := by
  have hperm : (tagged (enqueue le item.1 item.2 state.pending)).Perm
      (tagged state.pending ++ [(item.1, item.2)]) := tagged_enqueue item.1 item.2 state.pending
  have hlength := hperm.length_eq
  rw [List.length_append, List.length_singleton, ← h.counted] at hlength
  have hall : (tagged state.handed ++ tagged (enqueue le item.1 item.2 state.pending)).Perm
      (items ++ [item]) := by
    apply (List.Perm.append_left _ hperm).trans
    rw [← List.append_assoc]
    exact List.Perm.append_right _ h.all
  unfold offer at hoffer
  dsimp only at hoffer
  split at hoffer
  · next hfull =>
      rcases bind_eq_ok.mp hoffer with ⟨⟨pending, handed⟩, hover, hresult⟩
      cases hresult
      have hover := handedOver hover
      rcases hover.handed with ⟨more, hmore, htagged, _⟩
      constructor
      · dsimp only
        rw [hover.empty, List.append_nil, hmore, tagged_append, htagged]
        exact hall
      · exact (congrArg List.length hover.empty).symm
      · exact Nat.lt_of_lt_of_eq (Nat.succ_pos _) hfull
      · exact bounded_handedOver hover (Nat.le_of_eq (hlength.trans hfull)) h.bounded
  · next hroom =>
      cases hoffer
      constructor
      · exact hall
      · exact hlength.symm
      · exact Nat.lt_of_le_of_ne h.under hroom
      · exact h.bounded

theorem batched_offers {items more : List (κ × α)} {state state' : Waiting κ α}
    (h : Batched bound items state)
    (hoffers : more.foldlM (offer le take bound) state = Except.ok state') :
    Batched bound (items ++ more) state' := by
  induction more generalizing items state with
  | nil =>
      cases hoffers
      rw [List.append_nil]
      exact h
  | cons item rest ih =>
      rw [List.foldlM_cons] at hoffers
      rcases bind_eq_ok.mp hoffers with ⟨next, hoffer, hrest⟩
      have hall := ih (batched_offer h hoffer) hrest
      rw [List.append_assoc, List.singleton_append] at hall
      exact hall

end Handed

end Foundation
end PaminMemory
