import Mathlib.Algebra.GroupWithZero.Nat
import Mathlib.Algebra.Order.BigOperators.Group.List
import Mathlib.Data.List.Nodup
import Mathlib.Logic.Function.Basic
import PaminMemory.Foundation.Gathering

/-!
# Items that act apart

An item reads and replaces the state of its own key and gives something for it.  What the
items of one key do is settled by their own order, however they are mixed with the others.
-/

namespace PaminMemory
namespace Foundation

section Apart

variable {ι κ σ ω : Type}

/-- What items do to one state in turn: the state they leave, and what each gave. -/
def inTurn (act : σ -> ι -> σ × ω) : σ -> List ι -> σ × List ω
  | state, [] => (state, [])
  | state, item :: rest =>
      let done := act state item
      let later := inTurn act done.1 rest
      (later.1, done.2 :: later.2)

variable [DecidableEq κ]

def eachApart (key : ι -> κ) (act : σ -> ι -> σ × ω) :
    (κ -> σ) -> List ι -> (κ -> σ) × List (κ × ω)
  | states, [] => (states, [])
  | states, item :: rest =>
      let done := act (states (key item)) item
      let later := eachApart key act (Function.update states (key item) done.1) rest
      (later.1, (key item, done.2) :: later.2)

variable {key : ι -> κ} {act : σ -> ι -> σ × ω}

theorem inTurn_snoc (state : σ) (items : List ι) (item : ι) :
    inTurn act state (items ++ [item]) =
      ((act (inTurn act state items).1 item).1,
        (inTurn act state items).2 ++ [(act (inTurn act state items).1 item).2]) := by
  induction items generalizing state with
  | nil => rfl
  | cons first rest ih =>
      rw [List.cons_append, inTurn, ih]
      rfl

theorem eachApart_state (states : κ -> σ) (items : List ι) (k : κ) :
    (eachApart key act states items).1 k =
      (inTurn act (states k) (items.filter fun item => key item = k)).1 := by
  induction items generalizing states with
  | nil => rfl
  | cons item rest ih =>
      rw [eachApart, ih, List.filter_cons]
      by_cases hkey : key item = k
      · rw [if_pos (decide_eq_true hkey), ← hkey, Function.update_self]
        rfl
      · rw [if_neg (by simpa using hkey), Function.update_of_ne (Ne.symm hkey)]

theorem eachApart_given (states : κ -> σ) (items : List ι) (k : κ) :
    ((eachApart key act states items).2.filter fun given => given.1 = k).map Prod.snd =
      (inTurn act (states k) (items.filter fun item => key item = k)).2 := by
  induction items generalizing states with
  | nil => rfl
  | cons item rest ih =>
      rw [eachApart, List.filter_cons, List.filter_cons]
      by_cases hkey : key item = k
      · rw [if_pos (decide_eq_true hkey), if_pos (decide_eq_true hkey), List.map_cons, ih,
          ← hkey, Function.update_self]
        rfl
      · rw [if_neg (by simpa using hkey), if_neg (by simpa using hkey), ih,
          Function.update_of_ne (Ne.symm hkey)]

theorem eachApart_keys (states : κ -> σ) (items : List ι) :
    (eachApart key act states items).2.map Prod.fst = items.map key := by
  induction items generalizing states with
  | nil => rfl
  | cons item rest ih => rw [eachApart, List.map_cons, List.map_cons, ih]

theorem countP_by_key (counts : ω -> Bool) (given : List (κ × ω)) {keys : List κ}
    (hnodup : keys.Nodup) (hkeys : forall pair, pair ∈ given -> pair.1 ∈ keys) :
    given.countP (fun pair => counts pair.2) =
      (keys.map fun k =>
        ((given.filter fun pair => pair.1 = k).map Prod.snd).countP counts).sum := by
  induction given with
  | nil => simp
  | cons pair rest ih =>
      have hrest : forall other, other ∈ rest -> other.1 ∈ keys := by
        intro other hother
        exact hkeys other (List.mem_cons_of_mem _ hother)
      have hhere : forall k, (((pair :: rest).filter fun other => other.1 = k).map
          Prod.snd).countP counts =
            ((rest.filter fun other => other.1 = k).map Prod.snd).countP counts +
              if k = pair.1 then (if counts pair.2 then 1 else 0) else 0 := by
        intro k
        rw [List.filter_cons]
        by_cases hsame : pair.1 = k
        · rw [if_pos (decide_eq_true hsame), List.map_cons, List.countP_cons, if_pos hsame.symm]
        · rw [if_neg (by simpa using hsame), if_neg (Ne.symm hsame), Nat.add_zero]
      rw [List.countP_cons, ih hrest]
      simp only [hhere]
      have hown : (keys.map fun k =>
          if k = pair.1 then (if counts pair.2 then 1 else 0) else 0).sum =
            if counts pair.2 then 1 else 0 := by
        rw [List.sum_map_eq_nsmul_single pair.1 _ fun k hne _ => if_neg hne,
          List.count_eq_one_of_mem hnodup (hkeys pair (List.mem_cons_self ..)), one_nsmul,
          if_pos rfl]
      rw [List.sum_map_add, hown]

theorem countP_eachApart (counts : ω -> Bool) (states : κ -> σ) (items : List ι)
    {keys : List κ} (hnodup : keys.Nodup) (hkeys : forall item, item ∈ items -> key item ∈ keys) :
    (eachApart key act states items).2.countP (fun given => counts given.2) =
      (keys.map fun k => (inTurn act (states k)
        (items.filter fun item => key item = k)).2.countP counts).sum := by
  rw [countP_by_key counts _ hnodup]
  · simp only [eachApart_given]
  · intro pair hpair
    have hkey := List.mem_map_of_mem (f := Prod.fst) hpair
    rw [eachApart_keys] at hkey
    rcases List.mem_map.mp hkey with ⟨item, hitem, heq⟩
    rw [← heq]
    exact hkeys item hitem

end Apart

/-!
## Items grouped by key
-/

section Grouped

variable {ι κ : Type} [Ord κ] [Std.TransOrd κ] [Std.LawfulEqOrd κ]

def grouped (key : ι -> κ) (items : List ι) : List (κ × List ι) :=
  (gather key (fun group item => group ++ [item]) [] items ∅).toList

variable {key : ι -> κ} {items : List ι}

theorem nodup_grouped : ((grouped key items).map Prod.fst).Nodup := nodup_keys_toList _

theorem foldl_snoc (group items : List ι) :
    items.foldl (fun group item => group ++ [item]) group = group ++ items := by
  induction items generalizing group with
  | nil => rw [List.foldl_nil, List.append_nil]
  | cons item rest ih => rw [List.foldl_cons, ih, List.append_assoc, List.singleton_append]

variable [DecidableEq κ]

theorem mem_grouped {k : κ} {group : List ι} :
    (k, group) ∈ grouped key items <->
      k ∈ items.map key ∧ group = items.filter fun item => key item = k := by
  rw [grouped, Std.TreeMap.mem_toList_iff_getElem?_eq_some, getElem?_gather_empty, foldl_snoc,
    List.nil_append]
  split
  · next hmem =>
      constructor
      · intro h
        exact ⟨hmem, (Option.some.inj h).symm⟩
      · intro h
        rw [h.2]
  · next hnot =>
      constructor
      · intro h
        cases h
      · intro h
        exact absurd h.1 hnot

end Grouped

end Foundation
end PaminMemory
