import PaminMemory.Search.Placing

/-!
# A reranked list is the list, reordered

The shown items come first, in the model's order, and the others after them as they were.
-/

namespace PaminMemory
namespace Search

open Foundation

section Moving

variable {item : Type _}

def blanked (slots : List (Option item)) (positions : List Nat) : List (Option item) :=
  slots.mapIdx fun position held => if position ∈ positions then none else held

theorem blanked_nil (slots : List (Option item)) : blanked slots [] = slots := by
  unfold blanked
  apply List.ext_getElem?
  intro position
  rw [List.getElem?_mapIdx]
  simp

theorem blanked_cons {slots : List (Option item)} {position : Nat} {positions : List Nat} :
    blanked (slots.set position none) positions = blanked slots (position :: positions) := by
  unfold blanked
  apply List.ext_getElem?
  intro other
  rw [List.getElem?_mapIdx, List.getElem?_mapIdx, List.getElem?_set]
  by_cases hsame : position = other
  · subst hsame
    rw [if_pos rfl]
    by_cases hin : position < slots.length
    · rw [if_pos hin, List.getElem?_eq_getElem hin]
      simp
    · rw [if_neg hin, List.getElem?_eq_none (Nat.le_of_not_lt hin)]
      rfl
  · rw [if_neg hsame]
    have hother : other ≠ position := fun heq => hsame heq.symm
    simp [hother]

theorem takeAll_said {slots : List (Option item)} {positions : List Nat}
    (hdistinct : positions.Nodup) (hin : forall position, position ∈ positions ->
      position < slots.length) :
    takeAll slots positions = some (blanked slots positions,
      positions.map fun position => (slots[position]?).join) := by
  induction positions generalizing slots with
  | nil =>
      rw [blanked_nil]
      rfl
  | cons position rest ih =>
      rw [List.nodup_cons] at hdistinct
      have hthere : position < slots.length := hin position List.mem_cons_self
      have hrest := @ih (slots.set position none) hdistinct.2 (by
        intro other hother
        rw [List.length_set]
        exact hin other (List.mem_cons_of_mem _ hother))
      unfold takeAll
      rw [List.getElem?_eq_getElem hthere]
      simp only
      rw [hrest, Option.map_some, blanked_cons, List.map_cons, List.getElem?_eq_getElem hthere]
      apply congrArg
      apply congrArg (Prod.mk _)
      apply congrArg (List.cons _)
      apply List.map_congr_left
      intro other hother
      have hother' : position ≠ other := by
        intro heq
        rw [heq] at hdistinct
        exact hdistinct.1 hother
      rw [List.getElem?_set_ne hother']

theorem refill_said {filled rest : List (Option item)} {taken : List (Option item)}
    {picks : List Nat} (hdistinct : picks.Nodup)
    (hin : forall pick, pick ∈ picks -> pick < taken.length) :
    refill (filled ++ List.replicate picks.length none ++ rest) taken
        ((List.range' filled.length picks.length).zip picks) =
      some (filled ++ (picks.map fun pick => (taken[pick]?).join) ++ rest) := by
  induction picks generalizing filled taken with
  | nil =>
      rw [List.length_nil, List.replicate_zero, List.map_nil]
      rfl
  | cons pick others ih =>
      rw [List.nodup_cons] at hdistinct
      have hthere : pick < taken.length := hin pick List.mem_cons_self
      have hslot : filled.length <
          (filled ++ List.replicate (others.length + 1) none ++ rest).length := by
        rw [List.length_append, List.length_append, List.length_replicate]
        omega
      have hset : (filled ++ List.replicate (others.length + 1) none ++ rest).set filled.length
          taken[pick] = filled ++ [taken[pick]] ++ List.replicate others.length none ++ rest := by
        rw [List.append_assoc, List.set_append_right _ _ (Nat.le_refl _), Nat.sub_self,
          List.replicate_succ]
        simp
      have hlength : filled.length + 1 = (filled ++ [taken[pick]]).length := by
        rw [List.length_append]
        rfl
      rw [List.length_cons, List.range'_succ, List.zip_cons_cons]
      unfold refill
      rw [List.getElem?_eq_getElem hthere]
      simp only
      rw [if_pos hslot, hset, hlength, @ih (filled ++ [taken[pick]]) (taken.set pick none)
        hdistinct.2 (by
          intro other hother
          rw [List.length_set]
          exact hin other (List.mem_cons_of_mem _ hother))]
      rw [List.map_cons, List.getElem?_eq_getElem hthere]
      have hkept : (others.map fun other => ((taken.set pick none)[other]?).join) =
          others.map fun other => (taken[other]?).join := by
        apply List.map_congr_left
        intro other hother
        have hne : pick ≠ other := by
          intro heq
          rw [heq] at hdistinct
          exact hdistinct.1 hother
        rw [List.getElem?_set_ne hne]
      rw [hkept]
      simp

theorem unwrapAll_map (items : List item) : unwrapAll (items.map some) = some items := by
  induction items with
  | nil => rfl
  | cons first rest ih =>
      rw [List.map_cons, unwrapAll, ih]
      rfl

def itemsAt (list : List item) (positions : List Nat) : List item :=
  positions.filterMap fun position => list[position]?

def unshown (list : List item) (shown : List Nat) : List Nat :=
  (List.range list.length).filter fun position => position ∉ shown

theorem blanked_eq_map (list : List item) (shown : List Nat) :
    blanked (list.map some) shown =
      (List.range list.length).map fun position =>
        if position ∈ shown then none else list[position]? := by
  unfold blanked
  apply List.ext_getElem?
  intro position
  rw [List.getElem?_mapIdx, List.getElem?_map, List.getElem?_map]
  by_cases hin : position < list.length
  · rw [List.getElem?_range hin, List.getElem?_eq_getElem hin]
    simp [hin]
  · rw [List.getElem?_eq_none (Nat.le_of_not_lt hin), List.getElem?_eq_none (by simpa using hin)]
    rfl

theorem filter_blanked (list : List item) (shown : List Nat) :
    (blanked (list.map some) shown).filter Option.isSome =
      (itemsAt list (unshown list shown)).map some := by
  rw [blanked_eq_map]
  unfold itemsAt unshown
  have hall : forall positions : List Nat,
      (forall position, position ∈ positions -> position < list.length) ->
      (positions.map fun position => if position ∈ shown then none else list[position]?).filter
          Option.isSome =
        ((positions.filter fun position => position ∉ shown).filterMap
          fun position => list[position]?).map some := by
    intro positions hin
    induction positions with
    | nil => rfl
    | cons position rest ih =>
        have hrest := ih fun other hother => hin other (List.mem_cons_of_mem _ hother)
        have hthere := hin position List.mem_cons_self
        rw [List.map_cons, List.filter_cons]
        by_cases hshown : position ∈ shown
        · simp only [hshown]
          simpa [hshown] using hrest
        · simp only [hshown, if_false]
          rw [List.getElem?_eq_getElem hthere]
          simpa [hshown, List.getElem?_eq_getElem hthere] using hrest
  exact hall _ fun position hposition => List.mem_range.mp hposition

theorem length_blanked (list : List item) (shown : List Nat) :
    (blanked (list.map some) shown).length = list.length := by
  rw [blanked_eq_map, List.length_map, List.length_range]

theorem take_blanked {list : List item} {shown : List Nat} {head : Nat}
    (hhead : head <= list.length) (hshown : forall position, position < head ->
      position ∈ shown) :
    (blanked (list.map some) shown).take head = List.replicate head none := by
  rw [List.eq_replicate_iff]
  constructor
  · rw [List.length_take, length_blanked]
    exact Nat.min_eq_left hhead
  · intro held hheld
    rw [blanked_eq_map, ← List.map_take] at hheld
    rcases List.mem_map.mp hheld with ⟨position, hposition, heq⟩
    rw [List.take_range] at hposition
    have hless := List.mem_range.mp hposition
    rw [if_pos (hshown position (lt_of_lt_of_le hless (Nat.min_le_left _ _)))] at heq
    exact heq.symm

theorem drop_blanked {list : List item} {shown : List Nat} {head : Nat}
    (hhead : head <= list.length) (hshown : forall position, position < head ->
      position ∈ shown) :
    ((blanked (list.map some) shown).drop head).filter Option.isSome =
      (itemsAt list (unshown list shown)).map some := by
  rw [← filter_blanked]
  conv_rhs => rw [← List.take_append_drop head (blanked (list.map some) shown)]
  rw [List.filter_append, take_blanked hhead hshown]
  have hnone : (List.replicate head (none : Option item)).filter Option.isSome = [] := by
    rw [List.filter_eq_nil_iff]
    intro held hheld
    rw [List.eq_of_mem_replicate hheld]
    exact Bool.false_ne_true
  rw [hnone, List.nil_append]

theorem picked {list : List item} {shown picks : List Nat}
    (hshown : forall position, position ∈ shown -> position < list.length)
    (hpicks : forall pick, pick ∈ picks -> pick < shown.length) :
    (picks.map fun pick =>
      ((shown.map fun position => ((list.map some)[position]?).join)[pick]?).join) =
      (itemsAt list (itemsAt shown picks)).map some := by
  unfold itemsAt
  induction picks with
  | nil => rfl
  | cons pick rest ih =>
      have hthere := hpicks pick List.mem_cons_self
      have hin := hshown shown[pick] (List.getElem_mem hthere)
      rw [List.map_cons, ih fun other hother => hpicks other (List.mem_cons_of_mem _ hother)]
      rw [List.filterMap_cons, List.getElem?_map, List.getElem?_eq_getElem hthere]
      simp [List.getElem?_eq_getElem hin]

theorem length_shown {shown : List Nat} {head : Nat}
    (hhead : shown.filter (fun position => position < head) = List.range head) :
    shown.length = head + (shown.filter fun position => head <= position).length := by
  have hboth := (List.filter_append_perm (fun position => decide (position < head))
    shown).length_eq
  have hbelow : (shown.filter fun position => !decide (position < head)) =
      shown.filter fun position => head <= position := by
    apply List.filter_congr
    intro position _
    rw [← decide_not, decide_eq_decide, Nat.not_lt]
  rw [List.length_append, hhead, List.length_range, hbelow] at hboth
  exact hboth.symm

theorem place_said {list : List item} {shown best_first : List Nat} {head : Nat}
    (hdistinct : shown.Nodup)
    (hshown : forall position, position ∈ shown -> position < list.length)
    (hhead : shown.filter (fun position => position < min head list.length) =
      List.range (min head list.length))
    (hbest : best_first.Perm (List.range shown.length)) :
    place list shown head best_first =
      some (itemsAt list (itemsAt shown best_first ++ unshown list shown)) := by
  have hwhole : forall position, position < min head list.length -> position ∈ shown := by
    intro position hposition
    have hmem := List.mem_range.mpr hposition
    rw [← hhead] at hmem
    exact (List.mem_filter.mp hmem).1
  have hless : min head list.length <= list.length := Nat.min_le_right _ _
  have hlength : best_first.length = min head list.length +
      (shown.filter fun position => min head list.length <= position).length := by
    rw [hbest.length_eq, List.length_range, length_shown hhead]
  have hpicks : forall pick, pick ∈ best_first -> pick < shown.length :=
    fun pick hpick => List.mem_range.mp (hbest.subset hpick)
  have htargets : forall below, List.range (min head list.length) ++
      List.range' (min head list.length) below = List.range' 0 (min head list.length + below) := by
    intro below
    have happend := @List.range'_append_1 0 (min head list.length) below
    rw [Nat.zero_add] at happend
    rw [List.range_eq_range']
    exact happend
  unfold place
  simp only
  rw [takeAll_said hdistinct (by simpa using hshown), Option.bind_some]
  simp only
  rw [take_blanked hless hwhole, drop_blanked hless hwhole, hhead, htargets,
    List.replicate_append_replicate, ← hlength]
  have hrefill := @refill_said item [] ((itemsAt list (unshown list shown)).map some)
    (shown.map fun position => ((list.map some)[position]?).join) best_first
    (hbest.nodup_iff.mpr List.nodup_range) (by simpa using hpicks)
  rw [List.nil_append, List.length_nil] at hrefill
  rw [hrefill, Option.bind_some, List.nil_append, picked hshown hpicks, ← List.map_append,
    unwrapAll_map]
  unfold itemsAt
  rw [List.filterMap_append]

end Moving

section Showing

variable {strength : Type _} [LinearOrder strength] {shared : Binary32 -> Nat -> strength}
  {traces : List (List (Why Binary32))} {head depth : Nat}

theorem eligible_positions (traces : List (List (Why Binary32))) (head : Nat) :
    ((eligible traces head).map Find.position).Sublist ((List.range traces.length).drop head) := by
  unfold eligible
  induction (List.range traces.length).drop head with
  | nil => exact List.Sublist.refl _
  | cons position rest ih =>
      rw [List.filterMap_cons]
      split
      · exact ih.cons position
      · next find hfind =>
          rcases Option.bind_eq_some_iff.mp hfind with ⟨found, _, hfound⟩
          split at hfound
          · cases hfound
            exact ih.cons_cons position
          · cases hfound

theorem finds_said (shared : Binary32 -> Nat -> strength) (traces : List (List (Why Binary32)))
    (head : Nat) : (finds shared traces head).Nodup ∧
      forall position, position ∈ finds shared traces head ->
        head <= position ∧ position < traces.length := by
  have hsub : (finds shared traces head).Subperm ((List.range traces.length).drop head) := by
    have htaken : (finds shared traces head).Sublist
        (((eligible traces head).insertionSort
          (stronger shared (eligible traces head))).map Find.position) :=
      (List.take_sublist _ _).map _
    have hsorted : (((eligible traces head).insertionSort
        (stronger shared (eligible traces head))).map Find.position).Perm
          ((eligible traces head).map Find.position) :=
      (List.perm_insertionSort _ _).map _
    exact (htaken.subperm.trans hsorted.subperm).trans (eligible_positions traces head).subperm
  have hdistinct : ((List.range traces.length).drop head).Nodup :=
    List.nodup_range.sublist (List.drop_sublist _ _)
  constructor
  · rcases hsub with ⟨positions, hperm, hpositions⟩
    exact hperm.nodup_iff.mp (hdistinct.sublist hpositions)
  · intro position hposition
    rcases List.mem_iff_getElem.mp (hsub.subset hposition) with ⟨at', hat, heq⟩
    rw [List.getElem_drop, List.getElem_range] at heq
    rw [List.length_drop, List.length_range] at hat
    omega

theorem rerankable_perm (shared : Binary32 -> Nat -> strength)
    (traces : List (List (Why Binary32))) (depth : Nat) :
    (rerankable shared traces depth).Perm (List.range (min depth traces.length) ++
      finds shared traces (min depth traces.length)) :=
  List.perm_insertionSort _ _

theorem rerankable_nodup (shared : Binary32 -> Nat -> strength)
    (traces : List (List (Why Binary32))) (depth : Nat) :
    (rerankable shared traces depth).Nodup := by
  rw [(rerankable_perm shared traces depth).nodup_iff, List.nodup_append]
  rcases finds_said shared traces (min depth traces.length) with ⟨hdistinct, hbelow⟩
  refine ⟨List.nodup_range, hdistinct, ?_⟩
  intro position hposition other hother heq
  have hless := List.mem_range.mp hposition
  have hat := (hbelow other hother).1
  omega

theorem rerankable_lt {position : Nat} (h : position ∈ rerankable shared traces depth) :
    position < traces.length := by
  rw [(rerankable_perm shared traces depth).mem_iff, List.mem_append] at h
  cases h with
  | inl hhead =>
      have hless := List.mem_range.mp hhead
      omega
  | inr hfind => exact ((finds_said shared traces _).2 position hfind).2

theorem rerankable_sorted (shared : Binary32 -> Nat -> strength)
    (traces : List (List (Why Binary32))) (depth : Nat) :
    (rerankable shared traces depth).Pairwise (· <= ·) :=
  List.pairwise_insertionSort _ _

theorem rerankable_head (shared : Binary32 -> Nat -> strength)
    (traces : List (List (Why Binary32))) (depth : Nat) :
    (rerankable shared traces depth).filter
        (fun position => position < min depth traces.length) =
      List.range (min depth traces.length) := by
  have hperm := (rerankable_perm shared traces depth).filter
    fun position => position < min depth traces.length
  have hhead : (List.range (min depth traces.length)).filter
      (fun position => position < min depth traces.length) =
        List.range (min depth traces.length) := by
    rw [List.filter_eq_self]
    intro position hposition
    exact decide_eq_true (List.mem_range.mp hposition)
  have hbelow : (finds shared traces (min depth traces.length)).filter
      (fun position => position < min depth traces.length) = [] := by
    rw [List.filter_eq_nil_iff]
    intro position hposition hless
    have hat := ((finds_said shared traces _).2 position hposition).1
    have hless' := of_decide_eq_true hless
    omega
  rw [List.filter_append, hhead, hbelow, List.append_nil] at hperm
  have hsorted := (rerankable_sorted shared traces depth).sublist
    (List.filter_sublist (p := fun position => position < min depth traces.length))
  exact hperm.eq_of_pairwise' hsorted List.pairwise_le_range

end Showing

/-!
## What reranking may do to a list
-/

section Reordering

variable {item strength : Type _} [LinearOrder strength]

/--
Where the items of a list go: each once, those not shown in the order they were, those shown
in the model's, none of the head past the places the shown take, and none that the caller is
given when what is shown cannot be seen.
-/
structure Reordered (count head : Nat) (shown best_first order : List Nat) : Prop where
  permutes : order.Perm (List.range count)
  others : order.filter (fun position => position ∉ shown) =
    (List.range count).filter fun position => position ∉ shown
  chosen : order.filter (fun position => position ∈ shown) = itemsAt shown best_first
  bounded : forall position, position < min head count ->
    order.idxOf position < min head count +
      (shown.filter fun position => min head count <= position).length
  unseen : forall limit, canBeSeen shown limit = false ->
    order.take limit = (List.range count).take limit

theorem itemsAt_range (list : List item) :
    itemsAt list (List.range list.length) = list := by
  unfold itemsAt
  induction list with
  | nil => rfl
  | cons first rest ih =>
      rw [List.length_cons, List.range_succ_eq_map, List.filterMap_cons, List.filterMap_map]
      exact congrArg (List.cons first) ih

theorem itemsAt_perm {list : List item} {picks : List Nat}
    (h : picks.Perm (List.range list.length)) : (itemsAt list picks).Perm list := by
  have hperm : (itemsAt list picks).Perm (itemsAt list (List.range list.length)) :=
    h.filterMap fun position => list[position]?
  rw [itemsAt_range] at hperm
  exact hperm

theorem unmoved {count : Nat} {shown best_first : List Nat} (hshown : shown = [0])
    (hbest : best_first.Perm (List.range shown.length)) (hcount : 0 < count) :
    itemsAt shown best_first ++ (List.range count).filter (fun position => position ∉ shown) =
      List.range count := by
  have hfirst : itemsAt shown best_first = [0] := by
    have hperm := itemsAt_perm hbest
    rw [hshown] at hperm ⊢
    exact List.perm_singleton.mp hperm
  rcases Nat.exists_eq_succ_of_ne_zero (Nat.ne_of_gt hcount) with ⟨rest, hrest⟩
  have hlater : ((List.range rest).map Nat.succ).filter (fun position => position ∉ shown) =
      (List.range rest).map Nat.succ := by
    rw [List.filter_eq_self]
    intro position hposition
    rcases List.mem_map.mp hposition with ⟨before, _, heq⟩
    rw [decide_eq_true_eq, hshown, List.mem_singleton, ← heq]
    exact Nat.succ_ne_zero before
  rw [hfirst, hrest, List.range_succ_eq_map, List.filter_cons, if_neg (by rw [hshown]; simp),
    hlater, List.singleton_append]

/-- Placing after choosing what to show is a reordering, whatever the model prefers. -/
theorem reranked_list_is_reordered (shared : Binary32 -> Nat -> strength) (list : List item)
    (why : item -> List (Why Binary32)) (depth : Nat) (hdepth : 1 <= depth)
    (best_first : List Nat)
    (hbest : best_first.Perm (List.range (rerankable shared (list.map why) depth).length)) :
    exists order, place list (rerankable shared (list.map why) depth) depth best_first =
        some (itemsAt list order) ∧
      Reordered list.length depth (rerankable shared (list.map why) depth) best_first order := by
  have hcount : (list.map why).length = list.length := List.length_map _
  have hdistinct := rerankable_nodup shared (list.map why) depth
  have hless : forall position, position ∈ rerankable shared (list.map why) depth ->
      position < list.length := by
    intro position hposition
    rw [← hcount]
    exact rerankable_lt hposition
  have hhead := rerankable_head shared (list.map why) depth
  have hsorted := rerankable_sorted shared (list.map why) depth
  rw [hcount] at hhead
  generalize rerankable shared (list.map why) depth = shown at *
  have hpicked := itemsAt_perm hbest
  have hsplit : ((List.range list.length).filter fun position => position ∈ shown).Perm shown := by
    rw [List.perm_ext_iff_of_nodup (List.nodup_range.filter _) hdistinct]
    intro position
    rw [List.mem_filter, List.mem_range, decide_eq_true_eq]
    exact ⟨And.right, fun hin => ⟨hless position hin, hin⟩⟩
  refine ⟨itemsAt shown best_first ++ unshown list shown,
    place_said hdistinct hless hhead hbest, ?_⟩
  have hchosen : forall position, position ∈ itemsAt shown best_first -> position ∈ shown :=
    fun position hposition => hpicked.subset hposition
  have hothers : forall position, position ∈ unshown list shown -> position ∉ shown :=
    fun position hposition => of_decide_eq_true (List.mem_filter.mp hposition).2
  constructor
  · refine (hpicked.append_right _).trans ((hsplit.symm.append_right _).trans ?_)
    have hboth := List.filter_append_perm (fun position => decide (position ∈ shown))
      (List.range list.length)
    unfold unshown
    simpa using hboth
  · rw [List.filter_append, List.filter_eq_nil_iff.mpr, List.nil_append, List.filter_eq_self.mpr]
    · rfl
    · exact fun position hposition => decide_eq_true (hothers position hposition)
    · intro position hposition hnot
      exact of_decide_eq_true hnot (hchosen position hposition)
  · rw [List.filter_append, List.filter_eq_self.mpr, List.filter_eq_nil_iff.mpr, List.append_nil]
    · intro position hposition hin
      exact hothers position hposition (of_decide_eq_true hin)
    · exact fun position hposition => decide_eq_true (hchosen position hposition)
  · intro position hposition
    have hin : position ∈ shown := by
      have hmem := List.mem_range.mpr hposition
      rw [← hhead] at hmem
      exact (List.mem_filter.mp hmem).1
    have hin' : position ∈ itemsAt shown best_first := hpicked.symm.subset hin
    rw [List.idxOf_append_of_mem hin']
    have hplace := List.idxOf_lt_length_iff.mpr hin'
    rw [hpicked.length_eq, length_shown hhead] at hplace
    exact hplace
  · intro limit hunseen
    cases Nat.eq_zero_or_pos list.length with
    | inl hempty =>
        have hnone : shown = [] := by
          rw [List.eq_nil_iff_forall_not_mem]
          intro position hposition
          have hin := hless position hposition
          omega
        have hnothing : best_first = [] := by
          rw [hnone] at hbest
          exact hbest.eq_nil
        unfold unshown
        rw [hnothing, hempty]
        rfl
    | inr hsome =>
        have hzero : 0 ∈ shown := by
          have hmem := List.mem_range.mpr (Nat.lt_min.mpr ⟨hdepth, hsome⟩)
          rw [← hhead] at hmem
          exact (List.mem_filter.mp hmem).1
        cases shown with
        | nil => cases hzero
        | cons first rest =>
            have hfirst : first = 0 := by
              cases List.mem_cons.mp hzero with
              | inl heq => exact heq.symm
              | inr hrest => exact Nat.le_zero.mp ((List.pairwise_cons.mp hsorted).1 0 hrest)
            unfold canBeSeen at hunseen
            split at hunseen
            · next hfew =>
                have halone : rest = [] := by
                  rw [List.length_cons] at hfew
                  exact List.eq_nil_of_length_eq_zero (by omega)
                have hstays := unmoved (by rw [hfirst, halone]) hbest hsome
                unfold unshown
                rw [hstays]
            · have hlimit : limit = 0 := by
                rw [hfirst] at hunseen
                exact Nat.eq_zero_of_not_pos (of_decide_eq_false hunseen)
              rw [hlimit, List.take_zero, List.take_zero]

def foundBelow (name : String) : List (Why Binary32) :=
  if name = "g" then [Why.channel Channel.graph 1 (some Binary32.one) Binary32.one Binary32.one]
  else [Why.channel Channel.vector 1 none Binary32.one Binary32.one]

theorem reranked_find_is_placed : exists order,
    place ["a", "b", "c", "d", "e", "g"] (rerankable (fun _ count => count)
        (["a", "b", "c", "d", "e", "g"].map foundBelow) 3) 3 [3, 0, 2, 1] =
      some (itemsAt ["a", "b", "c", "d", "e", "g"] order) ∧
    Reordered 6 3 (rerankable (fun _ count => count)
      (["a", "b", "c", "d", "e", "g"].map foundBelow) 3) [3, 0, 2, 1] order :=
  reranked_list_is_reordered (fun _ count => count) ["a", "b", "c", "d", "e", "g"] foundBelow 3
    (by decide) [3, 0, 2, 1] (by decide +kernel)

end Reordering

end Search
end PaminMemory
