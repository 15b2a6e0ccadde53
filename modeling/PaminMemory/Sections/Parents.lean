import Mathlib.Logic.Relation
import PaminMemory.Foundation.Splits
import PaminMemory.Ingest.Names

/-!
# What a section is part of

A section sits under the first section of the nearest heading above its own that has one
before it, and otherwise under the first section of the file.
-/

namespace PaminMemory
namespace Sections

open Foundation Ingest

def above (path : String) : Option String :=
  (rsplitOnce SEPARATOR path.toList).map fun split => String.ofList split.1

def firstBefore (bases : List String) (place : Nat) (path : String) : Option Nat :=
  (bases.idxOf? path).filter fun parent => parent < place

def climb (bases : List String) (place : Nat) : Nat -> String -> Option Nat
  | 0, _ => none
  | fuel + 1, path =>
      match above path with
      | none => none
      | some rest =>
          match firstBefore bases place rest with
          | some parent => some parent
          | none => climb bases place fuel rest

/-- What a section is part of, with the section; nothing for the first. -/
def parentOf (bases : List String) : String × Nat -> Option (Nat × Nat)
  | (base, place) =>
      match climb bases place base.length base with
      | some parent => some (place, parent)
      | none => if place ≠ 0 then some (place, 0) else none

/-- The section each of one file's sections sits under, given in file order by their bases. -/
def parents (bases : List String) : List (Nat × Nat) :=
  bases.zipIdx.filterMap (parentOf bases)

/-!
## Paths around a path
-/

/-- A path is another without its last heading: what comes before its last separator. -/
structure Above (path base : String) : Prop where
  headed : exists heading, base.toList = path.toList ++ SEPARATOR ++ heading
  last : forall before rest, base.toList = before ++ SEPARATOR ++ rest ->
    before.length <= path.length

inductive Encloses : String -> String -> Prop where
  | above {path base : String} (h : Above path base) : Encloses path base
  | further {path middle base : String} (h : Above middle base)
      (hrest : Encloses path middle) : Encloses path base

def FirstOf (bases : List String) (path : String) (parent : Nat) : Prop :=
  bases[parent]? = some path ∧ path ∉ bases.take parent

structure Nearest (bases : List String) (base : String) (place : Nat) (path : String)
    (parent : Nat) : Prop where
  encloses : Encloses path base
  first : FirstOf bases path parent
  before : parent < place
  nearest : forall nearer, Encloses nearer base -> path.length < nearer.length ->
    nearer ∉ bases.take place

/-- Where a section belongs: the first section of the nearest such path, or section 0. -/
def Belongs (bases : List String) (place parent : Nat) : Prop :=
  exists base, bases[place]? = some base ∧
    ((exists path, Nearest bases base place path parent) ∨
      parent = 0 ∧ forall path, Encloses path base -> path ∉ bases.take place)

section Climbing

variable {bases : List String} {path base : String} {place parent fuel : Nat}

theorem separator_ne_nil : SEPARATOR ≠ [] := by
  decide

theorem Above.shorter (h : Above path base) : path.length < base.length := by
  rcases h.headed with ⟨heading, hheading⟩
  have hlength := congrArg List.length hheading
  have hseparator : 0 < SEPARATOR.length := List.length_pos_of_ne_nil separator_ne_nil
  rw [List.length_append, List.length_append, String.length_toList, String.length_toList] at hlength
  omega

theorem Above.unique {other : String} (h : Above path base) (hother : Above other base) :
    path = other := by
  rcases h.headed with ⟨heading, hheading⟩
  rcases hother.headed with ⟨heading', hheading'⟩
  have hle := hother.last path.toList heading hheading
  have hge := h.last other.toList heading' hheading'
  rw [String.length_toList] at hle hge
  have hsame : path.toList.length = other.toList.length := by
    rw [String.length_toList, String.length_toList]
    exact Nat.le_antisymm hle hge
  rw [hheading, List.append_assoc, List.append_assoc] at hheading'
  exact String.toList_inj.mp (List.append_inj_left hheading' hsame)

theorem above_of_some (h : above base = some path) : Above path base := by
  rcases Option.map_eq_some_iff.mp h with ⟨⟨before, after⟩, hsplit, hpath⟩
  constructor
  · exists after
    rw [← hpath, String.toList_ofList]
    exact eq_of_rsplitOnce hsplit
  · intro other rest hrest
    rw [← hpath, String.length_ofList]
    exact last_of_rsplitOnce separator_ne_nil hsplit hrest

theorem not_above_of_none (h : above base = none) : ¬Above path base := by
  intro habove
  rcases habove.headed with ⟨heading, hheading⟩
  exact not_found_of_rsplitOnce separator_ne_nil (Option.map_eq_none_iff.mp h) _ _ hheading

theorem Encloses.shorter (h : Encloses path base) : path.length < base.length := by
  induction h with
  | above h => exact h.shorter
  | further h _ ih => exact Nat.lt_trans ih h.shorter

theorem Encloses.cases_above {middle : String} (h : Encloses path base)
    (habove : Above middle base) : path = middle ∨ Encloses path middle := by
  cases h with
  | above h => exact Or.inl (h.unique habove)
  | further h hrest =>
      rw [h.unique habove] at hrest
      exact Or.inr hrest

theorem not_encloses_of_none (h : above base = none) : ¬Encloses path base := by
  intro hencloses
  cases hencloses with
  | above habove => exact not_above_of_none h habove
  | further habove _ => exact not_above_of_none h habove

theorem firstOf_iff : bases.idxOf? path = some parent <-> FirstOf bases path parent := by
  rw [List.idxOf?_eq_some_iff]
  constructor
  · rintro ⟨hlt, hthere, hfirst⟩
    constructor
    · rw [List.getElem?_eq_getElem hlt, hthere]
    · intro hmem
      rcases List.mem_take_iff_getElem.mp hmem with ⟨earlier, hearlier, heq⟩
      exact hfirst earlier (Nat.lt_of_lt_of_le hearlier (Nat.min_le_left _ _)) heq
  · rintro ⟨hthere, hfirst⟩
    rcases List.getElem?_eq_some_iff.mp hthere with ⟨hlt, heq⟩
    refine ⟨hlt, heq, ?_⟩
    intro earlier hearlier hsame
    exact hfirst (List.mem_take_iff_getElem.mpr
      ⟨earlier, Nat.lt_min.mpr ⟨hearlier, Nat.lt_trans hearlier hlt⟩, hsame⟩)

theorem firstBefore_eq_some (h : firstBefore bases place path = some parent) :
    FirstOf bases path parent ∧ parent < place := by
  rcases Option.filter_eq_some_iff.mp h with ⟨hfirst, hbefore⟩
  exact ⟨firstOf_iff.mp hfirst, of_decide_eq_true hbefore⟩

theorem not_mem_of_firstBefore (h : firstBefore bases place path = none) :
    path ∉ bases.take place := by
  intro hmem
  rcases List.mem_take_iff_getElem.mp hmem with ⟨found, hfound, heq⟩
  cases hfirst : bases.idxOf? path with
  | none => exact List.idxOf?_eq_none_iff.mp hfirst (heq ▸ List.getElem_mem _)
  | some parent =>
      have hfirstOf := firstOf_iff.mp hfirst
      have hle : parent ≤ found := by
        by_contra hlater
        exact hfirstOf.2 (List.mem_take_iff_getElem.mpr ⟨found,
          Nat.lt_min.mpr ⟨Nat.lt_of_not_le hlater, (Nat.lt_min.mp hfound).2⟩, heq⟩)
      have hbefore : parent < place := Nat.lt_of_le_of_lt hle (Nat.lt_min.mp hfound).1
      rw [firstBefore, hfirst, Option.filter_some, if_pos (decide_eq_true hbefore)] at h
      cases h

theorem nearest_of_climb (h : climb bases place fuel base = some parent) :
    exists path, Nearest bases base place path parent := by
  induction fuel generalizing base with
  | zero => cases h
  | succ fuel ih =>
      cases habove : above base with
      | none => simp [climb, habove] at h
      | some rest =>
          cases hfirst : firstBefore bases place rest with
          | some found =>
              simp only [climb, habove, hfirst, Option.some.injEq] at h
              rw [h] at hfirst
              rcases firstBefore_eq_some hfirst with ⟨hfirstOf, hbefore⟩
              have hrest : Above rest base := above_of_some habove
              refine ⟨rest, Encloses.above hrest, hfirstOf, hbefore, ?_⟩
              intro nearer hnearer hlonger
              rcases hnearer.cases_above hrest with rfl | hfurther
              · exact absurd hlonger (Nat.lt_irrefl _)
              · exact absurd hlonger (Nat.lt_asymm hfurther.shorter)
          | none =>
              simp only [climb, habove, hfirst] at h
              rcases ih h with ⟨path, hnearest⟩
              have hrest : Above rest base := above_of_some habove
              refine ⟨path, Encloses.further hrest hnearest.encloses, hnearest.first,
                hnearest.before, ?_⟩
              intro nearer hnearer hlonger
              rcases hnearer.cases_above hrest with rfl | hfurther
              · exact not_mem_of_firstBefore hfirst
              · exact hnearest.nearest nearer hfurther hlonger

theorem none_before_of_climb (hfuel : base.length ≤ fuel)
    (h : climb bases place fuel base = none) (hencloses : Encloses path base) :
    path ∉ bases.take place := by
  induction fuel generalizing base with
  | zero => exact absurd (Nat.lt_of_lt_of_le hencloses.shorter hfuel) (Nat.not_lt_zero _)
  | succ fuel ih =>
      cases habove : above base with
      | none => exact absurd hencloses (not_encloses_of_none habove)
      | some rest =>
          cases hfirst : firstBefore bases place rest with
          | some found => simp [climb, habove, hfirst] at h
          | none =>
              simp only [climb, habove, hfirst] at h
              have hrest : Above rest base := above_of_some habove
              rcases hencloses.cases_above hrest with rfl | hfurther
              · exact not_mem_of_firstBefore hfirst
              · have hshorter := Nat.lt_of_lt_of_le hrest.shorter hfuel
                exact ih (Nat.le_of_lt_succ hshorter) h hfurther

end Climbing

/-!
## The pairs
-/

section Pairs

variable {bases : List String} {base : String} {place child parent : Nat}

theorem parentOf_zero : parentOf bases (base, 0) = none := by
  cases hclimb : climb bases 0 base.length base with
  | none => simp [parentOf, hclimb]
  | some parent =>
      rcases nearest_of_climb hclimb with ⟨path, hnearest⟩
      exact absurd hnearest.before (Nat.not_lt_zero _)

theorem parentOf_pos (hplace : place ≠ 0) :
    exists parent, parentOf bases (base, place) = some (place, parent) := by
  cases hclimb : climb bases place base.length base with
  | none => exact ⟨0, by simp [parentOf, hclimb, hplace]⟩
  | some parent => exact ⟨parent, by simp [parentOf, hclimb]⟩

theorem parentOf_eq_some (hbase : bases[place]? = some base)
    (h : parentOf bases (base, place) = some (child, parent)) :
    child = place ∧ parent < place ∧ Belongs bases place parent := by
  cases hclimb : climb bases place base.length base with
  | some found =>
      simp only [parentOf, hclimb, Option.some.injEq, Prod.mk.injEq] at h
      rcases nearest_of_climb hclimb with ⟨path, hnearest⟩
      rw [h.2] at hnearest
      exact ⟨h.1.symm, hnearest.before, base, hbase, Or.inl ⟨path, hnearest⟩⟩
  | none =>
      simp only [parentOf, hclimb, Option.ite_none_right_eq_some, Option.some.injEq, Prod.mk.injEq] at h
      rcases h with ⟨hplace, hchild, hparent⟩
      rw [← hparent]
      refine ⟨hchild.symm, Nat.pos_of_ne_zero hplace, base, hbase, Or.inr ⟨rfl, ?_⟩⟩
      intro path hencloses
      exact none_before_of_climb (Nat.le_refl _) hclimb hencloses

theorem mem_parents (h : (child, parent) ∈ parents bases) :
    parent < child ∧ Belongs bases child parent := by
  rcases List.mem_filterMap.mp h with ⟨⟨base, place⟩, hentry, hparent⟩
  have hbase : bases[place]? = some base := List.mem_zipIdx_iff_getElem?.mp hentry
  rcases parentOf_eq_some hbase hparent with ⟨rfl, hbefore, hbelongs⟩
  exact ⟨hbefore, hbelongs⟩

theorem children_from (rest : List String) (hplace : place ≠ 0) :
    ((rest.zipIdx place).filterMap (parentOf bases)).map Prod.fst =
      List.range' place rest.length := by
  induction rest generalizing place with
  | nil => rfl
  | cons base rest ih =>
      have hpair : exists parent, parentOf bases (base, place) = some (place, parent) :=
        parentOf_pos hplace
      rcases hpair with ⟨parent, hparent⟩
      rw [List.zipIdx_cons, List.filterMap_cons_some hparent, List.map_cons,
        ih (Nat.succ_ne_zero place), List.length_cons, List.range'_succ]

theorem children_eq (bases : List String) :
    (parents bases).map Prod.fst = List.range' 1 (bases.length - 1) := by
  cases bases with
  | nil => rfl
  | cons base rest =>
      rw [parents, List.zipIdx_cons, List.filterMap_cons_none parentOf_zero,
        children_from rest (Nat.succ_ne_zero 0), List.length_cons, Nat.add_sub_cancel]

def Under (bases : List String) (child parent : Nat) : Prop := (child, parent) ∈ parents bases

theorem lt_of_under (h : Relation.TransGen (Under bases) child parent) : parent < child := by
  induction h with
  | single h => exact (mem_parents h).1
  | tail _ h ih => exact Nat.lt_trans (mem_parents h).1 ih

theorem rooted_of_lt (hplace : place < bases.length) :
    Relation.ReflTransGen (Under bases) place 0 := by
  induction place using Nat.strongRecOn with
  | ind place ih =>
      cases place with
      | zero => exact Relation.ReflTransGen.refl
      | succ below =>
          have hchild : below + 1 ∈ (parents bases).map Prod.fst := by
            rw [children_eq, List.mem_range'_1]
            omega
          rcases List.mem_map.mp hchild with ⟨⟨child, parent⟩, hmem, hsame⟩
          cases hsame
          have hbefore := (mem_parents hmem).1
          exact Relation.ReflTransGen.head hmem
            (ih parent hbefore (Nat.lt_trans hbefore hplace))

end Pairs

/-- The sections of a file, each under its parent: a tree with the first at its root. -/
structure Tree (bases : List String) : Prop where
  children : (parents bases).map Prod.fst = List.range' 1 (bases.length - 1)
  before : forall child parent, Under bases child parent -> parent < child
  belongs : forall child parent, Under bases child parent -> Belongs bases child parent
  acyclic : forall place, ¬Relation.TransGen (Under bases) place place
  rooted : forall place, place < bases.length -> Relation.ReflTransGen (Under bases) place 0

/--
Every section but the first has one pair, its parent is before it and is the first section of
the nearest path around its own that occurs before it, and the first section where there is
none; so the sections form a tree.
-/
theorem parents_form_tree (bases : List String) : Tree bases where
  children := children_eq bases
  before _ _ h := (mem_parents h).1
  belongs _ _ h := (mem_parents h).2
  acyclic _ h := absurd (lt_of_under h) (Nat.lt_irrefl _)
  rooted _ h := rooted_of_lt h

example : parents ["f.md", "f.md › A", "f.md › A › B › C", "f.md › A › B", "f.md › D › E"] =
    [(1, 0), (2, 1), (3, 1), (4, 0)] := by
  decide +kernel

end Sections
end PaminMemory
