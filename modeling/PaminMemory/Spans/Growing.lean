import Mathlib.Algebra.Order.BigOperators.Group.List
import Mathlib.Algebra.Order.Ring.Nat
import PaminMemory.Spans.Packing

/-!
# The window around a span

A hit shows its best span and what fits around it: the run grows one span at a time, from the
nearer side first, and a neighbour that does not fit is passed over for the other one.
-/

namespace PaminMemory
namespace Spans

open Foundation

section Growing

variable (best len : Nat) (fits : Nat -> Nat -> Bool)

def extended (first last : Nat) : List (Nat × Nat) :=
  let before := if 0 < first then [(first - 1, last)] else []
  let after := if last + 1 < len then [(first, last + 1)] else []
  if best - first <= last - best then before ++ after else after ++ before

theorem mem_extended {first last : Nat} {run : Nat × Nat} :
    run ∈ extended best len first last <->
      (0 < first ∧ run = (first - 1, last)) ∨ (last + 1 < len ∧ run = (first, last + 1)) := by
  unfold extended
  rcases Decidable.em (best - first <= last - best) with hnear | hfar
  · rw [if_pos hnear]
    simp only [List.mem_append, List.mem_ite_nil_right, List.mem_singleton]
  · rw [if_neg hfar]
    simp only [List.mem_append, List.mem_ite_nil_right, List.mem_singleton]
    exact Or.comm

def growFrom (first last : Nat) : Nat × Nat :=
  match _h : (extended best len first last).find? fun run => fits run.1 run.2 with
  | some run => growFrom run.1 run.2
  | none => (first, last)
termination_by first + (len - last)
decreasing_by
  rcases (mem_extended best len).mp (List.mem_of_find?_eq_some _h) with
    ⟨hfirst, rfl⟩ | ⟨hlast, rfl⟩
  · exact Nat.add_lt_add_right (Nat.sub_one_lt_of_lt hfirst) _
  · exact Nat.add_lt_add_left
      (Nat.sub_lt_sub_left (Nat.lt_of_succ_lt hlast) (Nat.lt_succ_self last)) _

def grow : Nat × Nat := growFrom best len fits best best

structure Growing (run : Nat × Nat) : Prop where
  first : run.1 <= best
  last : best <= run.2
  inside : run.2 < len
  room : run ≠ (best, best) -> fits run.1 run.2 = true

/-- A run that neither of its neighbours fits with. -/
structure Grown (run : Nat × Nat) : Prop extends Growing best len fits run where
  before : 0 < run.1 -> fits (run.1 - 1) run.2 = false
  after : run.2 + 1 < len -> fits run.1 (run.2 + 1) = false

end Growing

section Grown

variable {best len : Nat} {fits : Nat -> Nat -> Bool} {first last : Nat} {run : Nat × Nat}

theorem growing_extended (h : Growing best len fits (first, last))
    (hrun : run ∈ extended best len first last) (hfits : fits run.1 run.2 = true) :
    Growing best len fits run := by
  rcases (mem_extended best len).mp hrun with ⟨_, rfl⟩ | ⟨hlast, rfl⟩
  · exact
      { first := Nat.le_trans (Nat.sub_le first 1) h.first
        last := h.last
        inside := h.inside
        room := fun _ => hfits }
  · exact
      { first := h.first
        last := Nat.le_succ_of_le h.last
        inside := hlast
        room := fun _ => hfits }

theorem grown_of_none (h : Growing best len fits (first, last))
    (hnone : (extended best len first last).find? (fun run => fits run.1 run.2) = none) :
    Grown best len fits (first, last) := by
  have hrefused : forall run, run ∈ extended best len first last ->
      fits run.1 run.2 = false := by
    intro run hrun
    exact Bool.eq_false_iff.mpr (List.find?_eq_none.mp hnone run hrun)
  exact
    { h with
      before := fun hfirst => hrefused _ ((mem_extended best len).mpr (Or.inl ⟨hfirst, rfl⟩))
      after := fun hlast => hrefused _ ((mem_extended best len).mpr (Or.inr ⟨hlast, rfl⟩)) }

theorem grown_growFrom (h : Growing best len fits (first, last)) :
    Grown best len fits (growFrom best len fits first last) := by
  induction first, last using growFrom.induct best len fits with
  | case1 first last run hfound ih =>
      unfold growFrom
      split
      · next other hother =>
          rw [hfound] at hother
          cases hother
          have hfits := List.find?_some hfound
          exact ih (growing_extended h (List.mem_of_find?_eq_some hfound) hfits)
      · next hnone =>
          rw [hfound] at hnone
          cases hnone
  | case2 first last hnone =>
      unfold growFrom
      split
      · next other hother =>
          rw [hnone] at hother
          cases hother
      · exact grown_of_none h hnone

theorem growing_alone (fits : Nat -> Nat -> Bool) (hbest : best < len) :
    Growing best len fits (best, best) :=
  { first := Nat.le_refl best
    last := Nat.le_refl best
    inside := hbest
    room := fun hne => absurd rfl hne }

/-- The run holds the best span, fits if it is more than that, and could take neither neighbour. -/
theorem grow_grown (best len : Nat) (fits : Nat -> Nat -> Bool) (hbest : best < len) :
    Grown best len fits (grow best len fits) :=
  grown_growFrom (growing_alone fits hbest)

theorem grow_grown_third : 2 < 5 ∧ Grown 2 5 (fun first last => last - first <= 2)
    (grow 2 5 fun first last => last - first <= 2) :=
  ⟨by decide, grow_grown 2 5 _ (by decide)⟩

end Grown

/-!
## Asking what may panic
-/

section Asking

variable (best len : Nat) (asks : Nat -> Nat -> Option Bool)

/-- `growFrom` where asking whether a run fits may panic; `fuel` runs are enough. -/
def growAskingFrom : Nat -> Nat -> Nat -> Option (Nat × Nat)
  | 0, first, last => some (first, last)
  | fuel + 1, first, last => do
      match <- (extended best len first last).findM? fun run => asks run.1 run.2 with
      | some run => growAskingFrom fuel run.1 run.2
      | none => some (first, last)

def growAsking : Option (Nat × Nat) := growAskingFrom best len asks len best best

end Asking

section Asked

variable {best len : Nat} {asks : Nat -> Nat -> Option Bool} {fits : Nat -> Nat -> Bool}
  {first last : Nat}

theorem findM?_of_some {runs : List (Nat × Nat)}
    (h : forall run, run ∈ runs -> asks run.1 run.2 = some (fits run.1 run.2)) :
    (runs.findM? fun run => asks run.1 run.2) =
      some (runs.find? fun run => fits run.1 run.2) := by
  induction runs with
  | nil => rfl
  | cons run rest ih =>
      have hrest := ih fun other hother => h other (List.mem_cons_of_mem _ hother)
      rw [List.findM?, h run (List.mem_cons_self ..), List.find?_cons, hrest]
      cases fits run.1 run.2 with
      | true => rfl
      | false => rfl

theorem growAskingFrom_eq (h : Growing best len fits (first, last))
    (hasks : forall first last, first <= last -> last < len ->
      asks first last = some (fits first last)) {fuel : Nat}
    (hfuel : first + (len - last) <= fuel) :
    growAskingFrom best len asks fuel first last = some (growFrom best len fits first last) := by
  induction fuel generalizing first last with
  | zero => exact absurd h.inside (by dsimp only; omega)
  | succ fuel ih =>
      have hinside : forall run, run ∈ extended best len first last ->
          run.1 <= run.2 ∧ run.2 < len ∧ run.1 + (len - run.2) < first + (len - last) := by
        have hfirst := h.first
        have hlast := h.last
        have hin := h.inside
        dsimp only at hfirst hlast hin
        rintro run hrun
        rcases (mem_extended best len).mp hrun with ⟨hmore, rfl⟩ | ⟨hmore, rfl⟩
        · dsimp only
          omega
        · dsimp only
          omega
      unfold growAskingFrom growFrom
      rw [findM?_of_some fun run hrun => hasks _ _ (hinside run hrun).1 (hinside run hrun).2.1]
      rw [Option.bind_eq_bind, Option.bind_some]
      split
      · next run hfound =>
          have hrun := List.mem_of_find?_eq_some hfound
          have hsmaller := (hinside run hrun).2.2
          split
          · next other hother =>
              rw [hfound] at hother
              cases hother
              have hfits := List.find?_some hfound
              exact ih (growing_extended h hrun hfits) (by omega)
          · next hnone =>
              rw [hfound] at hnone
              cases hnone
      · next hnone =>
          split
          · next other hother =>
              rw [hnone] at hother
              cases hother
          · rfl

theorem growAsking_grown (hbest : best < len) (hasks : forall first last, first <= last ->
    last < len -> (asks first last).isSome = true) :
    exists run, growAsking best len asks = some run ∧
      exists fits, Grown best len fits run := by
  have hfits : forall first last, first <= last -> last < len ->
      asks first last = some ((asks first last).getD false) := by
    intro first last hrun hlast
    rcases Option.isSome_iff_exists.mp (hasks first last hrun hlast) with ⟨answer, hanswer⟩
    rw [hanswer]
    rfl
  have halone := growing_alone (fun first last => (asks first last).getD false) hbest
  refine ⟨_, growAskingFrom_eq halone hfits (by omega), _, grown_growFrom halone⟩

end Asked

/-!
## The window of a hit
-/

structure SpanView where
  /-- The span asked about. -/
  ordinal : Nat
  /-- How many spans the memory is cut into, as a number of 32 bits. -/
  of : Nat
  header : List Char
  range : Stretch
deriving DecidableEq, Repr

/-- The spans of a run; none where the source panics. -/
def spansOf (spans : List Span) (first last : Nat) : Option (List Span) :=
  if first <= last + 1 ∧ last < spans.length then
    some ((spans.take (last + 1)).drop first)
  else
    none

def fitsTokens (spans : List Span) (tokens first last : Nat) : Option Bool :=
  (spansOf spans first last).map fun run => decide ((run.map Span.tokens).sum <= tokens)

/-- A span and as many either side as fit with it in `tokens`, if there is such a span; no answer
where the source panics. -/
def SpanView.within (spans : List Span) (ordinal tokens : Nat) : Option (Option SpanView) :=
  match spans[ordinal]? with
  | none => some none
  | some _ => do
      let run <- growAsking ordinal spans.length (fitsTokens spans tokens)
      let first <- spans[run.1]?
      let last <- spans[run.2]?
      some (some
        { ordinal := ordinal
          of := spans.length % 2 ^ 32
          header := first.header
          range := { start := first.range.start, stop := last.range.stop } })

section Within

variable {spans : List Span} {ordinal tokens : Nat}

theorem spansOf_some {first last : Nat} (hrun : first <= last) (hlast : last < spans.length) :
    spansOf spans first last = some ((spans.take (last + 1)).drop first) :=
  if_pos ⟨Nat.le_succ_of_le hrun, hlast⟩

theorem within_some (spans : List Span) (ordinal tokens : Nat) :
    exists shown, SpanView.within spans ordinal tokens = some shown ∧
      forall view, shown = some view ->
        exists (run : Nat × Nat) (first last : Span), run.1 <= run.2 ∧
          spans[run.1]? = some first ∧ spans[run.2]? = some last ∧
          view.range = { start := first.range.start, stop := last.range.stop } := by
  unfold SpanView.within
  cases hspan : spans[ordinal]? with
  | none => exact ⟨none, rfl, fun view hview => nomatch hview⟩
  | some span =>
      have hordinal : ordinal < spans.length := (List.getElem?_eq_some_iff.mp hspan).1
      rcases @growAsking_grown ordinal spans.length (fitsTokens spans tokens) hordinal (by
        intro first last hrun hlast
        unfold fitsTokens
        rw [spansOf_some hrun hlast]
        rfl) with ⟨run, hrun, fits, hgrown⟩
      have horder : run.1 <= run.2 := Nat.le_trans hgrown.first hgrown.last
      have hlast := List.getElem?_eq_getElem hgrown.inside
      have hfirst := List.getElem?_eq_getElem (Nat.lt_of_le_of_lt horder hgrown.inside)
      dsimp only
      rw [hrun, Option.bind_eq_bind, Option.bind_some, hfirst, Option.bind_eq_bind,
        Option.bind_some, hlast, Option.bind_some]
      refine ⟨_, rfl, ?_⟩
      intro view hview
      cases hview
      exact ⟨run, _, _, horder, hfirst, hlast, rfl⟩

end Within

end Spans
end PaminMemory
