import Mathlib.Algebra.BigOperators.Group.List.Basic
import Mathlib.Algebra.Order.Monoid.Defs
import Mathlib.Data.List.Infix

/-!
# Cutting into weighted pieces

A whole is cut into pieces, each of some weight.  The best cutting of it ends with a piece before
which it is cut best, so the best is found by trying how it can end, from the shortest beginning
on.
-/

namespace PaminMemory
namespace Foundation

variable {α κ : Type}

def Piece (allowed : List α -> Prop) (text : List α) : Prop := text ≠ [] ∧ allowed text

/-- The pieces make up the whole, in order. -/
structure Cuts (allowed : List α -> Prop) (whole : List α) (pieces : List (List α)) : Prop where
  whole : pieces.flatten = whole
  pieces : forall text, text ∈ pieces -> Piece allowed text

structure Ends (allowed : List α -> Prop) (whole : List α) (place : Nat) (before last : List α)
    (pieces : List (List α)) : Prop where
  joined : before ++ last = whole
  starts : before.length < place
  piece : Piece allowed last
  cuts : Cuts allowed before pieces

section Cuts

variable {allowed : List α -> Prop} {whole before last : List α} {pieces : List (List α)}

theorem cuts_nil : Cuts allowed [] ([] : List (List α)) where
  whole := rfl
  pieces := fun _ h => nomatch h

theorem Cuts.snoc (h : Cuts allowed before pieces) (hlast : Piece allowed last) :
    Cuts allowed (before ++ last) (pieces ++ [last]) where
  whole := by rw [List.flatten_append, h.whole, List.flatten_singleton]
  pieces := by
    intro text htext
    rcases List.mem_append.mp htext with hearlier | hnow
    · exact h.pieces text hearlier
    · rw [List.mem_singleton.mp hnow]
      exact hlast

theorem Cuts.eq_nil (h : Cuts allowed [] pieces) : pieces = [] := by
  cases pieces with
  | nil => rfl
  | cons first rest =>
      have hwhole := h.whole
      rw [List.flatten_cons] at hwhole
      exact absurd (List.append_eq_nil_iff.mp hwhole).1 (h.pieces first List.mem_cons_self).1

theorem Cuts.init (h : Cuts allowed whole (pieces ++ [last])) :
    pieces.flatten ++ last = whole ∧ Piece allowed last ∧ Cuts allowed pieces.flatten pieces := by
  refine ⟨?_, h.pieces last (List.mem_append_right _ List.mem_cons_self), rfl, ?_⟩
  · rw [← h.whole, List.flatten_append, List.flatten_singleton]
  · exact fun text htext => h.pieces text (List.mem_append_left _ htext)

theorem Cuts.ends {place : Nat} (h : Cuts allowed whole pieces) (hwhole : whole ≠ [])
    (hplace : whole.length <= place) :
    exists before last more, pieces = more ++ [last] ∧
      Ends allowed whole place before last more := by
  rcases List.eq_nil_or_concat' pieces with rfl | ⟨more, last, rfl⟩
  · exact absurd h.whole.symm hwhole
  · rcases h.init with ⟨hparts, hlast, hmore⟩
    refine ⟨more.flatten, last, more, rfl, hparts, ?_, hlast, hmore⟩
    rw [← hparts, List.length_append] at hplace
    exact Nat.lt_of_lt_of_le (Nat.lt_add_of_pos_right (List.length_pos_iff.mpr hlast.1)) hplace

end Cuts

/-!
## The best cutting
-/

section Weights

variable [AddCommMonoid κ]

def total (weight : List α -> κ) (pieces : List (List α)) : κ := (pieces.map weight).sum

@[simp] theorem total_nil {weight : List α -> κ} : total weight ([] : List (List α)) = 0 := rfl

theorem total_snoc {weight : List α -> κ} (pieces : List (List α)) (last : List α) :
    total weight (pieces ++ [last]) = total weight pieces + weight last := by
  unfold total
  rw [List.map_append, List.sum_append, List.map_cons, List.map_nil, List.sum_singleton]

variable [PartialOrder κ]

structure Most (allowed : List α -> Prop) (weight : List α -> κ) (whole : List α) (score : κ) :
    Prop where
  reached : exists pieces, Cuts allowed whole pieces ∧ total weight pieces = score
  most : forall pieces, Cuts allowed whole pieces -> total weight pieces <= score

/-- Of the ways to end a cutting whose last piece starts before a place, the best, and of those as
good the one whose last piece starts first. -/
structure Leads (allowed : List α -> Prop) (weight : List α -> κ) (whole : List α) (place : Nat)
    (before last : List α) (score : κ) : Prop where
  joined : before ++ last = whole
  starts : before.length < place
  piece : Piece allowed last
  reached : exists most, Most allowed weight before most ∧ most + weight last = score
  most : forall before' last' pieces, Ends allowed whole place before' last' pieces ->
    total weight pieces + weight last' <= score
  first : forall before' last' pieces, Ends allowed whole place before' last' pieces ->
    total weight pieces + weight last' = score -> before.length <= before'.length

/-- A best cutting, each piece of which starts as early as it can before what comes after it. -/
structure Chosen (allowed : List α -> Prop) (weight : List α -> κ) (whole : List α)
    (pieces : List (List α)) : Prop where
  cuts : Cuts allowed whole pieces
  most : forall others, Cuts allowed whole others -> total weight others <= total weight pieces
  earliest : forall earlier text later, pieces = earlier ++ text :: later ->
    forall others other, Cuts allowed (earlier ++ [text]).flatten (others ++ [other]) ->
      total weight (others ++ [other]) = total weight (earlier ++ [text]) ->
        other.length <= text.length

variable {allowed : List α -> Prop} {weight : List α -> κ} {whole before last : List α}
  {pieces : List (List α)} {place : Nat} {score here : κ}

theorem most_nil : Most allowed weight [] 0 where
  reached := ⟨[], cuts_nil, rfl⟩
  most := by
    intro pieces hpieces
    rw [hpieces.eq_nil, total_nil]

theorem Most.eq_of_most {other : κ} (h : Most allowed weight whole score)
    (hother : Most allowed weight whole other) : score = other := by
  rcases h.reached with ⟨pieces, hpieces, rfl⟩
  rcases hother.reached with ⟨others, hothers, rfl⟩
  exact le_antisymm (hother.most pieces hpieces) (h.most others hothers)

theorem chosen_nil : Chosen allowed weight [] [] where
  cuts := cuts_nil
  most := by
    intro others hothers
    rw [hothers.eq_nil]
  earliest := by
    intro earlier text later hparts
    exact absurd hparts.symm (List.append_ne_nil_of_right_ne_nil _ (List.cons_ne_nil _ _))

theorem Chosen.most_whole (h : Chosen allowed weight whole pieces) :
    Most allowed weight whole (total weight pieces) where
  reached := ⟨pieces, h.cuts, rfl⟩
  most := h.most

theorem Leads.most_whole (h : Leads allowed weight whole place before last score)
    (hplace : whole.length <= place) : Most allowed weight whole score where
  reached := by
    rcases h.reached with ⟨most, hmost, hscore⟩
    rcases hmost.reached with ⟨pieces, hpieces, htotal⟩
    refine ⟨pieces ++ [last], h.joined ▸ hpieces.snoc h.piece, ?_⟩
    rw [total_snoc, htotal, hscore]
  most := by
    intro pieces hpieces
    have hne : whole ≠ [] := by
      rw [← h.joined]
      exact List.append_ne_nil_of_right_ne_nil before h.piece.1
    rcases hpieces.ends hne hplace with ⟨before', last', more, rfl, hends⟩
    rw [total_snoc]
    exact h.most before' last' more hends

theorem Chosen.snoc (h : Chosen allowed weight before pieces)
    (hleads : Leads allowed weight whole place before last score)
    (hplace : whole.length <= place) : Chosen allowed weight whole (pieces ++ [last]) := by
  have hscore : total weight (pieces ++ [last]) = score := by
    rcases hleads.reached with ⟨most, hmost, rfl⟩
    rw [total_snoc, h.most_whole.eq_of_most hmost]
  refine
    { cuts := hleads.joined ▸ h.cuts.snoc hleads.piece
      most := ?_
      earliest := ?_ }
  · rw [hscore]
    exact (hleads.most_whole hplace).most
  · intro earlier text later hparts others other hcuts htotal
    rcases List.eq_nil_or_concat' later with rfl | ⟨more, final, rfl⟩
    · rcases List.append_inj' hparts rfl with ⟨rfl, hlast⟩
      cases hlast
      have hwhole : (pieces ++ [last]).flatten = whole := by
        rw [List.flatten_append, h.cuts.whole, List.flatten_singleton, hleads.joined]
      rw [hwhole] at hcuts
      rcases hcuts.init with ⟨hsame, hother, hothers⟩
      have hbefore : others.flatten.length < place := by
        rw [← hsame, List.length_append] at hplace
        exact Nat.lt_of_lt_of_le (Nat.lt_add_of_pos_right (List.length_pos_iff.mpr hother.1)) hplace
      rw [hscore, total_snoc] at htotal
      have hfirst := hleads.first _ _ _ ⟨hsame, hbefore, hother, hothers⟩ htotal
      have hlengths := congrArg List.length (hsame.trans hleads.joined.symm)
      rw [List.length_append, List.length_append] at hlengths
      omega
    · rw [← List.cons_append, ← List.append_assoc] at hparts
      exact h.earliest earlier text more (List.append_inj' hparts rfl).1 others other hcuts htotal

/-!
## Trying one more beginning
-/

theorem Leads.keep (h : Leads allowed weight whole place before last score)
    (hless : forall before' last' pieces, Ends allowed whole (place + 1) before' last' pieces ->
      before'.length = place -> total weight pieces + weight last' <= score) :
    Leads allowed weight whole (place + 1) before last score where
  joined := h.joined
  starts := Nat.lt_succ_of_lt h.starts
  piece := h.piece
  reached := h.reached
  most := by
    intro before' last' pieces hends
    rcases Nat.lt_succ_iff_lt_or_eq.mp hends.starts with hearlier | hnow
    · exact h.most before' last' pieces ⟨hends.joined, hearlier, hends.piece, hends.cuts⟩
    · exact hless before' last' pieces hends hnow
  first := by
    intro before' last' pieces hends htotal
    rcases Nat.lt_succ_iff_lt_or_eq.mp hends.starts with hearlier | hnow
    · exact h.first before' last' pieces ⟨hends.joined, hearlier, hends.piece, hends.cuts⟩ htotal
    · rw [hnow]
      exact Nat.le_of_lt h.starts

variable [IsOrderedAddMonoid κ]

theorem Ends.le (h : Ends allowed whole place before last pieces)
    (hhere : Most allowed weight before here) :
    total weight pieces + weight last <= here + weight last :=
  add_le_add_left (hhere.most pieces h.cuts) _

theorem leads_take (hwhole : before ++ last = whole) (hlast : Piece allowed last)
    (hhere : Most allowed weight before here)
    (hless : forall before' last' pieces,
      Ends allowed whole before.length before' last' pieces ->
        total weight pieces + weight last' < here + weight last) :
    Leads allowed weight whole (before.length + 1) before last (here + weight last) where
  joined := hwhole
  starts := Nat.lt_succ_self _
  piece := hlast
  reached := ⟨here, hhere, rfl⟩
  most := by
    intro before' last' pieces hends
    rcases Nat.lt_succ_iff_lt_or_eq.mp hends.starts with hearlier | hnow
    · exact le_of_lt (hless before' last' pieces ⟨hends.joined, hearlier, hends.piece, hends.cuts⟩)
    · rcases List.append_inj (hends.joined.trans hwhole.symm) hnow with ⟨rfl, rfl⟩
      exact hends.le hhere
  first := by
    intro before' last' pieces hends htotal
    rcases Nat.lt_succ_iff_lt_or_eq.mp hends.starts with hearlier | hnow
    · have hlt := hless before' last' pieces ⟨hends.joined, hearlier, hends.piece, hends.cuts⟩
      exact absurd htotal (ne_of_lt hlt)
    · exact Nat.le_of_eq hnow.symm

end Weights

end Foundation
end PaminMemory
