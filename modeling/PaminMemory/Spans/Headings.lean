import Mathlib.Logic.Relation
import PaminMemory.Spans.Capped

/-!
# A heading travels with what it introduces

A heading is only ever after headings in its span, and headings are left on their own where no
opening of what follows was found to fit.
-/

namespace PaminMemory
namespace Spans

open Foundation
open Topics (isWhitespace)

section Gathering

variable (counter : TokenCount) (content : List Char) (cap : Nat)

inductive PackStep : Option Packed × List PackUnit -> Option Packed × List PackUnit -> Prop
  | opened (unit : PackUnit) (pending : List PackUnit) :
      PackStep (none, unit :: pending) (some (Packed.of unit), pending)
  | pushed (unit : PackUnit) (pending : List PackUnit) (span : Packed)
      (hroom : span.tokens + unit.tokens <= cap ∧ ¬(unit.opens ∧ ¬span.headingsOnly)) :
      PackStep (some span, unit :: pending) (some (span.push unit), pending)
  | headed (unit : PackUnit) (pending : List PackUnit) (span : Packed) (hfull : Full cap span unit)
      (hheadings : span.headingsOnly ∧ ¬unit.heading)
      (hsome : fit counter (slice content unit.range) (cap - span.tokens) ≠ []) :
      PackStep (some span, unit :: pending)
        (none, restUnits counter content cap unit (unit.range.start +
          (fit counter (slice content unit.range) (cap - span.tokens)).length) ++ pending)
  | closed (unit : PackUnit) (pending : List PackUnit) (span : Packed) (hfull : Full cap span unit)
      (hnone : (span.headingsOnly ∧ ¬unit.heading) ->
        ¬fit counter (slice content unit.range) (cap - span.tokens) ≠ []) :
      PackStep (some span, unit :: pending) (some (Packed.of unit), pending)

/-- The packing comes to a unit with a span under way. -/
def Meets (units : List PackUnit) (span : Packed) (unit : PackUnit) : Prop :=
  exists pending, Relation.ReflTransGen (PackStep counter content cap) (none, units)
    (some span, unit :: pending)

variable {counter} {content} {cap} {unit : PackUnit}

theorem packPieces_first (current : Option Gathered) (pending : List PackUnit) :
    forall gathered, current = some gathered ->
      exists (closed : Gathered) (later : List Gathered), closed.first = gathered.first ∧
        packPieces counter content cap current pending = closed :: later := by
  induction current, pending using @packPieces_cases counter content cap with
  | done current =>
      intro gathered hcurrent
      rw [packPieces, hcurrent]
      exact ⟨gathered, [], rfl, rfl⟩
  | opened unit pending ih =>
      intro gathered hcurrent
      cases hcurrent
  | pushed unit pending before hroom ih =>
      intro gathered hcurrent
      cases hcurrent
      rw [packPieces_push hroom]
      exact ih (before.push unit) rfl
  | headed unit pending before hfull hheadings hsome ih =>
      intro gathered hcurrent
      cases hcurrent
      rw [packPieces_head hfull hheadings hsome]
      exact ⟨before.push _, _, rfl, rfl⟩
  | closed unit pending before hfull hnone ih =>
      intro gathered hcurrent
      cases hcurrent
      rw [packPieces_keep hfull hnone]
      exact ⟨before, _, rfl, rfl⟩

theorem packPieces_step {before after : Option Packed × List PackUnit}
    (hstep : PackStep counter content cap before after) (current : Option Gathered)
    (hcurrent : current.map Gathered.span = before.1) :
    exists next : Option Gathered, next.map Gathered.span = after.1 ∧
      packPieces counter content cap next after.2 <:+
        packPieces counter content cap current before.2 := by
  cases hstep with
  | opened unit pending =>
      cases Option.map_eq_none_iff.mp hcurrent
      exact ⟨some (Gathered.of unit), rfl, [], packPieces_open.symm⟩
  | pushed unit pending span hroom =>
      rcases Option.map_eq_some_iff.mp hcurrent with ⟨gathered, rfl, rfl⟩
      refine ⟨some (gathered.push unit), ?_, [], (packPieces_push hroom).symm⟩
      rw [Option.map_some, Gathered.span_push]
  | headed unit pending span hfull hheadings hsome =>
      rcases Option.map_eq_some_iff.mp hcurrent with ⟨gathered, rfl, rfl⟩
      refine ⟨none, rfl, ?_⟩
      simp only
      rw [packPieces_head hfull hheadings hsome]
      exact List.suffix_cons _ _
  | closed unit pending span hfull hnone =>
      rcases Option.map_eq_some_iff.mp hcurrent with ⟨gathered, rfl, rfl⟩
      refine ⟨some (Gathered.of unit), rfl, ?_⟩
      simp only
      rw [packPieces_keep hfull hnone]
      exact List.suffix_cons _ _

theorem packPieces_reached {before after : Option Packed × List PackUnit}
    (h : Relation.ReflTransGen (PackStep counter content cap) before after) :
    forall current : Option Gathered, current.map Gathered.span = before.1 ->
      exists next : Option Gathered, next.map Gathered.span = after.1 ∧
        packPieces counter content cap next after.2 <:+
          packPieces counter content cap current before.2 := by
  induction h using Relation.ReflTransGen.head_induction_on with
  | refl =>
      intro current hcurrent
      exact ⟨current, hcurrent, List.suffix_rfl⟩
  | head hstep _ ih =>
      intro current hcurrent
      rcases packPieces_step hstep current hcurrent with ⟨middle, hmiddle, hfirst⟩
      rcases ih middle hmiddle with ⟨next, hnext, hsecond⟩
      exact ⟨next, hnext, hsecond.trans hfirst⟩

end Gathering

/-!
## Headings among the units
-/

/-- A piece of a heading opens it or follows a piece of one, `after` telling of the one before. -/
def Led : Bool -> List PackUnit -> Prop
  | _, [] => True
  | after, unit :: rest => (unit.heading -> unit.opens ∨ after) ∧ Led unit.heading rest

def endsInHeading (units : List PackUnit) : Bool :=
  units.getLast?.any PackUnit.heading

section Units

variable {counter : TokenCount} {segmenter : SentenceSegmenter} {content : List Char} {cap : Nat}
  {units : List PackUnit} {unit : PackUnit}

theorem endsInHeading_concat : endsInHeading (units ++ [unit]) = unit.heading := by
  unfold endsInHeading
  rw [List.getLast?_concat, Option.any_some]

theorem led_concat (h : Led false units)
    (hunit : unit.heading -> unit.opens ∨ endsInHeading units) : Led false (units ++ [unit]) := by
  have hall : forall (units : List PackUnit) (after : Bool), Led after units ->
      (unit.heading -> unit.opens ∨ (units.getLast?.map PackUnit.heading).getD after) ->
        Led after (units ++ [unit]) := by
    intro units
    induction units with
    | nil =>
        intro after _ hunit
        exact ⟨hunit, trivial⟩
    | cons first rest ih =>
        intro after hled hunit
        refine ⟨hled.1, ih first.heading hled.2 ?_⟩
        cases rest with
        | nil => exact hunit
        | cons second more =>
            rw [List.getLast?_cons_cons] at hunit
            rw [List.getLast?_cons] at hunit ⊢
            exact hunit
  apply hall units false h
  intro hheading
  have hled := hunit hheading
  unfold endsInHeading at hled
  cases hlast : units.getLast? with
  | none =>
      rw [hlast] at hled
      exact hled
  | some last =>
      rw [hlast] at hled
      exact hled

theorem led_of_not_heading {after : Bool} {rest : List PackUnit}
    (hunits : forall unit, unit ∈ units -> unit.heading = false) (h : Led false rest) :
    Led after (units ++ rest) := by
  induction units generalizing after with
  | nil =>
      cases rest with
      | nil => trivial
      | cons first more =>
          refine ⟨?_, h.2⟩
          intro hheading
          exact Or.inl ((h.1 hheading).resolve_right Bool.false_ne_true)
  | cons first more ih =>
      have hfirst := hunits first List.mem_cons_self
      refine ⟨?_, ih fun unit hunit => hunits unit (List.mem_cons_of_mem _ hunit)⟩
      intro hheading
      rw [hfirst] at hheading
      cases hheading

theorem led_foldl {block : Block} {unit : Stretch -> Nat -> Bool -> PackUnit}
    (hheading : forall range tokens first, (unit range tokens first).heading =
      decide (block.kind = Kind.heading))
    (hopens : forall range tokens first, (unit range tokens first).opens =
      (decide (block.kind = Kind.heading) && first))
    (pieces : List (Stretch × Nat)) (h : Led false units)
    (hbefore : decide (block.kind = Kind.heading) = true ->
      (units.getLast?.all fun last => last.range.stop <= block.range.start) = true ∨
        endsInHeading units = true) :
    Led false (pieces.foldl (pushPiece block unit) units) := by
  induction pieces generalizing units with
  | nil => exact h
  | cons piece pieces ih =>
      rw [List.foldl_cons]
      apply ih
      · apply led_concat h
        rw [hheading, hopens]
        intro hkind
        rcases hbefore hkind with hfirst | hends
        · left
          rw [hkind, hfirst]
          rfl
        · exact Or.inr hends
      · intro hkind
        right
        unfold pushPiece
        rw [endsInHeading_concat, hheading]
        exact hkind

theorem led_unitsFrom (blocks : List Block) (index : Nat) (headingBlock : Option Nat)
    (h : Led false units)
    (hbefore : forall unit, unit ∈ units -> forall block, block ∈ blocks ->
      unit.range.stop <= block.range.start)
    (hordered : blocks.Pairwise fun earlier later => earlier.range.stop <= later.range.start)
    (htrimmed : forall block, block ∈ blocks -> Trimmed content block.range) :
    Led false (unitsFrom counter segmenter content cap index headingBlock units blocks) := by
  induction blocks generalizing index headingBlock units with
  | nil => exact h
  | cons block rest ih =>
      rw [List.pairwise_cons] at hordered
      let isHeading := decide (block.kind = Kind.heading)
      let under := if isHeading then some index else headingBlock
      let unit : Stretch -> Nat -> Bool -> PackUnit := fun range tokens first =>
        { range, tokens, opens := isHeading && first, heading := isHeading, headingBlock := under,
          continued :=
            if block.kind = Kind.turn ∨ block.kind = Kind.table then some index else none }
      have hpieces : forall more : List PackUnit,
          more.map PackUnit.piece = units.map PackUnit.piece ++
            piecesOf counter segmenter content cap block ->
          forall unit : PackUnit, unit ∈ more -> forall later, later ∈ rest ->
            unit.range.stop <= later.range.start := by
        intro more hmore unit hunit later hlater
        have hmem := List.mem_map_of_mem (f := PackUnit.piece) hunit
        rw [hmore] at hmem
        cases List.mem_append.mp hmem with
        | inl hold =>
            rcases List.mem_map.mp hold with ⟨other, hother, hsame⟩
            have hrange : other.range = unit.range := congrArg Prod.fst hsame
            rw [← hrange]
            exact hbefore other hother later (List.mem_cons_of_mem _ hlater)
        | inr hnew =>
            have hbounds := (tiles_piecesOf (htrimmed block List.mem_cons_self)).bounds unit.range
              (List.mem_map_of_mem (f := Prod.fst) hnew)
            exact Nat.le_trans hbounds.2.2 (hordered.1 later hlater)
      have hrest : forall later, later ∈ rest -> Trimmed content later.range :=
        fun later hlater => htrimmed later (List.mem_cons_of_mem _ hlater)
      rw [unitsFrom]
      rcases Decidable.em (counter.count (slice content block.range) <= cap) with hfits | hfits
      · have hone : Led false (units ++ [unit block.range
            (counter.count (slice content block.range)) true]) := by
          apply led_concat h
          intro hheading
          left
          exact (Bool.and_true _).trans hheading
        simp only [if_pos hfits]
        apply ih _ _ hone _ hordered.2 hrest
        apply hpieces
        rw [List.map_append, piecesOf, if_pos hfits]
        rfl
      · have hfold : Led false (((blockPieces segmenter content block).flatMap
            (fitted counter content cap)).foldl (pushPiece block unit) units) := by
          apply led_foldl (fun _ _ _ => rfl) (fun _ _ _ => rfl) _ h
          intro _
          left
          cases hlast : units.getLast? with
          | none => rfl
          | some last =>
              exact decide_eq_true (hbefore last (List.mem_of_getLast? hlast) block
                List.mem_cons_self)
        simp only [if_neg hfits]
        apply ih _ _ hfold _ hordered.2 hrest
        apply hpieces
        rw [piecesOf, if_neg hfits, @foldl_pushPiece _ PackUnit.piece id block unit
          (fun _ _ _ => rfl), List.map_id]

theorem led_units : Led false (Spans.units counter segmenter content cap (blocks content)) := by
  apply led_unitsFrom
  · trivial
  · intro unit hunit
    cases hunit
  · exact List.pairwise_map.mp tiles_blocks.ordered
  · exact blocks_trimmed

end Units

/-!
## Headings in a span
-/

def HeadingsFirst (pieces : List PackUnit) : Prop :=
  pieces.Pairwise fun earlier later => later.heading -> earlier.heading

section Span

variable {counter : TokenCount} {content : List Char} {cap : Nat} {pieces : List PackUnit}
  {unit : PackUnit}

theorem headingsFirst_concat (h : HeadingsFirst pieces)
    (hunit : unit.heading -> pieces.all PackUnit.heading) :
    HeadingsFirst (pieces ++ [unit]) := by
  apply List.pairwise_append.mpr
  refine ⟨h, List.pairwise_singleton _ _, ?_⟩
  intro earlier hearlier later hlater hheading
  rw [List.mem_singleton.mp hlater] at hheading
  exact List.all_eq_true.mp (hunit hheading) earlier hearlier

theorem all_of_endsInHeading (h : HeadingsFirst pieces) (hends : endsInHeading pieces) :
    pieces.all PackUnit.heading := by
  induction pieces using List.reverseRecOn with
  | nil => rfl
  | append_singleton before last _ =>
      rw [endsInHeading_concat] at hends
      rw [List.all_append, Bool.and_eq_true]
      constructor
      · apply List.all_eq_true.mpr
        intro earlier hearlier
        exact (List.pairwise_append.mp h).2.2 earlier hearlier last List.mem_cons_self hends
      · exact List.all_eq_true.mpr fun only honly => List.mem_singleton.mp honly ▸ hends

/-- Headings come first in what is under way, and lead what is still to be packed. -/
def Sound : Option Gathered -> List PackUnit -> Prop
  | none, pending => Led false pending
  | some gathered, pending =>
      HeadingsFirst gathered.pieces ∧ Led (endsInHeading gathered.pieces) pending

theorem sound_of {pending : List PackUnit} {after : Bool} (h : Led after (unit :: pending)) :
    Sound (some (Gathered.of unit)) pending :=
  ⟨List.pairwise_singleton _ _, h.2⟩

theorem packPieces_headingsFirst (current : Option Gathered) (pending : List PackUnit) :
    Sound current pending ->
      forall gathered, gathered ∈ packPieces counter content cap current pending ->
        HeadingsFirst gathered.pieces := by
  induction current, pending using @packPieces_cases counter content cap with
  | done current =>
      intro hsound gathered hgathered
      rw [packPieces, Option.mem_toList] at hgathered
      rw [hgathered] at hsound
      exact hsound.1
  | opened unit pending ih =>
      intro hsound
      rw [packPieces_open]
      exact ih (sound_of hsound)
  | pushed unit pending gathered hroom ih =>
      intro hsound
      rw [packPieces_push hroom]
      apply ih
      constructor
      · apply headingsFirst_concat hsound.1
        intro hheading
        rcases hsound.2.1 hheading with hopens | hends
        · have hheadings := Decidable.not_not.mp fun hother => hroom.2 ⟨hopens, hother⟩
          rw [Gathered.span_headingsOnly] at hheadings
          exact hheadings
        · exact all_of_endsInHeading hsound.1 hends
      · rw [Gathered.pieces_push, endsInHeading_concat]
        exact hsound.2.2
  | headed unit pending gathered hfull hheadings hsome ih =>
      intro hsound other hother
      have hplain : unit.heading = false := Bool.eq_false_iff.mpr hheadings.2
      rw [packPieces_head hfull hheadings hsome] at hother
      cases List.mem_cons.mp hother with
      | inl hhere =>
          rw [hhere]
          apply headingsFirst_concat hsound.1
          intro hheading
          exact absurd hheading hheadings.2
      | inr hlater =>
          refine ih ?_ other hlater
          have hled := hsound.2.2
          rw [hplain] at hled
          apply led_of_not_heading _ hled
          intro rest hrest
          rcases List.mem_map.mp hrest with ⟨piece, _, rfl⟩
          exact hplain
  | closed unit pending gathered hfull hnone ih =>
      intro hsound other hother
      rw [packPieces_keep hfull hnone] at hother
      cases List.mem_cons.mp hother with
      | inl hhere =>
          rw [hhere]
          exact hsound.1
      | inr hlater => exact ih (sound_of hsound.2) other hlater

/-- A span of headings alone that is not the last was met by the first piece of the next, which
neither fitted in it nor left an opening there. -/
theorem packPieces_followed (current : Option Gathered) (pending : List PackUnit) :
    forall before (gathered next : Gathered) after,
      packPieces counter content cap current pending = before ++ gathered :: next :: after ->
      gathered.span.headingsOnly ->
        Full cap gathered.span next.first ∧
          (¬next.first.heading ->
            fit counter (slice content next.first.range) (cap - gathered.span.tokens) = []) ∧
          exists rest, Relation.ReflTransGen (PackStep counter content cap)
            (current.map Gathered.span, pending) (some gathered.span, next.first :: rest) := by
  induction current, pending using @packPieces_cases counter content cap with
  | done current =>
      intro before gathered next after hpacked
      rw [packPieces] at hpacked
      have hlength := congrArg List.length hpacked
      rw [List.length_append, List.length_cons, List.length_cons] at hlength
      have hone := Option.length_toList_le (o := current)
      omega
  | opened unit pending ih =>
      intro before gathered next after hpacked hheadings
      rw [packPieces_open] at hpacked
      rcases ih before gathered next after hpacked hheadings with ⟨hfull, hnone, rest, hreached⟩
      exact ⟨hfull, hnone, rest, hreached.head (PackStep.opened unit pending)⟩
  | pushed unit pending under hroom ih =>
      intro before gathered next after hpacked hheadings
      rw [packPieces_push hroom] at hpacked
      rcases ih before gathered next after hpacked hheadings with ⟨hfull, hnone, rest, hreached⟩
      rw [Option.map_some, Gathered.span_push] at hreached
      exact ⟨hfull, hnone, rest, hreached.head (PackStep.pushed unit pending _ hroom)⟩
  | headed unit pending under hunder hplain hsome ih =>
      intro before gathered next after hpacked hheadings
      rw [packPieces_head hunder hplain hsome] at hpacked
      cases before with
      | nil =>
          cases (List.cons.inj hpacked).1
          rw [Gathered.span_push] at hheadings
          exact absurd (Bool.and_eq_true_iff.mp hheadings).2 hplain.2
      | cons first before =>
          rcases ih before gathered next after (List.cons.inj hpacked).2 hheadings with
            ⟨hfull, hnone, rest, hreached⟩
          exact ⟨hfull, hnone, rest,
            hreached.head (PackStep.headed unit pending _ hunder hplain hsome)⟩
  | closed unit pending under hunder hleft ih =>
      intro before gathered next after hpacked hheadings
      rw [packPieces_keep hunder hleft] at hpacked
      cases before with
      | nil =>
          rcases packPieces_first _ pending (Gathered.of unit) rfl with
            ⟨closed, later, hfirst, hlater⟩
          rw [hlater] at hpacked
          cases (List.cons.inj hpacked).1
          cases (List.cons.inj (List.cons.inj hpacked).2).1
          rw [hfirst]
          refine ⟨hunder, ?_, pending, Relation.ReflTransGen.refl⟩
          intro hplain
          exact Decidable.not_not.mp (hleft ⟨hheadings, hplain⟩)
      | cons first before =>
          rcases ih before gathered next after (List.cons.inj hpacked).2 hheadings with
            ⟨hfull, hnone, rest, hreached⟩
          exact ⟨hfull, hnone, rest, hreached.head (PackStep.closed unit pending _ hunder hleft)⟩

/-- A span of headings alone that meets a piece it has no place for, and of which no opening was
found, is followed by that piece. -/
theorem packPieces_meets {units : List PackUnit} {span : Packed}
    (hmeets : Meets counter content cap units span unit) (hfull : Full cap span unit)
    (hnone : fit counter (slice content unit.range) (cap - span.tokens) = []) :
    exists before gathered next after,
      packPieces counter content cap none units = before ++ gathered :: next :: after ∧
        gathered.span = span ∧ next.first = unit := by
  rcases hmeets with ⟨pending, hreached⟩
  rcases packPieces_reached hreached none rfl with ⟨current, hcurrent, before, hbefore⟩
  rcases Option.map_eq_some_iff.mp hcurrent with ⟨gathered, rfl, hspan⟩
  rw [← hspan] at hfull hnone
  rcases packPieces_first _ pending (Gathered.of unit) rfl with ⟨next, after, hnext, hafter⟩
  rw [packPieces_keep hfull fun _ hsome => hsome hnone, hafter] at hbefore
  exact ⟨before, gathered, next, after, hbefore.symm, hspan, hnext⟩

end Span

/-!
## Openings
-/

def Boundary (counter : TokenCount) (text : List Char) (position : Nat) : Prop :=
  exists token, token ∈ counter.offsets text ∧ (position = token.start ∨ position = token.stop)

/-- The opening up to the position, trimmed, is something and counts at most `room` on its own. -/
def OpeningFits (counter : TokenCount) (text : List Char) (room position : Nat) : Prop :=
  trimEnd (text.take position) ≠ [] ∧ counter.count (trimEnd (text.take position)) <= room

/-- Where any opening fits, one does that ends where one of the tokens there is room for starts. -/
def FoundEarly (counter : TokenCount) (text : List Char) (room : Nat) : Prop :=
  forall position, Boundary counter text position -> OpeningFits counter text room position ->
    exists stop, 0 < stop ∧ stop <= room ∧
      OpeningFits counter text room (startOf (counter.offsets text) stop)

section Openings

variable {counter : TokenCount} {text : List Char} {room : Nat}

theorem trimEnd_take_eq_nil {first second : Nat} (hle : first <= second)
    (h : trimEnd (text.take second) = []) : trimEnd (text.take first) = [] := by
  have hall := List.rdropWhile_eq_nil_iff.mp h
  apply List.rdropWhile_eq_nil_iff.mpr
  intro c hc
  exact hall c ((List.take_subset_take_left text hle) hc)

theorem startOf_mono {offsets : List Stretch}
    (hordered : offsets.Pairwise fun earlier later => earlier.start <= later.start)
    {first second : Nat} (hle : first <= second) (hin : second < offsets.length) :
    startOf offsets first <= startOf offsets second := by
  have hfirst : first < offsets.length := Nat.lt_of_le_of_lt hle hin
  unfold startOf
  rw [List.getElem?_eq_getElem hfirst, List.getElem?_eq_getElem hin]
  rcases Nat.lt_or_eq_of_le hle with hless | rfl
  · exact List.pairwise_iff_getElem.mp hordered first second hfirst hin hless
  · exact Nat.le_refl _

theorem fitFrom_eq_nil (hroom : room < counter.count text) (most : Nat) :
    most <= room -> (fitFrom counter text (counter.offsets text) room most = [] ↔
      forall stop, 0 < stop -> stop <= most ->
        ¬OpeningFits counter text room (startOf (counter.offsets text) stop)) := by
  induction most with
  | zero =>
      intro _
      constructor
      · intro _ stop hpositive hle
        omega
      · intro _
        rfl
  | succ most ih =>
      intro hmost
      unfold fitFrom
      simp only
      rcases Nat.lt_or_ge room (counter.count
        (trimEnd (text.take (startOf (counter.offsets text) (most + 1))))) with hover | hfits
      · rw [if_neg (Nat.not_le.mpr hover), ih (Nat.le_of_succ_le hmost)]
        constructor
        · intro hearly stop hpositive hle
          rcases Nat.lt_or_eq_of_le hle with hless | rfl
          · exact hearly stop hpositive (Nat.le_of_lt_succ hless)
          · exact fun hopening => absurd hopening.2 (Nat.not_le.mpr hover)
        · intro hearly stop hpositive hle
          exact hearly stop hpositive (Nat.le_succ_of_le hle)
      · rw [if_pos hfits]
        constructor
        · intro hnil stop _ hle hopening
          have hstarts := startOf_mono (counter.ordered text) hle
            (Nat.lt_of_le_of_lt hmost hroom)
          exact hopening.1 (trimEnd_take_eq_nil hstarts hnil)
        · intro hearly
          apply Decidable.byContradiction
          intro hsome
          exact hearly (most + 1) (Nat.succ_pos _) (Nat.le_refl _) ⟨hsome, hfits⟩

theorem fit_of_lt (h : room < counter.count text) :
    fit counter text room = fitFrom counter text (counter.offsets text) room room :=
  if_neg (Nat.not_le.mpr h)

theorem foundEarly_iff (h : room < counter.count text ∨ counter.count text = 0) :
    FoundEarly counter text room <->
      (fit counter text room = [] -> forall position, Boundary counter text position ->
        ¬OpeningFits counter text room position) := by
  rcases h with hless | hnone
  · rw [fit_of_lt hless, fitFrom_eq_nil hless room (Nat.le_refl room)]
    constructor
    · intro hfound hnot position hboundary hopening
      rcases hfound position hboundary hopening with ⟨stop, hpositive, hle, hearly⟩
      exact hnot stop hpositive hle hearly
    · intro hmissed position hboundary hopening
      by_contra hnot
      refine hmissed ?_ position hboundary hopening
      intro stop hpositive hle hearly
      exact hnot ⟨stop, hpositive, hle, hearly⟩
  · have hboundary : forall position, ¬Boundary counter text position := by
      rintro position ⟨token, htoken, _⟩
      rw [List.length_eq_zero_iff.mp hnone] at htoken
      cases htoken
    constructor
    · intro _ _ position hat
      exact absurd hat (hboundary position)
    · intro _ position hat
      exact absurd hat (hboundary position)

end Openings

end Spans
end PaminMemory
