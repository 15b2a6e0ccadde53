import Mathlib.Data.List.DropRight
import PaminMemory.Spans.Headings

/-!
# When a heading travels with what it introduces

A span of headings alone meets a piece that is of none exactly where a block follows headings,
and holds then what is left of the cap by the headings packed last.  Headings travel where the
counter has an early opening of every such piece, if it has one at all.
-/

namespace PaminMemory
namespace Spans

open Foundation

def headingsBefore (before : List Block) : List Block :=
  before.rtakeWhile Block.isHeading

/-- The tokens of the pieces packed last, those that do not fit together closing the span. -/
def carried (cap : Nat) (pieces : List (Stretch × Nat)) : Nat :=
  pieces.foldl (fun under piece => if under + piece.2 <= cap then under + piece.2 else piece.2) 0

/-- The first piece of a block that follows headings, which have so many tokens under way. -/
inductive Introduced (counter : TokenCount) (segmenter : SentenceSegmenter) (content : List Char)
    (cap : Nat) : Nat -> Stretch × Nat -> Prop
  | block (before after : List Block) (block : Block) (piece : Stretch × Nat)
      (hblocks : blocks content = before ++ block :: after) (hplain : block.isHeading = false)
      (hheadings : headingsBefore before ≠ [])
      (hpiece : (piecesOf counter segmenter content cap block).head? = some piece) :
      Introduced counter segmenter content cap
        (carried cap ((headingsBefore before).flatMap (piecesOf counter segmenter content cap)))
        piece

/-- Of every piece that does not fit after the headings before it, an opening that fits is not
missed. -/
def NoneMissed (counter : TokenCount) (segmenter : SentenceSegmenter) (content : List Char)
    (cap : Nat) : Prop :=
  forall under piece, Introduced counter segmenter content cap under piece ->
    cap < under + piece.2 -> FoundEarly counter (slice content piece.1) (cap - under)

structure Travels (counter : TokenCount) (content : List Char) (cap : Nat)
    (spans : List Gathered) : Prop where
  /-- A piece of a heading, its first among them, follows only pieces of headings. -/
  leads : forall span, span ∈ spans -> forall before unit after,
    span.pieces = before ++ unit :: after -> unit.heading ->
      forall earlier, earlier ∈ before -> earlier.heading
  /-- A span that ends in a heading is of headings alone. -/
  ends : forall span, span ∈ spans -> endsInHeading span.pieces ->
    forall unit, unit ∈ span.pieces -> unit.heading
  /-- What follows a span of headings alone had no place in it, and no opening that had one. -/
  followed : forall before (headings next : Gathered) after,
    spans = before ++ headings :: next :: after ->
    (forall unit, unit ∈ headings.pieces -> unit.heading) ->
      (next.first.heading ∧ cap < headings.span.tokens + next.first.tokens) ∨
        forall position, Boundary counter (slice content next.first.range) position ->
          ¬OpeningFits counter (slice content next.first.range) (cap - headings.span.tokens)
            position

/-!
## The pieces of blocks, one after another
-/

section Blocks

variable {α β : Type} {give : α -> List β} {items : List α} {keeps : α -> Bool}
  {picks : β -> Bool}

theorem flatMap_eq_append {item : β} {before after : List β}
    (h : items.flatMap give = before ++ item :: after) :
    exists earlier giver later first rest, items = earlier ++ giver :: later ∧
      give giver = first ++ item :: rest ∧ before = earlier.flatMap give ++ first := by
  induction items generalizing before with
  | nil => cases before <;> cases h
  | cons head tail ih =>
      rw [List.flatMap_cons] at h
      rcases List.append_eq_append_iff.mp h with ⟨more, hbefore, hmore⟩ | ⟨more, hhead, hmore⟩
      · rcases ih hmore with ⟨earlier, giver, later, first, rest, rfl, hgiver, rfl⟩
        refine ⟨head :: earlier, giver, later, first, rest, rfl, hgiver, ?_⟩
        rw [hbefore, List.flatMap_cons, List.append_assoc]
      · cases more with
        | nil =>
            rw [List.append_nil] at hhead
            have hwhole : tail.flatMap give = [] ++ item :: after := hmore.symm
            rcases ih hwhole with
              ⟨earlier, giver, later, first, rest, rfl, hgiver, hnil⟩
            refine ⟨head :: earlier, giver, later, first, rest, rfl, hgiver, ?_⟩
            rw [List.flatMap_cons, List.append_assoc, ← hnil, List.append_nil, hhead]
        | cons _ more =>
            cases hmore
            exact ⟨[], head, tail, before, more, rfl, hhead, rfl⟩

/-- Where every item gives something, marked as it is itself, the last that are marked are what
the last such items give. -/
theorem rtakeWhile_flatMap (hfull : forall item, item ∈ items -> give item ≠ [])
    (hmark : forall item, item ∈ items -> forall given, given ∈ give item ->
      picks given = keeps item) :
    (items.flatMap give).rtakeWhile picks = (items.rtakeWhile keeps).flatMap give := by
  induction items using List.reverseRecOn with
  | nil => rfl
  | append_singleton before last ih =>
      have hlast : last ∈ before ++ [last] := List.mem_append_right _ List.mem_cons_self
      have hbefore := ih (fun item hitem => hfull item (List.mem_append_left _ hitem))
        (fun item hitem => hmark item (List.mem_append_left _ hitem))
      rw [List.flatMap_append, List.flatMap_singleton]
      cases hkeeps : keeps last with
      | true =>
          rw [List.rtakeWhile_concat_pos _ _ _ hkeeps, List.flatMap_append,
            List.flatMap_singleton, ← hbefore]
          unfold List.rtakeWhile
          rw [List.reverse_append, List.takeWhile_append_of_pos, List.reverse_append,
            List.reverse_reverse]
          intro given hgiven
          rw [hmark last hlast given (List.mem_reverse.mp hgiven), hkeeps]
      | false =>
          rw [List.rtakeWhile_concat_neg _ _ _ (by simp [hkeeps]), List.flatMap_nil]
          rcases List.eq_nil_or_concat (give last) with hnil | ⟨first, given, hgive⟩
          · exact absurd hnil (hfull last hlast)
          · have hpicks := hmark last hlast given (by rw [hgive]; simp)
            rw [hgive, List.concat_eq_append, ← List.append_assoc]
            apply List.rtakeWhile_concat_neg
            rw [hpicks, hkeeps]
            exact Bool.false_ne_true

end Blocks

/-!
## What is under way when the headings end
-/

section Carrying

variable {counter : TokenCount} {content : List Char} {cap : Nat} {units before : List PackUnit}
  {unit : PackUnit} {current next : Option Packed} {pending left : List PackUnit}

def lastHeadings (units : List PackUnit) : List (Stretch × Nat) :=
  (units.rtakeWhile PackUnit.heading).map PackUnit.piece

/-- What is under way after some units: the headings that are last among them, or no headings
alone. -/
structure Carries (cap : Nat) (before : List PackUnit) (current : Option Packed) : Prop where
  plain : endsInHeading before = false ->
    forall span, current = some span -> span.headingsOnly = false
  led : endsInHeading before = true ->
    exists span, current = some span ∧ span.headingsOnly = true ∧
      span.tokens = carried cap (lastHeadings before)

theorem carries_nil : Carries cap [] none := by
  constructor
  case plain =>
    intro _ span hspan
    cases hspan
  case led =>
    intro hends
    cases hends

theorem carries_plain (hunit : unit.heading = false)
    (h : forall span, current = some span -> span.headingsOnly = false) :
    Carries cap (before ++ [unit]) current := by
  constructor
  case plain =>
    intro _
    exact h
  case led =>
    intro hends
    rw [endsInHeading_concat, hunit] at hends
    cases hends

theorem lastHeadings_concat (hunit : unit.heading = true) :
    lastHeadings (before ++ [unit]) = lastHeadings before ++ [unit.piece] := by
  unfold lastHeadings
  rw [List.rtakeWhile_concat_pos _ _ _ hunit, List.map_append]
  rfl

theorem lastHeadings_plain (h : endsInHeading before = false) : lastHeadings before = [] := by
  unfold lastHeadings
  rw [List.map_eq_nil_iff, List.rtakeWhile_eq_nil_iff]
  intro hsome hlast
  unfold endsInHeading at h
  rw [List.getLast?_eq_some_getLast hsome, Option.any_some, hlast] at h
  cases h

theorem carried_concat (pieces : List (Stretch × Nat)) (piece : Stretch × Nat) :
    carried cap (pieces ++ [piece]) =
      if carried cap pieces + piece.2 <= cap then carried cap pieces + piece.2 else piece.2 :=
  List.foldl_concat ..

theorem carries_led {span : Packed} (hunit : unit.heading = true)
    (hheadings : span.headingsOnly = true)
    (htokens : span.tokens = carried cap (lastHeadings before ++ [unit.piece])) :
    Carries cap (before ++ [unit]) (some span) := by
  constructor
  case plain =>
    intro hends
    rw [endsInHeading_concat, hunit] at hends
    cases hends
  case led =>
    intro _
    rw [lastHeadings_concat hunit]
    exact ⟨span, rfl, hheadings, htokens⟩

theorem carries_of (h : unit.heading = true -> endsInHeading before = false ∨
    cap < carried cap (lastHeadings before) + unit.tokens) :
    Carries cap (before ++ [unit]) (some (Packed.of unit)) := by
  cases hunit : unit.heading with
  | false =>
      apply carries_plain hunit
      intro span hspan
      cases hspan
      exact hunit
  | true =>
      apply carries_led hunit hunit
      rw [carried_concat]
      have htokens : (Packed.of unit).tokens = unit.piece.2 := rfl
      rw [htokens]
      rcases h hunit with hplain | hover
      · rw [lastHeadings_plain hplain]
        unfold carried
        rw [List.foldl_nil, Nat.zero_add, ite_self]
      · exact (if_neg (Nat.not_le.mpr hover)).symm

theorem full_iff {span : Packed} {unit : PackUnit} (hheadings : span.headingsOnly) :
    Full cap span unit <-> cap < span.tokens + unit.tokens := by
  unfold Full
  constructor
  · intro hfull
    apply Nat.not_le.mp
    intro hfits
    exact hfull ⟨hfits, fun hopens => hopens.2 hheadings⟩
  · intro hover hfits
    exact absurd hfits.1 (Nat.not_le.mpr hover)

theorem carries_step (hcarries : Carries cap before current)
    (hled : unit.heading = true -> unit.opens = true ∨ endsInHeading before = true)
    (hstep : PackStep counter content cap (current, unit :: pending) (next, left)) :
    Carries cap (before ++ [unit]) next ∧
      exists fresh, left = fresh ++ pending ∧
        (fresh ≠ [] -> unit.heading = false) ∧
          forall rest, rest ∈ fresh -> rest.heading = unit.heading := by
  have hnone : left = pending -> exists fresh : List PackUnit, left = fresh ++ pending ∧
      (fresh ≠ [] -> unit.heading = false) ∧
        forall rest, rest ∈ fresh -> rest.heading = unit.heading := by
    intro hleft
    exact ⟨[], hleft, fun hsome => absurd rfl hsome, fun _ hrest => absurd hrest List.not_mem_nil⟩
  have hplain : unit.heading = true -> endsInHeading before = false -> unit.opens = true :=
    fun hunit hends => (hled hunit).resolve_right fun hother => by
      rw [hends] at hother
      cases hother
  cases hstep with
  | opened =>
      refine ⟨carries_of ?_, hnone rfl⟩
      intro _
      left
      rw [Bool.eq_false_iff]
      intro hends
      rcases hcarries.led hends with ⟨span, hspan, _⟩
      cases hspan
  | pushed _ _ span hroom =>
      refine ⟨?_, hnone rfl⟩
      cases hunit : unit.heading with
      | false =>
          apply carries_plain hunit
          intro other hother
          cases hother
          show (span.headingsOnly && unit.heading) = false
          rw [hunit, Bool.and_false]
      | true =>
          cases hends : endsInHeading before with
          | false =>
              have hheadings := hcarries.plain hends span rfl
              exact absurd ⟨hplain hunit hends, by simp [hheadings]⟩ hroom.2
          | true =>
              rcases hcarries.led hends with ⟨other, hother, hheadings, htokens⟩
              cases hother
              apply carries_led hunit
              · show (span.headingsOnly && unit.heading) = true
                rw [hunit, hheadings]
                rfl
              · rw [carried_concat, ← htokens]
                exact (if_pos hroom.1).symm
  | headed _ _ span hfull hheadings hsome =>
      have hunit : unit.heading = false := Bool.eq_false_iff.mpr hheadings.2
      refine ⟨carries_plain hunit (fun _ hspan => nomatch hspan), _, rfl, fun _ => hunit, ?_⟩
      intro rest hrest
      rcases List.mem_map.mp hrest with ⟨piece, _, rfl⟩
      rfl
  | closed _ _ span hfull hnothing =>
      refine ⟨carries_of ?_, hnone rfl⟩
      intro hunit
      cases hends : endsInHeading before with
      | false => exact Or.inl rfl
      | true =>
          right
          rcases hcarries.led hends with ⟨other, hother, hheadings, htokens⟩
          cases hother
          rw [← htokens]
          exact (full_iff hheadings).mp hfull

theorem carries_fresh (hcarries : Carries cap before current)
    (hends : endsInHeading before = false) (hunit : unit.heading = false)
    (hstep : PackStep counter content cap (current, unit :: pending) (next, left)) :
    left = pending ∧ Carries cap before next := by
  have hall : (forall span, next = some span -> span.headingsOnly = false) ->
      Carries cap before next := by
    intro hnext
    exact ⟨fun _ => hnext, fun hother => by rw [hends] at hother; cases hother⟩
  cases hstep with
  | opened =>
      refine ⟨rfl, hall ?_⟩
      intro span hspan
      cases hspan
      exact hunit
  | pushed _ _ span hroom =>
      refine ⟨rfl, hall ?_⟩
      intro other hother
      cases hother
      show (span.headingsOnly && unit.heading) = false
      rw [hunit, Bool.and_false]
  | headed _ _ span hfull hheadings hsome =>
      rw [hcarries.plain hends span rfl] at hheadings
      exact absurd hheadings.1 Bool.false_ne_true
  | closed =>
      refine ⟨rfl, hall ?_⟩
      intro span hspan
      cases hspan
      exact hunit

theorem led_split {after : Bool} {later : List PackUnit} (h : Led after (before ++ unit :: later))
    (hunit : unit.heading = true) :
    unit.opens = true ∨ (before.getLast?.map PackUnit.heading).getD after = true := by
  induction before generalizing after with
  | nil => exact h.1 hunit
  | cons first rest ih =>
      rw [List.getLast?_cons]
      have hrest := ih h.2
      cases hlast : rest.getLast? with
      | none =>
          rw [hlast] at hrest
          exact hrest
      | some last =>
          rw [hlast] at hrest
          exact hrest

theorem opens_of_led {later : List PackUnit} (h : Led false (before ++ unit :: later))
    (hunit : unit.heading = true) : unit.opens = true ∨ endsInHeading before = true := by
  have hled := led_split h hunit
  unfold endsInHeading
  cases hlast : before.getLast? with
  | none =>
      rw [hlast] at hled
      exact hled
  | some last =>
      rw [hlast] at hled
      exact hled

/-- What is packed of some units: those before are under way or closed, what is left of one that
was cut comes first of what is still to pack. -/
inductive Stage (cap : Nat) (units : List PackUnit) : Option Packed × List PackUnit -> Prop
  | at (before later fresh : List PackUnit) (current : Option Packed)
      (hunits : units = before ++ later) (hcarries : Carries cap before current)
      (hends : fresh ≠ [] -> endsInHeading before = false)
      (hfresh : forall unit, unit ∈ fresh -> unit.heading = false) :
      Stage cap units (current, fresh ++ later)

theorem stage_step {s s' : Option Packed × List PackUnit} (hled : Led false units)
    (h : Stage cap units s) (hstep : PackStep counter content cap s s') : Stage cap units s' := by
  rcases h with ⟨before, later, fresh, current, rfl, hcarries, hends, hfresh⟩
  rcases s' with ⟨next, left⟩
  cases fresh with
  | cons rest fresh =>
      have hplain := hends (List.cons_ne_nil _ _)
      rcases carries_fresh hcarries hplain (hfresh rest List.mem_cons_self) hstep with
        ⟨rfl, hnext⟩
      exact Stage.at before later fresh next rfl hnext (fun _ => hplain)
        fun unit hunit => hfresh unit (List.mem_cons_of_mem _ hunit)
  | nil =>
      cases later with
      | nil => cases hstep
      | cons unit later =>
          rcases carries_step hcarries (opens_of_led hled) hstep with
            ⟨hnext, fresh, rfl, hplain, hsame⟩
          refine Stage.at (before ++ [unit]) later fresh next (by simp) hnext ?_ ?_
          · intro hsome
            rw [endsInHeading_concat]
            exact hplain hsome
          · intro rest hrest
            rw [hsame rest hrest]
            exact hplain (List.ne_nil_of_mem hrest)

theorem stage_run (hled : Led false units) {s : Option Packed × List PackUnit}
    (h : Relation.ReflTransGen (PackStep counter content cap) (none, units) s) :
    Stage cap units s := by
  induction h with
  | refl =>
      exact Stage.at [] units [] none rfl carries_nil (fun hsome => absurd rfl hsome)
        fun _ hunit => absurd hunit List.not_mem_nil
  | tail _ hstep ih => exact stage_step hled ih hstep

theorem exists_packStep (counter : TokenCount) (content : List Char) (cap : Nat)
    (current : Option Packed) (unit : PackUnit) (pending : List PackUnit) :
    exists next left, PackStep counter content cap (current, unit :: pending) (next, left) := by
  cases current with
  | none => exact ⟨_, _, PackStep.opened unit pending⟩
  | some span =>
      by_cases hfull : Full cap span unit
      · by_cases hcut : (span.headingsOnly ∧ ¬unit.heading) ∧
            fit counter (slice content unit.range) (cap - span.tokens) ≠ []
        · exact ⟨_, _, PackStep.headed unit pending span hfull hcut.1 hcut.2⟩
        · exact ⟨_, _, PackStep.closed unit pending span hfull fun hplain hsome =>
            hcut ⟨hplain, hsome⟩⟩
      · exact ⟨_, _, PackStep.pushed unit pending span (Decidable.not_not.mp hfull)⟩

theorem fresh_run (hcarries : Carries cap before current) (hends : endsInHeading before = false)
    {fresh : List PackUnit} (hfresh : forall unit, unit ∈ fresh -> unit.heading = false) :
    exists next, Carries cap before next ∧
      Relation.ReflTransGen (PackStep counter content cap) (current, fresh ++ pending)
        (next, pending) := by
  induction fresh generalizing current with
  | nil => exact ⟨current, hcarries, Relation.ReflTransGen.refl⟩
  | cons unit fresh ih =>
      rcases exists_packStep counter content cap current unit (fresh ++ pending) with
        ⟨next, left, hstep⟩
      rcases carries_fresh hcarries hends (hfresh unit List.mem_cons_self) hstep with
        ⟨rfl, hnext⟩
      rcases ih hnext (fun rest hrest => hfresh rest (List.mem_cons_of_mem _ hrest)) with
        ⟨last, hlast, hrun⟩
      exact ⟨last, hlast, hrun.head hstep⟩

theorem carries_run (hled : Led false units) {later : List PackUnit}
    (hunits : units = before ++ later) :
    exists current, Carries cap before current ∧
      Relation.ReflTransGen (PackStep counter content cap) (none, units) (current, later) := by
  induction before using List.reverseRecOn generalizing later with
  | nil =>
      refine ⟨none, carries_nil, ?_⟩
      rw [hunits]
      exact Relation.ReflTransGen.refl
  | append_singleton before unit ih =>
      rw [List.append_assoc, List.singleton_append] at hunits
      rcases ih hunits with ⟨current, hcarries, hrun⟩
      rcases exists_packStep counter content cap current unit later with ⟨next, left, hstep⟩
      rw [hunits] at hled
      rcases carries_step hcarries (opens_of_led hled) hstep with
        ⟨hnext, fresh, rfl, hplain, hsame⟩
      by_cases hnone : fresh = []
      · rw [hnone] at hstep
        exact ⟨next, hnext, hrun.tail hstep⟩
      · have hunit := hplain hnone
        have hends : endsInHeading (before ++ [unit]) = false := by
          rw [endsInHeading_concat]
          exact hunit
        rcases @fresh_run counter content cap _ _ later hnext hends fresh
          (fun rest hrest => (hsame rest hrest).trans hunit) with ⟨last, hlast, hmore⟩
        exact ⟨last, hlast, (hrun.tail hstep).trans hmore⟩

theorem meets_iff (hled : Led false units) {under : Nat} :
    (exists span, Meets counter content cap units span unit ∧ span.headingsOnly = true ∧
        span.tokens = under) <->
      exists before later, units = before ++ unit :: later ∧ endsInHeading before = true ∧
        under = carried cap (lastHeadings before) := by
  constructor
  · rintro ⟨span, ⟨pending, hrun⟩, hheadings, rfl⟩
    generalize hs : (some span, unit :: pending) = s at hrun
    rcases stage_run hled hrun with ⟨before, later, fresh, current, hunits, hcarries, hplain, _⟩
    rcases Prod.mk.inj hs with ⟨rfl, hleft⟩
    cases hends : endsInHeading before with
    | false =>
        rw [hcarries.plain hends span rfl] at hheadings
        cases hheadings
    | true =>
        have hnone : fresh = [] := by
          by_contra hsome
          rw [hplain hsome] at hends
          cases hends
        rw [hnone, List.nil_append] at hleft
        rcases hcarries.led hends with ⟨other, hother, _, htokens⟩
        cases hother
        exact ⟨before, pending, by rw [hunits, hleft], hends, htokens⟩
  · rintro ⟨before, later, hunits, hends, rfl⟩
    rcases @carries_run counter content cap units before hled _ hunits with
      ⟨current, hcarries, hrun⟩
    rcases hcarries.led hends with ⟨span, rfl, hheadings, htokens⟩
    exact ⟨span, ⟨later, hrun⟩, hheadings, htokens⟩

end Carrying

/-!
## The blocks that follow headings
-/

section Introduced

variable {counter : TokenCount} {segmenter : SentenceSegmenter} {content : List Char} {cap : Nat}

theorem piecesOf_ne_nil {block : Block} (h : Trimmed content block.range) :
    piecesOf counter segmenter content cap block ≠ [] := by
  intro hnone
  have htiles := @tiles_piecesOf counter segmenter content cap block h
  rw [hnone] at htiles
  exact h.first (htiles.2 block.range.start (Nat.le_refl _) h.full)

theorem markedPieces_isHeading {block : Block} {marked : (Stretch × Nat) × Bool}
    (h : marked ∈ markedPieces counter segmenter content cap block) :
    marked.2 = block.isHeading := by
  rcases List.mem_map.mp h with ⟨piece, _, rfl⟩
  rfl

theorem markedPieces_fst (block : Block) :
    (markedPieces counter segmenter content cap block).map Prod.fst =
      piecesOf counter segmenter content cap block := by
  unfold markedPieces
  rw [List.map_map]
  exact List.map_id _

theorem lastHeadings_of_marked {units : List PackUnit} {before : List Block}
    (hbefore : forall block, block ∈ before -> Trimmed content block.range)
    (h : units.map PackUnit.marked =
      before.flatMap (markedPieces counter segmenter content cap)) :
    lastHeadings units =
      (headingsBefore before).flatMap (piecesOf counter segmenter content cap) := by
  have hunits : (units.map PackUnit.marked).rtakeWhile Prod.snd =
      (units.rtakeWhile PackUnit.heading).map PackUnit.marked := by
    unfold List.rtakeWhile
    rw [← List.map_reverse, List.takeWhile_map, ← List.map_reverse]
    rfl
  have hblocks : (before.flatMap (markedPieces counter segmenter content cap)).rtakeWhile
      Prod.snd = (headingsBefore before).flatMap (markedPieces counter segmenter content cap) := by
    apply rtakeWhile_flatMap
    · intro block hblock hnone
      rw [← List.map_eq_nil_iff (f := Prod.fst), markedPieces_fst] at hnone
      exact piecesOf_ne_nil (hbefore block hblock) hnone
    · intro block _ marked hmarked
      exact markedPieces_isHeading hmarked
  have hsame := congrArg (List.map Prod.fst) (hunits.symm.trans ((congrArg _ h).trans hblocks))
  rw [List.map_map, List.map_flatMap] at hsame
  simp only [markedPieces_fst] at hsame
  exact hsame

theorem endsInHeading_iff {units : List PackUnit} :
    endsInHeading units = true <-> lastHeadings units ≠ [] := by
  induction units using List.reverseRecOn with
  | nil => simp [endsInHeading, lastHeadings, List.rtakeWhile]
  | append_singleton before unit _ =>
      rw [endsInHeading_concat]
      cases hunit : unit.heading with
      | true =>
          rw [lastHeadings_concat hunit]
          simp
      | false =>
          rw [lastHeadings_plain (by rw [endsInHeading_concat]; exact hunit)]
          simp

theorem headingsBefore_ne_nil {units : List PackUnit} {before : List Block}
    (hbefore : forall block, block ∈ before -> Trimmed content block.range)
    (h : units.map PackUnit.marked =
      before.flatMap (markedPieces counter segmenter content cap)) :
    endsInHeading units = true <-> headingsBefore before ≠ [] := by
  rw [endsInHeading_iff, lastHeadings_of_marked hbefore h]
  constructor
  · rintro hsome hnone
    rw [hnone] at hsome
    exact hsome rfl
  · intro hsome hnone
    rcases List.exists_mem_of_ne_nil _ hsome with ⟨block, hblock⟩
    have hin : block ∈ before := (List.rtakeWhile_suffix _ _).subset hblock
    exact piecesOf_ne_nil (hbefore block hin) (List.flatMap_eq_nil_iff.mp hnone block hblock)

theorem introduced_iff {under : Nat} {piece : Stretch × Nat} :
    Introduced counter segmenter content cap under piece <->
      exists before unit later, units counter segmenter content cap (blocks content) =
          before ++ unit :: later ∧
        unit.heading = false ∧ unit.piece = piece ∧ endsInHeading before = true ∧
          under = carried cap (lastHeadings before) := by
  have hmarked := @units_marked counter segmenter content cap (blocks content)
  constructor
  · rintro ⟨before, after, block, piece, hblocks, hplain, hheadings, hpiece⟩
    have htrimmed : forall other, other ∈ before -> Trimmed content other.range := by
      intro other hother
      apply blocks_trimmed
      rw [hblocks]
      exact List.mem_append_left _ hother
    rcases List.head?_eq_some_iff.mp hpiece with ⟨rest, hrest⟩
    have hgiven : (blocks content).flatMap (markedPieces counter segmenter content cap) =
        before.flatMap (markedPieces counter segmenter content cap) ++
          (markedPieces counter segmenter content cap block ++
            after.flatMap (markedPieces counter segmenter content cap)) := by
      rw [hblocks, List.flatMap_append, List.flatMap_cons]
    rw [hgiven] at hmarked
    rcases List.map_eq_append_iff.mp hmarked with ⟨earlier, others, hunits, hearlier, hothers⟩
    have hblock : markedPieces counter segmenter content cap block =
        (piece, false) :: rest.map fun piece => (piece, false) := by
      unfold markedPieces
      rw [hrest, hplain, List.map_cons]
    rw [hblock, List.cons_append] at hothers
    rcases List.map_eq_cons_iff.mp hothers with ⟨unit, later, rfl, hunit, _⟩
    rcases Prod.mk.inj hunit with ⟨hsame, hmark⟩
    refine ⟨earlier, unit, later, hunits, hmark, hsame,
      (headingsBefore_ne_nil htrimmed hearlier).mpr hheadings, ?_⟩
    rw [lastHeadings_of_marked htrimmed hearlier]
  · rintro ⟨before, unit, later, hunits, hplain, rfl, hends, rfl⟩
    rw [hunits, List.map_append, List.map_cons] at hmarked
    rcases flatMap_eq_append hmarked.symm with
      ⟨earlier, block, after, first, rest, hblocks, hblock, hbefore⟩
    have htrimmed : forall other, other ∈ earlier -> Trimmed content other.range := by
      intro other hother
      apply blocks_trimmed
      rw [hblocks]
      exact List.mem_append_left _ hother
    have hkind : block.isHeading = false := by
      have hmem : unit.marked ∈ markedPieces counter segmenter content cap block := by
        rw [hblock]
        exact List.mem_append_right _ List.mem_cons_self
      exact (markedPieces_isHeading hmem).symm.trans hplain
    have hfirst : first = [] := by
      rcases List.eq_nil_or_concat first with hnil | ⟨others, last, hconcat⟩
      · exact hnil
      · exfalso
        have hlast : last ∈ markedPieces counter segmenter content cap block := by
          rw [hblock, hconcat]
          simp
        have hmark := (markedPieces_isHeading hlast).trans hkind
        rw [hconcat, List.concat_eq_append, ← List.append_assoc] at hbefore
        rcases List.map_eq_append_iff.mp hbefore with ⟨some, final, hsplit, _, hfinal⟩
        rcases List.map_eq_singleton_iff.mp hfinal with ⟨closing, rfl, hend⟩
        rw [hsplit, endsInHeading_concat] at hends
        rw [← hend] at hmark
        rw [show closing.marked.2 = closing.heading from rfl, hends] at hmark
        cases hmark
    rw [hfirst, List.append_nil] at hbefore
    rw [hfirst, List.nil_append] at hblock
    have hpiece : (piecesOf counter segmenter content cap block).head? = some unit.piece := by
      rw [← markedPieces_fst, hblock]
      rfl
    rw [lastHeadings_of_marked htrimmed hbefore]
    exact Introduced.block earlier after block unit.piece hblocks hkind
      ((headingsBefore_ne_nil htrimmed hbefore).mp hends) hpiece

theorem travels_iff {units : List PackUnit} (hled : Led false units) :
    Travels counter content cap (packPieces counter content cap none units) <->
      forall span unit, Meets counter content cap units span unit -> span.headingsOnly = true ->
        unit.heading = false -> cap < span.tokens + unit.tokens ->
          fit counter (slice content unit.range) (cap - span.tokens) = [] ->
            forall position, Boundary counter (slice content unit.range) position ->
              ¬OpeningFits counter (slice content unit.range) (cap - span.tokens) position := by
  constructor
  · intro h span unit hmeets hheadings hplain hover hnone position hboundary
    rcases packPieces_meets hmeets ((full_iff hheadings).mpr hover) hnone with
      ⟨before, headings, next, after, hspans, rfl, rfl⟩
    rw [Gathered.span_headingsOnly] at hheadings
    rcases h.followed before headings next after hspans (List.all_eq_true.mp hheadings) with
      hheading | hnothing
    · rw [hplain] at hheading
      cases hheading.1
    · exact hnothing position hboundary
  · intro h
    have hfirst := @packPieces_headingsFirst counter content cap none units hled
    constructor
    case leads =>
      intro span hspan before unit after hpieces hheading earlier hearlier
      have hordered := hfirst span hspan
      rw [hpieces] at hordered
      exact (List.pairwise_append.mp hordered).2.2 earlier hearlier unit List.mem_cons_self hheading
    case ends =>
      intro span hspan hends
      exact List.all_eq_true.mp (all_of_endsInHeading (hfirst span hspan) hends)
    case followed =>
      intro before headings next after hspans hall
      have hheadings : headings.span.headingsOnly = true := by
        rw [Gathered.span_headingsOnly]
        exact List.all_eq_true.mpr hall
      rcases packPieces_followed none units before headings next after hspans hheadings with
        ⟨hfull, hnone, hmeets⟩
      have hover := (full_iff hheadings).mp hfull
      cases hkind : next.first.heading with
      | true => exact Or.inl ⟨rfl, hover⟩
      | false =>
          right
          exact h headings.span next.first hmeets hheadings hkind hover
            (hnone (Bool.eq_false_iff.mp hkind))

theorem travels_iff_noneMissed :
    Travels counter content cap (packPieces counter content cap none
        (units counter segmenter content cap (blocks content))) <->
      NoneMissed counter segmenter content cap := by
  rw [travels_iff led_units]
  have hearly : forall (unit : PackUnit) (under : Nat),
      unit ∈ units counter segmenter content cap (blocks content) -> cap < under + unit.tokens ->
        (FoundEarly counter (slice content unit.range) (cap - under) <->
          (fit counter (slice content unit.range) (cap - under) = [] ->
            forall position, Boundary counter (slice content unit.range) position ->
              ¬OpeningFits counter (slice content unit.range) (cap - under) position)) := by
    intro unit under hunit hover
    apply foundEarly_iff
    have htokens := (units_counted unit hunit).tokens
    omega
  constructor
  · intro h under piece hintroduced hover
    rcases introduced_iff.mp hintroduced with
      ⟨before, unit, later, hunits, hplain, rfl, hends, hunder⟩
    rcases (@meets_iff counter content cap _ unit led_units under).mpr
      ⟨before, later, hunits, hends, hunder⟩ with ⟨span, hmeets, hheadings, rfl⟩
    have hmem : unit ∈ units counter segmenter content cap (blocks content) := by
      rw [hunits]
      exact List.mem_append_right _ List.mem_cons_self
    exact (hearly unit span.tokens hmem hover).mpr (h span unit hmeets hheadings hplain hover)
  · intro h span unit hmeets hheadings hplain hover
    rcases (@meets_iff counter content cap _ unit led_units span.tokens).mp
      ⟨span, hmeets, hheadings, rfl⟩ with ⟨before, later, hunits, hends, hunder⟩
    have hmem : unit ∈ units counter segmenter content cap (blocks content) := by
      rw [hunits]
      exact List.mem_append_right _ List.mem_cons_self
    exact (hearly unit span.tokens hmem hover).mp (h span.tokens unit.piece
      (introduced_iff.mpr ⟨before, unit, later, hunits, hplain, rfl, hends, hunder⟩) hover)

end Introduced

/-- The spans of a memory not kept whole are of pieces among which headings travel with what they
introduce, if and only if no block that follows headings begins with a piece that does not fit
after them and of which an opening that fits is missed. -/
theorem heading_travels_iff (counter : TokenCount) (segmenter : SentenceSegmenter)
    (name content : List Char) (cap : Nat) :
    let units := units counter segmenter content cap (blocks content)
    let spans := packPieces counter content cap none units
    pack counter segmenter name content cap =
        (if counter.count content <= cap ∨ units = [] then
          [⟨0, ⟨0, content.length⟩, name, content, counter.count content⟩]
        else
          spans.mapIdx fun ordinal gathered =>
            gathered.span.finish counter name content (blocks content) ordinal) ∧
      (Travels counter content cap spans <-> NoneMissed counter segmenter content cap) := by
  intro units spans
  constructor
  · exact pack_eq counter segmenter name content cap
  · exact travels_iff_noneMissed

def mergedOffsets (text : List Char) : List Stretch :=
  if text = "ab".toList then [⟨0, 1⟩, ⟨1, 2⟩]
  else if text = "ab cd".toList then [⟨0, 5⟩]
  else (spelling 2).offsets text

/-- A counter to which a word left at the end of a text is two tokens, and two words there one. -/
def merging : TokenCount where
  offsets := mergedOffsets
  inside := by
    intro text token htoken
    unfold mergedOffsets at htoken
    rcases Decidable.em (text = "ab".toList) with rfl | hword
    · rw [if_pos rfl] at htoken
      have hall : forall token, token ∈ [Stretch.mk 0 1, Stretch.mk 1 2] ->
          token.start <= token.stop ∧ token.stop <= "ab".toList.length := by decide
      exact hall token htoken
    · rw [if_neg hword] at htoken
      rcases Decidable.em (text = "ab cd".toList) with rfl | hwords
      · rw [if_pos rfl] at htoken
        have hall : forall token, token ∈ [Stretch.mk 0 5] ->
            token.start <= token.stop ∧ token.stop <= "ab cd".toList.length := by decide
        exact hall token htoken
      · rw [if_neg hwords] at htoken
        exact (spelling 2).inside text token htoken
  ordered := by
    intro text
    unfold mergedOffsets
    rcases Decidable.em (text = "ab".toList) with hword | hword
    · rw [if_pos hword]
      decide
    · rw [if_neg hword]
      rcases Decidable.em (text = "ab cd".toList) with hwords | hwords
      · rw [if_pos hwords]
        decide
      · rw [if_neg hwords]
        exact (spelling 2).ordered text

def headed : List Char := "# H\nab cd ef".toList

/-- A paragraph of three words under a heading of two tokens, where three are the cap: its first
word is two tokens on its own and its first two words are one, and no opening goes with the
heading. -/
theorem longer_opening_is_missed :
    ¬forall (counter : TokenCount) (segmenter : SentenceSegmenter) (content : List Char)
        (cap : Nat), 1 <= cap -> cap < counter.count content ->
      units counter segmenter content cap (blocks content) ≠ [] ->
        Travels counter content cap (packPieces counter content cap none
          (units counter segmenter content cap (blocks content))) := by
  intro h
  have hunits : units merging stopSegmenter headed 3 (blocks headed) =
      [⟨⟨0, 3⟩, 2, true, true, some 0, none⟩, ⟨⟨4, 12⟩, 3, false, false, some 0, none⟩] := by
    decide +kernel
  have htravels := h merging stopSegmenter headed 3 (by decide) (by decide +kernel)
    (by rw [hunits]; exact List.cons_ne_nil _ _)
  rw [hunits] at htravels
  have hnone : fit merging (slice headed ⟨4, 12⟩) 1 = [] := by decide +kernel
  have hspans : packPieces merging headed 3 none
      [⟨⟨0, 3⟩, 2, true, true, some 0, none⟩, ⟨⟨4, 12⟩, 3, false, false, some 0, none⟩] =
      [] ++ Gathered.of ⟨⟨0, 3⟩, 2, true, true, some 0, none⟩ ::
        Gathered.of ⟨⟨4, 12⟩, 3, false, false, some 0, none⟩ :: [] := by
    rw [packPieces_open, packPieces_keep ?_ fun _ hsome => hsome hnone, packPieces]
    · rfl
    · exact (full_iff rfl).mpr (by decide)
  have hopening : Boundary merging (slice headed ⟨4, 12⟩) 6 ∧
      OpeningFits merging (slice headed ⟨4, 12⟩) 1 6 := by
    constructor
    · exact ⟨⟨6, 8⟩, by decide +kernel, Or.inl rfl⟩
    · unfold OpeningFits
      decide +kernel
  rcases htravels.followed _ _ _ _ hspans (by decide) with hheading | hnothing
  · exact Bool.false_ne_true hheading.1
  · exact hnothing 6 hopening.1 hopening.2

end Spans
end PaminMemory
