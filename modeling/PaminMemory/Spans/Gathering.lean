import PaminMemory.Spans.Packing

/-!
# The pieces that spans are packed of

The packing is followed once more with the pieces each span was packed of.
-/

namespace PaminMemory
namespace Spans

open Foundation

structure Gathered where
  first : PackUnit
  more : List PackUnit
deriving DecidableEq, Repr

namespace Gathered

def of (unit : PackUnit) : Gathered :=
  ⟨unit, []⟩

def push (gathered : Gathered) (unit : PackUnit) : Gathered :=
  ⟨gathered.first, gathered.more ++ [unit]⟩

def pieces (gathered : Gathered) : List PackUnit :=
  gathered.first :: gathered.more

def span (gathered : Gathered) : Packed :=
  gathered.more.foldl Packed.push (Packed.of gathered.first)

@[simp] theorem span_push (gathered : Gathered) (unit : PackUnit) :
    (gathered.push unit).span = gathered.span.push unit :=
  List.foldl_concat ..

@[simp] theorem pieces_push (gathered : Gathered) (unit : PackUnit) :
    (gathered.push unit).pieces = gathered.pieces ++ [unit] := rfl

theorem span_headingsOnly (gathered : Gathered) :
    gathered.span.headingsOnly = gathered.pieces.all PackUnit.heading := by
  have hall : forall (more : List PackUnit) (span : Packed),
      (more.foldl Packed.push span).headingsOnly =
        (span.headingsOnly && more.all PackUnit.heading) := by
    intro more
    induction more with
    | nil =>
        intro span
        exact (Bool.and_true _).symm
    | cons unit more ih =>
        intro span
        rw [List.foldl_cons, ih, List.all_cons, ← Bool.and_assoc]
        rfl
  exact hall gathered.more (Packed.of gathered.first)

theorem span_stop (gathered : Gathered) :
    exists unit, unit ∈ gathered.pieces ∧ gathered.span.stop = unit.range.stop := by
  have hall : forall (more : List PackUnit) (first : PackUnit),
      exists unit, unit ∈ first :: more ∧
        (more.foldl Packed.push (Packed.of first)).stop = unit.range.stop := by
    intro more first
    induction more using List.reverseRecOn with
    | nil => exact ⟨first, List.mem_cons_self, rfl⟩
    | append_singleton before last _ =>
        rw [List.foldl_concat]
        exact ⟨last, by simp, rfl⟩
  exact hall gathered.more gathered.first

end Gathered

section Gathering

variable (counter : TokenCount) (content : List Char) (cap : Nat)

def packPieces (current : Option Gathered) : List PackUnit -> List Gathered
  | [] => current.toList
  | unit :: pending =>
      match current with
      | none => packPieces (some (Gathered.of unit)) pending
      | some gathered =>
          let span := gathered.span
          if span.tokens + unit.tokens <= cap ∧ ¬(unit.opens ∧ ¬span.headingsOnly) then
            packPieces (some (gathered.push unit)) pending
          else if span.headingsOnly ∧ ¬unit.heading then
            let room := cap - span.tokens
            let head := fit counter (slice content unit.range) room
            if head ≠ [] then
              let stop := unit.range.start + head.length
              gathered.push (headUnit counter content unit room) ::
                packPieces none (restUnits counter content cap unit stop ++ pending)
            else
              gathered :: packPieces (some (Gathered.of unit)) pending
          else
            gathered :: packPieces (some (Gathered.of unit)) pending
termination_by pending => (reach pending, pending.length)
decreasing_by
  · exact Prod.Lex.right' _ (reach_tail_le unit pending) (Nat.lt_succ_self _)
  · exact Prod.Lex.right' _ (reach_tail_le unit pending) (Nat.lt_succ_self _)
  · apply Prod.Lex.left
    rw [reach_append, reach_cons]
    exact Nat.add_lt_add_right (reach_restUnits counter content cap unit ‹_›) _
  · exact Prod.Lex.right' _ (reach_tail_le unit pending) (Nat.lt_succ_self _)
  · exact Prod.Lex.right' _ (reach_tail_le unit pending) (Nat.lt_succ_self _)

def Full (cap : Nat) (span : Packed) (unit : PackUnit) : Prop :=
  ¬(span.tokens + unit.tokens <= cap ∧ ¬(unit.opens ∧ ¬span.headingsOnly))

variable {counter} {content} {cap} {gathered : Gathered} {unit : PackUnit}
  {pending : List PackUnit}

theorem packPieces_open : packPieces counter content cap none (unit :: pending) =
    packPieces counter content cap (some (Gathered.of unit)) pending := by
  rw [packPieces]

theorem packPieces_push
    (hroom : gathered.span.tokens + unit.tokens <= cap ∧
      ¬(unit.opens ∧ ¬gathered.span.headingsOnly)) :
    packPieces counter content cap (some gathered) (unit :: pending) =
      packPieces counter content cap (some (gathered.push unit)) pending := by
  rw [packPieces]
  exact if_pos hroom

theorem packPieces_head (hfull : Full cap gathered.span unit)
    (hheadings : gathered.span.headingsOnly ∧ ¬unit.heading)
    (hsome : fit counter (slice content unit.range) (cap - gathered.span.tokens) ≠ []) :
    packPieces counter content cap (some gathered) (unit :: pending) =
      gathered.push (headUnit counter content unit (cap - gathered.span.tokens)) ::
        packPieces counter content cap none
          (restUnits counter content cap unit (unit.range.start +
            (fit counter (slice content unit.range) (cap - gathered.span.tokens)).length) ++
              pending) := by
  rw [packPieces, if_neg hfull, if_pos hheadings]
  exact if_pos hsome

theorem packPieces_keep (hfull : Full cap gathered.span unit)
    (hnone : (gathered.span.headingsOnly ∧ ¬unit.heading) ->
      ¬fit counter (slice content unit.range) (cap - gathered.span.tokens) ≠ []) :
    packPieces counter content cap (some gathered) (unit :: pending) =
      gathered :: packPieces counter content cap (some (Gathered.of unit)) pending := by
  rw [packPieces, if_neg hfull]
  rcases Decidable.em (gathered.span.headingsOnly ∧ ¬unit.heading) with hheadings | hheadings
  · rw [if_pos hheadings]
    exact if_neg (hnone hheadings)
  · rw [if_neg hheadings]

theorem packPieces_cases {motive : Option Gathered -> List PackUnit -> Prop}
    (done : forall current, motive current [])
    (opened : forall unit pending, motive (some (Gathered.of unit)) pending ->
      motive none (unit :: pending))
    (pushed : forall unit pending (gathered : Gathered),
      (gathered.span.tokens + unit.tokens <= cap ∧
        ¬(unit.opens ∧ ¬gathered.span.headingsOnly)) ->
      motive (some (gathered.push unit)) pending -> motive (some gathered) (unit :: pending))
    (headed : forall unit pending (gathered : Gathered), Full cap gathered.span unit ->
      (gathered.span.headingsOnly ∧ ¬unit.heading) ->
      fit counter (slice content unit.range) (cap - gathered.span.tokens) ≠ [] ->
      motive none (restUnits counter content cap unit (unit.range.start +
        (fit counter (slice content unit.range) (cap - gathered.span.tokens)).length) ++ pending) ->
      motive (some gathered) (unit :: pending))
    (closed : forall unit pending (gathered : Gathered), Full cap gathered.span unit ->
      ((gathered.span.headingsOnly ∧ ¬unit.heading) ->
        ¬fit counter (slice content unit.range) (cap - gathered.span.tokens) ≠ []) ->
      motive (some (Gathered.of unit)) pending -> motive (some gathered) (unit :: pending))
    (current : Option Gathered) (pending : List PackUnit) : motive current pending := by
  apply packPieces.induct counter content cap motive done opened pushed
  · intro unit pending gathered span hfull hheadings room head hsome stop ih
    exact headed unit pending gathered hfull hheadings hsome ih
  · intro unit pending gathered span hfull hheadings room head hnone ih
    exact closed unit pending gathered hfull (fun _ => hnone) ih
  · intro unit pending gathered span hfull hheadings ih
    exact closed unit pending gathered hfull (fun hboth => absurd hboth hheadings) ih

theorem packPieces_spans (current : Option Gathered) (pending : List PackUnit) :
    (packPieces counter content cap current pending).map Gathered.span =
      packLoop counter content cap (current.map Gathered.span) pending := by
  induction current, pending using @packPieces_cases counter content cap with
  | done current =>
      rw [packPieces, packLoop]
      cases current with
      | none => rfl
      | some gathered => rfl
  | opened unit pending ih =>
      rw [packPieces, Option.map_none, packLoop]
      exact ih
  | pushed unit pending gathered hroom ih =>
      rw [packPieces_push hroom, ih, Option.map_some, Option.map_some, packLoop, if_pos hroom,
        Gathered.span_push]
  | headed unit pending gathered hfull hheadings hsome ih =>
      rw [packPieces_head hfull hheadings hsome, Option.map_some,
        packLoop_head hfull hheadings hsome, List.map_cons, ih, Gathered.span_push]
      rfl
  | closed unit pending gathered hfull hnone ih =>
      rw [packPieces_keep hfull hnone, Option.map_some, packLoop_keep hfull hnone, List.map_cons,
        ih]
      rfl

end Gathering

end Spans
end PaminMemory
