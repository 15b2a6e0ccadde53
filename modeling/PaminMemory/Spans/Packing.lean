import Mathlib.Algebra.GroupWithZero.Nat
import PaminMemory.Spans.Blocks
import PaminMemory.Spans.Cutting

/-!
# Packing spans

A memory that fits is one span.  Any other is cut along its blocks, and the pieces are
packed in order into spans, a heading opening a span and never ending one where what
follows can be cut.
-/

namespace PaminMemory
namespace Spans

open Foundation

def HEADER_TOKENS : Nat := 32

/-- One span of a memory. -/
structure Span where
  ordinal : Nat
  range : Stretch
  header : List Char
  text : List Char
  tokens : Nat
deriving DecidableEq, Repr

structure PackUnit where
  range : Stretch
  tokens : Nat
  opens : Bool
  heading : Bool
  headingBlock : Option Nat
  continued : Option Nat
deriving DecidableEq, Repr

structure Packed where
  start : Nat
  stop : Nat
  tokens : Nat
  headingsOnly : Bool
  headingBlock : Option Nat
  continued : Option Nat
deriving DecidableEq, Repr

namespace Packed

def of (unit : PackUnit) : Packed where
  start := unit.range.start
  stop := unit.range.stop
  tokens := unit.tokens
  headingsOnly := unit.heading
  headingBlock := unit.headingBlock
  continued := unit.continued

def push (span : Packed) (unit : PackUnit) : Packed :=
  { span with
    stop := unit.range.stop
    tokens := span.tokens + unit.tokens
    headingsOnly := span.headingsOnly && unit.heading }

def range (span : Packed) : Stretch :=
  ⟨span.start, span.stop⟩

end Packed

section Pack

variable (counter : TokenCount) (segmenter : SentenceSegmenter) (content : List Char) (cap : Nat)

def blockPieces (block : Block) : List Stretch :=
  match block.kind with
  | Kind.fence | Kind.table => lines content block.range
  | _ => sentences segmenter content block.range

def pushPiece (block : Block) (unit : Stretch -> Nat -> Bool -> PackUnit)
    (units : List PackUnit) (piece : Stretch × Nat) : List PackUnit :=
  let first := units.getLast?.all fun last => last.range.stop <= block.range.start
  units ++ [unit piece.1 piece.2 first]

def unitsFrom (index : Nat) (headingBlock : Option Nat) (units : List PackUnit) :
    List Block -> List PackUnit
  | [] => units
  | block :: blocks =>
      let isHeading := decide (block.kind = Kind.heading)
      let headingBlock := if isHeading then some index else headingBlock
      let unit := fun range tokens first =>
        { range, tokens, opens := isHeading && first, heading := isHeading, headingBlock,
          continued :=
            if block.kind = Kind.turn ∨ block.kind = Kind.table then some index else none :
          PackUnit }
      let tokens := counter.count (slice content block.range)
      let units :=
        if tokens <= cap then
          units ++ [unit block.range tokens true]
        else
          ((blockPieces segmenter content block).flatMap (fitted counter content cap)).foldl
            (pushPiece block unit) units
      unitsFrom (index + 1) headingBlock units blocks

def units (blocks : List Block) : List PackUnit :=
  unitsFrom counter segmenter content cap 0 none [] blocks

def headUnit (unit : PackUnit) (room : Nat) : PackUnit :=
  let head := fit counter (slice content unit.range) room
  { unit with
    range := ⟨unit.range.start, unit.range.start + head.length⟩
    tokens := counter.count head }

@[simp] theorem headUnit_range (unit : PackUnit) (room : Nat) :
    (headUnit counter content unit room).range =
      ⟨unit.range.start,
        unit.range.start + (fit counter (slice content unit.range) room).length⟩ := rfl

def restUnits (unit : PackUnit) (stop : Nat) : List PackUnit :=
  (restPieces counter content cap ⟨stop, unit.range.stop⟩).map fun piece =>
    { unit with range := piece.1, tokens := piece.2, opens := false }

def reach (units : List PackUnit) : Nat :=
  (units.map fun unit => unit.range.length).sum

theorem reach_append (first second : List PackUnit) :
    reach (first ++ second) = reach first + reach second := by
  unfold reach
  rw [List.map_append, List.sum_append]

theorem reach_cons (unit : PackUnit) (pending : List PackUnit) :
    reach (unit :: pending) = unit.range.length + reach pending := rfl

theorem reach_tail_le (unit : PackUnit) (pending : List PackUnit) :
    reach pending <= reach (unit :: pending) := by
  rw [reach_cons]
  exact Nat.le_add_left _ _

theorem restUnits_ranges (unit : PackUnit) (stop : Nat) :
    (restUnits counter content cap unit stop).map PackUnit.range =
      (restPieces counter content cap ⟨stop, unit.range.stop⟩).map Prod.fst := by
  unfold restUnits
  rw [List.map_map]
  rfl

theorem reach_restUnits (unit : PackUnit) {room : Nat}
    (hsome : fit counter (slice content unit.range) room ≠ []) :
    reach (restUnits counter content cap unit
      (unit.range.start + (fit counter (slice content unit.range) room).length)) <
      unit.range.length := by
  have hopening := (@fit_opening counter (slice content unit.range) room).length_le
  have hfull := List.length_pos_iff.mpr hsome
  generalize (fit counter (slice content unit.range) room).length = taken at hopening hfull ⊢
  have hslice : (slice content unit.range).length <= unit.range.length := slice_length_le
  unfold Stretch.length at hslice ⊢
  have hwithin : unit.range.start + taken <= unit.range.stop := by omega
  have hlength := Tiles.length_le (@tiles_restPieces counter content
    ⟨unit.range.start + taken, unit.range.stop⟩ cap hwithin)
  have hreach : reach (restUnits counter content cap unit (unit.range.start + taken)) =
      (((restPieces counter content cap ⟨unit.range.start + taken, unit.range.stop⟩).map
        Prod.fst).map Stretch.length).sum := by
    rw [← restUnits_ranges]
    unfold reach
    rw [List.map_map]
    rfl
  rw [hreach]
  simp only at hlength
  omega

def packLoop (current : Option Packed) : List PackUnit -> List Packed
  | [] => current.toList
  | unit :: pending =>
      match current with
      | none => packLoop (some (Packed.of unit)) pending
      | some span =>
          if span.tokens + unit.tokens <= cap ∧ ¬(unit.opens ∧ ¬span.headingsOnly) then
            packLoop (some (span.push unit)) pending
          -- A span of headings alone would end with one, so what does not fit after them
          -- is cut so that its opening does.
          else if span.headingsOnly ∧ ¬unit.heading then
            let room := cap - span.tokens
            let head := fit counter (slice content unit.range) room
            if head ≠ [] then
              let stop := unit.range.start + head.length
              span.push (headUnit counter content unit room) ::
                packLoop none (restUnits counter content cap unit stop ++ pending)
            else
              span :: packLoop (some (Packed.of unit)) pending
          else
            span :: packLoop (some (Packed.of unit)) pending
termination_by pending => (reach pending, pending.length)
decreasing_by
  · exact Prod.Lex.right' _ (reach_tail_le unit pending) (Nat.lt_succ_self _)
  · exact Prod.Lex.right' _ (reach_tail_le unit pending) (Nat.lt_succ_self _)
  · apply Prod.Lex.left
    rw [reach_append, reach_cons]
    exact Nat.add_lt_add_right (reach_restUnits counter content cap unit ‹_›) _
  · exact Prod.Lex.right' _ (reach_tail_le unit pending) (Nat.lt_succ_self _)
  · exact Prod.Lex.right' _ (reach_tail_le unit pending) (Nat.lt_succ_self _)

variable {counter} {content} {cap} {span : Packed} {unit : PackUnit} {pending : List PackUnit}

theorem packLoop_head
    (hfull : ¬(span.tokens + unit.tokens <= cap ∧ ¬(unit.opens ∧ ¬span.headingsOnly)))
    (hheadings : span.headingsOnly ∧ ¬unit.heading)
    (hsome : fit counter (slice content unit.range) (cap - span.tokens) ≠ []) :
    packLoop counter content cap (some span) (unit :: pending) =
      span.push (headUnit counter content unit (cap - span.tokens)) ::
        packLoop counter content cap none
          (restUnits counter content cap unit (unit.range.start +
            (fit counter (slice content unit.range) (cap - span.tokens)).length) ++ pending) := by
  rw [packLoop, if_neg hfull, if_pos hheadings]
  exact if_pos hsome

theorem packLoop_keep
    (hfull : ¬(span.tokens + unit.tokens <= cap ∧ ¬(unit.opens ∧ ¬span.headingsOnly)))
    (hnone : (span.headingsOnly ∧ ¬unit.heading) ->
      ¬fit counter (slice content unit.range) (cap - span.tokens) ≠ []) :
    packLoop counter content cap (some span) (unit :: pending) =
      span :: packLoop counter content cap (some (Packed.of unit)) pending := by
  rw [packLoop, if_neg hfull]
  by_cases hheadings : span.headingsOnly ∧ ¬unit.heading
  · rw [if_pos hheadings]
    exact if_neg (hnone hheadings)
  · rw [if_neg hheadings]

/-- What the packing does with a unit: it opens a span, is pushed onto the one under way,
is cut so that its opening is, or closes it. -/
theorem packLoop_cases {motive : Option Packed -> List PackUnit -> Prop}
    (done : forall current, motive current [])
    (opened : forall unit pending, motive (some (Packed.of unit)) pending ->
      motive none (unit :: pending))
    (pushed : forall unit pending (span : Packed),
      (span.tokens + unit.tokens <= cap ∧ ¬(unit.opens ∧ ¬span.headingsOnly)) ->
      motive (some (span.push unit)) pending -> motive (some span) (unit :: pending))
    (headed : forall unit pending (span : Packed),
      ¬(span.tokens + unit.tokens <= cap ∧ ¬(unit.opens ∧ ¬span.headingsOnly)) ->
      (span.headingsOnly ∧ ¬unit.heading) ->
      fit counter (slice content unit.range) (cap - span.tokens) ≠ [] ->
      motive none (restUnits counter content cap unit (unit.range.start +
        (fit counter (slice content unit.range) (cap - span.tokens)).length) ++ pending) ->
      motive (some span) (unit :: pending))
    (closed : forall unit pending (span : Packed),
      ¬(span.tokens + unit.tokens <= cap ∧ ¬(unit.opens ∧ ¬span.headingsOnly)) ->
      ((span.headingsOnly ∧ ¬unit.heading) ->
        ¬fit counter (slice content unit.range) (cap - span.tokens) ≠ []) ->
      motive (some (Packed.of unit)) pending -> motive (some span) (unit :: pending))
    (current : Option Packed) (pending : List PackUnit) : motive current pending := by
  apply packLoop.induct counter content cap motive done opened pushed
  · intro unit pending span hfull hheadings room head hsome stop ih
    exact headed unit pending span hfull hheadings hsome ih
  · intro unit pending span hfull hheadings room head hnone ih
    exact closed unit pending span hfull (fun _ => hnone) ih
  · intro unit pending span hfull hheadings ih
    exact closed unit pending span hfull (fun hboth => absurd hboth hheadings) ih

end Pack

/-!
## Headers
-/

section Header

variable (counter : TokenCount)

def headerWith (header part : List Char) : Nat -> List Char
  | 0 => header
  | room + 1 =>
      let piece := fit counter part (room + 1)
      if piece = [] then
        header
      else
        let candidate := header ++ " > ".toList ++ piece
        if counter.count candidate <= HEADER_TOKENS then candidate
        else headerWith header part room

/-- A span's header: the name, then the heading it sits under, then the opening of the
turn or table it continues. -/
def header (name : List Char) (heading continued : Option (List Char)) : List Char :=
  let parts := heading.toList ++ continued.toList
  let header := parts.foldl
    (fun header part => headerWith counter header part (HEADER_TOKENS - counter.count header)) name
  fit counter header HEADER_TOKENS

end Header

def opening (content : List Char) (block : Block) : Option (List Char) :=
  let text := slice content block.range
  match block.kind with
  | Kind.turn => turn text
  | Kind.table => if text = [] then none else some (trimEnd (trimStart (firstLine text)))
  | _ => none

section Spans

variable (counter : TokenCount) (segmenter : SentenceSegmenter)

def beganBefore (blocks : List Block) (start : Nat) (block : Option Nat) : Option Block := do
  let index <- block
  let block <- blocks[index]?
  if block.range.start < start then some block else none

def Packed.finish (name content : List Char) (blocks : List Block) (span : Packed)
    (ordinal : Nat) : Span :=
  let heading := do
    let block <- beganBefore blocks span.start span.headingBlock
    let heading <- heading (slice content block.range)
    if heading = [] then none else some heading
  let continued := do
    let block <- beganBefore blocks span.start span.continued
    opening content block
  { ordinal := ordinal % 2 ^ 32
    range := span.range
    header := header counter name heading continued
    text := slice content span.range
    tokens := span.tokens }

def pack (name content : List Char) (cap : Nat) : List Span :=
  let total := counter.count content
  let whole : List Span := [⟨0, ⟨0, content.length⟩, name, content, total⟩]
  if total <= cap then
    whole
  else
    let blocks := blocks content
    let units := units counter segmenter content cap blocks
    if units = [] then
      whole
    else
      (packLoop counter content cap none units).mapIdx fun ordinal span =>
        span.finish counter name content blocks ordinal

end Spans

end Spans
end PaminMemory
