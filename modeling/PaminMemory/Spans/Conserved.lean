import PaminMemory.Spans.Gathering

/-!
# Spans conserve the content

Cutting a block, packing the pieces and cutting the one after a heading all keep the
pieces in order over the content, with nothing but white space outside them.
-/

namespace PaminMemory
namespace Spans

open Foundation
open Topics (isWhitespace)

/-!
## The units
-/

section Units

variable {counter : TokenCount} {segmenter : SentenceSegmenter} {content : List Char} {cap : Nat}

def piecesOf (counter : TokenCount) (segmenter : SentenceSegmenter) (content : List Char)
    (cap : Nat) (block : Block) : List (Stretch × Nat) :=
  if counter.count (slice content block.range) <= cap then
    [(block.range, counter.count (slice content block.range))]
  else
    (blockPieces segmenter content block).flatMap (fitted counter content cap)

def PackUnit.piece (unit : PackUnit) : Stretch × Nat :=
  (unit.range, unit.tokens)

def Block.isHeading (block : Block) : Bool :=
  decide (block.kind = Kind.heading)

def PackUnit.marked (unit : PackUnit) : (Stretch × Nat) × Bool :=
  (unit.piece, unit.heading)

def markedPieces (counter : TokenCount) (segmenter : SentenceSegmenter) (content : List Char)
    (cap : Nat) (block : Block) : List ((Stretch × Nat) × Bool) :=
  (piecesOf counter segmenter content cap block).map fun piece => (piece, block.isHeading)

theorem foldl_pushPiece {β : Type} {part : PackUnit -> β} {give : Stretch × Nat -> β}
    {block : Block} {unit : Stretch -> Nat -> Bool -> PackUnit}
    (hunit : forall range tokens first, part (unit range tokens first) = give (range, tokens)) :
    forall (pieces : List (Stretch × Nat)) (units : List PackUnit),
      (pieces.foldl (pushPiece block unit) units).map part = units.map part ++ pieces.map give
  | [], units => by simp
  | piece :: pieces, units => by
      rw [List.foldl_cons, foldl_pushPiece hunit pieces]
      unfold pushPiece
      simp [hunit]

theorem unitsFrom_marked : forall (blocks : List Block) (index : Nat) (headingBlock : Option Nat)
    (units : List PackUnit),
    (unitsFrom counter segmenter content cap index headingBlock units blocks).map
        PackUnit.marked =
      units.map PackUnit.marked ++ blocks.flatMap (markedPieces counter segmenter content cap)
  | [], _, _, units => by simp [unitsFrom]
  | block :: blocks, index, headingBlock, units => by
      unfold unitsFrom
      rw [unitsFrom_marked blocks, List.flatMap_cons, ← List.append_assoc]
      congr 1
      unfold markedPieces piecesOf
      by_cases hfits : counter.count (slice content block.range) <= cap
      · simp only [if_pos hfits, List.map_append]
        rfl
      · simp only [if_neg hfits]
        apply foldl_pushPiece
        intro range tokens first
        rfl

theorem units_marked (blocks : List Block) :
    (units counter segmenter content cap blocks).map PackUnit.marked =
      blocks.flatMap (markedPieces counter segmenter content cap) := by
  unfold units
  rw [unitsFrom_marked]
  rfl

theorem units_pieces (blocks : List Block) :
    (units counter segmenter content cap blocks).map PackUnit.piece =
      blocks.flatMap (piecesOf counter segmenter content cap) := by
  have hmarked := congrArg (List.map Prod.fst) (@units_marked counter segmenter content cap blocks)
  rw [List.map_map, List.map_flatMap] at hmarked
  have hpieces : forall block : Block, (markedPieces counter segmenter content cap block).map
      Prod.fst = piecesOf counter segmenter content cap block := by
    intro block
    unfold markedPieces
    rw [List.map_map]
    exact List.map_id _
  simp only [hpieces] at hmarked
  exact hmarked

theorem blockPieces_trimmed (block : Block) :
    forall piece, piece ∈ blockPieces segmenter content block -> Trimmed content piece := by
  unfold blockPieces
  cases block.kind with
  | fence => exact trimmedPieces_trimmed
  | heading => exact trimmedPieces_trimmed
  | turn => exact trimmedPieces_trimmed
  | table => exact trimmedPieces_trimmed
  | paragraph => exact trimmedPieces_trimmed

theorem tiles_blockPieces {block : Block} (h : Trimmed content block.range) :
    Tiles (White content) block.range.start block.range.stop
      (blockPieces segmenter content block) := by
  unfold blockPieces
  cases block.kind with
  | fence => exact tiles_lines_of (Nat.le_of_lt h.full)
  | heading => exact tiles_sentences h
  | turn => exact tiles_sentences h
  | table => exact tiles_lines_of (Nat.le_of_lt h.full)
  | paragraph => exact tiles_sentences h

theorem tiles_piecesOf {block : Block} (h : Trimmed content block.range) :
    Tiles (White content) block.range.start block.range.stop
      ((piecesOf counter segmenter content cap block).map Prod.fst) := by
  unfold piecesOf
  by_cases hfits : counter.count (slice content block.range) <= cap
  · rw [if_pos hfits]
    exact tiles_singleton (Nat.le_of_lt h.full)
  · rw [if_neg hfits, List.map_flatMap]
    apply (tiles_blockPieces h).refine
    intro piece hpiece
    exact tiles_fitted (Nat.le_of_lt (blockPieces_trimmed block piece hpiece).full)

theorem piecesOf_counted {block : Block} (h : Trimmed content block.range) :
    forall piece, piece ∈ piecesOf counter segmenter content cap block ->
      Trimmed content piece.1 ∧ piece.2 = counter.count (slice content piece.1) := by
  unfold piecesOf
  by_cases hfits : counter.count (slice content block.range) <= cap
  · rw [if_pos hfits]
    intro piece hpiece
    rw [List.mem_singleton.mp hpiece]
    exact ⟨h, rfl⟩
  · rw [if_neg hfits]
    intro piece hpiece
    rcases List.mem_flatMap.mp hpiece with ⟨source, hsource, hin⟩
    exact fitted_counted (blockPieces_trimmed block source hsource) piece hin

theorem units_ranges :
    (units counter segmenter content cap (blocks content)).map PackUnit.range =
      ((blocks content).flatMap (piecesOf counter segmenter content cap)).map Prod.fst := by
  rw [← units_pieces, List.map_map]
  rfl

theorem tiles_units : Tiles (White content) 0 content.length
    ((units counter segmenter content cap (blocks content)).map PackUnit.range) := by
  rw [units_ranges, List.map_flatMap]
  apply tiles_blocks.refineBy
  intro block hblock
  exact tiles_piecesOf (blocks_trimmed block hblock)

structure Counted (counter : TokenCount) (content : List Char) (unit : PackUnit) : Prop where
  trimmed : Trimmed content unit.range
  tokens : unit.tokens = counter.count (slice content unit.range)

theorem mem_units {unit : PackUnit}
    (h : unit ∈ units counter segmenter content cap (blocks content)) :
    exists block, block ∈ blocks content ∧
      unit.piece ∈ piecesOf counter segmenter content cap block := by
  have hpiece := List.mem_map_of_mem (f := PackUnit.piece) h
  rw [units_pieces] at hpiece
  exact List.mem_flatMap.mp hpiece

theorem units_counted :
    forall unit, unit ∈ units counter segmenter content cap (blocks content) ->
      Counted counter content unit := by
  intro unit hunit
  rcases mem_units hunit with ⟨block, hblock, hpiece⟩
  have hcounted := piecesOf_counted (blocks_trimmed block hblock) unit.piece hpiece
  exact ⟨hcounted.left, hcounted.right⟩

end Units

/-!
## Packing
-/

section Packing

variable {counter : TokenCount} {content : List Char} {cap start stop : Nat}

theorem restUnits_counted (unit : PackUnit) (stop : Nat) :
    forall rest, rest ∈ restUnits counter content cap unit stop ->
      Counted counter content rest := by
  intro rest hrest
  rcases List.mem_map.mp hrest with ⟨piece, hpiece, heq⟩
  subst heq
  have hcounted := restPieces_counted piece hpiece
  exact ⟨hcounted.left, hcounted.right⟩

theorem tiles_headUnit {unit : PackUnit} {room : Nat} {pending : List Stretch}
    (hunit : Trimmed content unit.range)
    (hsome : fit counter (slice content unit.range) room ≠ [])
    (h : Tiles (White content) start stop (unit.range :: pending)) :
    Tiles (White content) start stop ((headUnit counter content unit room).range ::
      ((restUnits counter content cap unit
        (unit.range.start + (fit counter (slice content unit.range) room).length)).map
          PackUnit.range ++ pending)) := by
  have hwithin := (fit_range hunit hsome).right.right.left
  rw [headUnit_range]
  generalize (fit counter (slice content unit.range) room).length = taken at hwithin ⊢
  rcases h with ⟨hstart, hbefore, hfull, hrest⟩
  refine ⟨hstart, hbefore, Nat.le_add_right _ taken, ?_⟩
  apply Tiles.append hrest
  rw [restUnits_ranges]
  exact @tiles_restPieces counter content ⟨unit.range.start + taken, unit.range.stop⟩ cap hwithin

theorem tiles_push {span : Packed} {unit : PackUnit} {pending : List Stretch}
    (h : Tiles (White content) start stop (span.range :: unit.range :: pending)) :
    Tiles (White content) start stop ((span.push unit).range :: pending) :=
  h.join

theorem tiles_emit {span : Stretch} {rest : List Stretch} {packed : List Packed}
    (h : Tiles (White content) start stop (span :: rest))
    (hrest : forall {after : Nat}, Tiles (White content) after stop rest ->
      Tiles (White content) after stop (packed.map Packed.range)) :
    Tiles (White content) start stop (span :: packed.map Packed.range) :=
  ⟨h.left, h.right.left, h.right.right.left, hrest h.right.right.right⟩

theorem counted_append {unit : PackUnit} {pending : List PackUnit} {stop : Nat}
    (hunits : forall other, other ∈ unit :: pending -> Counted counter content other) :
    forall other, other ∈ restUnits counter content cap unit stop ++ pending ->
      Counted counter content other := by
  intro other hother
  cases List.mem_append.mp hother with
  | inl hrest => exact restUnits_counted unit stop other hrest
  | inr hpending => exact hunits other (List.mem_cons_of_mem unit hpending)

theorem tiles_packLoop (current : Option Packed) (pending : List PackUnit)
    (hunits : forall unit, unit ∈ pending -> Counted counter content unit)
    (h : Tiles (White content) start stop
      (current.toList.map Packed.range ++ pending.map PackUnit.range)) :
    Tiles (White content) start stop
      ((packLoop counter content cap current pending).map Packed.range) := by
  have htail : forall {unit : PackUnit} {pending : List PackUnit},
      (forall other, other ∈ unit :: pending -> Counted counter content other) ->
        forall other, other ∈ pending -> Counted counter content other :=
    fun hall other hother => hall other (List.mem_cons_of_mem _ hother)
  induction current, pending using @packLoop_cases counter content cap generalizing start with
  | done current =>
      rw [packLoop]
      simpa using h
  | opened unit pending ih =>
      rw [packLoop]
      exact ih (htail hunits) h
  | pushed unit pending span hfits ih =>
      rw [packLoop, if_pos hfits]
      exact ih (htail hunits) (tiles_push h)
  | headed unit pending span hfull hheadings hsome ih =>
      rw [packLoop_head hfull hheadings hsome]
      have hunit : Tiles (White content) span.range.stop stop
          (unit.range :: pending.map PackUnit.range) := h.right.right.right
      have hhead := @tiles_headUnit counter content cap _ _ _ _ _
        (hunits unit List.mem_cons_self).trimmed hsome hunit
      have hspan : Tiles (White content) start stop (span.range :: _ :: _) :=
        ⟨h.left, h.right.left, h.right.right.left, hhead⟩
      rw [List.map_cons]
      refine tiles_emit (tiles_push hspan) ?_
      intro after hafter
      refine ih (counted_append hunits) ?_
      rw [Option.toList_none, List.map_nil, List.nil_append, List.map_append]
      exact hafter
  | closed unit pending span hfull hnone ih =>
      rw [packLoop_keep hfull hnone, List.map_cons]
      refine tiles_emit h ?_
      intro after hafter
      exact ih (htail hunits) hafter

/-- The pieces of a span lie in order over it, each as it counts, and are no more than the cap
together unless the first is alone. -/
structure Lies (counter : TokenCount) (content : List Char) (cap : Nat) (gathered : Gathered) :
    Prop where
  counted : forall unit, unit ∈ gathered.pieces -> Counted counter content unit
  tiles : Tiles (White content) gathered.span.start gathered.span.stop
    (gathered.pieces.map PackUnit.range)
  within : gathered.first.tokens <= cap -> gathered.span.tokens <= cap

theorem Lies.full {gathered : Gathered} (h : Lies counter content cap gathered) :
    gathered.span.start < gathered.span.stop := by
  have hfirst := (h.counted gathered.first List.mem_cons_self).trimmed.full
  have hbounds := h.tiles.bounds gathered.first.range (List.mem_map_of_mem List.mem_cons_self)
  omega

end Packing

end Spans
end PaminMemory
