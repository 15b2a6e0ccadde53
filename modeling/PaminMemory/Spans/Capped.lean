import PaminMemory.Spans.Conserved

/-!
# Spans keep the cap

Tokens are counted a piece at a time and added up, so a span keeps the cap where pieces
that meet count no more together than apart.
-/

namespace PaminMemory
namespace Spans

open Foundation
open Topics (isWhitespace)

/-!
## The cap
-/

section Cap

variable {counter : TokenCount} {content : List Char} {cap : Nat}

end Cap

/-!
## What `pack` returns
-/

/-- The spans lie in order and apart, each holding the content at its range, and every
character outside them is white space. -/
structure Conserves (content : List Char) (spans : List Span) : Prop where
  inside : forall span, span ∈ spans ->
    span.range.start <= span.range.stop ∧ span.range.stop <= content.length
  ordered : spans.Pairwise fun earlier later => earlier.range.stop <= later.range.start
  text : forall span, span ∈ spans -> span.text = slice content span.range
  outside : forall position c, content[position]? = some c ->
    (forall span, span ∈ spans ->
      ¬(span.range.start <= position ∧ position < span.range.stop)) ->
    isWhitespace c = true

/-- The spans are numbered from 0. -/
def Numbered (spans : List Span) : Prop :=
  spans.map Span.ordinal = List.range spans.length

def join (run : Stretch) : List Stretch -> List Stretch
  | [] => [run]
  | next :: rest =>
      if run.stop = next.start then join ⟨run.start, next.stop⟩ rest else run :: join next rest

section Join

variable {counter : TokenCount} {content : List Char} {cap : Nat}

theorem Lies.stop_le {gathered : Gathered} (h : Lies counter content cap gathered) :
    gathered.span.stop <= content.length := by
  rcases gathered.span_stop with ⟨unit, hunit, hstop⟩
  rw [hstop]
  exact (h.counted unit hunit).trimmed.stop_le

end Join

section Pack

variable {counter : TokenCount} {segmenter : SentenceSegmenter} {name content : List Char}
  {cap : Nat} {spans : List Span}

theorem conserves_of_tiles
    (h : Tiles (White content) 0 content.length (spans.map Span.range))
    (htext : forall span, span ∈ spans -> span.text = slice content span.range) :
    Conserves content spans := by
  constructor
  · intro span hspan
    exact (h.bounds span.range (List.mem_map_of_mem hspan)).right
  · exact List.pairwise_map.mp h.ordered
  · exact htext
  · intro position c hc hout
    have hless := (List.getElem?_eq_some_iff.mp hc).choose
    refine h.covers position (Nat.zero_le position) hless ?_ c hc
    intro piece hpiece
    rcases List.mem_map.mp hpiece with ⟨span, hspan, heq⟩
    rw [← heq]
    exact hout span hspan

def packedSpans (counter : TokenCount) (segmenter : SentenceSegmenter) (name content : List Char)
    (cap : Nat) : List Span :=
  (packPieces counter content cap none
    (units counter segmenter content cap (blocks content))).mapIdx fun ordinal gathered =>
      gathered.span.finish counter name content (blocks content) ordinal

theorem pack_eq (counter : TokenCount) (segmenter : SentenceSegmenter) (name content : List Char)
    (cap : Nat) :
    pack counter segmenter name content cap =
      if counter.count content <= cap ∨
          units counter segmenter content cap (blocks content) = [] then
        [⟨0, ⟨0, content.length⟩, name, content, counter.count content⟩]
      else
        packedSpans counter segmenter name content cap := by
  by_cases hfits : counter.count content <= cap
  · rw [if_pos (Or.inl hfits)]
    unfold pack
    exact if_pos hfits
  · by_cases hnone : units counter segmenter content cap (blocks content) = []
    · rw [if_pos (Or.inr hnone)]
      unfold pack
      exact (if_neg hfits).trans (if_pos hnone)
    · rw [if_neg fun h => h.elim hfits hnone]
      unfold pack packedSpans
      refine (if_neg hfits).trans ((if_neg hnone).trans ?_)
      have hspans := @packPieces_spans counter content cap none
        (units counter segmenter content cap (blocks content))
      rw [Option.map_none] at hspans
      rw [← hspans]
      apply List.ext_getElem?
      intro index
      rw [List.getElem?_mapIdx, List.getElem?_map, List.getElem?_mapIdx, Option.map_map]
      rfl

theorem ranges_packedSpans (counter : TokenCount) (segmenter : SentenceSegmenter)
    (name content : List Char) (cap : Nat) :
    (packedSpans counter segmenter name content cap).map Span.range =
      (packPieces counter content cap none
        (units counter segmenter content cap (blocks content))).map fun gathered =>
          gathered.span.range := by
  unfold packedSpans
  apply List.ext_getElem?
  intro index
  rw [List.getElem?_map, List.getElem?_mapIdx, List.getElem?_map, Option.map_map]
  rfl

theorem tiles_packedSpans : Tiles (White content) 0 content.length
    ((packedSpans counter segmenter name content cap).map Span.range) := by
  have htiles := @tiles_packLoop counter content cap 0 content.length none
    (units counter segmenter content cap (blocks content)) units_counted tiles_units
  have hspans := @packPieces_spans counter content cap none
    (units counter segmenter content cap (blocks content))
  rw [Option.map_none] at hspans
  rw [← hspans, List.map_map] at htiles
  rw [ranges_packedSpans]
  exact htiles

theorem mem_packedSpans {span : Span}
    (h : span ∈ packedSpans counter segmenter name content cap) :
    exists gathered, gathered ∈ packPieces counter content cap none
        (units counter segmenter content cap (blocks content)) ∧
      span.range = gathered.span.range ∧ span.text = slice content gathered.span.range := by
  rcases List.mem_mapIdx.mp h with ⟨index, hless, heq⟩
  refine ⟨_, List.getElem_mem hless, ?_⟩
  rw [← heq]
  exact ⟨rfl, rfl⟩

theorem pack_conserved : Conserves content (pack counter segmenter name content cap) := by
  rw [pack_eq]
  split
  · apply conserves_of_tiles
    · exact tiles_singleton (Nat.zero_le content.length)
    · intro span hspan
      rw [List.mem_singleton.mp hspan]
      exact slice_whole.symm
  · apply conserves_of_tiles tiles_packedSpans
    intro span hspan
    rcases mem_packedSpans hspan with ⟨gathered, _, hrange, htext⟩
    rw [htext, hrange]

end Pack

/-!
## A tokenizer that spells out long words
-/

/-- The tokens of a word that ends at `stop`: one if it is known, else one a character. -/
def wordTokens (known stop length : Nat) : List Stretch :=
  if length = 0 then []
  else if length <= known then [⟨stop - length, stop⟩]
  else (List.range' (stop - length) length).map fun position => ⟨position, position + 1⟩

def spell (known position length : Nat) : List Char -> List Stretch
  | [] => wordTokens known position length
  | c :: text =>
      if isWhitespace c then wordTokens known position length ++ spell known (position + 1) 0 text
      else spell known (position + 1) (length + 1) text

section Spelling

variable {known position length : Nat} {text : List Char}

theorem wordTokens_bounds (h : length <= position) :
    forall token, token ∈ wordTokens known position length ->
      position - length <= token.start ∧ token.start < token.stop ∧ token.stop <= position := by
  unfold wordTokens
  intro token htoken
  by_cases hnone : length = 0
  · rw [if_pos hnone] at htoken
    cases htoken
  · rw [if_neg hnone] at htoken
    by_cases hknown : length <= known
    · rw [if_pos hknown] at htoken
      rw [List.mem_singleton.mp htoken]
      simp only
      omega
    · rw [if_neg hknown] at htoken
      rcases List.mem_map.mp htoken with ⟨start, hstart, heq⟩
      rw [← heq]
      have hin := List.mem_range'_1.mp hstart
      simp only
      omega

theorem wordTokens_ordered :
    (wordTokens known position length).Pairwise fun earlier later => earlier.start < later.start := by
  unfold wordTokens
  by_cases hnone : length = 0
  · rw [if_pos hnone]
    exact List.Pairwise.nil
  · rw [if_neg hnone]
    by_cases hknown : length <= known
    · rw [if_pos hknown]
      exact List.pairwise_singleton _ _
    · rw [if_neg hknown]
      apply List.pairwise_map.mpr
      exact List.pairwise_lt_range'

theorem spell_bounds : forall {text : List Char} {position length : Nat}, length <= position ->
    forall token, token ∈ spell known position length text ->
      position - length <= token.start ∧ token.start < token.stop ∧
        token.stop <= position + text.length
  | [], position, length, h, token, htoken => wordTokens_bounds h token htoken
  | c :: text, position, length, h, token, htoken => by
      unfold spell at htoken
      rw [List.length_cons]
      by_cases hc : isWhitespace c = true
      · rw [if_pos hc] at htoken
        cases List.mem_append.mp htoken with
        | inl hword =>
            have hin := wordTokens_bounds h token hword
            omega
        | inr hlater =>
            have hin := spell_bounds (Nat.zero_le (position + 1)) token hlater
            omega
      · rw [if_neg hc] at htoken
        have hin := spell_bounds (Nat.succ_le_succ h) token htoken
        omega

theorem spell_ordered : forall {text : List Char} {position length : Nat}, length <= position ->
    (spell known position length text).Pairwise fun earlier later => earlier.start < later.start
  | [], _, _, _ => wordTokens_ordered
  | c :: text, position, length, h => by
      unfold spell
      by_cases hc : isWhitespace c = true
      · rw [if_pos hc]
        apply List.pairwise_append.mpr
        refine ⟨wordTokens_ordered, spell_ordered (Nat.zero_le (position + 1)), ?_⟩
        intro earlier hearlier later hlater
        have hfirst := wordTokens_bounds h earlier hearlier
        have hsecond := spell_bounds (Nat.zero_le (position + 1)) later hlater
        omega
      · rw [if_neg hc]
        exact spell_ordered (Nat.succ_le_succ h)

def spelling (known : Nat) : TokenCount where
  offsets := spell known 0 0
  inside := by
    intro text token htoken
    have hin := spell_bounds (Nat.le_refl 0) token htoken
    omega
  ordered := by
    intro text
    exact (spell_ordered (Nat.le_refl 0)).imp Nat.le_of_lt

end Spelling

def fullStops (position : Nat) : List Char -> List Nat
  | [] => [position]
  | c :: text =>
      if c = '。' ∧ text ≠ [] then (position + 1) :: fullStops (position + 1) text
      else fullStops (position + 1) text

theorem fullStops_last : forall (text : List Char) (position : Nat),
    (fullStops position text).getLast? = some (position + text.length)
  | [], position => rfl
  | c :: text, position => by
      have hrest := fullStops_last text (position + 1)
      have hlength : position + (c :: text).length = position + 1 + text.length := by
        rw [List.length_cons]
        omega
      unfold fullStops
      by_cases hc : c = '。' ∧ text ≠ []
      · rw [if_pos hc, List.getLast?_cons, hrest, hlength]
        rfl
      · rw [if_neg hc, hrest, hlength]

theorem fullStops_ordered : forall (text : List Char) (position : Nat),
    (position :: fullStops position text).Pairwise (· <= ·)
  | [], position => by simp [fullStops]
  | c :: text, position => by
      have hrest := fullStops_ordered text (position + 1)
      have hlater := List.pairwise_cons.mp hrest
      unfold fullStops
      by_cases hc : c = '。' ∧ text ≠ []
      · rw [if_pos hc]
        apply List.pairwise_cons.mpr
        refine ⟨?_, hrest⟩
        intro bound hbound
        cases List.mem_cons.mp hbound with
        | inl heq => omega
        | inr hin => exact Nat.le_of_succ_le (hlater.left bound hin)
      · rw [if_neg hc]
        apply List.pairwise_cons.mpr
        refine ⟨?_, hlater.right⟩
        intro bound hbound
        exact Nat.le_of_succ_le (hlater.left bound hbound)

def stopSegmenter : SentenceSegmenter where
  segment := fun text => 0 :: fullStops 0 text
  first := fun _ _ => rfl
  last := by
    intro text _
    rw [List.getLast?_cons, fullStops_last, Nat.zero_add]
    rfl
  ordered := fun text => fullStops_ordered text 0

end Spans
end PaminMemory
