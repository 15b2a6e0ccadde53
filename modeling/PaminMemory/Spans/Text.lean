import Mathlib.Data.List.DropRight
import PaminMemory.Foundation.Tiling
import PaminMemory.Topics.Filter

/-!
# Stretches of text

Content is read as its characters, and a range of it as positions among them: every
offset taken of it lies between two characters.
-/

namespace PaminMemory
namespace Spans

open Foundation
open Topics (isWhitespace)

def slice (content : List Char) (range : Stretch) : List Char :=
  (content.drop range.start).take range.length

def White (content : List Char) (position : Nat) : Prop :=
  forall c, content[position]? = some c -> isWhitespace c = true

def blank (line : List Char) : Bool :=
  line.all isWhitespace

def trimStart (text : List Char) : List Char :=
  text.dropWhile isWhitespace

def trimEnd (text : List Char) : List Char :=
  text.rdropWhile isWhitespace

def trim (content : List Char) (range : Stretch) : Stretch :=
  let text := slice content range
  let start := range.start + (text.length - (trimStart text).length)
  let stop := max (range.start + (trimEnd text).length) start
  ⟨start, stop⟩

section Slice

variable {content : List Char} {range : Stretch}

theorem slice_length_le : (slice content range).length <= range.length := by
  unfold slice
  exact List.length_take_le _ _

theorem slice_length (h : range.stop <= content.length) :
    (slice content range).length = range.length := by
  unfold slice Stretch.length
  rw [List.length_take, List.length_drop]
  omega

theorem slice_getElem? {index : Nat} (h : index < range.length) :
    (slice content range)[index]? = content[range.start + index]? := by
  unfold slice
  rw [List.getElem?_take_of_lt h, List.getElem?_drop]

theorem slice_whole : slice content ⟨0, content.length⟩ = content := by
  simp [slice, Stretch.length]

theorem slice_append {start middle stop : Nat} (hleft : start <= middle) (hright : middle <= stop) :
    slice content ⟨start, middle⟩ ++ slice content ⟨middle, stop⟩ = slice content ⟨start, stop⟩ := by
  unfold slice Stretch.length
  have hlength : stop - start = (middle - start) + (stop - middle) := by omega
  have hdrop : content.drop middle = (content.drop start).drop (middle - start) := by
    rw [List.drop_drop, Nat.add_sub_cancel' hleft]
  simp only [hlength, hdrop, List.take_add]

theorem white_beyond {position : Nat} (h : content.length <= position) : White content position := by
  intro c hc
  rw [List.getElem?_eq_none h] at hc
  cases hc

theorem not_white {position : Nat} {c : Char} (hc : content[position]? = some c)
    (hsolid : isWhitespace c = false) : ¬White content position := by
  intro hwhite
  rw [hwhite c hc] at hsolid
  cases hsolid

theorem slack_beyond : Slack (White content) (range.start + (slice content range).length)
    range.stop := by
  intro position hstart hstop
  apply white_beyond
  unfold slice Stretch.length at hstart
  rw [List.length_take, List.length_drop] at hstart
  omega

theorem blank_of_slack (h : Slack (White content) range.start range.stop) :
    blank (slice content range) = true := by
  unfold blank
  apply List.all_eq_true.mpr
  intro c hc
  rcases List.getElem?_of_mem hc with ⟨index, hindex⟩
  have hless : index < range.length := by
    have hin := (List.getElem?_eq_some_iff.mp hindex).choose
    exact Nat.lt_of_lt_of_le hin slice_length_le
  rw [slice_getElem? hless] at hindex
  apply h (range.start + index) (Nat.le_add_right _ _) _ c hindex
  unfold Stretch.length at hless
  omega

theorem slack_of_blank (h : blank (slice content range) = true) :
    Slack (White content) range.start range.stop := by
  intro position hstart hstop c hc
  have hless : position - range.start < range.length := by
    unfold Stretch.length
    omega
  have hat : (slice content range)[position - range.start]? = some c := by
    rw [slice_getElem? hless, Nat.add_sub_cancel' hstart]
    exact hc
  exact List.all_eq_true.mp h c (List.mem_of_getElem? hat)

end Slice

/-!
## Trimming
-/

section Trim

variable {content : List Char} {range : Stretch}

theorem rdropWhile_append {xs ys : List Char} {p : Char -> Bool} (h : ys.rdropWhile p ≠ []) :
    (xs ++ ys).rdropWhile p = xs ++ ys.rdropWhile p := by
  unfold List.rdropWhile at h ⊢
  rw [List.reverse_append, List.dropWhile_append, if_neg]
  · rw [List.reverse_append, List.reverse_reverse]
  · intro hempty
    apply h
    rw [List.isEmpty_iff.mp hempty]
    rfl

theorem trimEnd_last {text : List Char} {c : Char} (hc : (trimEnd text).getLast? = some c) :
    isWhitespace c = false := by
  have hne : text.rdropWhile isWhitespace ≠ [] := by
    intro hnil
    unfold trimEnd at hc
    rw [hnil] at hc
    cases hc
  have hnot := List.rdropWhile_last_not isWhitespace text hne
  unfold trimEnd at hc
  rw [List.getLast?_eq_some_getLast hne] at hc
  cases hc
  exact Bool.eq_false_iff.mpr hnot

structure Trimming (text lead core trail : List Char) : Prop where
  parts : text = lead ++ core ++ trail
  leading : forall c, c ∈ lead -> isWhitespace c = true
  trailing : forall c, c ∈ trail -> isWhitespace c = true
  head : forall c, core.head? = some c -> isWhitespace c = false
  last : forall c, core.getLast? = some c -> isWhitespace c = false

theorem trimming (text : List Char) :
    Trimming text (text.takeWhile isWhitespace) (trimEnd (trimStart text))
      ((trimStart text).rtakeWhile isWhitespace) := by
  unfold trimEnd trimStart
  constructor
  · rw [List.append_assoc, List.rdropWhile_append_rtakeWhile, List.takeWhile_append_dropWhile]
  · intro c hc
    exact List.all_eq_true.mp List.all_takeWhile c hc
  · intro c hc
    exact List.mem_rtakeWhile_imp hc
  · intro c hc
    have hprefix := List.rdropWhile_prefix isWhitespace (text.dropWhile isWhitespace)
    rcases hprefix with ⟨rest, hrest⟩
    have hhead : (text.dropWhile isWhitespace).head? = some c := by
      rw [← hrest, List.head?_append, hc]
      rfl
    have hnot := List.head?_dropWhile_not isWhitespace text
    rw [hhead] at hnot
    exact hnot
  · intro c hc
    exact trimEnd_last hc

theorem trimStart_length (text : List Char) :
    text.length - (trimStart text).length = (text.takeWhile isWhitespace).length := by
  have hparts : text.length = (text.takeWhile isWhitespace).length + (trimStart text).length := by
    unfold trimStart
    rw [← List.length_append, List.takeWhile_append_dropWhile]
  omega

theorem trimEnd_length (text : List Char) :
    max (trimEnd text).length (text.takeWhile isWhitespace).length =
      (text.takeWhile isWhitespace).length + (trimEnd (trimStart text)).length := by
  cases hcore : trimEnd (trimStart text) with
  | nil =>
      have hrest : forall c, c ∈ trimStart text -> isWhitespace c = true :=
        (List.rdropWhile_eq_nil_iff).mp hcore
      have hall : forall c, c ∈ text -> isWhitespace c = true := by
        intro c hc
        rw [← List.takeWhile_append_dropWhile (p := isWhitespace) (l := text)] at hc
        cases List.mem_append.mp hc with
        | inl hlead => exact (trimming text).leading c hlead
        | inr hleft => exact hrest c hleft
      have hnil : trimEnd text = [] := List.rdropWhile_eq_nil_iff.mpr hall
      rw [hnil]
      simp
  | cons c rest =>
      have hne : (trimStart text).rdropWhile isWhitespace ≠ [] := by
        unfold trimEnd at hcore
        rw [hcore]
        exact List.cons_ne_nil c rest
      have happend : trimEnd text = text.takeWhile isWhitespace ++ trimEnd (trimStart text) := by
        have h := @rdropWhile_append (text.takeWhile isWhitespace) _ _ hne
        unfold trimStart at h
        rw [List.takeWhile_append_dropWhile] at h
        exact h
      rw [happend, ← hcore, List.length_append]
      omega

theorem trim_eq (content : List Char) (range : Stretch) :
    trim content range =
      ⟨range.start + ((slice content range).takeWhile isWhitespace).length,
        range.start + ((slice content range).takeWhile isWhitespace).length +
          (trimEnd (trimStart (slice content range))).length⟩ := by
  have hstart := trimStart_length (slice content range)
  have hstop := trimEnd_length (slice content range)
  unfold trim
  simp only [hstart, Stretch.mk.injEq, true_and]
  omega

structure Trimmed (content : List Char) (range : Stretch) : Prop where
  full : range.start < range.stop
  first : ¬White content range.start
  last : ¬White content (range.stop - 1)

theorem Trimmed.stop_le (h : Trimmed content range) : range.stop <= content.length := by
  cases Nat.lt_or_ge (range.stop - 1) content.length with
  | inl hless =>
      have hfull := h.full
      omega
  | inr hbeyond => exact absurd (white_beyond hbeyond) h.last

theorem Trimmed.slice_ne_nil (h : Trimmed content range) : slice content range ≠ [] := by
  intro hnil
  have hlength := slice_length h.stop_le
  rw [hnil] at hlength
  have hfull := h.full
  unfold Stretch.length at hlength
  simp only [List.length_nil] at hlength
  omega

theorem trimmed_getElem? {index : Nat} {c : Char} (hindex : (slice content range)[index]? = some c) :
    content[range.start + index]? = some c := by
  have hless : index < range.length :=
    Nat.lt_of_lt_of_le (List.getElem?_eq_some_iff.mp hindex).choose slice_length_le
  rw [slice_getElem? hless] at hindex
  exact hindex

theorem tiles_trim (h : range.start <= range.stop) :
    Tiles (White content) range.start range.stop [trim content range] := by
  have htrim := trimming (slice content range)
  have hbound : (slice content range).length <= range.length := slice_length_le
  rw [trim_eq]
  generalize (slice content range).takeWhile isWhitespace = lead at htrim ⊢
  generalize trimEnd (trimStart (slice content range)) = core at htrim ⊢
  generalize (trimStart (slice content range)).rtakeWhile isWhitespace = trail at htrim
  have hlength : (slice content range).length = lead.length + core.length + trail.length := by
    rw [htrim.parts, List.length_append, List.length_append]
  unfold Stretch.length at hbound
  refine ⟨Nat.le_add_right _ _, ?_, Nat.le_add_right _ _, ?_, ?_⟩
  · intro position hstart hstop c hc
    have hat : lead[position - range.start]? = some c := by
      have hless : position - range.start < lead.length := by
        simp only at hstop
        omega
      have hslice : (slice content range)[position - range.start]? = some c := by
        rw [slice_getElem? (by unfold Stretch.length; omega), Nat.add_sub_cancel' hstart]
        exact hc
      rw [htrim.parts, List.append_assoc, List.getElem?_append_left hless] at hslice
      exact hslice
    exact htrim.leading c (List.mem_of_getElem? hat)
  · simp only
    omega
  · intro position hstart hstop c hc
    simp only at hstart
    have hat : trail[position - range.start - (lead ++ core).length]? = some c := by
      have hslice : (slice content range)[position - range.start]? = some c := by
        rw [slice_getElem? (by unfold Stretch.length; omega), Nat.add_sub_cancel' (by omega)]
        exact hc
      rw [htrim.parts, List.getElem?_append_right (by rw [List.length_append]; omega)] at hslice
      exact hslice
    exact htrim.trailing c (List.mem_of_getElem? hat)

theorem trim_within (h : range.start <= range.stop) :
    range.start <= (trim content range).start ∧
      (trim content range).start <= (trim content range).stop ∧
        (trim content range).stop <= range.stop := by
  have htiles : Tiles (White content) range.start range.stop [trim content range] := tiles_trim h
  exact htiles.bounds _ List.mem_cons_self

theorem trimmed_trim (h : ¬(trim content range).Empty) : Trimmed content (trim content range) := by
  have htrim := trimming (slice content range)
  rw [trim_eq] at h ⊢
  generalize (slice content range).takeWhile isWhitespace = lead at htrim h ⊢
  generalize trimEnd (trimStart (slice content range)) = core at htrim h ⊢
  generalize (trimStart (slice content range)).rtakeWhile isWhitespace = trail at htrim
  have hfull : 0 < core.length := by
    unfold Stretch.Empty at h
    simp only at h
    omega
  have hat : forall index, index < core.length -> forall c, core[index]? = some c ->
      content[range.start + (lead.length + index)]? = some c := by
    intro index hindex c hc
    apply trimmed_getElem?
    rw [htrim.parts, List.append_assoc, List.getElem?_append_right (Nat.le_add_right _ _),
      Nat.add_sub_cancel_left, List.getElem?_append_left hindex]
    exact hc
  constructor
  · simp only
    omega
  · have hfirst : core[0]? = some core[0] := List.getElem?_eq_getElem hfull
    have hhead := htrim.head core[0] (by rw [List.head?_eq_getElem?, hfirst])
    simpa using not_white (hat 0 hfull core[0] hfirst) hhead
  · have hless : core.length - 1 < core.length := Nat.sub_lt hfull Nat.one_pos
    have hfinal : core[core.length - 1]? = some core[core.length - 1] :=
      List.getElem?_eq_getElem hless
    have hlast := htrim.last core[core.length - 1] (by rw [List.getLast?_eq_getElem?, hfinal])
    have hsolid := not_white (hat _ hless _ hfinal) hlast
    have hposition : range.start + (lead.length + (core.length - 1)) =
        range.start + lead.length + core.length - 1 := by omega
    rw [hposition] at hsolid
    exact hsolid

def trimmedPieces (content : List Char) (pieces : List Stretch) : List Stretch :=
  (pieces.map (trim content)).filter fun piece => ¬piece.Empty

theorem trimmedPieces_trimmed {pieces : List Stretch} :
    forall piece, piece ∈ trimmedPieces content pieces -> Trimmed content piece := by
  intro piece hpiece
  rcases List.mem_filter.mp hpiece with ⟨hmem, hfull⟩
  rcases List.mem_map.mp hmem with ⟨source, _, heq⟩
  subst heq
  exact trimmed_trim (by simpa using hfull)

theorem tiles_map_trim {pieces : List Stretch} {start stop : Nat}
    (h : Tiles (White content) start stop pieces) :
    Tiles (White content) start stop (pieces.map (trim content)) := by
  rw [List.map_eq_flatMap]
  exact h.refine fun piece hpiece => tiles_trim (h.bounds piece hpiece).right.left

theorem tiles_trimmedPieces {pieces : List Stretch} {start stop : Nat}
    (h : Tiles (White content) start stop pieces) :
    Tiles (White content) start stop (trimmedPieces content pieces) := by
  apply (tiles_map_trim h).filter
  intro piece _ hempty
  apply slack_nothing
  simpa [Stretch.Empty] using hempty

end Trim

/-!
## Lines
-/

def newlines (position : Nat) : List Char -> List Nat
  | [] => []
  | c :: text =>
      if c = '\n' then position :: newlines (position + 1) text else newlines (position + 1) text

def splitAt (start stop : Nat) : List Nat -> List Stretch
  | [] => [⟨start, stop⟩]
  | newline :: rest => ⟨start, newline⟩ :: splitAt (newline + 1) stop rest

section Lines

variable {content : List Char}

theorem white_newline {position : Nat} (h : content[position]? = some '\n') :
    White content position := by
  intro c hc
  rw [h] at hc
  cases hc
  rfl

theorem tiles_splitAt {stop : Nat} : forall {text : List Char} {start position : Nat},
    (forall index c, text[index]? = some c -> content[position + index]? = some c) ->
      start <= position -> position + text.length <= stop ->
        Tiles (White content) start stop (splitAt start stop (newlines position text))
  | [], start, position, _, hstart, hstop => tiles_singleton (by
      simp only [List.length_nil] at hstop
      omega)
  | c :: text, start, position, htext, hstart, hstop => by
      have hrest : forall index d, text[index]? = some d ->
          content[position + 1 + index]? = some d := by
        intro index d hd
        have h := htext (index + 1) d (by simpa using hd)
        rw [Nat.add_assoc, Nat.add_comm 1 index]
        exact h
      have hstop' : position + 1 + text.length <= stop := by
        rw [List.length_cons] at hstop
        omega
      unfold newlines
      by_cases hc : c = '\n'
      · rw [if_pos hc]
        have hnewline : White content position := white_newline (by
          have h := htext 0 c rfl
          rwa [hc] at h)
        have hlines := tiles_splitAt hrest (Nat.le_refl (position + 1)) hstop'
        refine ⟨Nat.le_refl start, slack_nothing (Nat.le_refl start), hstart, ?_⟩
        apply hlines.slack_before (Nat.le_succ position)
        intro here hfrom hto
        have heq : here = position := Nat.le_antisymm (Nat.le_of_lt_succ hto) hfrom
        rw [heq]
        exact hnewline
      · rw [if_neg hc]
        exact tiles_splitAt hrest (Nat.le_succ_of_le hstart) hstop'

end Lines

end Spans
end PaminMemory
