import PaminMemory.Sections.Headed

/-!
# The lines of a file

The lines lie one after another in what is read of the file.  Some are inside a fenced block:
those after the line that opens its fence, up to the one that closes it.
-/

namespace PaminMemory
namespace Sections

open Foundation Ingest Spans
open Topics (isWhitespace)

def fenceAfter (openFence : Option (Char × Nat)) (line : List Char) : Option (Char × Nat) :=
  match openFence with
  | some opening => if closes line opening then none else some opening
  | none => fence line

def unfenced (openFence : Option (Char × Nat)) : List (Nat × List Char) -> List (Nat × List Char)
  | [] => []
  | line :: rest =>
      if openFence = none then
        line :: unfenced (fenceAfter openFence line.2) rest
      else
        unfenced (fenceAfter openFence line.2) rest

/-- The lines lie one after another between two positions, a newline after each but the last. -/
def Lined (text : List Char) (start stop : Nat) : List (Nat × List Char) -> Prop
  | [] => start = stop
  | (place, line) :: rest =>
      place = start ∧ slice text ⟨start, start + line.length⟩ = line ∧
        ((text[start + line.length]? = some '\n' ∧ start + line.length < stop ∧
            Lined text (start + line.length + 1) stop rest) ∨
          (start + line.length = stop ∧ line ≠ [] ∧ rest = []))

section Lines

variable {text : List Char}

theorem slice_one {start : Nat} {c : Char} (h : text[start]? = some c) :
    slice text ⟨start, start + 1⟩ = [c] := by
  unfold slice Stretch.length
  simp only
  rw [Nat.add_sub_cancel_left, List.take_one, List.head?_drop, h]
  rfl

theorem slice_cons {start stop : Nat} {c : Char} {rest : List Char}
    (h : slice text ⟨start, stop⟩ = c :: rest) :
    text[start]? = some c ∧ start < stop ∧ slice text ⟨start + 1, stop⟩ = rest := by
  have hless : start < stop := by
    have hlength : (slice text ⟨start, stop⟩).length <= stop - start := slice_length_le
    rw [h, List.length_cons] at hlength
    omega
  have hat : (slice text ⟨start, stop⟩)[0]? = text[start + 0]? :=
    slice_getElem? (Nat.sub_pos_of_lt hless)
  rw [h, Nat.add_zero] at hat
  refine ⟨hat.symm, hless, ?_⟩
  have hparts : slice text ⟨start, start + 1⟩ ++ slice text ⟨start + 1, stop⟩ =
      slice text ⟨start, stop⟩ := slice_append (Nat.le_succ start) hless
  rw [h, slice_one hat.symm] at hparts
  exact (List.cons.inj hparts).2

theorem lined_linesFrom {stop : Nat} {line rest : List Char} {start : Nat}
    (hline : slice text ⟨start, start + line.length⟩ = line)
    (hrest : slice text ⟨start + line.length, stop⟩ = rest)
    (hstop : start + line.length + rest.length = stop) :
    Lined text start stop (linesFrom start line rest) := by
  induction rest generalizing start line with
  | nil =>
      unfold linesFrom
      by_cases hnil : line = []
      · rw [if_pos hnil]
        rw [hnil] at hstop
        exact hstop
      · rw [if_neg hnil]
        exact ⟨rfl, hline, Or.inr ⟨hstop, hnil, rfl⟩⟩
  | cons c rest ih =>
      rcases slice_cons hrest with ⟨hc, hless, hafter⟩
      rw [List.length_cons] at hstop
      unfold linesFrom
      by_cases hnewline : c = '\n'
      · rw [if_pos hnewline]
        rw [hnewline] at hc
        refine ⟨rfl, hline, Or.inl ⟨hc, hless, ?_⟩⟩
        apply ih
        · simp [slice, Stretch.length]
        · exact hafter
        · simp only [List.length_nil]
          omega
      · rw [if_neg hnewline]
        have hlength : (line ++ [c]).length = line.length + 1 := by simp
        apply ih
        · rw [hlength, ← Nat.add_assoc,
            ← slice_append (Nat.le_add_right start line.length) (Nat.le_succ _), hline]
          rw [slice_one hc]
        · rw [hlength, ← Nat.add_assoc]
          exact hafter
        · rw [hlength]
          omega

theorem lined_linesOf {body : Stretch} (hle : body.start <= body.stop)
    (hstop : body.stop <= text.length) :
    Lined text body.start body.stop (linesOf text body) := by
  unfold linesOf
  apply lined_linesFrom
  · simp [slice, Stretch.length]
  · rfl
  · rw [List.length_nil, slice_length hstop]
    unfold Stretch.length
    omega

/-!
## Lines inside a fenced block
-/

theorem fence_blank {line : List Char} (h : blank line = true) : fence line = none := by
  unfold fence indented
  simp only
  split
  · have hwhite : forall c, (line.dropWhile (· = ' ')).head? = some c -> isWhitespace c = true := by
      intro c hc
      apply List.all_eq_true.mp h c
      exact (List.dropWhile_sublist _).subset (List.mem_of_mem_head? hc)
    cases hhead : (line.dropWhile (· = ' ')).head? with
    | none => simp [hhead]
    | some c =>
        have hsolid : ¬ (c = backtick ∨ c = '~') := by
          intro hmarker
          have hc := hwhite c hhead
          rcases hmarker with rfl | rfl
          · exact absurd hc (by decide)
          · exact absurd hc (by decide)
        simp [hhead, Option.filter, hsolid]
  · rfl

/-- Past white space from the first of some lines on, a character lies in one of them that is
not inside a fenced block, if the first is not. -/
theorem unfenced_of_white {start stop position : Nat} {lines : List (Nat × List Char)}
    (hlined : Lined text start stop lines) (hle : start <= position) (hless : position < stop)
    (hwhite : forall before, start <= before -> before < position -> White text before)
    (hsolid : ¬ White text position) :
    exists line, line ∈ unfenced none lines ∧ line.1 <= position ∧
      position < line.1 + line.2.length := by
  induction lines generalizing start with
  | nil =>
      have hsame : start = stop := hlined
      omega
  | cons first rest ih =>
      rcases first with ⟨place, line⟩
      rcases hlined with ⟨rfl, hline, hafter⟩
      rcases Nat.lt_or_ge position (place + line.length) with hin | hbeyond
      · exact ⟨(place, line), List.mem_cons_self, hle, hin⟩
      · rcases hafter with ⟨hnewline, _, hrest⟩ | ⟨hend, _⟩
        · have hpast : place + line.length < position := by
            rcases Nat.lt_or_eq_of_le hbeyond with hpast | hat
            · exact hpast
            · rw [← hat] at hsolid
              exact absurd (white_newline hnewline) hsolid
          have hblank : blank line = true := by
            rw [← hline]
            apply blank_of_slack
            intro before hfrom hto
            exact hwhite before hfrom (hto.trans hpast)
          rcases ih hrest hpast fun before hfrom hto =>
              hwhite before (by omega) hto with ⟨found, hfound, hwhere⟩
          refine ⟨found, List.mem_cons_of_mem _ ?_, hwhere⟩
          rw [show fenceAfter none line = none from fence_blank hblank]
          exact hfound
        · omega

/-- A character after white space from the start of a line that is not inside a fenced block
is in such a line as well. -/
theorem unfenced_of_start {start stop place position : Nat} {opening : Option (Char × Nat)}
    {lines : List (Nat × List Char)} {line : List Char} (hlined : Lined text start stop lines)
    (hmem : (place, line) ∈ unfenced opening lines) (hle : place <= position)
    (hless : position < stop)
    (hwhite : forall before, place <= before -> before < position -> White text before)
    (hsolid : ¬ White text position) :
    exists line, line ∈ unfenced opening lines ∧ line.1 <= position ∧
      position < line.1 + line.2.length := by
  induction lines generalizing start opening with
  | nil => cases hmem
  | cons first rest ih =>
      have hlater : (place, line) ∈ unfenced (fenceAfter opening first.2) rest ->
          exists line, line ∈ unfenced opening (first :: rest) ∧ line.1 <= position ∧
            position < line.1 + line.2.length := by
        intro hrest
        rcases hlined with ⟨_, _, ⟨_, _, htail⟩ | ⟨_, _, hnil⟩⟩
        · rcases ih htail hrest with ⟨found, hfound, hwhere⟩
          refine ⟨found, ?_, hwhere⟩
          unfold unfenced
          split
          · exact List.mem_cons_of_mem _ hfound
          · exact hfound
        · rw [hnil] at hrest
          cases hrest
      unfold unfenced at hmem
      split at hmem
      · next hopen =>
          rcases List.mem_cons.mp hmem with hfirst | hrest
          · rw [hopen]
            have hplace : place = start := by
              rw [← hlined.1, ← hfirst]
            rw [hplace] at hle hwhite
            exact unfenced_of_white hlined hle hless hwhite hsolid
          · exact hlater hrest
      · exact hlater hmem

end Lines

end Sections
end PaminMemory
