import PaminMemory.Spans.Text

/-!
# Blocks

The structure a memory is cut along: fenced code, headings, conversation turns, tables
and paragraphs, in order, with nothing but white space outside them.
-/

namespace PaminMemory
namespace Spans

open Foundation
open Topics (isWhitespace)

instance lawfulWords : LawfulBEq (List Char) := inferInstance

/-!
## What a line opens
-/

def backtick : Char := Char.ofNat 96

def indented (line : List Char) : Option (List Char) :=
  let rest := line.dropWhile (· = ' ')
  if line.length - rest.length <= 3 then some rest else none

def fence (line : List Char) : Option (Char × Nat) := do
  let rest <- indented line
  let marker <- rest.head?.filter fun c => c = backtick ∨ c = '~'
  let length := rest.length - (rest.dropWhile (· = marker)).length
  if 3 <= length then some (marker, length) else none

def closes (line : List Char) (opening : Char × Nat) : Bool :=
  match indented line with
  | some rest =>
      let after := rest.dropWhile (· = opening.1)
      decide (opening.2 <= rest.length - after.length) && blank after
  | none => false

def startsWhite (text : List Char) : Bool :=
  text.head?.any isWhitespace

def endsWhite (text : List Char) : Bool :=
  text.getLast?.any isWhitespace

def heading (line : List Char) : Option (List Char) := do
  let rest <- indented line
  let text := rest.dropWhile (· = '#')
  let level := rest.length - text.length
  if ¬(1 <= level ∧ level <= 6) ∨ ¬(text = [] ∨ startsWhite text) then
    none
  else
    -- An optional closing run of `#`, when a space separates it.
    let text := trimEnd (trimStart text)
    let opened := text.rdropWhile (· = '#')
    some (if opened = [] ∨ endsWhite opened then trimEnd opened else text)

def firstLine (text : List Char) : List Char :=
  let line := text.takeWhile (· ≠ '\n')
  if line.length < text.length ∧ line.getLast? = some '\r' then line.dropLast else line

def splitOnce (separator : Char) (text : List Char) : Option (List Char × List Char) :=
  match text.dropWhile (· ≠ separator) with
  | [] => none
  | _ :: after => some (text.takeWhile (· ≠ separator), after)

def roles : List (List Char) :=
  ["user:".toList, "assistant:".toList, "system:".toList]

def turn (text : List Char) : Option (List Char) :=
  let line := firstLine text
  match line with
  | '[' :: rest => do
      let (date, rest) <- splitOnce ']' rest
      let (speaker, after) <- splitOnce ':' rest
      if ¬(1 <= date.length ∧ date.length <= 64) ∨ speaker = [] ∨
          64 < (trimStart speaker).length ∨ ¬(after = [] ∨ startsWhite after) then
        none
      else
        let speaker := trimEnd (trimStart speaker)
        some (if speaker = [] then date else date ++ ", ".toList ++ speaker)
  | _ =>
      roles.findSome? fun role =>
        let opening := line.take role.length
        if opening.map Char.toLower = role then some opening.dropLast else none

def stripFirst (c : Char) (text : List Char) : List Char :=
  if text.head? = some c then text.tail else text

def stripLast (c : Char) (text : List Char) : List Char :=
  if text.getLast? = some c then text.dropLast else text

def cells (row : List Char) : List (List Char) :=
  let row := stripLast '|' (stripFirst '|' (trimEnd (trimStart row)))
  (row.splitOn '|').map fun cell => trimEnd (trimStart cell)

/-- Whether a line and the next one open a table: a header row, then a delimiter row of
as many cells. -/
def table (line next : List Char) : Bool :=
  let delimiter := (cells next).all fun cell =>
    let cell := stripLast ':' (stripFirst ':' cell)
    decide (cell ≠ []) && cell.all (· = '-')
  decide ('|' ∈ line) && decide ('|' ∈ next) && delimiter &&
    decide ((cells line).length = (cells next).length)

def opens (line : List Char) : Bool :=
  (fence line).isSome || (heading line).isSome || (turn line).isSome

/-!
## Reading the blocks
-/

inductive Kind where
  | fence
  | heading
  | turn
  | table
  | paragraph
deriving DecidableEq, Repr

structure Block where
  kind : Kind
  range : Stretch
deriving DecidableEq, Repr

def fenceLines (content : List Char) (opening : Char × Nat) : List Stretch -> Nat
  | [] => 0
  | line :: lines =>
      if closes (slice content line) opening then 1 else fenceLines content opening lines + 1

def begins (content : List Char) (text : List Char) (lines : List Stretch) : Kind × Nat :=
  match fence text with
  | some opening => (Kind.fence, fenceLines content opening lines)
  | none =>
      if (heading text).isSome then
        (Kind.heading, 0)
      else if (turn text).isSome then
        (Kind.turn, (lines.takeWhile fun line => !opens (slice content line)).length)
      else
        let isTable := lines.head?.any fun next => table text (slice content next)
        let taken := lines.takeWhile fun line =>
          !blank (slice content line) && !opens (slice content line)
        (if isTable then Kind.table else Kind.paragraph, taken.length)

def lastLine (content : List Char) (first : Stretch) (more : List Stretch) : Stretch :=
  ((first :: more).reverse.find? fun line => !blank (slice content line)).getD first

def blocksOf (content : List Char) : List Stretch -> List Block
  | [] => []
  | first :: lines =>
      if blank (slice content first) then
        blocksOf content lines
      else
        let (kind, taken) := begins content (slice content first) lines
        let last := lastLine content first (lines.take taken)
        ⟨kind, trim content ⟨first.start, last.stop⟩⟩ :: blocksOf content (lines.drop taken)
termination_by lines => lines.length
decreasing_by
  · exact Nat.lt_succ_self lines.length
  · simp only [List.length_drop, List.length_cons]
    omega

def blocks (content : List Char) : List Block :=
  blocksOf content (splitAt 0 content.length (newlines 0 content))

/-!
## Only white space is in no block
-/

section Blocks

variable {content : List Char}

theorem tiles_lastLine {first : Stretch} {more : List Stretch} {start stop : Nat}
    (hfirst : blank (slice content first) = false)
    (h : Tiles (White content) start stop (first :: more)) :
    Tiles (White content) start stop [⟨first.start, (lastLine content first more).stop⟩] := by
  unfold lastLine
  cases hfind : (first :: more).reverse.find? fun line => !blank (slice content line) with
  | none =>
      have hall := List.find?_eq_none.mp hfind first (by simp)
      simp [hfirst] at hall
  | some last =>
      rcases (List.find?_eq_some_iff_append.mp hfind) with ⟨_, after, before, heq, hblank⟩
      have hlines : first :: more = (before.reverse ++ [last]) ++ after.reverse := by
        rw [← List.reverse_reverse (first :: more), heq]
        simp
      rw [hlines] at h
      rcases h.split with ⟨middle, hupto, hafter⟩
      have hslack : Slack (White content) middle stop := by
        apply hafter.slack_all
        intro line hline
        apply slack_of_blank
        simpa using hblank line (List.mem_reverse.mp hline)
      have hlast : Tiles (White content) start stop (before.reverse ++ [last]) :=
        Tiles.slack_after hafter.le hslack hupto
      cases hbefore : before.reverse with
      | nil =>
          rw [hbefore] at hlast hlines
          have hsame : first = last := by
            simp only [List.nil_append, List.cons_append, List.cons.injEq] at hlines
            exact hlines.left
          rw [hsame]
          exact hlast
      | cons head others =>
          rw [hbefore] at hlast hlines
          have hsame : first = head := by
            simp only [List.cons_append, List.cons.injEq] at hlines
            exact hlines.left
          rw [hsame]
          exact Tiles.join_all hlast

theorem tiles_blocksOf (lines : List Stretch) {start stop : Nat}
    (h : Tiles (White content) start stop lines) :
    Tiles (White content) start stop ((blocksOf content lines).map Block.range) := by
  induction lines using blocksOf.induct content generalizing start with
  | case1 =>
      rw [blocksOf]
      exact h
  | case2 first lines hblank ih =>
      rw [blocksOf, if_pos hblank]
      rcases h with ⟨hstart, hbefore, hfirst, hrest⟩
      have hslack := hbefore.append (slack_of_blank hblank)
      exact ih (hrest.slack_before (Nat.le_trans hstart hfirst) hslack)
  | case3 first lines hblank kind taken hbegins ih =>
      rw [blocksOf, if_neg hblank, hbegins]
      rw [← List.take_append_drop taken lines, ← List.cons_append] at h
      rcases h.split with ⟨middle, htaken, hrest⟩
      have hblock := tiles_lastLine (Bool.eq_false_iff.mpr hblank) htaken
      have htrim : Tiles (White content) start middle
          [trim content ⟨first.start, (lastLine content first (lines.take taken)).stop⟩] :=
        tiles_map_trim hblock
      exact Tiles.append (ih hrest) htrim

theorem blocksOf_trimmed (lines : List Stretch) {start stop : Nat}
    (h : Tiles (White content) start stop lines) :
    forall block, block ∈ blocksOf content lines -> Trimmed content block.range := by
  induction lines using blocksOf.induct content generalizing start with
  | case1 =>
      rw [blocksOf]
      intro block hblock
      cases hblock
  | case2 first lines hblank ih =>
      rw [blocksOf, if_pos hblank]
      exact ih h.right.right.right
  | case3 first lines hblank kind taken hbegins ih =>
      rw [blocksOf, if_neg hblank, hbegins]
      rw [← List.take_append_drop taken lines, ← List.cons_append] at h
      rcases h.split with ⟨middle, htaken, hrest⟩
      intro block hblock
      cases List.mem_cons.mp hblock with
      | inl heq =>
          rw [heq]
          apply trimmed_trim
          intro hempty
          have hblock := tiles_map_trim
            (tiles_lastLine (Bool.eq_false_iff.mpr hblank) htaken)
          have hslack : Slack (White content) start middle := by
            apply hblock.slack_all
            intro piece hpiece
            rw [List.mem_singleton.mp hpiece]
            exact slack_nothing hempty
          have hin := htaken.bounds first List.mem_cons_self
          exact hblank (blank_of_slack (hslack.narrow hin.left hin.right.right))
      | inr hlater => exact ih hrest block hlater

theorem tiles_lines : Tiles (White content) 0 content.length
    (splitAt 0 content.length (newlines 0 content)) := by
  apply tiles_splitAt
  · intro index c hc
    rw [Nat.zero_add]
    exact hc
  · exact Nat.le_refl 0
  · omega

theorem tiles_blocks : Tiles (White content) 0 content.length ((blocks content).map Block.range) := by
  exact tiles_blocksOf _ tiles_lines

theorem blocks_trimmed : forall block, block ∈ blocks content -> Trimmed content block.range :=
  blocksOf_trimmed _ tiles_lines

end Blocks

end Spans
end PaminMemory
