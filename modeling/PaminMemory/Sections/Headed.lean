import PaminMemory.Sections.Naming
import PaminMemory.Spans.Blocks
import PaminMemory.Spans.Cutting

/-!
# Cutting a file at its headings

A heading, ATX or setext under a paragraph, opens a section wherever it stands outside a
fenced block.  Sections too small for a claim of their own join a neighbour, and each is named
by the file's path and the headings above it.
-/

namespace PaminMemory
namespace Sections

open Foundation Ingest Spans
open Topics (isWhitespace)

def LEAST_TOKENS : Nat := 48

def TITLE_CHARS : Nat := 80

/-!
## The text that is cut
-/

def newlined : List Char -> List Char
  | [] => []
  | '\r' :: '\n' :: rest => '\n' :: newlined rest
  | '\r' :: rest => '\n' :: newlined rest
  | c :: rest => c :: newlined rest

def normalized (text : List Char) : List Char :=
  newlined (match text with
    | '\uFEFF' :: rest => rest
    | text => text)

def linesFrom (start : Nat) (line : List Char) : List Char -> List (Nat × List Char)
  | [] => if line = [] then [] else [(start, line)]
  | c :: rest =>
      if c = '\n' then
        (start, line) :: linesFrom (start + line.length + 1) [] rest
      else
        linesFrom start (line ++ [c]) rest

def keyed (alphabet : Alphabet) (line : List Char) : Bool :=
  match splitOnce ':' line with
  | none => false
  | some (key, _) =>
      !key.isEmpty && key.all fun c => alphabet.isAlphanumeric c || c = '_' || c = '-'

/-- Where a front matter block that opens with these lines ends, unless a blank line or the
end of the text comes first. -/
def frontMatterEnd (length : Nat) : List (Nat × List Char) -> Option Nat
  | [] => none
  | (start, line) :: rest =>
      if trimEnd line = "---".toList ∨ trimEnd line = "...".toList then
        some (min (start + line.length + 1) length)
      else if trimEnd line = [] then
        none
      else
        frontMatterEnd length rest

def withoutFrontMatter (alphabet : Alphabet) (text : List Char) : Stretch :=
  match text.dropPrefix? "---\n".toList with
  | none => ⟨0, text.length⟩
  | some rest =>
      if keyed alphabet (rest.takeWhile (· ≠ '\n')) then
        match frontMatterEnd text.length (linesFrom 4 [] rest) with
        | none => ⟨0, text.length⟩
        | some start => ⟨start, text.length⟩
      else
        ⟨0, text.length⟩

/-!
## What a line is
-/

def setext (line : List Char) : Option Nat := do
  let rest := trimEnd (← indented line)
  let marker ← rest.head?
  let level ← if marker = '=' then some 1 else if marker = '-' then some 2 else none
  if rest.all (· = marker) then some level else none

def BLOCKS : List (List Char) :=
  ["address", "article", "aside", "blockquote", "details", "dialog", "div", "dl", "fieldset",
    "figcaption", "figure", "footer", "form", "h1", "h2", "h3", "h4", "h5", "h6", "header",
    "hr", "li", "nav", "ol", "p", "pre", "section", "table", "ul", "script"].map String.toList

/-- Whether a line opens an HTML block: a comment, or a tag of an element read as one. -/
def htmlBlock (rest : List Char) : Bool :=
  if "<!--".toList.isPrefixOf rest then
    true
  else
    match (rest.dropPrefix? "</".toList).or (rest.dropPrefix? "<".toList) with
    | none => false
    | some tag =>
        let name := tag.takeWhile Char.isAlphanum
        let after := (tag.dropWhile Char.isAlphanum).head?
        decide (name.map Char.toLower ∈ BLOCKS) &&
          after.all fun c => c = ' ' || c = '>' || c = '/'

def ordered (rest : List Char) : Bool :=
  let number := rest.takeWhile fun c => c ≠ '.' && c ≠ ')'
  match rest.dropWhile fun c => c ≠ '.' && c ≠ ')' with
  | [] => false
  | _ :: after =>
      !number.isEmpty && number.all Char.isDigit && (after.isEmpty || after.head? = some ' ')

def opensContainer (line : List Char) : Bool :=
  match indented line with
  | none => false
  | some rest =>
      ordered rest || rest.head?.any (fun c => c = '>' || c = '|') || htmlBlock rest ||
        ['-', '*', '+'].any fun marker => rest = [marker] || [marker, ' '].isPrefixOf rest

def level (line : List Char) : Nat :=
  let rest := (indented line).getD line
  rest.length - (rest.dropWhile (· = '#')).length

/-!
## Reading a file
-/

structure Headed where
  /-- The headings it sits under, outermost first. -/
  path : List (List Char)
  range : Stretch
  /-- Whether anything but its heading is in it. -/
  hasBody : Bool
deriving DecidableEq, Repr

structure Paragraph where
  start : Nat
  lines : List (List Char)
  /-- Whether the section had anything in it before. -/
  hadBody : Bool
deriving DecidableEq, Repr

structure Reading where
  sections : List Headed
  /-- The headings above the line, with their levels. -/
  stack : List (Nat × List Char)
  start : Nat
  hasBody : Bool
  openFence : Option (Char × Nat)
  paragraph : Option Paragraph
  /-- Inside a block that a setext underline cannot follow, until a blank line. -/
  contained : Bool
deriving DecidableEq, Repr

def Reading.begin (start : Nat) : Reading :=
  { sections := [], stack := [], start := start, hasBody := false, openFence := none
    paragraph := none, contained := false }

def openAt (place : Nat) (title : List Char) (level : Nat) (hadBody : Bool) (r : Reading) :
    Reading :=
  let before := r.stack.filter fun above => above.1 < level
  { r with
    sections :=
      if r.start < place ∨ hadBody then
        r.sections ++
          [{ path := r.stack.map Prod.snd, range := ⟨r.start, place⟩, hasBody := hadBody }]
      else
        r.sections
    -- a bare run of `#` names nothing
    stack := if title = [] then before else before ++ [(level, title.take TITLE_CHARS)]
    start := place
    hasBody := false }

def readText (here : Nat) (line : List Char) (r : Reading) : Reading :=
  let contained := !blank line && (r.contained || opensContainer line)
  { r with
    contained := contained
    paragraph :=
      if blank line || contained then
        none
      else
        match r.paragraph with
        | some paragraph =>
            some { paragraph with
              lines := paragraph.lines ++ [trimEnd (trimStart line)] }
        | none =>
            if (indented line).isSome then
              some { start := here, lines := [trimEnd (trimStart line)], hadBody := r.hasBody }
            else
              none
    hasBody := r.hasBody || !blank line }

/-- A heading, or text: what a line outside a fence does that opens none. -/
def readOutside (here : Nat) (line : List Char) (r : Reading) : Reading :=
  match setext line, r.paragraph with
  | some level, some paragraph =>
      openAt paragraph.start ([' '].intercalate paragraph.lines) level paragraph.hadBody
        { r with paragraph := none }
  | _, _ =>
      match heading line with
      | some title =>
          openAt here title (level line) r.hasBody
            { r with paragraph := none, contained := false }
      | none => readText here line r

def readLine (r : Reading) (line : Nat × List Char) : Reading :=
  match r.openFence with
  | some opening =>
      { r with
        openFence := if closes line.2 opening then none else some opening
        hasBody := true }
  | none =>
      match fence line.2 with
      | some opening =>
          { r with
            openFence := some opening
            paragraph := none
            contained := false
            hasBody := true }
      | none => readOutside line.1 line.2 r

def linesOf (text : List Char) (body : Stretch) : List (Nat × List Char) :=
  linesFrom body.start [] (slice text body)

def headed (text : List Char) (body : Stretch) : List Headed :=
  let read := (linesOf text body).foldl readLine (Reading.begin body.start)
  let last : Headed :=
    { path := read.stack.map Prod.snd, range := ⟨read.start, body.stop⟩
      hasBody := read.hasBody }
  (read.sections ++ [last]).filter fun headed => !blank (slice text headed.range)

/-!
## Joining small sections
-/

structure Merging where
  out : List Headed
  waiting : Option Headed

def extendLast (stop : Nat) : List Headed -> List Headed
  | [] => []
  | [last] => [{ last with range := ⟨last.range.start, stop⟩ }]
  | first :: rest => first :: extendLast stop rest

def opened (waiting : Option Headed) (next : Headed) : Headed :=
  match waiting with
  | none => next
  | some title =>
      { next with
        range := ⟨title.range.start, next.range.stop⟩
        hasBody := next.hasBody || title.hasBody }

def mergeOne (text : List Char) (counter : TokenCount) (m : Merging) (next : Headed) :
    Merging :=
  let next := opened m.waiting next
  if counter.count (slice text next.range) < LEAST_TOKENS then
    if m.out ≠ [] ∧ next.hasBody then
      { out := extendLast next.range.stop m.out, waiting := none }
    else
      { out := m.out, waiting := some next }
  else
    { out := m.out ++ [next], waiting := none }

def merged (text : List Char) (sections : List Headed) (counter : TokenCount) : List Headed :=
  let m := sections.foldl (mergeOne text counter) { out := [], waiting := none }
  match m.waiting with
  | none => m.out
  | some title => if m.out = [] then [title] else extendLast title.range.stop m.out

/-!
## Sections
-/

def baseOf (path : String) (headings : List (List Char)) : String :=
  headings.foldl (fun base heading => base ++ String.ofList SEPARATOR ++ String.ofList heading)
    path

section Cut

variable (alphabet : Alphabet) (counter : TokenCount) (path : String) (text : List Char)

def runs : List Headed :=
  let text := normalized text
  merged text (headed text (withoutFrontMatter alphabet text)) counter

def unnamed : List Unnamed :=
  (runs alphabet counter text).filterMap fun headed =>
    let content := trimEnd (trimStart (slice (normalized text) headed.range))
    if content = [] then
      none
    else
      some { base := baseOf path headed.path, content := String.ofList content }

def sections : List Section :=
  named alphabet (unnamed alphabet counter path text) []

end Cut

end Sections
end PaminMemory
