import PaminMemory.Foundation.Doubles
import PaminMemory.Foundation.Matching
import PaminMemory.Foundation.Windows
import PaminMemory.Ingest.Sections
import Mathlib.Data.Finset.Card
import Mathlib.Data.List.Dedup
import Mathlib.Data.List.Sort
import Mathlib.Data.Prod.Lex
import Mathlib.Data.String.Basic

/-!
# The names of a file's sections

Sections under the same headings share a base name and are told apart by number.  Each keeps
the name of the earlier section it is, by its content, and the rest take free numbers in file
order.
-/

namespace PaminMemory
namespace Sections

open Foundation Ingest

/-- What the words of a text are made of. -/
structure Alphabet where
  isAlphanumeric : Char -> Bool
  toLowercase : List Char -> List Char

/-- The share of word shingles two sections must have in common to be one section edited. -/
def SAME_SECTION : ℚ := quotient 4 5

/-!
## What two texts have in common
-/

section Similarity

variable (alphabet : Alphabet)

def wordsOf (text : String) : List (List Char) :=
  ((text.toList.splitOnP fun c => !alphabet.isAlphanumeric c).filter fun word =>
    !word.isEmpty).map alphabet.toLowercase

def shingles (text : String) : Finset (List (List Char)) :=
  let words := wordsOf alphabet text
  if words.length < 3 then {words} else (windowsOf 3 words).toFinset

def similarity (left right : String) : ℚ :=
  let union := (shingles alphabet left ∪ shingles alphabet right).card
  if union = 0 then
    1
  else
    quotient (shingles alphabet left ∩ shingles alphabet right).card union

structure Candidate where
  score : ℚ
  now : Nat
  before : Nat
deriving DecidableEq, Repr

def candidateKey (candidate : Candidate) : ℚ ×ₗ Nat ×ₗ Nat :=
  toLex (-candidate.score, toLex (candidate.now, candidate.before))

def closest (left right : Candidate) : Prop := candidateKey left <= candidateKey right

instance : DecidableRel closest := fun left right =>
  inferInstanceAs (Decidable (candidateKey left <= candidateKey right))

instance : Std.Total closest where
  total left right := le_total (candidateKey left) (candidateKey right)

instance : IsTrans Candidate closest where
  trans _ _ _ := le_trans

/-- How much a text is an earlier one; the same text is above any similarity. -/
def score (text earlier : String) : ℚ :=
  if earlier = text then 2 else similarity alphabet earlier text

def candidates (now before : List String) : List Candidate :=
  now.zipIdx.flatMap fun text =>
    (before.zipIdx.map fun earlier =>
      { score := score alphabet text.1 earlier.1, now := text.2, before := earlier.2 }).filter
        fun candidate : Candidate => SAME_SECTION <= candidate.score

def pairs (now before : List String) : List (Nat × Nat) :=
  (greedy Candidate.now Candidate.before ∅ ∅
    ((candidates alphabet now before).insertionSort closest)).map fun candidate =>
      (candidate.now, candidate.before)

end Similarity

/-!
## A name nobody has
-/

def numbered (base : String) (number : Nat) : String :=
  if number = 1 then base else base ++ " #" ++ toString number

def firstFree (taken : Finset String) (base : String) : Nat -> Nat -> Nat
  | 0, number => number
  | fuel + 1, number =>
      if numbered base number ∈ taken then firstFree taken base fuel (number + 1) else number

def unique (taken : Finset String) (base : String) : String :=
  numbered base (firstFree taken base taken.card 1)

/-!
## Names claimed again
-/

section Named

variable (alphabet : Alphabet) (sections : List Unnamed) (previous : List Section)

def basesOf : List String := ((sections.map Unnamed.base).insertionSort (· <= ·)).dedup

def membersOf (base : String) : List (Unnamed × Nat) :=
  sections.zipIdx.filter fun member => member.1.base = base

def earlierOf (base : String) : List Section :=
  previous.filter fun earlier => (number earlier.name base).isSome

def claimsOf (base : String) : List (Nat × String) :=
  let members := membersOf sections base
  let earlier := earlierOf previous base
  if earlier = [] then
    []
  else
    (pairs alphabet (members.map fun member => member.1.content)
      (earlier.map Section.content)).filterMap fun pair =>
        match members[pair.1]?, earlier[pair.2]? with
        | some member, some kept => some (member.2, kept.name)
        | _, _ => none

def claimed : List (Option String) :=
  ((basesOf sections).flatMap (claimsOf alphabet sections previous)).foldl
    (fun claimed claim => claimed.set claim.1 (some claim.2))
    (List.replicate sections.length none)

/-- The claims that are kept, and the names they take; of two for one name, the first. -/
def keep : Finset String -> List (Option String) -> List (Option String) × Finset String
  | taken, [] => ([], taken)
  | taken, none :: rest => (none :: (keep taken rest).1, (keep taken rest).2)
  | taken, some name :: rest =>
      if name ∈ taken then
        (none :: (keep taken rest).1, (keep taken rest).2)
      else
        (some name :: (keep (insert name taken) rest).1, (keep (insert name taken) rest).2)

def nameAll : Finset String -> List (Unnamed × Option String) -> List Section
  | _, [] => []
  | taken, (unnamed, some name) :: rest =>
      { name := name, content := unnamed.content } :: nameAll taken rest
  | taken, (unnamed, none) :: rest =>
      { name := unique taken unnamed.base, content := unnamed.content } ::
        nameAll (insert (unique taken unnamed.base) taken) rest

def named : List Section :=
  let kept := keep ∅ (claimed alphabet sections previous)
  nameAll kept.2 (sections.zip kept.1)

end Named

end Sections
end PaminMemory
