import Mathlib.Data.List.Forall2
import PaminMemory.Ingest.Names
import PaminMemory.Topics.Filter

/-!
# Cutting files into sections

How a file is cut, and how its sections are named, as what a build does with a text: the
results here hold for every way of cutting that names sections apart.
-/

namespace PaminMemory
namespace Ingest

/-- One section of a file: a memory's topic and content. -/
structure Section where
  name : String
  content : String
deriving DecidableEq, Repr

/-- A section before it is named, by the headings it sits under. -/
structure Unnamed where
  base : String
  content : String
deriving DecidableEq, Repr

/-- These are the cut sections, each named by its base and a number, no two alike. -/
structure Numbered (cut : List Unnamed) (sections : List Section) : Prop where
  each : List.Forall₂
    (fun unnamed named => named.content = unnamed.content ∧
      (number named.name unnamed.base).isSome) cut sections
  apart : (sections.map Section.name).Nodup

/-- What each build makes of a text. -/
structure Cutter where
  /-- What a record knows a text by. -/
  contentHash : String -> String
  unnamed : String -> String -> String -> List Unnamed
  /-- Names for sections, given what sections of the file said before. -/
  named : List Unnamed -> List Section -> List Section
  pairs : List String -> List String -> List (Nat × Nat)
  named_nil : forall previous, named [] previous = []
  named_numbered : forall build file text previous,
    Numbered (unnamed build file text) (named (unnamed build file text) previous)

def Cutter.Names (cutter : Cutter) (file name : String) : Prop :=
  exists build text previous,
    name ∈ (cutter.named (cutter.unnamed build file text) previous).map Section.name

end Ingest
end PaminMemory
