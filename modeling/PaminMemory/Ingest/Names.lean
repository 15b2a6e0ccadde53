import Mathlib.Data.List.Basic

/-!
# The names of files and of their sections

A section is named by its file's name and the headings it sits under, and numbered where
headings repeat.  What file a section was cut from is read back from its name.
-/

namespace PaminMemory
namespace Ingest

def SEPARATOR : List Char := " › ".toList

def NUMBER : List Char := " #".toList

def EXTENSIONS : List String := ["md", "markdown", "txt"]

def digits (text : List Char) : Option (List Char) :=
  let after := text.dropWhile Char.isDigit
  if after.length < text.length then some after else none

/-- Numbers, then nothing or headings: what follows a file's name in its sections' names. -/
def endsSection : Nat -> List Char -> Bool
  | 0, rest => rest.isEmpty
  | fuel + 1, rest =>
      rest.isEmpty || SEPARATOR.isPrefixOf rest ||
        match (rest.dropPrefix? NUMBER).bind digits with
        | some after => endsSection fuel after
        | none => false

def belongs (name file : String) : Bool :=
  match name.toList.dropPrefix? file.toList with
  | none => false
  | some rest => endsSection rest.length rest

/-!
## What a name could be of
-/

def splitsAt (pattern : List Char) : Nat -> List Char -> List Char -> List (List Char)
  | 0, _, _ => []
  | _ + 1, _, [] => []
  | fuel + 1, before, c :: rest =>
      if pattern.isPrefixOf (c :: rest) then
        before :: splitsAt pattern fuel (before ++ pattern) ((c :: rest).drop pattern.length)
      else
        splitsAt pattern fuel (before ++ [c]) rest

def filesOf (name : String) : List String :=
  let text := name.toList
  let before := splitsAt SEPARATOR text.length [] text ++ splitsAt NUMBER text.length [] text
  (before.map String.ofList ++ [name]).filter fun file => belongs name file

def withoutNumbers : Nat -> List Char -> List Char
  | 0, text => text
  | fuel + 1, text =>
      match (digits text).bind fun rest => rest.dropPrefix? NUMBER.reverse with
      | some before => withoutNumbers fuel before
      | none => text

def fileOf (name : String) : String :=
  let text := name.toList
  let file := (splitsAt SEPARATOR text.length [] text).head?.getD text
  String.ofList (withoutNumbers file.length file.reverse).reverse

def under (name tree : String) : Bool :=
  match name.toList.dropPrefix? tree.toList with
  | some (c :: _) => c = '/'
  | _ => false

def lastComponent (path : String) : List Char :=
  ((path.toList.splitOn '/').filter fun component => component ≠ [] ∧ component ≠ ['.']).getLastD []

def extension (path : String) : Option String :=
  let last := (lastComponent path).reverse
  let ending := last.takeWhile fun c => c ≠ '.'
  if last ≠ ['.', '.'] ∧ ending.length + 1 < last.length then
    some (String.ofList ending.reverse)
  else
    none

def walkedKind (path : String) : Bool :=
  match extension path with
  | none => false
  | some ending => EXTENSIONS.any fun known => known.toList = ending.toList.map Char.toLower

/-- Where the file of this name would be; its first component is the root's own name. -/
def onDisk (root file : String) : String :=
  if root = "/" then
    root ++ file
  else
    root ++ "/" ++ String.ofList ((file.toList.dropWhile fun c => c ≠ '/').drop 1)

/-!
## Numbers of a base
-/

/-- The number a name gives a section under a base: one for the base itself. -/
def number (name base : String) : Option Nat :=
  match name.toList.dropPrefix? base.toList with
  | none => none
  | some [] => some 1
  | some rest =>
      match rest.dropPrefix? NUMBER with
      | none => none
      | some figures =>
          let value := figures.foldl (fun n c => 10 * n + (c.toNat - '0'.toNat)) 0
          if figures ≠ [] ∧ figures.all Char.isDigit ∧ 2 <= value ∧ value < 4294967296 then
            some value
          else
            none

@[simp] theorem number_self (base : String) : number base base = some 1 := by
  have hdrop : base.toList.dropPrefix? base.toList = some [] :=
    List.dropPrefix?_eq_some_iff.mpr ⟨base.toList, by simp, by simp⟩
  simp [number, hdrop]

def CHAR_MAX : Char := Char.ofNat 1114111

def inRange (low name : String) : Bool :=
  match name.toList.dropPrefix? low.toList with
  | none => false
  | some [] => true
  | some (c :: _) => c ≠ CHAR_MAX

theorem head_of_endsSection {fuel : Nat} {c : Char} {rest : List Char}
    (h : endsSection fuel (c :: rest) = true) : c = ' ' := by
  have hseparator : SEPARATOR = [' ', '›', ' '] := by decide
  have hnumber : NUMBER = [' ', '#'] := by decide
  cases fuel with
  | zero => simp [endsSection] at h
  | succ fuel =>
      simp only [endsSection, List.isEmpty_cons, Bool.false_or, Bool.or_eq_true] at h
      cases h with
      | inl h =>
          rw [hseparator, List.isPrefixOf_cons_cons, Bool.and_eq_true, beq_iff_eq] at h
          exact h.1.symm
      | inr h =>
          cases hdrop : (c :: rest).dropPrefix? NUMBER with
          | none => simp [hdrop] at h
          | some after =>
              obtain ⟨start, hlist, hstart⟩ := List.dropPrefix?_eq_some_iff.mp hdrop
              rw [eq_of_beq hstart, hnumber] at hlist
              exact (List.cons.inj hlist).1

theorem dropPrefix?_chars {text start rest : List Char} :
    text.dropPrefix? start = some rest <-> text = start ++ rest := by
  rw [List.dropPrefix?_eq_some_iff]
  constructor
  · intro h
    obtain ⟨first, hlist, hfirst⟩ := h
    rw [hlist, eq_of_beq hfirst]
  · exact fun h => ⟨start, h, by simp⟩

theorem under_iff {name tree : String} :
    under name tree = true <-> exists rest, name.toList = tree.toList ++ '/' :: rest := by
  unfold under
  cases hdrop : name.toList.dropPrefix? tree.toList with
  | none =>
      constructor
      · intro h
        cases h
      · intro h
        obtain ⟨rest, hrest⟩ := h
        rw [dropPrefix?_chars.mpr hrest] at hdrop
        cases hdrop
  | some after =>
      have hname := dropPrefix?_chars.mp hdrop
      cases after with
      | nil =>
          constructor
          · intro h
            cases h
          · intro h
            obtain ⟨rest, hrest⟩ := h
            rw [hname] at hrest
            cases List.append_cancel_left hrest
      | cons c after =>
          constructor
          · intro h
            exact ⟨after, by rw [hname, of_decide_eq_true h]⟩
          · intro h
            obtain ⟨rest, hrest⟩ := h
            rw [hname] at hrest
            cases List.append_cancel_left hrest
            rfl

theorem under_of_belongs {name file tree : String} (h : belongs name file = true)
    (hunder : under file tree = true) : under name tree = true := by
  unfold belongs at h
  cases hrest : name.toList.dropPrefix? file.toList with
  | none => simp [hrest] at h
  | some after =>
      obtain ⟨rest, hfile⟩ := under_iff.mp hunder
      apply under_iff.mpr
      exists rest ++ after
      rw [dropPrefix?_chars.mp hrest, hfile]
      simp

theorem inRange_of_belongs {name file : String} (h : belongs name file = true) :
    inRange file name = true := by
  unfold belongs at h
  unfold inRange
  cases hrest : name.toList.dropPrefix? file.toList with
  | none => simp [hrest] at h
  | some rest =>
      cases rest with
      | nil => rfl
      | cons c rest =>
          rw [hrest] at h
          have hspace : ' ' ≠ CHAR_MAX := by decide
          simpa [head_of_endsSection h] using hspace

end Ingest
end PaminMemory
