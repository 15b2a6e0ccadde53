import Mathlib.Data.List.Basic

/-!
# Paths as settings

A path is compared by a spelling that no other path has, and shown as written.
-/

namespace PaminMemory
namespace Settings

/-- What a path decodes to, one by one: a character, or a byte that is none's. -/
inductive OsUnit where
  | char (c : Char)
  | byte (b : UInt8)
deriving DecidableEq, Repr

abbrev OsString := List OsUnit

abbrev Path := OsString

def osString (text : String) : OsString := text.toList.map OsUnit.char

def toStr (value : OsString) : Option String :=
  (value.mapM fun
    | OsUnit.char c => some c
    | OsUnit.byte _ => none).map String.ofList

@[simp] theorem toStr_osString (text : String) : toStr (osString text) = some text := by
  have hchars : forall chars : List Char, (chars.map OsUnit.char).mapM (fun
      | OsUnit.char c => some c
      | OsUnit.byte _ => none) = some chars := by
    intro chars
    induction chars with
    | nil => rfl
    | cons c rest ih => simp [List.mapM_cons, ih]
  simp [toStr, osString, hchars]

def isAbsolute (path : Path) : Bool := path.head? = some (OsUnit.char '/')

def join (base path : Path) : Path :=
  if isAbsolute path then
    path
  else if base.getLast? = some (OsUnit.char '/') then
    base ++ path
  else
    base ++ OsUnit.char '/' :: path

def hex (b : UInt8) : List Char := [(b.toNat / 16).digitChar, (b.toNat % 16).digitChar]

/-- A character as written, a backslash twice, and a byte that decodes to none by its digits. -/
def spelledUnit : OsUnit -> List Char
  | OsUnit.char c => if c = '\\' then ['\\', '\\'] else [c]
  | OsUnit.byte b => '\\' :: 'x' :: hex b

def spelledPath (path : Path) : String := String.ofList (path.flatMap spelledUnit)

def shownPath (path : Path) : String := (toStr path).getD (spelledPath path)

theorem digitChar_injective (first other : Fin 16)
    (h : first.val.digitChar = other.val.digitChar) : first = other := by
  revert first other
  decide

theorem hex_injective : Function.Injective hex := by
  intro b c h
  have hb := b.toNat_lt
  have hc := c.toNat_lt
  rw [hex, hex, List.cons.injEq, List.cons.injEq] at h
  have hhigh := digitChar_injective ⟨b.toNat / 16, by omega⟩ ⟨c.toNat / 16, by omega⟩ h.1
  have hlow := digitChar_injective ⟨b.toNat % 16, by omega⟩ ⟨c.toNat % 16, by omega⟩ h.2.1
  rw [Fin.mk.injEq] at hhigh hlow
  apply UInt8.toNat_inj.mp
  omega

theorem spelled_cons_injective {first other : OsUnit} {rest others : List Char}
    (h : spelledUnit first ++ rest = spelledUnit other ++ others) :
    first = other ∧ rest = others := by
  cases first with
  | char c =>
      cases other with
      | char d =>
          by_cases hc : c = '\\'
          · by_cases hd : d = '\\'
            · simp_all [spelledUnit]
            · simp [spelledUnit, hc, hd] at h
              exact absurd h.1.symm hd
          · by_cases hd : d = '\\'
            · simp [spelledUnit, hc, hd] at h
            · simpa [spelledUnit, hc, hd] using h
      | byte b =>
          by_cases hc : c = '\\'
          · simp [spelledUnit, hc] at h
          · simp [spelledUnit, hc] at h
  | byte b =>
      cases other with
      | char d =>
          by_cases hd : d = '\\'
          · simp [spelledUnit, hd] at h
          · simp [spelledUnit, hd] at h
            exact absurd h.1.symm hd
      | byte c =>
          simp only [spelledUnit, List.cons_append, List.cons.injEq, true_and] at h
          have hlength : (hex b).length = (hex c).length := rfl
          obtain ⟨hsame, hrest⟩ := List.append_inj h hlength
          rw [hex_injective hsame]
          exact ⟨rfl, hrest⟩

theorem spelledUnit_ne_nil (first : OsUnit) : spelledUnit first ≠ [] := by
  cases first with
  | char c =>
      by_cases hc : c = '\\'
      · simp [spelledUnit, hc]
      · simp [spelledUnit, hc]
  | byte b => simp [spelledUnit]

theorem spelledPath_injective : Function.Injective spelledPath := by
  intro first other h
  have hchars := String.ofList_injective h
  clear h
  induction first generalizing other with
  | nil =>
      cases other with
      | nil => rfl
      | cons unit rest =>
          rw [List.flatMap_nil, List.flatMap_cons] at hchars
          exact absurd (List.append_eq_nil_iff.mp hchars.symm).1 (spelledUnit_ne_nil unit)
  | cons unit rest ih =>
      cases other with
      | nil =>
          rw [List.flatMap_nil, List.flatMap_cons] at hchars
          exact absurd (List.append_eq_nil_iff.mp hchars).1 (spelledUnit_ne_nil unit)
      | cons unit' rest' =>
          rw [List.flatMap_cons, List.flatMap_cons] at hchars
          obtain ⟨hunit, hrest⟩ := spelled_cons_injective hchars
          rw [hunit, ih hrest]

end Settings
end PaminMemory
