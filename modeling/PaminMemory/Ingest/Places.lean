import PaminMemory.Foundation.Joined
import PaminMemory.Ingest.Records
import Mathlib.Data.String.Basic

/-!
# Where files are

A file is named by the last directory of its root and then its path from there.  Its name and
its root give back where it is.
-/

namespace PaminMemory
namespace Ingest

open Foundation

structure Component where
  text : String
  full : text ≠ ""
  noSlash : '/' ∉ text.toList
  noDots : text ≠ "." ∧ text ≠ ".."
deriving DecidableEq

def joined (components : List Component) : String :=
  "/".intercalate (components.map Component.text)

def absolute (components : List Component) : String := "/" ++ joined components

def nameAt (root relative : List Component) : String := joined (root.getLast?.toList ++ relative)

/-!
## A file and where it stands
-/

/-- Where a file is: the directories of its root, and its path from there. -/
structure Place where
  root : List Component
  relative : List Component
  below : relative ≠ []
deriving DecidableEq

def Place.file (place : Place) : File :=
  { name := nameAt place.root place.relative
    path := absolute (place.root ++ place.relative)
    root := absolute place.root }

structure Walk where
  root : List Component
  relative : List Component
  whole : Bool
deriving DecidableEq

def Walk.tree (walk : Walk) : Tree :=
  { name := nameAt walk.root walk.relative, root := absolute walk.root, whole := walk.whole }

/-- The file is under the directory walked, and named from the same root. -/
def Walk.Holds (walk : Walk) (place : Place) : Prop :=
  place.root = walk.root ∧ exists more, more ≠ [] ∧ place.relative = walk.relative ++ more

/-!
## Names and places tell each other apart
-/

theorem joined_toList (components : List Component) :
    (joined components).toList =
      ['/'].intercalate (components.map fun component => component.text.toList) := by
  simp [joined, List.map_map, Function.comp_def]

theorem words_of_components {components : List Component} {word : List Char}
    (h : word ∈ components.map fun component => component.text.toList) :
    word ≠ [] ∧ '/' ∉ word := by
  rcases List.mem_map.mp h with ⟨component, _, rfl⟩
  constructor
  · intro hnil
    exact component.full (String.toList_eq_nil_iff.mp hnil)
  · exact component.noSlash

theorem component_ext {left right : Component} (h : left.text.toList = right.text.toList) :
    left = right := by
  cases left
  cases right
  cases String.toList_inj.mp h
  rfl

theorem joined_injective {left right : List Component} (h : joined left = joined right) :
    left = right := by
  have hwords := congrArg String.toList h
  rw [joined_toList, joined_toList] at hwords
  have hmap := intercalate_injective (fun _ => words_of_components)
    (fun _ => words_of_components) hwords
  exact List.map_injective_iff.mpr (fun _ _ => component_ext) hmap

theorem absolute_injective {left right : List Component} (h : absolute left = absolute right) :
    left = right := by
  apply joined_injective
  have hlist := congrArg String.toList h
  simp only [absolute, String.toList_append] at hlist
  exact String.toList_inj.mp (List.append_cancel_left hlist)

theorem place_of_key {place other : Place} (h : place.file.key = other.file.key) :
    place = other := by
  have hroot : place.root = other.root := absolute_injective (congrArg Prod.fst h)
  have hname : place.root.getLast?.toList ++ place.relative =
      other.root.getLast?.toList ++ other.relative := joined_injective (congrArg Prod.snd h)
  rw [hroot] at hname
  have hrelative := List.append_cancel_left hname
  cases place
  cases other
  cases hroot
  cases hrelative
  rfl

theorem joined_append {left right : List Component} (hleft : left ≠ []) (hright : right ≠ []) :
    joined (left ++ right) = joined left ++ "/" ++ joined right := by
  unfold joined
  rw [List.map_append, String.intercalate_append_of_ne_nil (by simpa using hleft)
    (by simpa using hright)]

theorem onDisk_file (place : Place) : onDisk place.file.root place.file.name = place.file.path := by
  rw [← String.toList_inj]
  unfold onDisk
  cases hlast : place.root.getLast? with
  | none =>
      have hroot : place.root = [] := List.getLast?_eq_none_iff.mp hlast
      simp [Place.file, nameAt, absolute, hroot, joined]
  | some base =>
      have hne : place.root ≠ [] := by
        intro hnil
        rw [hnil] at hlast
        cases hlast
      have hnot : place.file.root ≠ "/" := by
        intro hslash
        have hnil : place.root = [] := absolute_injective (hslash.trans (by rfl))
        exact hne hnil
      have hname : (nameAt place.root place.relative).toList =
          base.text.toList ++ '/' :: (joined place.relative).toList := by
        unfold nameAt
        rw [hlast, joined_append (by simp) place.below]
        simp [joined]
      have hdrop : (base.text.toList ++ '/' :: (joined place.relative).toList).dropWhile
          (fun c => c ≠ '/') = '/' :: (joined place.relative).toList := by
        rw [List.dropWhile_append_of_pos]
        · simp
        · intro c hc
          simpa using fun hslash : c = '/' => base.noSlash (hslash ▸ hc)
      rw [if_neg hnot]
      simp only [Place.file, hname, hdrop, String.toList_append, absolute,
        joined_append hne place.below]
      simp

theorem under_file {walk : Walk} {place : Place} (hroot : place.root = walk.root)
    (hnot : walk.root ≠ [] ∨ walk.relative ≠ []) :
    under place.file.name walk.tree.name = true <-> walk.Holds place := by
  have hne : walk.root.getLast?.toList ++ walk.relative ≠ [] := by
    intro hnil
    rcases List.append_eq_nil_iff.mp hnil with ⟨hbase, hrelative⟩
    cases hnot with
    | inl hnot =>
        cases hlast : walk.root.getLast? with
        | none => exact hnot (List.getLast?_eq_none_iff.mp hlast)
        | some base =>
            rw [hlast] at hbase
            cases hbase
    | inr hnot => exact hnot hrelative
  rw [under_iff]
  constructor
  · intro h
    rcases h with ⟨rest, hrest⟩
    show walk.Holds place
    have hwords : ['/'].intercalate ((place.root.getLast?.toList ++ place.relative).map
          fun component => component.text.toList) =
        ['/'].intercalate ((walk.root.getLast?.toList ++ walk.relative).map
          fun component => component.text.toList) ++ '/' :: rest := by
      rw [← joined_toList, ← joined_toList]
      exact hrest
    rcases words_after (by simpa using hne) (fun _ h => (words_of_components h).2)
      (fun _ h => (words_of_components h).2) hwords with ⟨more, hmore, hsplit⟩
    rcases List.map_eq_append_iff.mp hsplit with ⟨start, after, hall, hstart, hafter⟩
    have hsame : start = walk.root.getLast?.toList ++ walk.relative :=
      List.map_injective_iff.mpr (fun _ _ => component_ext) hstart
    rw [hsame, hroot, List.append_assoc] at hall
    constructor
    · exact hroot
    · exists after
      constructor
      · intro hnil
        rw [hnil] at hafter
        exact hmore hafter.symm
      · exact List.append_cancel_left hall
  · intro h
    rcases h with ⟨_, more, hmore, hrelative⟩
    exists (joined more).toList
    show (nameAt place.root place.relative).toList = (nameAt walk.root walk.relative).toList ++ _
    unfold nameAt
    rw [hrelative, hroot, ← List.append_assoc, joined_append hne hmore]
    simp

theorem under_root {place : Place} (hroot : place.root = []) :
    under place.file.name "" = false := by
  rw [Bool.eq_false_iff]
  intro h
  rcases under_iff.mp h with ⟨rest, hrest⟩
  have hname : place.file.name = joined place.relative := by
    simp [Place.file, nameAt, hroot]
  rw [hname, joined_toList] at hrest
  cases hrelative : place.relative with
  | nil => exact place.below hrelative
  | cons component more =>
      rw [hrelative, List.map_cons] at hrest
      cases htext : component.text.toList with
      | nil => exact component.full (String.toList_eq_nil_iff.mp htext)
      | cons c text =>
          have hslash := component.noSlash
          rw [htext, List.intercalate_cons_cons_left] at hrest
          rw [htext, (List.cons.inj hrest).1] at hslash
          exact hslash (List.mem_cons_self ..)

theorem splitOn_joined {components : List Component} (h : components ≠ []) :
    (joined components).toList.splitOn '/' =
      components.map fun component => component.text.toList := by
  rw [joined_toList]
  apply List.splitOn_intercalate
  · exact fun _ hword => (words_of_components hword).2
  · simpa using h

theorem named_components (components : List Component) :
    (components.map fun component => component.text.toList).filter
        (fun component => component ≠ [] ∧ component ≠ ['.']) =
      components.map fun component => component.text.toList := by
  apply List.filter_eq_self.mpr
  intro word hword
  rcases List.mem_map.mp hword with ⟨component, _, rfl⟩
  have hdot : component.text.toList ≠ ['.'] := by
    intro hdot
    exact component.noDots.1 (String.toList_inj.mp hdot)
  exact decide_eq_true ⟨(words_of_components hword).1, hdot⟩

theorem lastComponent_joined (components : List Component) {last : Component} :
    lastComponent (joined (components ++ [last])) = last.text.toList := by
  unfold lastComponent
  rw [splitOn_joined (by simp), named_components]
  simp

theorem lastComponent_absolute (components : List Component) {last : Component} :
    lastComponent (absolute (components ++ [last])) = last.text.toList := by
  have hpath : (absolute (components ++ [last])).toList =
      [] ++ '/' :: (joined (components ++ [last])).toList := by
    simp [absolute]
  unfold lastComponent
  rw [hpath, List.splitOn_append_cons_self, splitOn_joined (by simp), List.filter_append,
    named_components]
  simp

theorem walkedKind_file (place : Place) :
    walkedKind place.file.name = walkedKind place.file.path := by
  rcases List.eq_nil_or_concat place.relative with hnil | ⟨steps, last, hlast⟩
  · exact absurd hnil place.below
  · have hname : lastComponent place.file.name = last.text.toList := by
      show lastComponent (nameAt place.root place.relative) = _
      unfold nameAt
      rw [hlast, List.concat_eq_append, ← List.append_assoc]
      exact lastComponent_joined _
    have hpath : lastComponent place.file.path = last.text.toList := by
      show lastComponent (absolute (place.root ++ place.relative)) = _
      rw [hlast, List.concat_eq_append, ← List.append_assoc]
      exact lastComponent_absolute _
    simp only [walkedKind, extension, hname, hpath]

end Ingest
end PaminMemory
