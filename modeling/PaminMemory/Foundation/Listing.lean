import Mathlib.Data.List.Basic

/-!
# Directory trees

What a directory lists: files, and directories that list more.  A file is named by its path from
the directory at the top.
-/

namespace PaminMemory
namespace Foundation

inductive Listing (name α : Type) where
  | empty
  | file (here : name) (content : α) (rest : Listing name α)
  | dir (here : name) (inner rest : Listing name α)
deriving DecidableEq, Repr

namespace Listing

variable {name α error : Type}

def files : Listing name α -> List (List name × α)
  | empty => []
  | file here content rest => ([here], content) :: rest.files
  | dir here inner rest =>
      inner.files.map (fun found => (here :: found.1, found.2)) ++ rest.files

/-- Searches a tree for a file that passes a test of its path and content, until one does or the
test fails. -/
def search (test : List name -> α -> Except error Bool) (within : List name) :
    Listing name α -> Except error Bool
  | empty => Except.ok false
  | file here content rest => do
      if ← test (within ++ [here]) content then
        Except.ok true
      else
        rest.search test within
  | dir here inner rest => do
      if ← inner.search test (within ++ [here]) then
        Except.ok true
      else
        rest.search test within

section Paths

variable [DecidableEq name]

def find : Listing name α -> List name -> Option α
  | empty, _ => none
  | file here content rest, path => if path = [here] then some content else rest.find path
  | dir here inner rest, path =>
      match path with
      | [] => rest.find []
      | head :: more => if head = here then inner.find more else rest.find (head :: more)

def isDir : Listing name α -> List name -> Bool
  | _, [] => true
  | empty, _ :: _ => false
  | file _ _ rest, head :: more => rest.isDir (head :: more)
  | dir here inner rest, head :: more =>
      if head = here then inner.isDir more else rest.isDir (head :: more)

def alone (content : α) : List name -> Option (Listing name α)
  | [] => none
  | [here] => some (file here content empty)
  | here :: more => (alone content more).map fun inner => dir here inner empty

/-- Writes a file, and the directories it lies in; a file in the way of a directory, or a directory
in the way of the file, is left. -/
def put (content : α) : Listing name α -> List name -> Option (Listing name α)
  | empty, path => alone content path
  | file here old rest, path =>
      match path with
      | [] => none
      | head :: more =>
          if head = here then
            if more = [] then some (file here content rest) else none
          else
            (rest.put content (head :: more)).map (file here old)
  | dir here inner rest, path =>
      match path with
      | [] => none
      | head :: more =>
          if head = here then
            (inner.put content more).map fun changed => dir here changed rest
          else
            (rest.put content (head :: more)).map (dir here inner)

def erase : Listing name α -> List name -> Listing name α
  | empty, _ => empty
  | file here content rest, path =>
      if path = [here] then rest.erase path else file here content (rest.erase path)
  | dir here inner rest, path =>
      match path with
      | [] => dir here inner (rest.erase [])
      | head :: more =>
          dir here (if head = here then inner.erase more else inner) (rest.erase (head :: more))

end Paths

/-!
## Files found, searched, written and removed
-/

section Files

variable {test : List name -> α -> Except error Bool} {tree next : Listing name α}
  {path within : List name} {content : α} {found : List name × α}

@[simp] theorem files_empty : (empty : Listing name α).files = [] := rfl

theorem mem_files_file {here : name} {rest : Listing name α} :
    found ∈ (file here content rest).files <-> found = ([here], content) ∨ found ∈ rest.files :=
  List.mem_cons

theorem mem_files_dir {here : name} {inner rest : Listing name α} :
    found ∈ (dir here inner rest).files <->
      (exists more, found.1 = here :: more ∧ (more, found.2) ∈ inner.files) ∨
        found ∈ rest.files := by
  rw [files, List.mem_append, List.mem_map]
  apply or_congr_left
  constructor
  · rintro ⟨⟨more, content⟩, hmem, rfl⟩
    exact ⟨more, rfl, hmem⟩
  · rintro ⟨more, hpath, hmem⟩
    exact ⟨(more, found.2), hmem, Prod.ext hpath.symm rfl⟩

theorem search_false (h : tree.search test within = Except.ok false) (hfound : found ∈ tree.files) :
    test (within ++ found.1) found.2 = Except.ok false := by
  induction tree generalizing within found with
  | empty => cases hfound
  | file here content rest ih =>
      rw [search] at h
      cases htest : test (within ++ [here]) content with
      | error e =>
          rw [htest] at h
          cases h
      | ok passed =>
          rw [htest] at h
          cases passed with
          | true => cases h
          | false =>
              rcases mem_files_file.mp hfound with rfl | hrest
              · exact htest
              · exact ih h hrest
  | dir here inner rest ihInner ihRest =>
      rw [search] at h
      cases hinner : inner.search test (within ++ [here]) with
      | error e =>
          rw [hinner] at h
          cases h
      | ok passed =>
          rw [hinner] at h
          cases passed with
          | true => cases h
          | false =>
              rcases mem_files_dir.mp hfound with ⟨more, hpath, hmem⟩ | hrest
              · have htest := ihInner hinner hmem
                rw [hpath, ← List.singleton_append, ← List.append_assoc]
                exact htest
              · exact ihRest h hrest

theorem mem_files_alone (h : alone content path = some next) (hfound : found ∈ next.files) :
    found = (path, content) := by
  induction path generalizing next found with
  | nil => cases h
  | cons here more ih =>
      cases more with
      | nil =>
          cases h
          exact List.mem_singleton.mp hfound
      | cons second more =>
          rcases Option.map_eq_some_iff.mp h with ⟨inner, hinner, rfl⟩
          rcases mem_files_dir.mp hfound with ⟨rest, hpath, hmem⟩ | hnothing
          · cases ih hinner hmem
            exact Prod.ext hpath rfl
          · cases hnothing

variable [DecidableEq name]

theorem mem_files_of_find (h : tree.find path = some content) : (path, content) ∈ tree.files := by
  induction tree generalizing path with
  | empty => cases h
  | file here old rest ih =>
      rw [find] at h
      split at h
      · next hpath =>
          cases h
          exact mem_files_file.mpr (Or.inl (by rw [hpath]))
      · exact mem_files_file.mpr (Or.inr (ih h))
  | dir here inner rest ihInner ihRest =>
      cases path with
      | nil => exact mem_files_dir.mpr (Or.inr (ihRest h))
      | cons head more =>
          rw [find] at h
          split at h
          · next hhead =>
              exact mem_files_dir.mpr (Or.inl ⟨more, by rw [hhead], ihInner h⟩)
          · exact mem_files_dir.mpr (Or.inr (ihRest h))

theorem mem_files_put (h : tree.put content path = some next) (hfound : found ∈ next.files) :
    found = (path, content) ∨ found ∈ tree.files := by
  induction tree generalizing path next found with
  | empty => exact Or.inl (mem_files_alone h hfound)
  | file here old rest ih =>
      cases path with
      | nil => cases h
      | cons head more =>
          rw [put] at h
          split at h
          · next hhead =>
              rcases Option.ite_none_right_eq_some.mp h with ⟨hmore, hnext⟩
              cases hnext
              rcases mem_files_file.mp hfound with rfl | hrest
              · exact Or.inl (by rw [hhead, hmore])
              · exact Or.inr (mem_files_file.mpr (Or.inr hrest))
          · rcases Option.map_eq_some_iff.mp h with ⟨changed, hchanged, rfl⟩
            rcases mem_files_file.mp hfound with hold | hrest
            · exact Or.inr (mem_files_file.mpr (Or.inl hold))
            · exact (ih hchanged hrest).imp_right fun hthere => mem_files_file.mpr (Or.inr hthere)
  | dir here inner rest ihInner ihRest =>
      cases path with
      | nil => cases h
      | cons head more =>
          rw [put] at h
          split at h
          · next hhead =>
              rcases Option.map_eq_some_iff.mp h with ⟨changed, hchanged, rfl⟩
              rcases mem_files_dir.mp hfound with ⟨tail, hpath, hmem⟩ | hrest
              · rcases ihInner hchanged hmem with hnew | hthere
                · cases hnew
                  exact Or.inl (Prod.ext (hpath.trans (by rw [hhead])) rfl)
                · exact Or.inr (mem_files_dir.mpr (Or.inl ⟨tail, hpath, hthere⟩))
              · exact Or.inr (mem_files_dir.mpr (Or.inr hrest))
          · rcases Option.map_eq_some_iff.mp h with ⟨changed, hchanged, rfl⟩
            rcases mem_files_dir.mp hfound with hinner | hrest
            · exact Or.inr (mem_files_dir.mpr (Or.inl hinner))
            · exact (ihRest hchanged hrest).imp_right fun hthere =>
                mem_files_dir.mpr (Or.inr hthere)

theorem mem_files_erase :
    found ∈ (tree.erase path).files <-> found ∈ tree.files ∧ found.1 ≠ path := by
  induction tree generalizing path found with
  | empty => simp [erase]
  | file here content rest ih =>
      rw [erase]
      split
      · next hpath =>
          rw [ih, mem_files_file]
          constructor
          · exact fun h => ⟨Or.inr h.1, h.2⟩
          · rintro ⟨rfl | hrest, hne⟩
            · exact absurd hpath.symm hne
            · exact ⟨hrest, hne⟩
      · next hpath =>
          rw [mem_files_file, mem_files_file, ih]
          constructor
          · rintro (rfl | hrest)
            · exact ⟨Or.inl rfl, fun hsame => hpath hsame.symm⟩
            · exact ⟨Or.inr hrest.1, hrest.2⟩
          · rintro ⟨rfl | hrest, hne⟩
            · exact Or.inl rfl
            · exact Or.inr ⟨hrest, hne⟩
  | dir here inner rest ihInner ihRest =>
      cases path with
      | nil =>
          rw [erase, mem_files_dir, mem_files_dir, ihRest]
          constructor
          · rintro (⟨more, hpath, hmem⟩ | hrest)
            · exact ⟨Or.inl ⟨more, hpath, hmem⟩, by rw [hpath]; exact List.cons_ne_nil _ _⟩
            · exact ⟨Or.inr hrest.1, hrest.2⟩
          · rintro ⟨hinner | hrest, hne⟩
            · exact Or.inl hinner
            · exact Or.inr ⟨hrest, hne⟩
      | cons head tail =>
          rw [erase, mem_files_dir, mem_files_dir, ihRest]
          have hinner : forall more, found.1 = here :: more ->
              ((more, found.2) ∈ (if head = here then inner.erase tail else inner).files <->
                (more, found.2) ∈ inner.files ∧ found.1 ≠ head :: tail) := by
            intro more hpath
            split
            · next hhead =>
                rw [ihInner, hpath, hhead]
                apply and_congr_right
                intro _
                simp
            · next hhead =>
                rw [hpath]
                constructor
                · exact fun hmem => ⟨hmem, fun hsame => hhead (List.cons.inj hsame).1.symm⟩
                · exact And.left
          constructor
          · rintro (⟨more, hpath, hmem⟩ | hrest)
            · have hboth := (hinner more hpath).mp hmem
              exact ⟨Or.inl ⟨more, hpath, hboth.1⟩, hboth.2⟩
            · exact ⟨Or.inr hrest.1, hrest.2⟩
          · rintro ⟨⟨more, hpath, hmem⟩ | hrest, hne⟩
            · exact Or.inl ⟨more, hpath, (hinner more hpath).mpr ⟨hmem, hne⟩⟩
            · exact Or.inr ⟨hrest, hne⟩

end Files

end Listing

end Foundation
end PaminMemory
