import Mathlib.Data.List.Basic

/-!
# Files that outlive processes

A disk holds what was last put under each name.  After a loss of power a name may hold nothing,
or the beginning of anything it ever held: what was written may not have reached the disk, nor
what replaced it.
-/

namespace PaminMemory
namespace Foundation

structure Disk (name : Type) where
  files : name -> Option (List UInt8)
  /-- What was ever put under a name. -/
  once : name -> List (List UInt8)

namespace Disk

variable {name : Type}

def empty : Disk name := { files := fun _ => none, once := fun _ => [] }

def lost (disk : Disk name) (left : name -> Option (Nat × Nat)) : Disk name :=
  { disk with files := fun place =>
      (left place).bind fun kept => ((disk.once place)[kept.1]?).map fun content =>
        content.take kept.2 }

section Changes

variable [DecidableEq name]

def put (disk : Disk name) (place : name) (content : List UInt8) : Disk name :=
  { files := Function.update disk.files place (some content)
    once := Function.update disk.once place (content :: disk.once place) }

def remove (disk : Disk name) (place : name) : Disk name :=
  { disk with files := Function.update disk.files place none }

def rename (disk : Disk name) (source target : name) : Option (Disk name) :=
  (disk.files source).map fun content => (disk.remove source).put target content

end Changes

/-!
## What every file holds

A condition that the whole of a write meets is met by whatever a loss of power leaves of it.
-/

structure Held (Fact : name -> List UInt8 -> Prop) (disk : Disk name) : Prop where
  once : forall place content, content ∈ disk.once place -> Fact place content
  files : forall place content, disk.files place = some content ->
    exists whole, whole ∈ disk.once place ∧ content <+: whole

section Rules

variable {Fact Other : name -> List UInt8 -> Prop} {disk : Disk name} {place other : name}
  {content : List UInt8}

theorem held_empty : (empty : Disk name).Held Fact where
  once := by
    intro place content h
    cases h
  files := by
    intro place content h
    cases h

theorem Held.imp (h : disk.Held Fact) (himp : forall place content, Fact place content ->
    Other place content) : disk.Held Other where
  once := fun place content hmem => himp place content (h.once place content hmem)
  files := h.files

theorem Held.begins (h : disk.Held Fact) (hfile : disk.files place = some content) :
    exists whole, Fact place whole ∧ content <+: whole := by
  rcases h.files place content hfile with ⟨whole, hmem, hbegins⟩
  exact ⟨whole, h.once place whole hmem, hbegins⟩

theorem held_lost (h : disk.Held Fact) (left : name -> Option (Nat × Nat)) :
    (disk.lost left).Held Fact where
  once := h.once
  files := by
    intro other found hfile
    rcases Option.bind_eq_some_iff.mp hfile with ⟨kept, _, hkept⟩
    rcases Option.map_eq_some_iff.mp hkept with ⟨content, hcontent, rfl⟩
    exact ⟨content, List.mem_of_getElem? hcontent, List.take_prefix _ _⟩

variable [DecidableEq name]

/-!
## What a change leaves of the files
-/

theorem put_files : (disk.put place content).files other =
    if other = place then some content else disk.files other :=
  Function.update_apply _ _ _ _

theorem put_once : (disk.put place content).once other =
    if other = place then content :: disk.once place else disk.once other :=
  Function.update_apply _ _ _ _

theorem put_files_self : (disk.put place content).files place = some content := by
  rw [put_files, if_pos rfl]

theorem put_files_of_ne (h : other ≠ place) :
    (disk.put place content).files other = disk.files other := by
  rw [put_files, if_neg h]

theorem remove_files : (disk.remove place).files other =
    if other = place then none else disk.files other :=
  Function.update_apply _ _ _ _

theorem held_put (h : disk.Held Fact) (hfact : Fact place content) :
    (disk.put place content).Held Fact where
  once := by
    intro other found hmem
    rw [put_once] at hmem
    split at hmem
    · next hsame =>
        rw [hsame]
        rcases List.mem_cons.mp hmem with rfl | hbefore
        · exact hfact
        · exact h.once place found hbefore
    · exact h.once other found hmem
  files := by
    intro other found hfile
    rw [put_files] at hfile
    rw [put_once]
    split at hfile
    · next hsame =>
        cases hfile
        rw [if_pos hsame]
        exact ⟨content, List.mem_cons_self, List.prefix_refl content⟩
    · next hother =>
        rw [if_neg hother]
        exact h.files other found hfile

theorem held_remove (h : disk.Held Fact) : (disk.remove place).Held Fact where
  once := h.once
  files := by
    intro other found hfile
    rw [remove_files] at hfile
    rcases Option.ite_none_left_eq_some.mp hfile with ⟨_, hthere⟩
    exact h.files other found hthere

theorem held_rename {after : Disk name} (h : disk.Held Fact)
    (hrename : disk.rename place other = some after)
    (hfact : forall content, disk.files place = some content -> Fact other content) :
    after.Held Fact := by
  rcases Option.map_eq_some_iff.mp hrename with ⟨content, hfile, rfl⟩
  exact held_put (held_remove h) (hfact content hfile)

end Rules

end Disk

end Foundation
end PaminMemory
