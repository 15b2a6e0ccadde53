import Mathlib.Data.List.Nodup

/-!
# Numbered parties

The parties of a system that run at once, each with the state it is in.  A party
joins at the end of the list, moves to a new state, and leaves.
-/

namespace PaminMemory
namespace Foundation

section Parties

variable {party : Type _}

def partyOf (parties : List (Nat × party)) (id : Nat) : Option party :=
  (parties.find? fun entry => entry.1 = id).map Prod.snd

def setParty (id : Nat) (new : party) (parties : List (Nat × party)) : List (Nat × party) :=
  parties.map fun entry => if entry.1 = id then (id, new) else entry

def dropParty (id : Nat) (parties : List (Nat × party)) : List (Nat × party) :=
  parties.filter fun entry => entry.1 ≠ id

variable {parties : List (Nat × party)} {id : Nat} {new : party} {entry : Nat × party}

theorem mem_of_partyOf (h : partyOf parties id = some new) : (id, new) ∈ parties := by
  unfold partyOf at h
  rcases Option.map_eq_some_iff.mp h with ⟨found, hfind, hnew⟩
  have hid : found.1 = id := by simpa using List.find?_some hfind
  have hmem := List.mem_of_find?_eq_some hfind
  rw [← hid, ← hnew]
  exact hmem

theorem mem_setParty (h : entry ∈ setParty id new parties) :
    entry = (id, new) ∨ entry ∈ parties ∧ entry.1 ≠ id := by
  rcases List.mem_map.mp h with ⟨old, hold, hentry⟩
  split at hentry
  · exact Or.inl hentry.symm
  · next hne =>
      cases hentry
      exact Or.inr ⟨hold, hne⟩

theorem setParty_of_partyOf {old : party} (h : partyOf parties id = some old) :
    (id, new) ∈ setParty id new parties := by
  refine List.mem_map.mpr ⟨(id, old), mem_of_partyOf h, ?_⟩
  rw [if_pos rfl]

theorem mem_dropParty (h : entry ∈ dropParty id parties) : entry ∈ parties :=
  (List.mem_filter.mp h).1

theorem ne_of_mem_dropParty (h : entry ∈ dropParty id parties) : entry.1 ≠ id :=
  of_decide_eq_true (List.mem_filter.mp h).2

theorem partyOf_cons :
    partyOf (entry :: parties) id = if entry.1 = id then some entry.2 else partyOf parties id := by
  unfold partyOf
  rw [List.find?_cons]
  cases hsame : decide (entry.1 = id) with
  | true => rw [if_pos (of_decide_eq_true hsame), Option.map_some]
  | false => rw [if_neg (of_decide_eq_false hsame)]

theorem some_of_setParty {other : Nat} {found : party}
    (h : partyOf (setParty id new parties) other = some found) :
    other = id ∧ found = new ∨ other ≠ id ∧ partyOf parties other = some found := by
  induction parties with
  | nil => cases h
  | cons entry parties ih =>
      rw [setParty, List.map_cons, ← setParty, partyOf_cons] at h
      rw [partyOf_cons]
      split at h
      · next hmoved =>
          split at h
          · next hother => exact Or.inl ⟨hother.symm, (Option.some.inj h).symm⟩
          · next hother =>
              rw [if_neg (by rw [hmoved]; exact hother)]
              exact ih h
      · next hstays =>
          split at h
          · next hother => exact Or.inr ⟨hother ▸ hstays, by rw [if_pos hother]; exact h⟩
          · next hother =>
              rw [if_neg hother]
              exact ih h

theorem some_of_joined {other : Nat} {found : party}
    (h : partyOf (parties ++ [(id, new)]) other = some found) :
    other = id ∧ found = new ∨ partyOf parties other = some found := by
  rw [partyOf, List.find?_append, Option.map_or] at h
  rcases Option.or_eq_some_iff.mp h with hthere | ⟨_, hlast⟩
  · exact Or.inr hthere
  · have hjoined := mem_of_partyOf hlast
    cases List.mem_singleton.mp hjoined
    exact Or.inl ⟨rfl, rfl⟩

theorem forall_joined {Holds : Nat × party -> Prop}
    (hold : forall entry, entry ∈ parties -> Holds entry) (hnew : Holds (id, new)) :
    forall entry, entry ∈ parties ++ [(id, new)] -> Holds entry := by
  intro entry hmem
  rcases List.mem_append.mp hmem with hmem | hmem
  · exact hold entry hmem
  · rw [List.mem_singleton.mp hmem]
    exact hnew

theorem forall_moved {Holds : Nat × party -> Prop}
    (hold : forall entry, entry ∈ parties -> Holds entry) (hnew : Holds (id, new)) :
    forall entry, entry ∈ setParty id new parties -> Holds entry := by
  intro entry hmem
  rcases mem_setParty hmem with rfl | ⟨hmem, _⟩
  · exact hnew
  · exact hold entry hmem

/-!
## One party to a number
-/

theorem nodup_append_new {thing : Type _} {things : List thing} {new : thing}
    (h : things.Nodup) (hnew : new ∉ things) : (things ++ [new]).Nodup := by
  rw [← List.concat_eq_append]
  exact h.concat hnew

theorem ids_setParty (id : Nat) (new : party) (parties : List (Nat × party)) :
    (setParty id new parties).map Prod.fst = parties.map Prod.fst := by
  unfold setParty
  rw [List.map_map]
  apply List.map_congr_left
  intro entry _
  rw [Function.comp_apply]
  split
  · next hsame => exact hsame.symm
  · rfl

theorem not_mem_of_partyOf (h : partyOf parties id = none) : id ∉ parties.map Prod.fst := by
  intro hmem
  rcases List.mem_map.mp hmem with ⟨entry, hentry, hid⟩
  have hnone := List.find?_eq_none.mp (Option.map_eq_none_iff.mp h) entry hentry
  exact hnone (decide_eq_true hid)

theorem eq_of_partyOf (hdistinct : (parties.map Prod.fst).Nodup)
    (h : partyOf parties id = some new) (hmem : entry ∈ parties) (hid : entry.1 = id) :
    entry = (id, new) :=
  List.inj_on_of_nodup_map hdistinct hmem (mem_of_partyOf h) hid

theorem partyOf_of_mem (hdistinct : (parties.map Prod.fst).Nodup) (hmem : entry ∈ parties) :
    partyOf parties entry.1 = some entry.2 := by
  cases hparty : partyOf parties entry.1 with
  | none => exact absurd (List.mem_map_of_mem hmem) (not_mem_of_partyOf hparty)
  | some found => rw [eq_of_partyOf hdistinct hparty hmem rfl]

theorem setParty_of_ne (h : forall entry, entry ∈ parties -> entry.1 ≠ id) :
    setParty id new parties = parties := by
  unfold setParty
  rw [List.map_congr_left (g := fun entry => entry), List.map_id']
  intro entry hentry
  rw [if_neg (h entry hentry)]

theorem split_of_partyOf (hdistinct : (parties.map Prod.fst).Nodup) {old : party}
    (h : partyOf parties id = some old) :
    exists before after, parties = before ++ (id, old) :: after ∧
      forall new, setParty id new parties = before ++ (id, new) :: after := by
  rcases List.append_of_mem (mem_of_partyOf h) with ⟨before, after, rfl⟩
  have hothers : forall entry, entry ∈ before ++ after -> entry.1 ≠ id := by
    intro entry hentry hsame
    have hnodup := (List.perm_middle.map Prod.fst).nodup_iff.mp hdistinct
    rw [List.map_cons, List.nodup_cons] at hnodup
    have hid := List.mem_map_of_mem (f := Prod.fst) hentry
    rw [hsame] at hid
    exact hnodup.1 hid
  refine ⟨before, after, rfl, ?_⟩
  intro new
  have hbefore : setParty id new before = before :=
    setParty_of_ne fun entry hentry => hothers entry (List.mem_append_left _ hentry)
  have hafter : setParty id new after = after :=
    setParty_of_ne fun entry hentry => hothers entry (List.mem_append_right _ hentry)
  rw [setParty, List.map_append, List.map_cons, if_pos rfl, ← setParty, ← setParty, hbefore,
    hafter]

/-!
## What one party has to itself
-/

section Exclusive

variable {thing : Type _} {claim : party -> thing -> Prop}

def Exclusive (claim : party -> thing -> Prop) (parties : List (Nat × party)) : Prop :=
  forall first, first ∈ parties -> forall second, second ∈ parties -> forall what,
    claim first.2 what -> claim second.2 what -> first.1 = second.1

theorem exclusive_moved (h : Exclusive claim parties)
    (hnew : forall what, claim new what -> forall entry, entry ∈ parties ->
      claim entry.2 what -> entry.1 = id) : Exclusive claim (setParty id new parties) := by
  intro first hfirst second hsecond what hclaim hclaim'
  cases mem_setParty hfirst with
  | inl hmoved =>
      rw [hmoved] at hclaim ⊢
      cases mem_setParty hsecond with
      | inl hsame => rw [hsame]
      | inr hother => exact (hnew what hclaim second hother.1 hclaim').symm
  | inr hstays =>
      cases mem_setParty hsecond with
      | inl hmoved =>
          rw [hmoved] at hclaim' ⊢
          exact hnew what hclaim' first hstays.1 hclaim
      | inr hother => exact h first hstays.1 second hother.1 what hclaim hclaim'

theorem exclusive_dropped (h : Exclusive claim parties) :
    Exclusive claim (dropParty id parties) := by
  intro first hfirst second hsecond
  exact h first (mem_dropParty hfirst) second (mem_dropParty hsecond)

theorem exclusive_joined (h : Exclusive claim parties)
    (hnew : forall what, ¬claim new what) : Exclusive claim (parties ++ [(id, new)]) := by
  intro first hfirst second hsecond what hclaim hclaim'
  have hold : forall entry, entry ∈ parties ++ [(id, new)] -> claim entry.2 what ->
      entry ∈ parties := by
    intro entry hentry hclaims
    cases List.mem_append.mp hentry with
    | inl hthere => exact hthere
    | inr hlast =>
        rw [List.mem_singleton.mp hlast] at hclaims
        exact absurd hclaims (hnew what)
  exact h first (hold first hfirst hclaim) second (hold second hsecond hclaim') what hclaim hclaim'

end Exclusive

end Parties

end Foundation
end PaminMemory
