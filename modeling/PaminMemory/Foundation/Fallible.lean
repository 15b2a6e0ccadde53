import Mathlib.Data.Finset.Basic

/-!
# Computations that may fail

A computation that goes on with what another gave comes out when both do.  Made at each of a
list until it fails, one gathers what it found at every one of them, or fails where one of them
does.
-/

namespace PaminMemory
namespace Foundation

theorem bind_eq_ok {α β error : Type} {first : Except error α} {next : α -> Except error β}
    {result : β} : first >>= next = Except.ok result <->
      exists value, first = Except.ok value ∧ next value = Except.ok result := by
  cases first with
  | error e =>
      constructor
      · intro h
        cases h
      · intro h
        rcases h with ⟨value, hvalue, _⟩
        cases hvalue
  | ok given =>
      constructor
      · intro h
        exact ⟨given, rfl, h⟩
      · intro h
        rcases h with ⟨value, hvalue, hresult⟩
        cases hvalue
        exact hresult

theorem ok_bind {α β error : Type} (value : α) (next : α -> Except error β) :
    Except.ok value >>= next = next value :=
  rfl

/-!
## For all of a list, or none
-/

section All

variable {α β : Type} {find : α -> Option β} {items : List α} {found : List β}

theorem forall₂_of_mapM (h : items.mapM find = some found) :
    List.Forall₂ (fun item value => find item = some value) items found := by
  induction items generalizing found with
  | nil =>
      cases h
      exact List.Forall₂.nil
  | cons item rest ih =>
      rw [List.mapM_cons] at h
      rcases Option.bind_eq_some_iff.mp h with ⟨value, hvalue, hmore⟩
      rcases Option.bind_eq_some_iff.mp hmore with ⟨values, hvalues, hfound⟩
      cases hfound
      exact List.Forall₂.cons hvalue (ih hvalues)

theorem exists_of_mapM_eq_none (h : items.mapM find = none) :
    exists item, item ∈ items ∧ find item = none := by
  induction items with
  | nil => cases h
  | cons item rest ih =>
      rw [List.mapM_cons] at h
      cases hitem : find item with
      | none => exact ⟨item, List.mem_cons_self, hitem⟩
      | some value =>
          rw [hitem] at h
          cases hrest : rest.mapM find with
          | none =>
              rcases ih hrest with ⟨other, hother, hnone⟩
              exact ⟨other, List.mem_cons_of_mem _ hother, hnone⟩
          | some values =>
              rw [hrest] at h
              cases h

theorem mapM_of_isSome (h : forall item, item ∈ items -> (find item).isSome) :
    exists found, items.mapM find = some found ∧ found.map some = items.map find := by
  induction items with
  | nil => exact ⟨[], rfl, rfl⟩
  | cons item rest ih =>
      rcases ih fun other hmem => h other (List.mem_cons_of_mem _ hmem) with
        ⟨found, hrest, hfound⟩
      rcases Option.isSome_iff_exists.mp (h item List.mem_cons_self) with ⟨value, hvalue⟩
      refine ⟨value :: found, ?_, ?_⟩
      · rw [List.mapM_cons, hvalue, Option.bind_eq_bind, Option.bind_some, hrest]
        rfl
      · rw [List.map_cons, hfound, List.map_cons, hvalue]

end All

/-!
## Until one fails
-/

section Each

variable {σ ι α error : Type} [DecidableEq α] (visit : σ -> ι -> σ × Except error (Finset α))

/-- Visits each in turn, and gathers what was found; the first to fail ends it. -/
def each : σ -> List ι -> σ × Except error (Finset α)
  | s, [] => (s, Except.ok ∅)
  | s, first :: rest =>
      match visit s first with
      | (s, Except.error e) => (s, Except.error e)
      | (s, Except.ok found) =>
          let (s, more) := each s rest
          (s, more.map fun more => found ∪ more)

variable {visit} {s : σ} {items : List ι}

theorem each_of_error {first : ι} {e : error} (h : (visit s first).2 = Except.error e) :
    each visit s (first :: items) = ((visit s first).1, Except.error e) := by
  unfold each
  rcases hvisited : visit s first with ⟨t, result⟩
  rw [hvisited] at h
  cases h
  rfl

theorem each_of_ok {first : ι} {found : Finset α} (h : (visit s first).2 = Except.ok found) :
    each visit s (first :: items) = ((each visit (visit s first).1 items).1,
      (each visit (visit s first).1 items).2.map fun more => found ∪ more) := by
  rw [each]
  rcases hvisited : visit s first with ⟨t, result⟩
  rw [hvisited] at h
  cases h
  rfl

theorem each_keeps {keeps : σ -> σ -> Prop} (hrefl : forall s, keeps s s)
    (htrans : forall {s t u}, keeps s t -> keeps t u -> keeps s u)
    (hvisit : forall s item, keeps s (visit s item).1) : keeps s (each visit s items).1 := by
  induction items generalizing s with
  | nil => exact hrefl s
  | cons first rest ih =>
      cases hfirst : (visit s first).2 with
      | error e =>
          rw [each_of_error hfirst]
          exact hvisit s first
      | ok found =>
          rw [each_of_ok hfirst]
          exact htrans (hvisit s first) ih

section Answers

variable (holds : σ -> Prop) {answer : ι -> Option (Finset α)}

theorem each_ok (hkeeps : forall s item, holds s -> holds (visit s item).1)
    (hanswer : forall s item, holds s -> (visit s item).2.toOption = answer item)
    (hs : holds s) {all : Finset α} (h : (each visit s items).2 = Except.ok all) :
    (forall item, item ∈ items -> (answer item).isSome) ∧
      forall a, a ∈ all <-> exists item, item ∈ items ∧ exists found, answer item = some found ∧
        a ∈ found := by
  induction items generalizing s all with
  | nil =>
      cases h
      simp
  | cons first rest ih =>
      have hanswered := hanswer s first hs
      cases hfirst : (visit s first).2 with
      | error e =>
          rw [each_of_error hfirst] at h
          cases h
      | ok found =>
          rw [each_of_ok hfirst] at h
          rw [hfirst] at hanswered
          cases hmore : (each visit (visit s first).1 rest).2 with
          | error e =>
              rw [hmore] at h
              cases h
          | ok more =>
              rw [hmore] at h
              cases h
              have hrest := ih (hkeeps s first hs) hmore
              have hfound : answer first = some found := hanswered.symm
              constructor
              · simp only [List.forall_mem_cons]
                exact ⟨hfound ▸ rfl, hrest.1⟩
              · intro a
                rw [Finset.mem_union, hrest.2 a]
                simp [hfound]

theorem each_error (hkeeps : forall s item, holds s -> holds (visit s item).1)
    (hanswer : forall s item, holds s -> (visit s item).2.toOption = answer item)
    (hs : holds s) {e : error} (h : (each visit s items).2 = Except.error e) :
    exists item, item ∈ items ∧ answer item = none := by
  induction items generalizing s with
  | nil => cases h
  | cons first rest ih =>
      have hanswered := hanswer s first hs
      cases hfirst : (visit s first).2 with
      | error other =>
          rw [hfirst] at hanswered
          exact ⟨first, List.mem_cons_self, hanswered.symm⟩
      | ok found =>
          rw [each_of_ok hfirst] at h
          cases hmore : (each visit (visit s first).1 rest).2 with
          | error other =>
              rw [hmore] at h
              cases h
              rcases ih (hkeeps s first hs) hmore with ⟨item, hitem, hnone⟩
              exact ⟨item, List.mem_cons_of_mem _ hitem, hnone⟩
          | ok more =>
              rw [hmore] at h
              cases h

end Answers

end Each

end Foundation
end PaminMemory
