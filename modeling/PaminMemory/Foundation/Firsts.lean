import Mathlib.Data.Finset.Card
import Mathlib.Data.Finset.Insert
import Mathlib.Data.List.Basic

/-!
# The first item of every key

A pass that takes an item when nothing before it had its key.  What is taken of some keys
depends on the items of those keys alone.
-/

namespace PaminMemory
namespace Foundation

variable {ι κ : Type} [DecidableEq κ]

def firsts (key : ι -> κ) : Finset κ -> List ι -> List ι
  | _, [] => []
  | met, item :: rest =>
      if key item ∈ met then firsts key met rest else item :: firsts key (insert (key item) met) rest

def metAfter (key : ι -> κ) (met : Finset κ) (items : List ι) : Finset κ :=
  items.foldl (fun met item => insert (key item) met) met

variable {key : ι -> κ} {met : Finset κ} {items : List ι}

theorem mem_metAfter {k : κ} : k ∈ metAfter key met items <-> k ∈ met ∨ k ∈ items.map key := by
  unfold metAfter
  induction items generalizing met with
  | nil => simp
  | cons item rest ih =>
      rw [List.foldl_cons, ih, Finset.mem_insert, List.map_cons, List.mem_cons]
      tauto

theorem firsts_cons_met {item : ι} {rest : List ι} (h : key item ∈ met) :
    firsts key met (item :: rest) = firsts key met rest :=
  if_pos h

theorem firsts_cons_new {item : ι} {rest : List ι} (h : key item ∉ met) :
    firsts key met (item :: rest) = item :: firsts key (insert (key item) met) rest :=
  if_neg h

theorem mem_of_mem_firsts {item : ι} (h : item ∈ firsts key met items) :
    item ∈ items ∧ key item ∉ met := by
  induction items generalizing met with
  | nil => cases h
  | cons first rest ih =>
      by_cases hmet : key first ∈ met
      · rw [firsts_cons_met hmet] at h
        exact ⟨List.mem_cons_of_mem _ (ih h).1, (ih h).2⟩
      · rw [firsts_cons_new hmet] at h
        rcases List.mem_cons.mp h with rfl | hrest
        · exact ⟨List.mem_cons_self, hmet⟩
        · have hlater := ih hrest
          exact ⟨List.mem_cons_of_mem _ hlater.1,
            fun hold => hlater.2 (Finset.mem_insert_of_mem hold)⟩

theorem mem_keys_firsts {k : κ} :
    k ∈ (firsts key met items).map key <-> k ∈ items.map key ∧ k ∉ met := by
  induction items generalizing met with
  | nil => simp [firsts]
  | cons first rest ih =>
      by_cases hmet : key first ∈ met
      · rw [firsts_cons_met hmet, ih, List.map_cons, List.mem_cons]
        constructor
        · intro h
          exact ⟨Or.inr h.1, h.2⟩
        · intro h
          rcases h with ⟨rfl | hrest, hnew⟩
          · exact absurd hmet hnew
          · exact ⟨hrest, hnew⟩
      · rw [firsts_cons_new hmet, List.map_cons, List.mem_cons, ih, List.map_cons, List.mem_cons,
          Finset.mem_insert]
        by_cases hk : k = key first
        · subst hk
          simp [hmet]
        · simp [hk]

theorem nodup_keys_firsts : ((firsts key met items).map key).Nodup := by
  induction items generalizing met with
  | nil => exact List.nodup_nil
  | cons first rest ih =>
      by_cases hmet : key first ∈ met
      · rw [firsts_cons_met hmet]
        exact ih
      · rw [firsts_cons_new hmet, List.map_cons, List.nodup_cons]
        refine ⟨?_, ih⟩
        intro hmem
        exact (mem_keys_firsts.mp hmem).2 (Finset.mem_insert_self _ _)

theorem mem_firsts_iff {item : ι}
    (h : forall left right, left ∈ items -> right ∈ items -> key left = key right ->
      left = right) : item ∈ firsts key ∅ items <-> item ∈ items := by
  constructor
  · intro hmem
    exact (mem_of_mem_firsts hmem).1
  · intro hmem
    have hkey : key item ∈ (firsts key ∅ items).map key :=
      mem_keys_firsts.mpr ⟨List.mem_map.mpr ⟨item, hmem, rfl⟩, Finset.notMem_empty _⟩
    rcases List.mem_map.mp hkey with ⟨taken, htaken, hsame⟩
    rw [← h taken item (mem_of_mem_firsts htaken).1 hmem hsame]
    exact htaken

/-!
## Lists joined and left out
-/

theorem firsts_append (more : List ι) :
    firsts key met (items ++ more) =
      firsts key met items ++ firsts key (metAfter key met items) more := by
  induction items generalizing met with
  | nil => rfl
  | cons first rest ih =>
      by_cases hmet : key first ∈ met
      · rw [List.cons_append, firsts_cons_met hmet, firsts_cons_met hmet, ih, metAfter, metAfter,
          List.foldl_cons, Finset.insert_eq_of_mem hmet]
      · rw [List.cons_append, firsts_cons_new hmet, firsts_cons_new hmet, ih, List.cons_append]
        rfl

theorem length_firsts : (firsts key ∅ items).length = (items.map key).toFinset.card := by
  have hsame : ((firsts key ∅ items).map key).toFinset = (items.map key).toFinset := by
    ext k
    rw [List.mem_toFinset, List.mem_toFinset, mem_keys_firsts]
    exact and_iff_left (Finset.notMem_empty k)
  rw [← hsame, List.toFinset_card_of_nodup nodup_keys_firsts, List.length_map]

theorem firsts_of_met (h : forall item, item ∈ items -> key item ∈ met) :
    firsts key met items = [] := by
  apply List.eq_nil_iff_forall_not_mem.mpr
  intro item hitem
  have hmem := mem_of_mem_firsts hitem
  exact hmem.2 (h item hmem.1)

theorem firsts_of_least {r : ι -> ι -> Prop} (hsorted : items.Pairwise r)
    (hanti : forall one other, r one other -> r other one -> one = other) {item : ι}
    (hitem : item ∈ items) (hnew : key item ∉ met)
    (hleast : forall other, other ∈ items -> key other ∉ met -> r item other) :
    exists more, firsts key met items = item :: more := by
  induction items with
  | nil => cases hitem
  | cons first rest ih =>
      rw [List.pairwise_cons] at hsorted
      by_cases hmet : key first ∈ met
      · rw [firsts_cons_met hmet]
        apply ih hsorted.2
        · rcases List.mem_cons.mp hitem with rfl | hrest
          · exact absurd hmet hnew
          · exact hrest
        · exact fun other hother => hleast other (List.mem_cons_of_mem _ hother)
      · rw [firsts_cons_new hmet]
        rcases List.mem_cons.mp hitem with rfl | hrest
        · exact ⟨_, rfl⟩
        · rw [hanti item first (hleast first List.mem_cons_self hmet) (hsorted.1 item hrest)]
          exact ⟨_, rfl⟩

theorem firsts_congr {other : Finset κ}
    (h : forall item, item ∈ items -> (key item ∈ met <-> key item ∈ other)) :
    firsts key met items = firsts key other items := by
  induction items generalizing met other with
  | nil => rfl
  | cons first rest ih =>
      have hfirst := h first List.mem_cons_self
      by_cases hmet : key first ∈ met
      · rw [firsts_cons_met hmet, firsts_cons_met (hfirst.mp hmet)]
        apply ih
        intro item hitem
        exact h item (List.mem_cons_of_mem _ hitem)
      · rw [firsts_cons_new hmet, firsts_cons_new (fun hother => hmet (hfirst.mpr hother))]
        congr 1
        apply ih
        intro item hitem
        rw [Finset.mem_insert, Finset.mem_insert, h item (List.mem_cons_of_mem _ hitem)]

theorem filter_firsts {picks : ι -> Bool}
    (hkey : forall left right, key left = key right -> picks left = picks right) :
    (firsts key met items).filter picks = firsts key met (items.filter picks) := by
  induction items generalizing met with
  | nil => rfl
  | cons first rest ih =>
      cases hpicks : picks first with
      | true =>
          rw [List.filter_cons_of_pos hpicks]
          by_cases hmet : key first ∈ met
          · rw [firsts_cons_met hmet, firsts_cons_met hmet, ih]
          · rw [firsts_cons_new hmet, firsts_cons_new hmet, List.filter_cons_of_pos hpicks, ih]
      | false =>
          have hskip : ¬ picks first = true := by simp [hpicks]
          rw [List.filter_cons_of_neg hskip]
          by_cases hmet : key first ∈ met
          · rw [firsts_cons_met hmet, ih]
          · rw [firsts_cons_new hmet, List.filter_cons_of_neg hskip, ih]
            apply firsts_congr
            intro item hitem
            have hne : key item ≠ key first := by
              intro hsame
              rw [← hkey item first hsame, (List.mem_filter.mp hitem).2] at hpicks
              cases hpicks
            simp [hne]

end Foundation
end PaminMemory
