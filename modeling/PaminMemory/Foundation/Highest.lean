import Mathlib.Data.List.Perm.Subperm
import Mathlib.Data.List.Sort

/-!
# Some of the highest

As many items as are asked for, none of the others scoring higher.  Two such choices hold the
same items unless the last of them are taken out of a level with more items than are left to
take.
-/

namespace PaminMemory
namespace Foundation

variable {α β : Type} [LinearOrder β]

def Highest (score : α -> β) (n : Nat) (whole part : List α) : Prop :=
  exists rest, (part ++ rest).Perm whole ∧ part.length = min n whole.length ∧
    forall kept left, kept ∈ part -> left ∈ rest -> score left <= score kept

def higher (score : α -> β) (cut : β) (items : List α) : List α :=
  items.filter fun item => cut < score item

def level (score : α -> β) (cut : β) (items : List α) : List α :=
  items.filter fun item => score item = cut

structure CutAt (score : α -> β) (n : Nat) (whole : List α) (cut : β) : Prop where
  some_of_level : (higher score cut whole).length < n
  not_all_of_level : n < (higher score cut whole).length + (level score cut whole).length

variable {score : α -> β} {cut : β} {n : Nat} {whole part rest : List α} {item : α}

theorem mem_higher : item ∈ higher score cut whole <-> item ∈ whole ∧ cut < score item := by
  rw [higher, List.mem_filter, decide_eq_true_eq]

theorem mem_level : item ∈ level score cut whole <-> item ∈ whole ∧ score item = cut := by
  rw [level, List.mem_filter, decide_eq_true_eq]

theorem perm_levels (score : α -> β) (cut : β) (whole : List α) :
    (higher score cut whole ++ (level score cut whole ++
      whole.filter fun item => score item < cut)).Perm whole := by
  let others := whole.filter fun item => !decide (cut < score item)
  have habove : (higher score cut whole ++ others).Perm whole :=
    List.filter_append_perm (fun item => decide (cut < score item)) whole
  have hat : ((others.filter fun item => score item = cut) ++
      others.filter fun item => !decide (score item = cut)).Perm others :=
    List.filter_append_perm (fun item => decide (score item = cut)) others
  have hlevel : (others.filter fun item => score item = cut) = level score cut whole := by
    rw [List.filter_filter]
    apply List.filter_congr
    intro item _
    rw [Bool.eq_iff_iff]
    simp only [Bool.and_eq_true, decide_eq_true_eq, Bool.not_eq_true', decide_eq_false_iff_not]
    exact and_iff_left_of_imp fun hsame => not_lt_of_ge hsame.le
  have hbelow : (others.filter fun item => !decide (score item = cut)) =
      whole.filter fun item => score item < cut := by
    rw [List.filter_filter]
    apply List.filter_congr
    intro item _
    rw [Bool.eq_iff_iff]
    simp only [Bool.and_eq_true, decide_eq_true_eq, Bool.not_eq_true', decide_eq_false_iff_not,
      not_lt]
    constructor
    · intro h
      exact lt_of_le_of_ne h.2 h.1
    · intro h
      exact ⟨h.ne, h.le⟩
  rw [hlevel, hbelow] at hat
  exact (List.Perm.append_left _ hat).trans habove

theorem highest_take_sorted (score : α -> β) (n : Nat) (whole : List α) :
    Highest score n whole
      ((whole.insertionSort fun left right => score right <= score left).take n) := by
  let before := fun left right : α => score right <= score left
  have htotal : Std.Total before := ⟨fun left right => le_total (score right) (score left)⟩
  have htrans : IsTrans α before := ⟨fun _ _ _ hfirst hsecond => le_trans hsecond hfirst⟩
  have hsorted := List.pairwise_insertionSort before whole
  refine ⟨(whole.insertionSort before).drop n, ?_, ?_, ?_⟩
  · rw [List.take_append_drop]
    exact List.perm_insertionSort before whole
  · rw [List.length_take, List.length_insertionSort]
  · intro kept left hkept hleft
    rw [← List.take_append_drop n (whole.insertionSort before), List.pairwise_append] at hsorted
    exact hsorted.2.2 kept hkept left hleft

theorem highest_take_of_level {shuffled : List α} (hperm : shuffled.Perm whole)
    (hlevel : forall item, item ∈ whole -> score item = cut) :
    Highest score n whole (shuffled.take n) := by
  refine ⟨shuffled.drop n, ?_, ?_, ?_⟩
  · rw [List.take_append_drop]
    exact hperm
  · rw [List.length_take, hperm.length_eq]
  · intro kept left hkept hleft
    rw [hlevel kept (hperm.subset (List.mem_of_mem_take hkept)),
      hlevel left (hperm.subset (List.mem_of_mem_drop hleft))]

theorem higher_of_cut (hperm : (part ++ rest).Perm whole)
    (hkept : forall kept, kept ∈ part -> cut <= score kept)
    (hleft : forall left, left ∈ rest -> score left <= cut) :
    part.Perm (higher score cut whole ++ level score cut part) := by
  have hrest : higher score cut rest = [] := by
    apply List.filter_eq_nil_iff.mpr
    intro left hmem habove
    exact absurd (hleft left hmem) (not_le_of_gt (of_decide_eq_true habove))
  have hsame : (higher score cut part).Perm (higher score cut whole) := by
    have hfiltered := hperm.filter fun item => cut < score item
    rw [List.filter_append] at hfiltered
    have hnone : (rest.filter fun item => cut < score item) = [] := hrest
    rw [hnone, List.append_nil] at hfiltered
    exact hfiltered
  have hbelow : (part.filter fun item => score item < cut) = [] := by
    apply List.filter_eq_nil_iff.mpr
    intro kept hmem hless
    exact absurd (hkept kept hmem) (not_le_of_gt (of_decide_eq_true hless))
  have hparts := perm_levels score cut part
  rw [hbelow, List.append_nil] at hparts
  exact hparts.symm.trans (List.Perm.append_right _ hsame)

theorem cutAt_of_split (hperm : (part ++ rest).Perm whole)
    (hlength : part.length = min n whole.length)
    (hparts : part.Perm (higher score cut whole ++ level score cut part)) {kept left : α}
    (hkept : kept ∈ level score cut part) (hleft : left ∈ level score cut rest) :
    CutAt score n whole cut := by
  have hwhole := hperm.length_eq
  have hpart := hparts.length_eq
  have htied : (level score cut part ++ level score cut rest).Perm (level score cut whole) := by
    have hfiltered := hperm.filter fun item => score item = cut
    rw [List.filter_append] at hfiltered
    exact hfiltered
  have hlevel := htied.length_eq
  have htaken := List.length_pos_of_mem hkept
  have hmissed := List.length_pos_of_mem hleft
  have hrest : (level score cut rest).length <= rest.length := List.length_filter_le _ _
  rw [List.length_append] at hwhole hpart hlevel
  constructor
  · omega
  · omega

theorem highest_of_cut {chosen others : List α} (hcut : CutAt score n whole cut)
    (hlevel : (chosen ++ others).Perm (level score cut whole))
    (hlength : (higher score cut whole).length + chosen.length = n) :
    Highest score n whole (higher score cut whole ++ chosen) := by
  have hparts := perm_levels score cut whole
  have hwhole := hparts.length_eq
  rw [List.length_append, List.length_append] at hwhole
  have hmore := hcut.not_all_of_level
  refine ⟨others ++ whole.filter fun item => score item < cut, ?_, ?_, ?_⟩
  · rw [List.append_assoc, ← List.append_assoc chosen]
    exact (List.Perm.append_left _ (List.Perm.append_right _ hlevel)).trans hparts
  · rw [List.length_append]
    omega
  · intro kept left hkept hleft
    have habove : cut <= score kept := by
      cases List.mem_append.mp hkept with
      | inl hhigher => exact (mem_higher.mp hhigher).2.le
      | inr hchosen =>
          have hmem := hlevel.subset (List.mem_append_left others hchosen)
          exact (mem_level.mp hmem).2.ge
    have hbelow : score left <= cut := by
      cases List.mem_append.mp hleft with
      | inl hother =>
          have hmem := hlevel.subset (List.mem_append_right chosen hother)
          exact (mem_level.mp hmem).2.le
      | inr hlower => exact (of_decide_eq_true (List.mem_filter.mp hlower).2).le
    exact le_trans hbelow habove

variable [DecidableEq α]

theorem mem_rest_of_count {one other otherRest oneRest : List α}
    (hone : (one ++ oneRest).Perm whole) (hother : (other ++ otherRest).Perm whole)
    (hcount : other.count item < one.count item) : item ∈ otherRest := by
  have hsame := (hone.trans hother.symm).count_eq item
  rw [List.count_append, List.count_append] at hsame
  apply List.count_pos_iff.mp
  omega

theorem exists_count_lt {one other : List α} (hlength : one.length = other.length)
    (hdiffer : ¬ one.Perm other) : exists item, item ∈ one ∧ other.count item < one.count item := by
  have hnot : ¬ one.Subperm other := fun hsub =>
    hdiffer (hsub.perm_of_length_le (Nat.le_of_eq hlength.symm))
  rw [List.subperm_ext_iff] at hnot
  push Not at hnot
  exact hnot

theorem perm_or_cut {one other : List α} (hone : Highest score n whole one)
    (hother : Highest score n whole other) :
    one.Perm other ∨ exists cut, CutAt score n whole cut ∧
      one.Perm (higher score cut whole ++ level score cut one) ∧
      other.Perm (higher score cut whole ++ level score cut other) := by
  rcases hone with ⟨oneRest, honePerm, honeLength, honeBest⟩
  rcases hother with ⟨otherRest, hotherPerm, hotherLength, hotherBest⟩
  rcases Classical.em (one.Perm other) with hsame | hdiffer
  · exact Or.inl hsame
  · right
    have hlength : one.length = other.length := honeLength.trans hotherLength.symm
    rcases exists_count_lt hlength hdiffer with ⟨x, hx, hxcount⟩
    rcases exists_count_lt hlength.symm (fun hsame => hdiffer hsame.symm) with ⟨y, hy, hycount⟩
    have hxrest : x ∈ otherRest := mem_rest_of_count honePerm hotherPerm hxcount
    have hyrest : y ∈ oneRest := mem_rest_of_count hotherPerm honePerm hycount
    have hscore : score y = score x :=
      le_antisymm (honeBest x y hx hyrest) (hotherBest y x hy hxrest)
    have honeParts : one.Perm (higher score (score x) whole ++ level score (score x) one) :=
      higher_of_cut honePerm (fun kept hkept => hscore ▸ honeBest kept y hkept hyrest)
        (fun left hleft => honeBest x left hx hleft)
    have hotherParts : other.Perm (higher score (score x) whole ++ level score (score x) other) :=
      higher_of_cut hotherPerm (fun kept hkept => hotherBest kept x hkept hxrest)
        (fun left hleft => hscore ▸ hotherBest y left hy hleft)
    exists score x
    constructor
    · exact cutAt_of_split honePerm honeLength honeParts (mem_level.mpr ⟨hx, rfl⟩)
        (mem_level.mpr ⟨hyrest, hscore⟩)
    · exact ⟨honeParts, hotherParts⟩

end Foundation
end PaminMemory
