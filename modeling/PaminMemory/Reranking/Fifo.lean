import PaminMemory.Foundation.Parties
import PaminMemory.Reranking.Scores

/-!
# What is remembered is counted

The eviction order lists the remembered batches once each, and what is remembered is the
sum of their lengths, within the capacity; so forgetting never runs out of batches.
-/

namespace PaminMemory
namespace Reranking

open Foundation

def total (known : List (Digest × List Binary32)) : Nat := (known.map fun row => row.2.length).sum

structure Tallied (scores : Scores) : Prop where
  keysDistinct : (scores.known.map Prod.fst).Nodup
  orderDistinct : scores.order.Nodup
  listed : forall key, key ∈ scores.order <-> key ∈ scores.known.map Prod.fst
  counted : scores.remembered = total scores.known
  bounded : scores.remembered <= REMEMBERED_SCORES

variable {scores : Scores} {key : Digest} {values : List Binary32}
  {known : List (Digest × List Binary32)}

theorem tallied_default : Tallied Scores.default where
  keysDistinct := List.nodup_nil
  orderDistinct := List.nodup_nil
  listed := fun _ => Iff.rfl
  counted := rfl
  bounded := Nat.zero_le _

theorem tallied_invalidate (scores : Scores) : Tallied scores.invalidate where
  keysDistinct := List.nodup_nil
  orderDistinct := List.nodup_nil
  listed := fun _ => Iff.rfl
  counted := rfl
  bounded := Nat.zero_le _

theorem named_of_find {row : Digest × List Binary32}
    (h : known.find? (fun row => row.1 = key) = some row) : row.1 = key := by
  simpa using List.find?_some h

theorem get_some_iff : (scores.get key).isSome <-> key ∈ scores.known.map Prod.fst := by
  unfold Scores.get
  rw [Option.isSome_map, List.find?_isSome, List.mem_map]
  constructor
  · intro h
    rcases h with ⟨row, hrow, hkey⟩
    exact ⟨row, hrow, of_decide_eq_true hkey⟩
  · intro h
    rcases h with ⟨row, hrow, hkey⟩
    exact ⟨row, hrow, decide_eq_true hkey⟩

theorem mem_of_get (h : scores.get key = some values) : (key, values) ∈ scores.known := by
  rcases Option.map_eq_some_iff.mp h with ⟨row, hrow, hvalues⟩
  have hkey := named_of_find hrow
  rw [← hkey, ← hvalues]
  exact List.mem_of_find?_eq_some hrow

theorem total_forget (hdistinct : (known.map Prod.fst).Nodup) {row : Digest × List Binary32}
    (hrow : row ∈ known) :
    total known = row.2.length + total (known.filter fun other => other.1 ≠ row.1) := by
  induction known with
  | nil => cases hrow
  | cons first rest ih =>
      rw [List.map_cons, List.nodup_cons] at hdistinct
      have htotal : total (first :: rest) = first.2.length + total rest := List.sum_cons
      cases List.mem_cons.mp hrow with
      | inl hfirst =>
          have hstays : rest.filter (fun other => other.1 ≠ row.1) = rest := by
            rw [List.filter_eq_self]
            intro other hother
            rw [decide_eq_true_eq]
            intro hsame
            rw [hfirst] at hsame
            apply hdistinct.1
            rw [← hsame]
            exact List.mem_map_of_mem hother
          rw [List.filter_cons, if_neg (by rw [hfirst]; simp), hstays, htotal, hfirst]
      | inr hrest =>
          have hother : first.1 ≠ row.1 := by
            intro hsame
            apply hdistinct.1
            rw [hsame]
            exact List.mem_map_of_mem hrest
          have hkeeps : total (first :: rest.filter fun other => other.1 ≠ row.1) =
              first.2.length + total (rest.filter fun other => other.1 ≠ row.1) := List.sum_cons
          rw [List.filter_cons, if_pos (decide_eq_true hother), hkeeps, htotal,
            ih hdistinct.2 hrest]
          omega

/-!
## What an eviction keeps
-/

/-- What is kept when batches are forgotten. -/
structure Kept (needed : Nat) (known : List (Digest × List Binary32))
    (kept : List Digest × List (Digest × List Binary32) × Nat) : Prop where
  keysDistinct : (kept.2.1.map Prod.fst).Nodup
  orderDistinct : kept.1.Nodup
  listed : forall key, key ∈ kept.1 <-> key ∈ kept.2.1.map Prod.fst
  counted : kept.2.2 = total kept.2.1
  fits : kept.2.2 + needed <= REMEMBERED_SCORES
  subset : kept.2.1.Sublist known

theorem evict_kept {needed : Nat} (hneeded : needed <= REMEMBERED_SCORES) {order : List Digest}
    {remembered : Nat} (hkeys : (known.map Prod.fst).Nodup) (horder : order.Nodup)
    (hlisted : forall key, key ∈ order <-> key ∈ known.map Prod.fst)
    (hcounted : remembered = total known) :
    exists kept, evict needed order known remembered = some kept ∧ Kept needed known kept := by
  induction order generalizing known remembered with
  | nil =>
      have hnone : known = [] := by
        rw [List.eq_nil_iff_forall_not_mem]
        intro row hrow
        exact List.not_mem_nil ((hlisted row.1).mpr (List.mem_map_of_mem hrow))
      have hzero : remembered = 0 := by rw [hcounted, hnone]; rfl
      refine ⟨([], known, remembered), ?_, hkeys, horder, hlisted, hcounted, ?_,
        List.Sublist.refl _⟩
      · unfold evict
        rw [if_neg (by omega)]
      · show remembered + needed <= REMEMBERED_SCORES
        omega
  | cons oldest order ih =>
      unfold evict
      split
      · have hthere : oldest ∈ known.map Prod.fst := (hlisted oldest).mp List.mem_cons_self
        rcases List.mem_map.mp hthere with ⟨found, hfound, hname⟩
        have hsome : (known.find? fun row => row.1 = oldest).isSome := by
          rw [List.find?_isSome]
          exact ⟨found, hfound, decide_eq_true hname⟩
        rcases Option.isSome_iff_exists.mp hsome with ⟨row, hrow⟩
        have holdest := named_of_find hrow
        have hmem := List.mem_of_find?_eq_some hrow
        rw [hrow]
        rw [List.nodup_cons] at horder
        have hsub : (known.filter fun other => other.1 ≠ oldest).Sublist known :=
          List.filter_sublist
        have hless : remembered - row.2.length =
            total (known.filter fun other => other.1 ≠ oldest) := by
          rw [hcounted, total_forget hkeys hmem, holdest, Nat.add_sub_cancel_left]
        have hrest : forall key, key ∈ order <->
            key ∈ (known.filter fun other => other.1 ≠ oldest).map Prod.fst := by
          intro key
          constructor
          · intro hkey
            rcases List.mem_map.mp ((hlisted key).mp (List.mem_cons_of_mem _ hkey)) with
              ⟨other, hother, hsame⟩
            refine List.mem_map.mpr ⟨other, List.mem_filter.mpr ⟨hother, ?_⟩, hsame⟩
            rw [decide_eq_true_eq, hsame]
            intro heq
            rw [heq] at hkey
            exact horder.1 hkey
          · intro hkey
            rcases List.mem_map.mp hkey with ⟨other, hother, hsame⟩
            rcases List.mem_filter.mp hother with ⟨hold, hne⟩
            rw [decide_eq_true_eq, hsame] at hne
            have hin := (hlisted key).mpr (List.mem_map.mpr ⟨other, hold, hsame⟩)
            exact (List.mem_cons.mp hin).resolve_left hne
        rcases ih (hkeys.sublist (hsub.map _)) horder.2 hrest hless with ⟨kept, hevict, hkept⟩
        exact ⟨kept, hevict, hkept.keysDistinct, hkept.orderDistinct, hkept.listed,
          hkept.counted, hkept.fits, hkept.subset.trans hsub⟩
      · next hroom =>
          exact ⟨_, rfl, hkeys, horder, hlisted, hcounted, Nat.le_of_not_lt hroom,
            List.Sublist.refl _⟩

theorem total_append (known : List (Digest × List Binary32)) (row : Digest × List Binary32) :
    total (known ++ [row]) = total known + row.2.length := by
  unfold total
  rw [List.map_append, List.sum_append]
  rfl

/-!
## What a batch that is put changes
-/

theorem keys_overwrite (known : List (Digest × List Binary32)) (key : Digest)
    (values : List Binary32) :
    (known.map fun row => if row.1 = key then (key, values) else row).map Prod.fst =
      known.map Prod.fst := by
  rw [List.map_map]
  apply List.map_congr_left
  intro row _
  rw [Function.comp_apply]
  split
  · next hkey => exact hkey.symm
  · rfl

theorem total_overwrite
    (hsame : forall old, (key, old) ∈ known -> old.length = values.length) :
    total (known.map fun row => if row.1 = key then (key, values) else row) = total known := by
  unfold total
  rw [List.map_map]
  apply congrArg
  apply List.map_congr_left
  intro row hrow
  rw [Function.comp_apply]
  split
  · next hkey =>
      rw [← hkey] at hsame
      exact (hsame row.2 hrow).symm
  · rfl

theorem put_tallied (h : Tallied scores)
    (hsame : forall old, (key, old) ∈ scores.known -> old.length = values.length) :
    exists after, scores.put key values = some after ∧ Tallied after ∧
      forall row, row ∈ after.known -> row ∈ scores.known ∨ row = (key, values) := by
  unfold Scores.put
  split
  · exact ⟨scores, rfl, h, fun row hrow => Or.inl hrow⟩
  · next hsmall =>
      split
      · refine ⟨_, rfl, ⟨?_, h.orderDistinct, ?_, ?_, h.bounded⟩, ?_⟩
        · show ((scores.known.map fun row => if row.1 = key then (key, values) else row).map
            Prod.fst).Nodup
          rw [keys_overwrite]
          exact h.keysDistinct
        · intro other
          show other ∈ scores.order <-> other ∈ (scores.known.map fun row =>
            if row.1 = key then (key, values) else row).map Prod.fst
          rw [keys_overwrite]
          exact h.listed other
        · show scores.remembered = total (scores.known.map fun row =>
            if row.1 = key then (key, values) else row)
          rw [total_overwrite hsame]
          exact h.counted
        · intro row hrow
          rcases List.mem_map.mp hrow with ⟨old, hold, heq⟩
          split at heq
          · exact Or.inr heq.symm
          · rw [← heq]
            exact Or.inl hold
      · next hnew =>
          rw [get_some_iff] at hnew
          rcases evict_kept (Nat.le_of_not_lt hsmall) h.keysDistinct h.orderDistinct h.listed
            h.counted with ⟨kept, hevict, hkept⟩
          have hunkept : key ∉ kept.2.1.map Prod.fst :=
            fun hin => hnew ((hkept.subset.map _).subset hin)
          rw [hevict]
          refine ⟨_, rfl, ⟨?_, ?_, ?_, ?_, hkept.fits⟩, ?_⟩
          · show ((kept.2.1 ++ [(key, values)]).map Prod.fst).Nodup
            rw [List.map_append]
            exact nodup_append_new hkept.keysDistinct hunkept
          · apply nodup_append_new hkept.orderDistinct
            intro hin
            exact hunkept ((hkept.listed key).mp hin)
          · intro other
            show other ∈ kept.1 ++ [key] <-> other ∈ (kept.2.1 ++ [(key, values)]).map Prod.fst
            rw [List.map_append, List.mem_append, List.mem_append, hkept.listed]
            rfl
          · show kept.2.2 + values.length = total (kept.2.1 ++ [(key, values)])
            rw [total_append, hkept.counted]
          · intro row hrow
            cases List.mem_append.mp hrow with
            | inl hold => exact Or.inl (hkept.subset.subset hold)
            | inr hlast => exact Or.inr (List.mem_singleton.mp hlast)

def Alike (rows : List (Digest × List Binary32)) : Prop :=
  forall first, first ∈ rows -> forall second, second ∈ rows -> first.1 = second.1 ->
    first.2.length = second.2.length

theorem putAll_tallied {pending : List (Digest × List Binary32)} (h : Tallied scores)
    (halike : Alike (scores.known ++ pending)) :
    exists after, scores.putAll pending = some after ∧ Tallied after ∧
      forall row, row ∈ after.known -> row ∈ scores.known ++ pending := by
  induction pending generalizing scores with
  | nil => exact ⟨scores, rfl, h, fun row hrow => List.mem_append_left _ hrow⟩
  | cons row rest ih =>
      have hsame : forall old, (row.1, old) ∈ scores.known -> old.length = row.2.length := by
        intro old hold
        exact halike _ (List.mem_append_left _ hold) row
          (List.mem_append_right _ List.mem_cons_self) rfl
      rcases put_tallied h hsame with ⟨between, hput, htallied, hknown⟩
      have hsub : forall other, other ∈ between.known ++ rest ->
          other ∈ scores.known ++ row :: rest := by
        intro other hother
        rw [List.mem_append, List.mem_cons]
        cases List.mem_append.mp hother with
        | inr hrest => exact Or.inr (Or.inr hrest)
        | inl hbetween =>
            cases hknown other hbetween with
            | inl hold => exact Or.inl hold
            | inr hnew => exact Or.inr (Or.inl hnew)
      rcases ih htallied (fun first hfirst second hsecond =>
        halike first (hsub first hfirst) second (hsub second hsecond)) with
        ⟨after, hputAll, hafter, hin⟩
      refine ⟨after, ?_, hafter, fun other hother => hsub other (hin other hother)⟩
      unfold Scores.putAll
      rw [hput]
      exact hputAll

theorem put_last {after : Scores} (h : scores.put key values = some after) :
    after.last = scores.last := by
  unfold Scores.put at h
  split at h
  · cases h
    rfl
  · split at h
    · cases h
      rfl
    · rcases Option.map_eq_some_iff.mp h with ⟨kept, _, heq⟩
      rw [← heq]

theorem putAll_last {pending : List (Digest × List Binary32)} {after : Scores}
    (h : scores.putAll pending = some after) : after.last = scores.last := by
  induction pending generalizing scores with
  | nil =>
      cases h
      rfl
  | cons row rest ih =>
      rcases Option.bind_eq_some_iff.mp h with ⟨between, hput, hrest⟩
      rw [ih hrest, put_last hput]

end Reranking
end PaminMemory
