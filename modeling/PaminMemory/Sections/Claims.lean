import PaminMemory.Sections.Naming

/-!
# What sections claim

Texts are paired with earlier ones by how much of them is the same.  The same text is paired
first, so a text that is there once is paired with one that says the same, and a list of texts
with itself place by place.
-/

namespace PaminMemory
namespace Sections

open Foundation Ingest

/-!
## Pairing texts
-/

section Pairs

variable {alphabet : Alphabet} {now before : List String}

theorem similarity_le_one (alphabet : Alphabet) (left right : String) :
    similarity alphabet left right <= 1 := by
  unfold similarity
  simp only
  split
  · exact le_refl 1
  · next hunion =>
      apply quotient_le_one (Nat.pos_of_ne_zero hunion)
      exact Finset.card_le_card Finset.inter_subset_union

theorem score_le_two (text earlier : String) : score alphabet text earlier <= 2 := by
  unfold score
  split
  · exact le_refl 2
  · exact (similarity_le_one alphabet earlier text).trans (by norm_num)

theorem score_same (text : String) : score alphabet text text = 2 := if_pos rfl

theorem same_of_score (alphabet : Alphabet) {text earlier : String}
    (h : 2 <= score alphabet text earlier) : earlier = text := by
  unfold score at h
  split at h
  · next hsame => exact hsame
  · have hle := h.trans (similarity_le_one alphabet earlier text)
    exact absurd hle (by norm_num)

theorem same_section_le_two : SAME_SECTION <= 2 :=
  (quotient_le_one (by decide) (by decide)).trans (by norm_num)

theorem mem_candidates {candidate : Candidate} :
    candidate ∈ candidates alphabet now before <->
      exists text earlier, now[candidate.now]? = some text ∧
        before[candidate.before]? = some earlier ∧
          candidate.score = score alphabet text earlier ∧ SAME_SECTION <= candidate.score := by
  unfold candidates
  rw [List.mem_flatMap]
  constructor
  · intro h
    rcases h with ⟨text, htext, hmem⟩
    rcases List.mem_filter.mp hmem with ⟨hmade, hscore⟩
    rcases List.mem_map.mp hmade with ⟨earlier, hearlier, rfl⟩
    exact ⟨text.1, earlier.1, List.mem_zipIdx_iff_getElem?.mp htext,
      List.mem_zipIdx_iff_getElem?.mp hearlier, rfl, of_decide_eq_true hscore⟩
  · intro h
    rcases h with ⟨text, earlier, htext, hearlier, hscore, hsame⟩
    refine ⟨(text, candidate.now), List.mem_zipIdx_iff_getElem?.mpr htext, ?_⟩
    rw [List.mem_filter]
    refine ⟨List.mem_map.mpr ⟨(earlier, candidate.before),
      List.mem_zipIdx_iff_getElem?.mpr hearlier, ?_⟩, decide_eq_true hsame⟩
    rw [← hscore]

def chosen (alphabet : Alphabet) (now before : List String) : List Candidate :=
  greedy Candidate.now Candidate.before ∅ ∅
    ((candidates alphabet now before).insertionSort closest)

theorem pairs_eq : pairs alphabet now before =
    (chosen alphabet now before).map fun candidate => (candidate.now, candidate.before) := rfl

theorem candidate_of_chosen {candidate : Candidate}
    (h : candidate ∈ chosen alphabet now before) : candidate ∈ candidates alphabet now before :=
  (List.mem_insertionSort closest).mp (mem_of_mem_greedy h).1

theorem pairs_functional {at' one other : Nat} (hone : (at', one) ∈ pairs alphabet now before)
    (hother : (at', other) ∈ pairs alphabet now before) : one = other := by
  rw [pairs_eq] at hone hother
  rcases List.mem_map.mp hone with ⟨left, hleft, hfirst⟩
  rcases List.mem_map.mp hother with ⟨right, hright, hsecond⟩
  have hnow : left.now = right.now :=
    (congrArg Prod.fst hfirst).trans (congrArg Prod.fst hsecond).symm
  have hsame := List.inj_on_of_nodup_map nodup_left_greedy hleft hright hnow
  rw [hsame] at hfirst
  exact (congrArg Prod.snd hfirst).symm.trans (congrArg Prod.snd hsecond)

theorem pairs_injective {place one other : Nat} (hone : (one, place) ∈ pairs alphabet now before)
    (hother : (other, place) ∈ pairs alphabet now before) : one = other := by
  rw [pairs_eq] at hone hother
  rcases List.mem_map.mp hone with ⟨left, hleft, hfirst⟩
  rcases List.mem_map.mp hother with ⟨right, hright, hsecond⟩
  have hbefore : left.before = right.before :=
    (congrArg Prod.snd hfirst).trans (congrArg Prod.snd hsecond).symm
  have hsame := List.inj_on_of_nodup_map nodup_right_greedy hleft hright hbefore
  rw [hsame] at hfirst
  exact (congrArg Prod.fst hfirst).symm.trans (congrArg Prod.fst hsecond)

theorem chosen_or_blocked (alphabet : Alphabet) {text : String} {at' place : Nat}
    (hnow : now[at']? = some text) (hbefore : before[place]? = some text) :
    (at', place) ∈ pairs alphabet now before ∨
      exists blocker other, blocker ∈ chosen alphabet now before ∧
        now[blocker.now]? = some other ∧ before[blocker.before]? = some other ∧
          toLex (blocker.now, blocker.before) <= toLex (at', place) ∧
            (blocker.now = at' ∨ blocker.before = place) := by
  let candidate : Candidate := { score := 2, now := at', before := place }
  have hmem : candidate ∈ candidates alphabet now before :=
    mem_candidates.mpr ⟨text, text, hnow, hbefore, (score_same text).symm, same_section_le_two⟩
  have hsorted := List.pairwise_insertionSort closest (candidates alphabet now before)
  have hplaced := (List.mem_insertionSort closest).mpr hmem
  rcases taken_or_blocked hsorted hplaced (Finset.notMem_empty candidate.now)
    (Finset.notMem_empty candidate.before) with hchosen | hblocked
  · left
    rw [pairs_eq]
    exact List.mem_map.mpr ⟨candidate, hchosen, rfl⟩
  · rcases hblocked with ⟨blocker, hchosen, hearlier, hends⟩
    right
    rcases mem_candidates.mp (candidate_of_chosen hchosen) with
      ⟨other, earlier, hother, hother', hscore, _⟩
    have hle : blocker.score <= 2 := by
      rw [hscore]
      exact score_le_two other earlier
    rcases Prod.Lex.toLex_le_toLex.mp hearlier with hmore | ⟨hequal, hplaces⟩
    · exact absurd (neg_lt_neg_iff.mp hmore) (not_lt_of_ge hle)
    · have htwo : blocker.score = 2 := neg_injective hequal
      have hsame : earlier = other := by
        apply same_of_score alphabet
        rw [← hscore, htwo]
      rw [hsame] at hother'
      exact ⟨blocker, other, hchosen, hother, hother', hplaces, hends⟩

theorem pairs_exact (alphabet : Alphabet) {text : String} {at' place : Nat}
    (hnow : now[at']? = some text) (hbefore : before[place]? = some text)
    (honly : forall other, now[other]? = some text -> other = at') :
    exists found, before[found]? = some text ∧ (at', found) ∈ pairs alphabet now before := by
  rcases chosen_or_blocked alphabet hnow hbefore with hpaired | hblocked
  · exact ⟨place, hbefore, hpaired⟩
  · rcases hblocked with ⟨blocker, other, hchosen, hother, hother', _, hends⟩
    have hsame : blocker.now = at' := by
      rcases hends with hleft | hright
      · exact hleft
      · rw [hright, hbefore] at hother'
        rw [← Option.some.inj hother'] at hother
        exact honly blocker.now hother
    rw [hsame, hnow] at hother
    rw [← Option.some.inj hother] at hother'
    refine ⟨blocker.before, hother', ?_⟩
    rw [pairs_eq, ← hsame]
    exact List.mem_map.mpr ⟨blocker, hchosen, rfl⟩

theorem pairs_self {texts : List String} {place : Nat} (h : place < texts.length) :
    (place, place) ∈ pairs alphabet texts texts := by
  induction place using Nat.strong_induction_on with
  | _ place ih =>
      have htext : texts[place]? = some texts[place] := List.getElem?_eq_getElem h
      rcases chosen_or_blocked alphabet htext htext with hpaired | hblocked
      · exact hpaired
      · rcases hblocked with ⟨blocker, other, hchosen, _, _, hearlier, hends⟩
        have hpair : (blocker.now, blocker.before) ∈ pairs alphabet texts texts := by
          rw [pairs_eq]
          exact List.mem_map.mpr ⟨blocker, hchosen, rfl⟩
        have hle : blocker.now < place ∨ blocker.now = place ∧ blocker.before <= place :=
          Prod.Lex.toLex_le_toLex.mp hearlier
        -- an earlier place is paired with itself, so the blocker is the pair in question
        rcases hends with hnow | hbefore
        · rw [hnow] at hpair hle
          rcases hle with hless | ⟨_, hupto⟩
          · exact absurd hless (lt_irrefl place)
          · rcases Nat.lt_or_eq_of_le hupto with hless | hsame
            · have hown := ih blocker.before hless (hless.trans h)
              exact absurd (pairs_injective hown hpair) (Nat.ne_of_lt hless)
            · rw [hsame] at hpair
              exact hpair
        · rw [hbefore] at hpair hle
          rcases hle with hless | ⟨hsame, _⟩
          · have hown := ih blocker.now hless (hless.trans h)
            exact absurd (pairs_functional hown hpair) (Nat.ne_of_lt hless)
          · rw [hsame] at hpair
            exact hpair

end Pairs

/-!
## Claiming names
-/

section Set

variable {β : Type} {writes : List (Nat × β)} {start : List (Option β)} {i : Nat} {value : β}

theorem length_writes :
    (writes.foldl (fun row write => row.set write.1 (some write.2)) start).length =
      start.length := by
  induction writes generalizing start with
  | nil => rfl
  | cons write rest ih => rw [List.foldl_cons, ih, List.length_set]

theorem written_of_some
    (h : (writes.foldl (fun row write => row.set write.1 (some write.2)) start)[i]? =
      some (some value)) : (i, value) ∈ writes ∨ start[i]? = some (some value) := by
  induction writes generalizing start with
  | nil => exact Or.inr h
  | cons write rest ih =>
      rw [List.foldl_cons] at h
      rcases ih h with hrest | hset
      · exact Or.inl (List.mem_cons_of_mem _ hrest)
      · rw [List.getElem?_set] at hset
        split at hset
        · next hplace =>
            split at hset
            · left
              rw [← hplace, ← Option.some.inj (Option.some.inj hset)]
              exact List.mem_cons_self
            · cases hset
        · exact Or.inr hset

theorem some_of_written (hmem : (i, value) ∈ writes) (hi : i < start.length)
    (honly : forall other, (i, other) ∈ writes -> other = value) :
    (writes.foldl (fun row write => row.set write.1 (some write.2)) start)[i]? =
      some (some value) := by
  have hkept : forall (rest : List (Nat × β)) (row : List (Option β)),
      (forall other, (i, other) ∈ rest -> other = value) -> row[i]? = some (some value) ->
        (rest.foldl (fun row write => row.set write.1 (some write.2)) row)[i]? =
          some (some value) := by
    intro rest
    induction rest with
    | nil =>
        intro row _ hrow
        exact hrow
    | cons write rest ih =>
        intro row hagree hrow
        rw [List.foldl_cons]
        apply ih _ fun other hother => hagree other (List.mem_cons_of_mem _ hother)
        rw [List.getElem?_set]
        split
        · next hplace =>
            have hvalue : write.2 = value := by
              apply hagree
              rw [← hplace]
              exact List.mem_cons_self
            have hbound : write.1 < row.length := by
              rw [hplace]
              exact (List.getElem?_eq_some_iff.mp hrow).1
            rw [if_pos hbound, hvalue]
        · exact hrow
  induction writes generalizing start with
  | nil => cases hmem
  | cons write rest ih =>
      rw [List.foldl_cons]
      rcases List.mem_cons.mp hmem with hfirst | hrest
      · apply hkept rest _ fun other hother => honly other (List.mem_cons_of_mem _ hother)
        rw [← hfirst, List.getElem?_set_self hi]
      · apply ih hrest
        · rw [List.length_set]
          exact hi
        · exact fun other hother => honly other (List.mem_cons_of_mem _ hother)

end Set

section Claims

variable {alphabet : Alphabet} {sections : List Unnamed} {previous : List Section}

theorem mem_membersOf {base : String} {member : Unnamed × Nat} :
    member ∈ membersOf sections base <->
      sections[member.2]? = some member.1 ∧ member.1.base = base := by
  unfold membersOf
  rw [List.mem_filter, List.mem_zipIdx_iff_getElem?, decide_eq_true_eq]

theorem nodup_membersOf (sections : List Unnamed) (base : String) :
    ((membersOf sections base).map Prod.snd).Nodup := by
  have hsublist : ((membersOf sections base).map Prod.snd).Sublist
      (sections.zipIdx.map Prod.snd) := List.filter_sublist.map Prod.snd
  apply hsublist.nodup
  rw [List.zipIdx_map_snd]
  exact List.nodup_range'

theorem mem_basesOf {base : String} :
    base ∈ basesOf sections <-> exists unnamed, unnamed ∈ sections ∧ unnamed.base = base := by
  unfold basesOf
  rw [List.mem_dedup, List.mem_insertionSort, List.mem_map]

theorem mem_claimsOf {base : String} {i : Nat} {name : String} :
    (i, name) ∈ claimsOf alphabet sections previous base <->
      exists at' place member kept,
        (at', place) ∈ pairs alphabet
          ((membersOf sections base).map fun member => member.1.content)
          ((earlierOf previous base).map Section.content) ∧
        (membersOf sections base)[at']? = some member ∧
          (earlierOf previous base)[place]? = some kept ∧ member.2 = i ∧ kept.name = name := by
  unfold claimsOf
  simp only
  split
  · next hnone =>
      constructor
      · intro h
        cases h
      · intro h
        rcases h with ⟨at', place, member, kept, _, _, hkept, _⟩
        rw [hnone] at hkept
        cases hkept
  · rw [List.mem_filterMap]
    constructor
    · intro h
      rcases h with ⟨pair, hpair, hclaim⟩
      split at hclaim
      · next member kept hmember hkept =>
          cases hclaim
          exact ⟨pair.1, pair.2, member, kept, hpair, hmember, hkept, rfl, rfl⟩
      · cases hclaim
    · intro h
      rcases h with ⟨at', place, member, kept, hpair, hmember, hkept, rfl, rfl⟩
      refine ⟨(at', place), hpair, ?_⟩
      simp only [hmember, hkept]

theorem section_of_claim {base : String} {i : Nat} {name : String}
    (h : (i, name) ∈ claimsOf alphabet sections previous base) :
    (exists unnamed, sections[i]? = some unnamed ∧ unnamed.base = base) ∧
      exists kept, kept ∈ previous ∧ kept.name = name ∧ (number name base).isSome = true := by
  rcases mem_claimsOf.mp h with ⟨at', place, member, kept, _, hmember, hkept, rfl, rfl⟩
  have hearlier := List.mem_filter.mp (List.mem_of_getElem? hkept)
  exact ⟨⟨member.1, mem_membersOf.mp (List.mem_of_getElem? hmember)⟩, kept, hearlier.1, rfl,
    hearlier.2⟩

theorem claims_functional {base : String} {i : Nat} {one other : String}
    (hone : (i, one) ∈ claimsOf alphabet sections previous base)
    (hother : (i, other) ∈ claimsOf alphabet sections previous base) : one = other := by
  rcases mem_claimsOf.mp hone with ⟨at', place, member, kept, hpair, hmember, hkept, hi, rfl⟩
  rcases mem_claimsOf.mp hother with
    ⟨at'', place', member', kept', hpair', hmember', hkept', hi', rfl⟩
  have hplaces : at' = at'' := by
    have hnodup := nodup_membersOf sections base
    have hbound : at' < ((membersOf sections base).map Prod.snd).length := by
      rw [List.length_map]
      exact (List.getElem?_eq_some_iff.mp hmember).1
    apply (List.getElem?_inj hbound hnodup).mp
    rw [List.getElem?_map, List.getElem?_map, hmember, hmember', Option.map_some,
      Option.map_some, hi, hi']
  rw [hplaces] at hpair
  rw [pairs_functional hpair hpair', hkept'] at hkept
  rw [Option.some.inj hkept]

theorem mem_claims {i : Nat} {name : String} :
    (i, name) ∈ (basesOf sections).flatMap (claimsOf alphabet sections previous) <->
      exists unnamed, sections[i]? = some unnamed ∧
        (i, name) ∈ claimsOf alphabet sections previous unnamed.base := by
  rw [List.mem_flatMap]
  constructor
  · intro h
    rcases h with ⟨base, _, hclaim⟩
    rcases (section_of_claim hclaim).1 with ⟨unnamed, hunnamed, rfl⟩
    exact ⟨unnamed, hunnamed, hclaim⟩
  · intro h
    rcases h with ⟨unnamed, hunnamed, hclaim⟩
    exact ⟨unnamed.base, mem_basesOf.mpr ⟨unnamed, List.mem_of_getElem? hunnamed, rfl⟩, hclaim⟩

theorem length_claimed : (claimed alphabet sections previous).length = sections.length := by
  unfold claimed
  rw [length_writes, List.length_replicate]

theorem claimed_iff {i : Nat} {unnamed : Unnamed} (hunnamed : sections[i]? = some unnamed)
    {name : String} :
    (claimed alphabet sections previous)[i]? = some (some name) <->
      (i, name) ∈ claimsOf alphabet sections previous unnamed.base := by
  unfold claimed
  constructor
  · intro h
    rcases written_of_some h with hwrite | hstart
    · rcases mem_claims.mp hwrite with ⟨other, hother, hclaim⟩
      rw [hunnamed] at hother
      rw [Option.some.inj hother]
      exact hclaim
    · rw [List.getElem?_replicate] at hstart
      split at hstart
      · cases hstart
      · cases hstart
  · intro h
    apply some_of_written (mem_claims.mpr ⟨unnamed, hunnamed, h⟩)
    · rw [List.length_replicate]
      exact (List.getElem?_eq_some_iff.mp hunnamed).1
    · intro other hother
      rcases mem_claims.mp hother with ⟨same, hsame, hclaim⟩
      rw [hunnamed] at hsame
      rw [← Option.some.inj hsame] at hclaim
      exact claims_functional hclaim h

end Claims

end Sections
end PaminMemory
