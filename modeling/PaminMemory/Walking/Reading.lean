import PaminMemory.Walking.Hops

/-!
# What a bounded read leaves out

A side reads the head of its order, so what it leaves out comes after everything it read.
The pairs read beside it leave out no edge between a cut topic and one that was touched.
-/

namespace PaminMemory
namespace Walking

open Foundation PaminMemory.Graph

def placeKey (place : Confidence × TopicId) : Int ×ₗ Nat :=
  toLex (-strength place.1, place.2)

theorem placeKey_le_iff {left right : Confidence × TopicId} :
    placeKey left <= placeKey right <->
      strength right.1 < strength left.1 ∨
        (strength right.1 = strength left.1 ∧ left.2 <= right.2) := by
  unfold placeKey
  rw [Prod.Lex.toLex_le_toLex]
  constructor
  · intro h
    rcases h with hlt | ⟨heq, hle⟩
    · exact Or.inl (by omega)
    · exact Or.inr ⟨by omega, hle⟩
  · intro h
    rcases h with hlt | ⟨heq, hle⟩
    · exact Or.inl (by omega)
    · exact Or.inr ⟨by omega, hle⟩

theorem sideKey_eq (outward : Bool) (live : Live) :
    sideKey outward live = placeKey (live.confidence, far outward live) :=
  rfl

theorem lastOf_mem {outward : Bool} {rows : List Live} {place : Confidence × TopicId}
    (h : lastOf outward rows = some place) :
    exists row, row ∈ rows ∧ place = (row.confidence, far outward row) := by
  have hfold : forall (rest : List Live) (last : Confidence × TopicId),
      rest.foldl (later outward) last = last ∨
        exists row, row ∈ rest ∧
          rest.foldl (later outward) last = (row.confidence, far outward row) := by
    intro rest
    induction rest with
    | nil => exact fun last => Or.inl rfl
    | cons row rest ih =>
        intro last
        rw [List.foldl_cons]
        rcases ih (later outward last row) with hsame | ⟨other, hother, hplace⟩
        · rw [hsame]
          unfold later
          split
          · exact Or.inr ⟨row, List.mem_cons_self, rfl⟩
          · exact Or.inl rfl
        · exact Or.inr ⟨other, List.mem_cons_of_mem _ hother, hplace⟩
  cases rows with
  | nil => cases h
  | cons first rest =>
      have hplace := Option.some.inj h
      rcases hfold rest (first.confidence, far outward first) with hsame | ⟨row, hrow, hlast⟩
      · exact ⟨first, List.mem_cons_self, hplace.symm.trans hsame⟩
      · exact ⟨row, List.mem_cons_of_mem _ hrow, hplace.symm.trans hlast⟩

theorem sideCut_mem {perTopic : Nat} {outward : Bool} {rows : List Live}
    {place : Confidence × TopicId} (h : sideCut perTopic outward rows = some place) :
    exists row, row ∈ rows ∧ place = (row.confidence, far outward row) := by
  unfold sideCut at h
  split at h
  · cases h
  · exact lastOf_mem h

theorem sideCut_of_full {perTopic : Nat} {outward : Bool} {rows : List Live}
    (hbound : 0 < perTopic) (h : rows.length = perTopic) :
    exists place, sideCut perTopic outward rows = some place := by
  unfold sideCut
  rw [if_neg (by omega)]
  cases rows with
  | nil =>
      rw [List.length_nil] at h
      omega
  | cons first rest => exact ⟨_, rfl⟩

theorem earlier_spec (left right : Confidence × TopicId) :
    (earlier left right = left ∨ earlier left right = right) ∧
      placeKey (earlier left right) <= placeKey left ∧
        placeKey (earlier left right) <= placeKey right := by
  unfold earlier
  split
  · next hright =>
    refine ⟨Or.inr rfl, placeKey_le_iff.mpr ?_, le_refl _⟩
    rcases hright with hmore | ⟨hsame, hless⟩
    · exact Or.inl hmore
    · exact Or.inr ⟨hsame.symm, Nat.le_of_lt hless⟩
  · next hleft =>
    refine ⟨Or.inl rfl, le_refl _, placeKey_le_iff.mpr ?_⟩
    push Not at hleft
    rcases lt_trichotomy (strength right.1) (strength left.1) with hless | hsame | hmore
    · exact Or.inl hless
    · exact Or.inr ⟨hsame, hleft.2 hsame⟩
    · exact absurd hleft.1 (by omega)

theorem cutOf_spec {perTopic : Nat} {standing : TopicId} {outward inward : List Live} {cut : Cut}
    (h : cutOf perTopic standing outward inward = some cut) :
    cut.standing = standing ∧
      (sideCut perTopic true outward = some (cut.confidence, cut.after) ∨
        sideCut perTopic false inward = some (cut.confidence, cut.after)) ∧
      (forall place, sideCut perTopic true outward = some place ->
        placeKey (cut.confidence, cut.after) <= placeKey place) ∧
      forall place, sideCut perTopic false inward = some place ->
        placeKey (cut.confidence, cut.after) <= placeKey place := by
  unfold cutOf at h
  cases hout : sideCut perTopic true outward with
  | none =>
      cases hin : sideCut perTopic false inward with
      | none =>
          rw [hout, hin] at h
          cases h
      | some last =>
          rw [hout, hin] at h
          cases h
          refine ⟨rfl, Or.inr rfl, ?_, ?_⟩
          · intro place hplace
            cases hplace
          · intro place hplace
            cases hplace
            exact le_refl _
  | some last =>
      cases hin : sideCut perTopic false inward with
      | none =>
          rw [hout, hin] at h
          cases h
          refine ⟨rfl, Or.inl rfl, ?_, ?_⟩
          · intro place hplace
            cases hplace
            exact le_refl _
          · intro place hplace
            cases hplace
      | some other =>
          rw [hout, hin] at h
          cases h
          rcases earlier_spec last other with ⟨hwhich, hleft, hright⟩
          refine ⟨rfl, ?_, ?_, ?_⟩
          · rcases hwhich with hsame | hsame
            · exact Or.inl (congrArg some hsame.symm)
            · exact Or.inr (congrArg some hsame.symm)
          · intro place hplace
            cases hplace
            exact hleft
          · intro place hplace
            cases hplace
            exact hright

theorem cutOf_of_sideCut {perTopic : Nat} {standing : TopicId} {outward inward : List Live}
    {place : Confidence × TopicId}
    (h : sideCut perTopic true outward = some place ∨
      sideCut perTopic false inward = some place) :
    exists cut, cutOf perTopic standing outward inward = some cut := by
  unfold cutOf
  cases hout : sideCut perTopic true outward with
  | some last =>
      cases sideCut perTopic false inward with
      | none => exact ⟨_, rfl⟩
      | some other => exact ⟨_, rfl⟩
  | none =>
      cases hin : sideCut perTopic false inward with
      | some last => exact ⟨_, rfl⟩
      | none =>
          rw [hout, hin] at h
          rcases h with h | h <;> cases h

/-!
## Rows and cuts
-/

section Reading

variable {edges : List Live} {answers : Answers edges} {hop perTopic : Nat}
  {positions : List TopicId} {live : Live} {standing : TopicId} {outward : Bool}

theorem mem_rowsRead {row : Live} :
    row ∈ rowsRead answers hop perTopic positions <->
      exists standing outward, standing ∈ positions ∧
        row ∈ sideRows answers hop perTopic standing outward := by
  unfold rowsRead
  simp only [List.mem_append, List.mem_flatMap]
  constructor
  · intro h
    rcases h with ⟨standing, hstanding, hrow⟩ | ⟨standing, hstanding, hrow⟩
    · exact ⟨standing, true, hstanding, hrow⟩
    · exact ⟨standing, false, hstanding, hrow⟩
  · intro h
    rcases h with ⟨standing, outward, hstanding, hrow⟩
    cases outward with
    | true => exact Or.inl ⟨standing, hstanding, hrow⟩
    | false => exact Or.inr ⟨standing, hstanding, hrow⟩

theorem sideRows_sound {row : Live} (h : row ∈ sideRows answers hop perTopic standing outward) :
    row ∈ edges ∧ near outward row = standing := by
  have hside := (answers.sidePerm hop standing outward).mem_iff.mp (List.mem_of_mem_take h)
  exact ⟨(List.mem_filter.mp hside).1, of_decide_eq_true (List.mem_filter.mp hside).2⟩

theorem sideRows_complete (hlive : live ∈ edges) (hnear : near outward live = standing)
    (hout : live ∉ sideRows answers hop perTopic standing outward) :
    (sideRows answers hop perTopic standing outward).length = perTopic ∧
      forall row, row ∈ sideRows answers hop perTopic standing outward ->
        sideKey outward row <= sideKey outward live := by
  have hside : live ∈ answers.side hop standing outward :=
    (answers.sidePerm hop standing outward).mem_iff.mpr
      (List.mem_filter.mpr ⟨hlive, decide_eq_true hnear⟩)
  have hsplit := List.take_append_drop perTopic (answers.side hop standing outward)
  have hdrop : live ∈ (answers.side hop standing outward).drop perTopic := by
    rw [← hsplit] at hside
    exact (List.mem_append.mp hside).resolve_left hout
  constructor
  · have hpositive := List.length_pos_of_mem hdrop
    unfold sideRows
    rw [List.length_take]
    rw [List.length_drop] at hpositive
    omega
  · intro row hrow
    have hsorted := answers.sideSorted hop standing outward
    rw [← hsplit] at hsorted
    exact (List.pairwise_append.mp hsorted).2.2 row hrow live hdrop

theorem mem_touchedBy {rows : List Live} {topic : TopicId} :
    topic ∈ touchedBy rows <->
      exists row, row ∈ rows ∧ (topic = row.edge.fromTopic ∨ topic = row.edge.toTopic) := by
  unfold touchedBy
  simp [List.mem_flatMap]

theorem ends_touched {rows : List Live} {row : Live} (hrow : row ∈ rows) (outward : Bool) :
    near outward row ∈ touchedBy rows ∧ far outward row ∈ touchedBy rows := by
  rw [mem_touchedBy, mem_touchedBy]
  cases outward with
  | true => exact ⟨⟨row, hrow, Or.inl rfl⟩, ⟨row, hrow, Or.inr rfl⟩⟩
  | false => exact ⟨⟨row, hrow, Or.inr rfl⟩, ⟨row, hrow, Or.inl rfl⟩⟩

theorem mem_cutsMade {cut : Cut} :
    cut ∈ cutsMade answers hop perTopic positions <->
      exists standing, standing ∈ positions ∧
        cutOf perTopic standing (sideRows answers hop perTopic standing true)
          (sideRows answers hop perTopic standing false) = some cut := by
  unfold cutsMade
  rw [List.mem_filterMap]

theorem cut_touched {cut : Cut} (h : cut ∈ cutsMade answers hop perTopic positions) :
    cut.standing ∈ positions ∧
      cut.standing ∈ touchedBy (rowsRead answers hop perTopic positions) ∧
        cut.after ∈ touchedBy (rowsRead answers hop perTopic positions) := by
  rcases mem_cutsMade.mp h with ⟨standing, hstanding, hcut⟩
  rcases cutOf_spec hcut with ⟨rfl, hwhich, _, _⟩
  have hrow : exists (outward : Bool) (row : Live),
      row ∈ sideRows answers hop perTopic cut.standing outward ∧
        (cut.confidence, cut.after) = (row.confidence, far outward row) := by
    rcases hwhich with hside | hside
    · rcases sideCut_mem hside with ⟨row, hrow, hplace⟩
      exact ⟨true, row, hrow, hplace⟩
    · rcases sideCut_mem hside with ⟨row, hrow, hplace⟩
      exact ⟨false, row, hrow, hplace⟩
  rcases hrow with ⟨outward, row, hrow, hplace⟩
  have hread : row ∈ rowsRead answers hop perTopic positions :=
    mem_rowsRead.mpr ⟨cut.standing, outward, hstanding, hrow⟩
  have hends := ends_touched hread outward
  have hnear := (sideRows_sound hrow).2
  have hafter : cut.after = far outward row := congrArg Prod.snd hplace
  rw [hnear] at hends
  rw [hafter]
  exact ⟨hstanding, hends⟩

theorem unread_after_cut (hbound : 0 < perTopic) (hlive : live ∈ edges)
    (hstanding : near outward live ∈ positions)
    (hout : live ∉ rowsRead answers hop perTopic positions) :
    exists cut, cut ∈ cutsMade answers hop perTopic positions ∧
      cut.standing = near outward live ∧
        placeKey (cut.confidence, cut.after) <= sideKey outward live := by
  have hside : live ∉ sideRows answers hop perTopic (near outward live) outward := by
    intro hrow
    exact hout (mem_rowsRead.mpr ⟨_, outward, hstanding, hrow⟩)
  rcases sideRows_complete hlive rfl hside with ⟨hfull, hafter⟩
  rcases sideCut_of_full hbound hfull with ⟨place, hplace⟩
  rcases sideCut_mem hplace with ⟨row, hrow, hrowPlace⟩
  have hle : placeKey place <= sideKey outward live := by
    rw [hrowPlace]
    exact hafter row hrow
  have hexists : exists cut, cutOf perTopic (near outward live)
      (sideRows answers hop perTopic (near outward live) true)
      (sideRows answers hop perTopic (near outward live) false) = some cut := by
    cases outward with
    | true => exact cutOf_of_sideCut (Or.inl hplace)
    | false => exact cutOf_of_sideCut (Or.inr hplace)
  rcases hexists with ⟨cut, hcut⟩
  rcases cutOf_spec hcut with ⟨hat, _, htrue, hfalse⟩
  refine ⟨cut, mem_cutsMade.mpr ⟨near outward live, hstanding, hcut⟩, hat, ?_⟩
  cases outward with
  | true => exact (htrue place hplace).trans hle
  | false => exact (hfalse place hplace).trans hle

end Reading

end Walking
end PaminMemory
