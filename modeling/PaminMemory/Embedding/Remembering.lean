import PaminMemory.Embedding.Embedder

/-!
# The queries an embedder remembers
-/

namespace PaminMemory
namespace Embedding

/-- Each query remembered stands once in the order, and no more do than are to be remembered. -/
structure Listed (queries : Queries) : Prop where
  rows : queries.known.map Prod.fst = queries.order
  distinct : queries.order.Nodup
  few : queries.order.length <= REMEMBERED_QUERIES

variable {queries : Queries} {query : String} {vector : Dense}

theorem listed_empty : Listed Queries.empty where
  rows := rfl
  distinct := List.nodup_nil
  few := Nat.zero_le _

theorem trim_eq {known : List (String × Dense)} {order : List String}
    (hrows : known.map Prod.fst = order) (hdistinct : order.Nodup) :
    Queries.trim known order =
      { known := known.drop (order.length - REMEMBERED_QUERIES)
        order := order.drop (order.length - REMEMBERED_QUERIES) } := by
  induction order generalizing known with
  | nil =>
      rw [List.length_nil, Nat.zero_sub, List.drop_zero, List.drop_zero]
      rfl
  | cons oldest rest ih =>
      unfold Queries.trim
      rw [List.length_cons]
      split
      · next hmany =>
          cases known with
          | nil => cases hrows
          | cons row more =>
              rw [List.map_cons, List.cons.injEq] at hrows
              rw [List.nodup_cons] at hdistinct
              have hforgets : (row :: more).filter (fun row => row.1 ≠ oldest) = more := by
                rw [List.filter_cons, if_neg (by simp [hrows.1]), List.filter_eq_self]
                intro other hother
                rw [decide_eq_true_eq]
                intro hsame
                apply hdistinct.1
                rw [← hsame, ← hrows.2]
                exact List.mem_map_of_mem hother
              have hlength : rest.length + 1 - REMEMBERED_QUERIES =
                  rest.length - REMEMBERED_QUERIES + 1 := by omega
              rw [hforgets, ih hrows.2 hdistinct.2, hlength, List.drop_succ_cons,
                List.drop_succ_cons]
      · next hfew =>
          rw [Nat.sub_eq_zero_of_le (Nat.le_of_not_lt hfew), List.drop_zero, List.drop_zero]

theorem put_new (h : Listed queries) (hnew : query ∉ queries.order) (vector : Dense) :
    queries.put query vector =
      { known := queries.known.drop (queries.order.length + 1 - REMEMBERED_QUERIES) ++
          [(query, vector)]
        order := queries.order.drop (queries.order.length + 1 - REMEMBERED_QUERIES) ++
          [query] } := by
  have hroom : queries.order.length + 1 - REMEMBERED_QUERIES <= queries.order.length := by
    unfold REMEMBERED_QUERIES
    omega
  have hknown : queries.known.length = queries.order.length := by
    rw [← h.rows, List.length_map]
  have hrows : (queries.known ++ [(query, vector)]).map Prod.fst = queries.order ++ [query] := by
    rw [List.map_append, h.rows]
    rfl
  unfold Queries.put
  rw [h.rows, if_neg hnew, trim_eq hrows (List.Nodup.append h.distinct
    (List.nodup_singleton query) (List.disjoint_singleton.mpr hnew)), List.length_append,
    List.length_singleton, List.drop_append_of_le_length hroom,
    List.drop_append_of_le_length (by rw [hknown]; exact hroom)]

theorem put_known (h : Listed queries) (hknown : query ∈ queries.order) (vector : Dense) :
    queries.put query vector =
      { queries with
        known := queries.known.map fun row => if row.1 = query then (query, vector) else row } := by
  unfold Queries.put
  rw [h.rows, if_pos hknown]

theorem listed_put (h : Listed queries) : Listed (queries.put query vector) := by
  by_cases hknown : query ∈ queries.order
  · rw [put_known h hknown]
    refine ⟨?_, h.distinct, h.few⟩
    rw [← h.rows, List.map_map]
    apply List.map_congr_left
    intro row _
    rw [Function.comp_apply]
    split
    · next hsame => exact hsame.symm
    · rfl
  · rw [put_new h hknown]
    refine ⟨?_, ?_, ?_⟩
    · rw [List.map_append, List.map_drop, h.rows]
      rfl
    · apply List.Nodup.append (h.distinct.sublist (List.drop_sublist _ _))
        (List.nodup_singleton query)
      rw [List.disjoint_singleton]
      exact fun hquery => hknown (List.mem_of_mem_drop hquery)
    · show (_ ++ [query]).length <= REMEMBERED_QUERIES
      have hfew := h.few
      rw [List.length_append, List.length_drop, List.length_singleton]
      unfold REMEMBERED_QUERIES at hfew ⊢
      omega

theorem mem_of_get (h : queries.get query = some vector) : (query, vector) ∈ queries.known := by
  rcases Option.map_eq_some_iff.mp h with ⟨row, hrow, hvector⟩
  have hquery : row.1 = query := by simpa using List.find?_some hrow
  rw [← hquery, ← hvector]
  exact List.mem_of_find?_eq_some hrow

theorem get_of_mem (h : Listed queries) (hmem : (query, vector) ∈ queries.known) :
    queries.get query = some vector := by
  have hsome : (queries.known.find? fun row => row.1 = query).isSome := by
    rw [List.find?_isSome]
    exact ⟨_, hmem, decide_eq_true rfl⟩
  rcases Option.isSome_iff_exists.mp hsome with ⟨row, hrow⟩
  have hquery : row.1 = query := by simpa using List.find?_some hrow
  have hsame : row = (query, vector) := by
    apply List.inj_on_of_nodup_map _ (List.mem_of_find?_eq_some hrow) hmem hquery
    rw [h.rows]
    exact h.distinct
  unfold Queries.get
  rw [hrow, hsame]
  rfl

theorem mem_put (h : Listed queries) {row : String × Dense}
    (hrow : row ∈ (queries.put query vector).known) :
    row = (query, vector) ∨ row ∈ queries.known := by
  by_cases hknown : query ∈ queries.order
  · rw [put_known h hknown] at hrow
    rcases List.mem_map.mp hrow with ⟨other, hother, hmade⟩
    split at hmade
    · exact Or.inl hmade.symm
    · exact Or.inr (hmade ▸ hother)
  · rw [put_new h hknown] at hrow
    cases List.mem_append.mp hrow with
    | inl hold => exact Or.inr (List.mem_of_mem_drop hold)
    | inr hnew => exact Or.inl (List.mem_singleton.mp hnew)

theorem get_put (h : Listed queries) : (queries.put query vector).get query = some vector := by
  apply get_of_mem (listed_put h)
  by_cases hknown : query ∈ queries.order
  · rw [put_known h hknown]
    rw [← h.rows] at hknown
    rcases List.mem_map.mp hknown with ⟨row, hrow, hquery⟩
    exact List.mem_map.mpr ⟨row, hrow, if_pos hquery⟩
  · rw [put_new h hknown]
    exact List.mem_append_right _ (List.mem_singleton_self _)

end Embedding
end PaminMemory
