import Mathlib.Combinatorics.SimpleGraph.Metric

/-!
# The levels of a graph around a vertex

A level holds the vertices at one distance.  A vertex of the next level is next to one of
this level, and no level comes after an empty one.
-/

namespace PaminMemory
namespace Foundation

variable {V : Type} {G : SimpleGraph V} {u v w : V} {n : Nat}

theorem edist_le_succ_of_adj (h : G.edist u v <= (n : ℕ∞)) (hadj : G.Adj v w) :
    G.edist u w <= ((n + 1 : Nat) : ℕ∞) := by
  calc
    G.edist u w <= G.edist u v + G.edist v w := SimpleGraph.edist_triangle
    _ = G.edist u v + 1 := by rw [SimpleGraph.edist_eq_one_iff_adj.mpr hadj]
    _ <= (n : ℕ∞) + 1 := by gcongr
    _ = ((n + 1 : Nat) : ℕ∞) := by push_cast; rfl

theorem exists_before (h : G.edist u w = ((n + 1 : Nat) : ℕ∞)) :
    exists v, G.edist u v = (n : ℕ∞) ∧ G.Adj v w := by
  rcases SimpleGraph.exists_walk_of_edist_eq_coe h with ⟨path, hpath⟩
  have hlength : path.reverse.length = n + 1 := by rw [SimpleGraph.Walk.length_reverse, hpath]
  cases hback : path.reverse with
  | nil =>
      rw [hback] at hlength
      cases hlength
  | cons hadj rest =>
      rename_i v
      rw [hback, SimpleGraph.Walk.length_cons] at hlength
      have hrest : rest.length = n := Nat.succ.inj hlength
      have hle : G.edist u v <= (n : ℕ∞) := by
        rw [SimpleGraph.edist_comm, ← hrest]
        exact rest.edist_le
      refine ⟨v, ?_, hadj.symm⟩
      rcases ENat.le_natCast_iff.mp hle with ⟨m, hm, hmn⟩
      have hnext := edist_le_succ_of_adj (le_of_eq hm) hadj.symm
      rw [h, ENat.natCast_le_natCast] at hnext
      have hsame : m = n := by omega
      rw [hm, hsame]

theorem edist_le_succ_iff :
    G.edist u w <= ((n + 1 : Nat) : ℕ∞) <->
      G.edist u w <= (n : ℕ∞) ∨ G.edist u w = ((n + 1 : Nat) : ℕ∞) := by
  constructor
  · intro h
    rcases ENat.le_natCast_iff.mp h with ⟨m, hm, hmn⟩
    rw [hm, ENat.natCast_le_natCast, ENat.natCast_inj]
    omega
  · intro h
    rcases h with hle | heq
    · exact hle.trans (by rw [ENat.natCast_le_natCast]; omega)
    · exact le_of_eq heq

theorem succ_le_edist (h : ¬ G.edist u w <= (n : ℕ∞)) :
    ((n + 1 : Nat) : ℕ∞) <= G.edist u w := by
  have hlt : (n : ℕ∞) < G.edist u w := not_le.mp h
  have hle := (ENat.add_one_le_iff (ENat.natCast_ne_top n)).mpr hlt
  exact_mod_cast hle

theorem edist_eq_succ_iff :
    G.edist u w = ((n + 1 : Nat) : ℕ∞) <->
      ¬ G.edist u w <= (n : ℕ∞) ∧ exists v, G.edist u v = (n : ℕ∞) ∧ G.Adj v w := by
  constructor
  · intro h
    refine ⟨?_, exists_before h⟩
    rw [h, ENat.natCast_le_natCast]
    omega
  · intro h
    rcases h with ⟨hfar, v, hv, hadj⟩
    exact (edist_le_succ_iff.mp (edist_le_succ_of_adj (le_of_eq hv) hadj)).resolve_left hfar

theorem edist_ne_succ_of_empty (h : forall v, G.edist u v ≠ (n : ℕ∞)) :
    G.edist u w ≠ ((n + 1 : Nat) : ℕ∞) := by
  intro hnext
  rcases exists_before hnext with ⟨v, hv, _⟩
  exact h v hv

end Foundation
end PaminMemory
