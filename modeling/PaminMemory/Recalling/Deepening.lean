import Mathlib.Data.UInt
import Mathlib.Tactic.Ring
import PaminMemory.Foundation.Firsts
import PaminMemory.Identifiers

/-!
# Asking an index for topics

An index ranks spans, and a search wants topics, each once and by the best of its spans.
Where the spans of one topic crowd the others out, the index is asked deeper: twice as deep
again and again, or once as deep as that would ever go.
-/

namespace PaminMemory
namespace Recalling

open Foundation

/-- A span an index ranked, with the score it was ranked by. -/
structure Span (score : Type) where
  topic : TopicId
  ordinal : Nat
  score : score
deriving DecidableEq, Repr

/-- A topic recalled, by one of its spans. -/
structure Scored (score : Type) where
  topic : TopicId
  score : score
  span : Nat
deriving DecidableEq, Repr

/-- How an index cuts memories: nowhere, or into spans of at most this many tokens. -/
inductive Grain where
  | topic
  | spans (tokens : Nat)
deriving DecidableEq, Repr

def DEEPEST : UInt32 := 8

def saturatingMul (x y : UInt32) : UInt32 :=
  UInt32.ofNat (min (x.toNat * y.toNat) (UInt32.size - 1))

section Asking

variable {score error : Type}

def Span.scored (span : Span score) : Scored score :=
  { topic := span.topic, score := span.score, span := span.ordinal }

def collapse (spans : List (Span score)) : List (Scored score) :=
  (firsts Span.topic ∅ spans).map Span.scored

/-- The turns of `deepening` from a depth on; `none` where this many are not enough. -/
def deepenFrom (limit : UInt32) (ask : UInt32 -> Except error (List (Scored score) × Bool)) :
    Nat -> UInt32 -> Option (Except error (List (Scored score)))
  | 0, _ => none
  | turns + 1, depth =>
      match ask depth with
      | Except.error e => some (Except.error e)
      | Except.ok (topics, full) =>
          if limit.toNat <= topics.length ∨ ¬full ∨ saturatingMul limit DEEPEST <= depth then
            some (Except.ok (topics.take limit.toNat))
          else
            deepenFrom limit ask turns (saturatingMul depth 2)

/--
`limit` topics from `ask`, which ranks `depth` spans and collapses them, also saying whether
the index had that many to give.
-/
def deepening (turns : Nat) (limit : UInt32)
    (ask : UInt32 -> Except error (List (Scored score) × Bool)) :
    Option (Except error (List (Scored score))) :=
  deepenFrom limit ask turns limit

def deepestDepth (grain : Grain) (limit : UInt32) : UInt32 :=
  match grain with
  | Grain.topic => limit
  | Grain.spans _ => saturatingMul limit DEEPEST

def deepest (grain : Grain) (limit : UInt32) (ask : UInt32 -> Except error (List (Scored score))) :
    Except error (List (Scored score)) :=
  (ask (deepestDepth grain limit)).map fun topics => topics.take limit.toNat

/-- The spans of a fixed ranking down to a depth, collapsed, and whether it had that many. -/
def askRanking (ranking : List (Span score)) (depth : UInt32) :
    Except error (List (Scored score) × Bool) :=
  let spans := ranking.take depth.toNat
  Except.ok (collapse spans, depth.toNat <= spans.length)

end Asking

/-!
## Depths
-/

theorem toNat_saturatingMul (x y : UInt32) :
    (saturatingMul x y).toNat = min (x.toNat * y.toNat) (UInt32.size - 1) := by
  unfold saturatingMul
  rw [UInt32.toNat_ofNat_of_lt']
  exact Nat.lt_of_le_of_lt (Nat.min_le_right _ _) (by decide)

def Reached (limit depth : UInt32) (factor : Nat) : Prop :=
  depth.toNat = min (limit.toNat * factor) (UInt32.size - 1)

section Turns

variable {score error : Type} {limit depth : UInt32} {factor turns : Nat}

theorem reached_limit (limit : UInt32) : Reached limit limit 1 := by
  unfold Reached
  rw [Nat.mul_one, Nat.min_eq_left (Nat.le_sub_one_of_lt limit.toNat_lt_size)]

theorem reached_double (h : Reached limit depth factor) :
    Reached limit (saturatingMul depth 2) (2 * factor) := by
  have htwo : (2 : UInt32).toNat = 2 := rfl
  unfold Reached at h ⊢
  rw [toNat_saturatingMul, htwo, h, Nat.mul_left_comm]
  generalize limit.toNat * factor = reached
  generalize UInt32.size - 1 = most
  omega

theorem reached_deepest : Reached limit depth 8 <-> depth = saturatingMul limit DEEPEST := by
  have height : DEEPEST.toNat = 8 := rfl
  unfold Reached
  rw [← UInt32.toNat_inj, toNat_saturatingMul, height]

theorem le_deepest (h : Reached limit depth factor) (hfactor : factor <= 8) :
    depth.toNat <= (saturatingMul limit DEEPEST).toNat := by
  have height : DEEPEST.toNat = 8 := rfl
  unfold Reached at h
  rw [toNat_saturatingMul, h, height]
  exact min_le_min_right _ (Nat.mul_le_mul_left _ hfactor)

theorem deepenFrom_ends (ask : UInt32 -> Except error (List (Scored score) × Bool))
    (hfactor : factor * 2 ^ turns = 8) (hdepth : Reached limit depth factor) :
    (deepenFrom limit ask (turns + 1) depth).isSome := by
  induction turns generalizing factor depth with
  | zero =>
      rw [Nat.pow_zero, Nat.mul_one] at hfactor
      rw [hfactor] at hdepth
      have hdeepest := UInt32.le_of_eq (reached_deepest.mp hdepth).symm
      unfold deepenFrom
      cases ask depth with
      | error e => rfl
      | ok found =>
          dsimp only
          rw [if_pos (Or.inr (Or.inr hdeepest))]
          rfl
  | succ turns ih =>
      unfold deepenFrom
      cases ask depth with
      | error e => rfl
      | ok found =>
          dsimp only
          split
          · rfl
          · exact ih (by rw [← hfactor, Nat.pow_succ]; ring) (reached_double hdepth)

theorem deepenFrom_more (ask : UInt32 -> Except error (List (Scored score) × Bool))
    {found : Except error (List (Scored score))} (more : Nat)
    (h : deepenFrom limit ask turns depth = some found) :
    deepenFrom limit ask (turns + more) depth = some found := by
  induction turns generalizing depth with
  | zero => cases h
  | succ turns ih =>
      rw [Nat.succ_add]
      unfold deepenFrom at h ⊢
      cases hask : ask depth with
      | error e =>
          rw [hask] at h
          exact h
      | ok topics =>
          rw [hask] at h
          dsimp only at h ⊢
          split at h
          · next hstop =>
              rw [if_pos hstop]
              exact h
          · next hgo =>
              rw [if_neg hgo]
              exact ih h

end Turns

/-!
## An exact ranking
-/

section Ranking

variable {score error : Type} {ranking : List (Span score)} {limit depth : UInt32}
  {factor turns shallow deep keep : Nat}

theorem collapse_take (hle : shallow <= deep) : exists more,
    collapse (ranking.take deep) = collapse (ranking.take shallow) ++ more := by
  have hsplit : ranking.take deep =
      ranking.take shallow ++ (ranking.drop shallow).take (deep - shallow) := by
    rw [← List.take_add, Nat.add_sub_cancel' hle]
  rw [hsplit, collapse, firsts_append, List.map_append]
  exact ⟨_, rfl⟩

theorem take_collapse_deeper (hle : shallow <= deep)
    (henough : keep <= (collapse (ranking.take shallow)).length ∨ ranking.length <= shallow) :
    (collapse (ranking.take shallow)).take keep = (collapse (ranking.take deep)).take keep := by
  rcases henough with hkeep | hall
  · have hdeeper : exists more,
        collapse (ranking.take deep) = collapse (ranking.take shallow) ++ more :=
      collapse_take hle
    rcases hdeeper with ⟨more, hmore⟩
    rw [hmore, List.take_append_of_le_length hkeep]
  · rw [List.take_of_length_le hall, List.take_of_length_le (Nat.le_trans hall hle)]

theorem deepenFrom_ranking (error : Type) (hfactor : factor * 2 ^ turns = 8)
    (hdepth : Reached limit depth factor) :
    deepenFrom limit (askRanking ranking : UInt32 -> Except error _) (turns + 1) depth =
      some (Except.ok ((collapse (ranking.take (saturatingMul limit DEEPEST).toNat)).take
        limit.toNat)) := by
  induction turns generalizing factor depth with
  | zero =>
      rw [Nat.pow_zero, Nat.mul_one] at hfactor
      rw [hfactor] at hdepth
      have hdeepest := reached_deepest.mp hdepth
      simp only [deepenFrom, askRanking]
      rw [if_pos (Or.inr (Or.inr (UInt32.le_of_eq hdeepest.symm))), hdeepest]
  | succ turns ih =>
      simp only [deepenFrom, askRanking]
      split
      · next hstop =>
          have hpow : factor <= factor * 2 ^ (turns + 1) :=
            Nat.le_mul_of_pos_right _ (Nat.two_pow_pos _)
          have hle : depth.toNat <= (saturatingMul limit DEEPEST).toNat :=
            le_deepest hdepth (Nat.le_trans hpow (Nat.le_of_eq hfactor))
          congr 2
          rcases hstop with henough | hspent | hdeepest
          · exact take_collapse_deeper hle (Or.inl henough)
          · apply take_collapse_deeper hle (Or.inr _)
            rw [decide_eq_true_eq, List.length_take] at hspent
            omega
          · rw [Nat.le_antisymm hle (UInt32.le_iff_toNat_le.mp hdeepest)]
      · exact ih (by rw [← hfactor, Nat.pow_succ]; ring) (reached_double hdepth)

end Ranking

/--
Deepening ends within four turns, whatever the index answers; and over an exact ranking of
spans one ask eight times as deep as the limit returns what deepening returns.
-/
theorem deepest_is_deepening {score error : Type} (ranking : List (Span score)) (tokens : Nat)
    (limit : UInt32) :
    (forall ask : UInt32 -> Except error (List (Scored score) × Bool), exists found,
      forall more, deepening (4 + more) limit ask = some found) ∧
    forall more, deepening (4 + more) limit (askRanking ranking : UInt32 -> Except error _) =
      some (deepest (Grain.spans tokens) limit fun depth =>
        (askRanking ranking depth).map Prod.fst) := by
  constructor
  · intro ask
    have hends : (deepenFrom limit ask (3 + 1) limit).isSome :=
      deepenFrom_ends ask rfl (reached_limit limit)
    rcases Option.isSome_iff_exists.mp hends with ⟨found, hfound⟩
    exact ⟨found, fun more => deepenFrom_more ask more hfound⟩
  · intro more
    have hturns : 1 * 2 ^ 3 = 8 := rfl
    exact deepenFrom_more _ more (deepenFrom_ranking error hturns (reached_limit limit))

end Recalling
end PaminMemory
