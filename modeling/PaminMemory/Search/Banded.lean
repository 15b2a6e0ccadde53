import PaminMemory.Search.Fused
import PaminMemory.Foundation.Extremes
import Mathlib.Algebra.Order.Field.Basic
import Mathlib.Tactic.FieldSimp
import Mathlib.Tactic.Linarith

/-!
# The band a channel's contributions span

A banded channel places each candidate between what reciprocal rank fusion gives the last of
its candidates and what it gives the first, by where its score falls on the channel's scale.
A list that has no scale to place its scores on contributes by rank.
-/

namespace PaminMemory
namespace Search

open Foundation

/-!
## The scale of a list
-/

def AllScored (candidates : List Scored) : Prop :=
  forall candidate, candidate ∈ candidates -> candidate.score ≠ none

/-- Scores are finite numbers of 32 bits. -/
def Finite (candidates : List Scored) : Prop :=
  forall candidate, candidate ∈ candidates -> forall score, candidate.score = some score ->
    -MAX <= score ∧ score <= MAX

def Spread (candidates : List Scored) : Prop :=
  exists low, low ∈ candidates ∧ exists high, high ∈ candidates ∧ exists least most,
    low.score = some least ∧ high.score = some most ∧ EPSILON < most - least

def scaleOf (candidates : List Scored) (calibrated : Option (Rat × Rat)) : Option (Rat × Rat) :=
  let scores := candidates.filterMap Scored.score
  let least := scores.foldl min MAX
  let most := scores.foldl max (-MAX)
  match calibrated with
  | some (low, high) => if high - low > EPSILON then some (low, high - low) else none
  | none => if most - least > EPSILON then some (least, most - least) else none

def placeOn (score : Rat) (scale : Rat × Rat) : Rat :=
  max 0 (min 1 ((score - scale.1) / scale.2))

section Scale

variable {candidates : List Scored} {calibrated : Option (Rat × Rat)} {candidate : Scored}
  {score : Rat} {scale : Rat × Rat}

theorem mem_scores : score ∈ candidates.filterMap Scored.score <->
    exists candidate, candidate ∈ candidates ∧ candidate.score = some score :=
  List.mem_filterMap

theorem length_scores : (candidates.filterMap Scored.score).length = candidates.length <->
    AllScored candidates := by
  rw [List.length_filterMap_eq_countP, List.countP_eq_length]
  constructor
  · intro h candidate hmem
    exact Option.isSome_iff_ne_none.mp (h candidate hmem)
  · intro h candidate hmem
    exact Option.isSome_iff_ne_none.mpr (h candidate hmem)

theorem scores_eq_map (h : AllScored candidates) :
    candidates.filterMap Scored.score =
      candidates.map fun candidate => candidate.score.getD 0 := by
  rw [List.filterMap_eq_map_iff_forall_eq_some]
  intro candidate hmem
  cases hscore : candidate.score with
  | none => exact absurd hscore (h candidate hmem)
  | some score => rfl

theorem rescale_unscored (h : ¬AllScored candidates) : rescale candidates calibrated =
    candidates.map fun _ => { within := none, of := candidates.length } := by
  have hlength : (candidates.filterMap Scored.score).length ≠ candidates.length :=
    fun hsame => h (length_scores.mp hsame)
  unfold rescale
  rw [if_pos (Or.inl hlength), List.map_const']

theorem rescale_scored (h : AllScored candidates) : rescale candidates calibrated =
    candidates.map fun candidate =>
      { within := (scaleOf candidates calibrated).map fun scale =>
          placeOn (candidate.score.getD 0) scale
        of := candidates.length } := by
  cases candidates with
  | nil => rfl
  | cons first rest =>
      have hlength := length_scores.mpr h
      have hne : (first :: rest).filterMap Scored.score ≠ [] := by
        intro hnil
        rw [hnil] at hlength
        cases hlength
      unfold rescale
      simp only [if_neg (not_or.mpr ⟨not_not.mpr hlength, hne⟩)]
      rw [scores_eq_map h, List.map_map, ← scores_eq_map h]
      rfl

theorem placeOn_nonneg (score : Rat) (scale : Rat × Rat) : 0 <= placeOn score scale :=
  le_max_left ..

theorem placeOn_le_one (score : Rat) (scale : Rat × Rat) : placeOn score scale <= 1 :=
  max_le zero_le_one (min_le_left ..)

theorem epsilon_pos : (0 : Rat) < EPSILON := by
  unfold EPSILON
  norm_num

theorem scaleOf_width (h : scaleOf candidates calibrated = some scale) : 0 < scale.2 := by
  unfold scaleOf at h
  cases calibrated with
  | none =>
      simp only [Option.ite_none_right_eq_some, Option.some.injEq] at h
      rw [← h.2]
      exact lt_trans epsilon_pos h.1
  | some declared =>
      simp only [Option.ite_none_right_eq_some, Option.some.injEq] at h
      rw [← h.2]
      exact lt_trans epsilon_pos h.1

theorem placeOn_mono (hwidth : 0 < scale.2) {lower higher : Rat} (h : lower <= higher) :
    placeOn lower scale <= placeOn higher scale := by
  have hplace : (lower - scale.1) / scale.2 <= (higher - scale.1) / scale.2 :=
    div_le_div_of_nonneg_right (sub_le_sub_right h scale.1) (le_of_lt hwidth)
  exact max_le_max (le_refl 0) (min_le_min (le_refl 1) hplace)

end Scale

/-!
## The band
-/

section Band

variable {k place : Rat} {n : Nat}

def bandShare (k : Rat) (n : Nat) (place : Rat) : Rat :=
  ((k + 1) / (k + n) + (1 - (k + 1) / (k + n)) * place) / (k + 1)

theorem floor_le_one (hk : 0 <= k) (hn : 1 <= n) : (k + 1) / (k + n) <= 1 := by
  have hcast : (1 : Rat) <= n := by exact_mod_cast hn
  rw [div_le_one (by linarith)]
  linarith

theorem bandShare_mono (hk : 0 <= k) (hn : 1 <= n) {other : Rat} (h : place <= other) :
    bandShare k n place <= bandShare k n other := by
  have hfloor := floor_le_one hk hn
  have hscaled := mul_le_mul_of_nonneg_left h (sub_nonneg.mpr hfloor)
  apply div_le_div_of_nonneg_right _ (by linarith)
  linarith

theorem bandShare_zero (hk : 0 <= k) (hn : 1 <= n) : bandShare k n 0 = 1 / (k + n) := by
  have hcast : (1 : Rat) <= n := by exact_mod_cast hn
  have hpos : k + n ≠ 0 := by linarith
  have hone : k + 1 ≠ 0 := by linarith
  unfold bandShare
  rw [mul_zero, add_zero, div_div, mul_comm (k + n), ← div_div, div_self hone]

theorem bandShare_one (k : Rat) (n : Nat) : bandShare k n 1 = 1 / (k + 1) := by
  unfold bandShare
  rw [mul_one, add_sub_cancel]

theorem bandShare_single (hk : 0 <= k) : bandShare k 1 place = 1 / (k + 1) := by
  have hone : k + 1 ≠ 0 := by linarith
  unfold bandShare
  rw [Nat.cast_one, div_self hone, sub_self, zero_mul, add_zero]

end Band

/-!
## What a candidate is worth
-/

section Shares

variable {fusion : Fusion} {list : ChannelResults} {appearance : Appearance}

def Placed (list : ChannelResults) : Prop :=
  AllScored list.candidates ∧
    exists scale, scaleOf list.candidates list.channel.calibrated = some scale

/-- What an appearance of a list was made from: its place in the list, and a share of the band. -/
theorem mem_appearancesOf (h : appearance ∈ fusion.appearancesOf list) :
    list.candidates[appearance.rank - 1]? = some appearance.candidate ∧
      (1 <= appearance.rank ∧ appearance.rank <= list.candidates.length) ∧
      exists scaled,
        (rescale list.candidates list.channel.calibrated)[appearance.rank - 1]? = some scaled ∧
        appearance.contribution =
          fusion.weight list.channel * fusion.share scaled appearance.rank := by
  unfold Fusion.appearancesOf at h
  simp only [List.mem_ite_nil_left, List.mem_map] at h
  rcases h with ⟨_, ⟨⟨candidate, scaled⟩, index⟩, hitem, happearance⟩
  have hthere := List.mem_zipIdx_iff_getElem?.mp hitem
  have hlt := (List.getElem?_eq_some_iff.mp hthere).1
  rw [List.length_zip, length_rescale, Nat.min_self] at hlt
  have hboth := List.getElem?_zip_eq_some.mp hthere
  rw [← happearance]
  exact ⟨hboth.1, ⟨Nat.succ_le_succ (Nat.zero_le index), hlt⟩, scaled, hboth.2, rfl⟩

theorem contribution_placed (hcombine : fusion.combine = Combine.banded) {scale : Rat × Rat}
    (hscored : AllScored list.candidates)
    (hscale : scaleOf list.candidates list.channel.calibrated = some scale)
    (h : appearance ∈ fusion.appearancesOf list) :
    appearance.contribution = fusion.weight list.channel *
      bandShare fusion.k list.candidates.length
        (placeOn (appearance.candidate.score.getD 0) scale) := by
  rcases mem_appearancesOf h with ⟨hcandidate, _, scaled, hscaled, hcontribution⟩
  rw [rescale_scored hscored, List.getElem?_map, hcandidate, Option.map_some, hscale,
    Option.map_some] at hscaled
  rw [hcontribution, Fusion.share, hcombine, ← Option.some.inj hscaled]
  rfl

theorem contribution_unplaced (hplaced : ¬Placed list)
    (h : appearance ∈ fusion.appearancesOf list) :
    appearance.contribution = fusion.weight list.channel / (fusion.k + appearance.rank) := by
  rcases mem_appearancesOf h with ⟨hcandidate, _, scaled, hscaled, hcontribution⟩
  have hwithin : scaled.within = none := by
    by_cases hscored : AllScored list.candidates
    · have hscale : scaleOf list.candidates list.channel.calibrated = none := by
        cases hscale : scaleOf list.candidates list.channel.calibrated with
        | none => rfl
        | some scale => exact absurd ⟨hscored, scale, hscale⟩ hplaced
      rw [rescale_scored hscored, List.getElem?_map, hcandidate, hscale] at hscaled
      rw [← Option.some.inj hscaled]
      rfl
    · rw [rescale_unscored hscored, List.getElem?_map, hcandidate] at hscaled
      rw [← Option.some.inj hscaled]
  rw [hcontribution, Fusion.share]
  cases fusion.combine with
  | reciprocal => simp only [mul_one_div]
  | banded => simp only [hwithin, mul_one_div]

end Shares

/-!
## The contributions of a list
-/

def ScoreLe (lower higher : Scored) : Prop :=
  exists least most, lower.score = some least ∧ higher.score = some most ∧ least <= most

def BestFirst (candidates : List Scored) : Prop :=
  candidates.Pairwise fun earlier later => forall high low,
    earlier.score = some high -> later.score = some low -> low <= high

def HasScale (list : ChannelResults) : Prop :=
  AllScored list.candidates ∧ (list.channel.calibrated ≠ none ∨ Spread list.candidates)

/-- What a banded channel of a weight gives the candidates of a list. -/
structure InBand (fusion : Fusion) (list : ChannelResults) (weight : Rat) : Prop where
  within : forall appearance, appearance ∈ fusion.appearancesOf list ->
    weight / (fusion.k + list.candidates.length) <= appearance.contribution ∧
      appearance.contribution <= weight / (fusion.k + 1)
  monotone : HasScale list -> forall lower, lower ∈ fusion.appearancesOf list ->
    forall higher, higher ∈ fusion.appearancesOf list ->
      ScoreLe lower.candidate higher.candidate -> lower.contribution <= higher.contribution
  ordered : BestFirst list.candidates -> forall lower, lower ∈ fusion.appearancesOf list ->
    forall higher, higher ∈ fusion.appearancesOf list ->
      ScoreLe lower.candidate higher.candidate -> ¬ScoreLe higher.candidate lower.candidate ->
        lower.contribution <= higher.contribution
  best : HasScale list -> list.channel.calibrated = none ->
    forall appearance, appearance ∈ fusion.appearancesOf list ->
      (forall other, other ∈ list.candidates -> ScoreLe other appearance.candidate) ->
        appearance.contribution = weight / (fusion.k + 1)
  worst : HasScale list -> list.channel.calibrated = none ->
    forall appearance, appearance ∈ fusion.appearancesOf list ->
      (forall other, other ∈ list.candidates -> ScoreLe appearance.candidate other) ->
        appearance.contribution = weight / (fusion.k + list.candidates.length)
  reciprocal : ¬HasScale list ∨ list.candidates.length = 1 ->
    forall appearance, appearance ∈ fusion.appearancesOf list ->
      appearance.contribution = weight / (fusion.k + appearance.rank)

section Contributions

variable {fusion : Fusion} {list : ChannelResults} {appearance : Appearance}

theorem scores_ne_nil_of_spread (h : Spread list.candidates) :
    list.candidates.filterMap Scored.score ≠ [] := by
  rcases h with ⟨low, hlow, _, _, least, _, hleast, _⟩
  exact List.ne_nil_of_mem (mem_scores.mpr ⟨low, hlow, hleast⟩)

theorem least_of_finite (hfinite : Finite list.candidates)
    (hscores : list.candidates.filterMap Scored.score ≠ []) :
    (list.candidates.filterMap Scored.score).foldl min MAX ∈
      list.candidates.filterMap Scored.score := by
  apply least_mem hscores
  intro score hscore
  rcases mem_scores.mp hscore with ⟨candidate, hmem, hscore⟩
  exact (hfinite candidate hmem score hscore).2

theorem most_of_finite (hfinite : Finite list.candidates)
    (hscores : list.candidates.filterMap Scored.score ≠ []) :
    (list.candidates.filterMap Scored.score).foldl max (-MAX) ∈
      list.candidates.filterMap Scored.score := by
  apply most_mem hscores
  intro score hscore
  rcases mem_scores.mp hscore with ⟨candidate, hmem, hscore⟩
  exact (hfinite candidate hmem score hscore).1

theorem scaleOf_spread (hfinite : Finite list.candidates) :
    (exists scale, scaleOf list.candidates none = some scale) <-> Spread list.candidates := by
  constructor
  · rintro ⟨scale, hscale⟩
    simp only [scaleOf, Option.ite_none_right_eq_some] at hscale
    have hscores : list.candidates.filterMap Scored.score ≠ [] := by
      intro hnil
      rw [hnil] at hscale
      have hwide := hscale.1
      simp only [List.foldl_nil, MAX, EPSILON] at hwide
      norm_num at hwide
    rcases mem_scores.mp (least_of_finite hfinite hscores) with ⟨low, hlow, hleast⟩
    rcases mem_scores.mp (most_of_finite hfinite hscores) with ⟨high, hhigh, hmost⟩
    exact ⟨low, hlow, high, hhigh, _, _, hleast, hmost, hscale.1⟩
  · rintro ⟨low, hlow, high, hhigh, least, most, hleast, hmost, hapart⟩
    have hbelow : (list.candidates.filterMap Scored.score).foldl min MAX <= least :=
      foldl_min_le (mem_scores.mpr ⟨low, hlow, hleast⟩)
    have habove : most <= (list.candidates.filterMap Scored.score).foldl max (-MAX) :=
      le_foldl_max (mem_scores.mpr ⟨high, hhigh, hmost⟩)
    simp only [scaleOf]
    rw [if_pos (by linarith)]
    exact ⟨_, rfl⟩

theorem placed_iff (hfinite : Finite list.candidates) : Placed list <-> HasScale list := by
  apply and_congr_right
  intro _
  cases hcalibrated : list.channel.calibrated with
  | none =>
      rw [scaleOf_spread hfinite]
      simp only [ne_eq, not_true_eq_false, false_or]
  | some declared =>
      have hdeclared : declared = (0, 1) := by
        cases hchannel : list.channel with
        | graph => rw [hchannel] at hcalibrated; exact (Option.some.inj hcalibrated).symm
        | _ => rw [hchannel] at hcalibrated; cases hcalibrated
      have hwide : (1 : Rat) - 0 > EPSILON := by
        unfold EPSILON
        norm_num
      rw [hdeclared]
      simp only [scaleOf, if_pos hwide, Option.some.injEq, exists_eq', ne_eq, reduceCtorEq,
        not_false_eq_true, true_or]

theorem scale_ends (hcalibrated : list.channel.calibrated = none) {scale : Rat × Rat}
    (h : scaleOf list.candidates list.channel.calibrated = some scale) :
    scale = ((list.candidates.filterMap Scored.score).foldl min MAX,
      (list.candidates.filterMap Scored.score).foldl max (-MAX) -
        (list.candidates.filterMap Scored.score).foldl min MAX) := by
  rw [hcalibrated] at h
  simp only [scaleOf, Option.ite_none_right_eq_some, Option.some.injEq] at h
  exact h.2.symm

theorem getD_of_scoreLe {lower higher : Scored} (h : ScoreLe lower higher) :
    lower.score.getD 0 <= higher.score.getD 0 := by
  rcases h with ⟨least, most, hleast, hmost, hle⟩
  rw [hleast, hmost]
  exact hle

theorem one_le_length (h : appearance ∈ fusion.appearancesOf list) :
    1 <= list.candidates.length := by
  rcases mem_appearancesOf h with ⟨_, hrank, _⟩
  exact le_trans hrank.1 hrank.2

theorem reciprocal_within (hk : 0 <= fusion.k) (hweight : 0 <= fusion.weight list.channel)
    {rank : Nat} (hfirst : 1 <= rank) (hlast : rank <= list.candidates.length) :
    fusion.weight list.channel / (fusion.k + list.candidates.length) <=
        fusion.weight list.channel / (fusion.k + rank) ∧
      fusion.weight list.channel / (fusion.k + rank) <=
        fusion.weight list.channel / (fusion.k + 1) := by
  have hone : (1 : Rat) <= rank := by exact_mod_cast hfirst
  have hlength : (rank : Rat) <= list.candidates.length := by exact_mod_cast hlast
  constructor
  · exact div_le_div_of_nonneg_left hweight (by linarith) (by linarith)
  · exact div_le_div_of_nonneg_left hweight (by linarith) (by linarith)

theorem placed_within (hk : 0 <= fusion.k) (hweight : 0 <= fusion.weight list.channel)
    (hlength : 1 <= list.candidates.length) {place : Rat} (hleast : 0 <= place)
    (hmost : place <= 1) :
    fusion.weight list.channel / (fusion.k + list.candidates.length) <=
        fusion.weight list.channel * bandShare fusion.k list.candidates.length place ∧
      fusion.weight list.channel * bandShare fusion.k list.candidates.length place <=
        fusion.weight list.channel / (fusion.k + 1) := by
  have hbelow := bandShare_mono hk hlength hleast
  have habove := bandShare_mono hk hlength hmost
  rw [bandShare_zero hk hlength] at hbelow
  rw [bandShare_one] at habove
  rw [← mul_one_div, ← mul_one_div (fusion.weight list.channel) (fusion.k + 1)]
  exact ⟨mul_le_mul_of_nonneg_left hbelow hweight, mul_le_mul_of_nonneg_left habove hweight⟩

theorem rank_le_of_bestFirst (hordered : BestFirst list.candidates) {lower higher : Appearance}
    (hlower : lower ∈ fusion.appearancesOf list) (hhigher : higher ∈ fusion.appearancesOf list)
    (hle : ScoreLe lower.candidate higher.candidate)
    (hnot : ¬ScoreLe higher.candidate lower.candidate) : higher.rank <= lower.rank := by
  rcases mem_appearancesOf hlower with ⟨hlowerAt, hlowerRank, _⟩
  rcases mem_appearancesOf hhigher with ⟨hhigherAt, hhigherRank, _⟩
  rcases hle with ⟨least, most, hleast, hmost, _⟩
  by_contra hearlier
  rcases List.getElem?_eq_some_iff.mp hlowerAt with ⟨hlowerLt, hlowerEq⟩
  rcases List.getElem?_eq_some_iff.mp hhigherAt with ⟨hhigherLt, hhigherEq⟩
  have hplaces : lower.rank - 1 < higher.rank - 1 := by omega
  have hpair := List.pairwise_iff_getElem.mp hordered _ _ hlowerLt hhigherLt hplaces
  rw [hlowerEq, hhigherEq] at hpair
  exact hnot ⟨most, least, hmost, hleast, hpair least most hleast hmost⟩

end Contributions

/--
In the band reciprocal rank fusion spans over a list, a candidate's place follows its score
where the list has a scale, from the worst to the best where none is declared, and its rank
where it has not.
-/
theorem banded_in_band {fusion : Fusion} {list : ChannelResults}
    (hcombine : fusion.combine = Combine.banded) (hk : 0 <= fusion.k)
    (hweight : 0 <= fusion.weight list.channel) (hfinite : Finite list.candidates) :
    InBand fusion list (fusion.weight list.channel) := by
  have hmonotone : HasScale list -> forall lower, lower ∈ fusion.appearancesOf list ->
      forall higher, higher ∈ fusion.appearancesOf list ->
        ScoreLe lower.candidate higher.candidate -> lower.contribution <= higher.contribution := by
    intro hscale lower hlower higher hhigher hle
    rcases (placed_iff hfinite).mpr hscale with ⟨hscored, scale, hplaced⟩
    rw [contribution_placed hcombine hscored hplaced hlower,
      contribution_placed hcombine hscored hplaced hhigher]
    have hplace := placeOn_mono (scaleOf_width hplaced) (getD_of_scoreLe hle)
    exact mul_le_mul_of_nonneg_left (bandShare_mono hk (one_le_length hlower) hplace) hweight
  constructor
  case within =>
    intro appearance hmem
    by_cases hplaced : Placed list
    · rcases hplaced with ⟨hscored, scale, hscale⟩
      rw [contribution_placed hcombine hscored hscale hmem]
      exact placed_within hk hweight (one_le_length hmem) (placeOn_nonneg _ _) (placeOn_le_one _ _)
    · rw [contribution_unplaced hplaced hmem]
      rcases mem_appearancesOf hmem with ⟨_, hrank, _⟩
      exact reciprocal_within hk hweight hrank.1 hrank.2
  case monotone => exact hmonotone
  case ordered =>
    intro hordered lower hlower higher hhigher hle hnot
    by_cases hscale : HasScale list
    · exact hmonotone hscale lower hlower higher hhigher hle
    · have hplaced : ¬Placed list := fun hplaced => hscale ((placed_iff hfinite).mp hplaced)
      rw [contribution_unplaced hplaced hlower, contribution_unplaced hplaced hhigher]
      have hranks : (higher.rank : Rat) <= lower.rank := by
        exact_mod_cast rank_le_of_bestFirst hordered hlower hhigher hle hnot
      rcases mem_appearancesOf hhigher with ⟨_, hrank, _⟩
      have hone : (1 : Rat) <= higher.rank := by exact_mod_cast hrank.1
      exact div_le_div_of_nonneg_left hweight (by linarith) (by linarith)
  case best =>
    intro hscale hcalibrated appearance hmem hbest
    rcases (placed_iff hfinite).mpr hscale with ⟨hscored, scale, hplaced⟩
    have hscores := scores_ne_nil_of_spread (hscale.2.resolve_left (not_not.mpr hcalibrated))
    have hwidth := scaleOf_width hplaced
    rcases mem_scores.mp (most_of_finite hfinite hscores) with ⟨top, htop, hmost⟩
    have htopmost := getD_of_scoreLe (hbest top htop)
    rw [hmost, Option.getD_some] at htopmost
    rw [contribution_placed hcombine hscored hplaced hmem]
    have hends := scale_ends hcalibrated hplaced
    have hplace : placeOn (appearance.candidate.score.getD 0) scale = 1 := by
      have hone : 1 <= (appearance.candidate.score.getD 0 - scale.1) / scale.2 := by
        rw [le_div_iff₀ hwidth, one_mul, hends]
        exact sub_le_sub_right htopmost _
      rw [placeOn, min_eq_left hone, max_eq_right zero_le_one]
    rw [hplace, bandShare_one, mul_one_div]
  case worst =>
    intro hscale hcalibrated appearance hmem hworst
    rcases (placed_iff hfinite).mpr hscale with ⟨hscored, scale, hplaced⟩
    have hscores := scores_ne_nil_of_spread (hscale.2.resolve_left (not_not.mpr hcalibrated))
    have hwidth := scaleOf_width hplaced
    rcases mem_scores.mp (least_of_finite hfinite hscores) with ⟨bottom, hbottom, hleast⟩
    have hbottommost := getD_of_scoreLe (hworst bottom hbottom)
    rw [hleast, Option.getD_some] at hbottommost
    rw [contribution_placed hcombine hscored hplaced hmem]
    have hends := scale_ends hcalibrated hplaced
    have hplace : placeOn (appearance.candidate.score.getD 0) scale = 0 := by
      have hzero : (appearance.candidate.score.getD 0 - scale.1) / scale.2 <= 0 := by
        rw [div_le_iff₀ hwidth, zero_mul, hends]
        exact sub_nonpos.mpr hbottommost
      rw [placeOn, min_eq_right (le_trans hzero zero_le_one), max_eq_left hzero]
    rw [hplace, bandShare_zero hk (one_le_length hmem), mul_one_div]
  case reciprocal =>
    intro hcase appearance hmem
    by_cases hplaced : Placed list
    · have hsingle := hcase.resolve_left (not_not.mpr ((placed_iff hfinite).mp hplaced))
      rcases hplaced with ⟨hscored, scale, hscale⟩
      rcases mem_appearancesOf hmem with ⟨_, hrank, _⟩
      rw [hsingle] at hrank
      rw [contribution_placed hcombine hscored hscale hmem, hsingle, bandShare_single hk,
        le_antisymm hrank.2 hrank.1, mul_one_div, Nat.cast_one]
    · exact contribution_unplaced hplaced hmem

def bandedTen : Fusion := { combine := Combine.banded, k := 10, weights := ∅ }

def scoredList (channel : Channel) (scores : List (Option Rat)) : ChannelResults :=
  { channel := channel
    candidates := scores.map fun score => { topic := 0, score := score, span := 0 } }

theorem banded_in_band_of_three :
    InBand bandedTen (scoredList Channel.vector [some 1, some (1 / 2), some 0]) 1 := by
  have hweight : bandedTen.weight (scoredList Channel.vector
      [some 1, some (1 / 2), some 0]).channel = 1 := by decide +kernel
  rw [← hweight]
  apply banded_in_band rfl (by decide +kernel) (by rw [hweight]; decide +kernel)
  have hall : (scoredList Channel.vector [some 1, some (1 / 2), some 0]).candidates.all
      (fun candidate => candidate.score.all fun score => -MAX <= score && score <= MAX) = true := by
    decide +kernel
  intro candidate hmem score hscore
  have hbounds := List.all_eq_true.mp hall candidate hmem
  rw [hscore] at hbounds
  simpa using hbounds

/--
Two graph candidates of one score are in the middle of the declared scale, and not where their
ranks put them; scores too close for a scale of their own, and a list with one score missing,
fall back to ranks that may go the other way.
-/
theorem declared_scale_is_not_reciprocal :
    (bandedTen.appearancesOf (scoredList Channel.graph [some (1 / 2), some (1 / 2)])).map
        Appearance.contribution ≠ [1 / 11, 1 / 12] ∧
      (bandedTen.appearancesOf (scoredList Channel.vector [some 0, some (1 / 2 ^ 24)])).map
        Appearance.contribution = [1 / 11, 1 / 12] ∧
      (bandedTen.appearancesOf (scoredList Channel.vector [none, some 0, some 1])).map
        Appearance.contribution = [1 / 11, 1 / 12, 1 / 13] := by
  refine ⟨?_, ?_, ?_⟩
  · decide +kernel
  · decide +kernel
  · decide +kernel

end Search
end PaminMemory
