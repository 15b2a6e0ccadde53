import PaminMemory.Foundation.Leading
import PaminMemory.Walking.Bounded

/-!
# What is kept of a bounded walk

The neighbours a score rates highest, of a walk that left edges unread.  They are given when
nothing unread could have been among them, as far as the score tells.
-/

namespace PaminMemory
namespace Walking

open Foundation PaminMemory.Graph

/-- What an arrival is worth, by its edge's confidence, its hops and the seed it came from. -/
abbrev Score := Binary32 -> Nat -> TopicId -> Binary32

def Score.rate (score : Score) (neighbor : Neighbor) : Binary32 :=
  score neighbor.confidence.value neighbor.hops neighbor.origin

/-- The score does not fall as confidence rises. -/
def Score.Rises (score : Score) : Prop :=
  forall lower upper hops origin, Binary32.AtMost Binary32.zero lower ->
    Binary32.AtMost lower upper -> Binary32.AtMost upper Binary32.one ->
      Binary32.AtMost (score lower hops origin) (score upper hops origin)

def ratingKey (score : Score) (neighbor : Neighbor) : Int ×ₗ Nat :=
  toLex (-(score.rate neighbor).totalPlace, neighbor.topic)

def higher (score : Score) (left right : Neighbor) : Prop :=
  ratingKey score left <= ratingKey score right

instance (score : Score) : DecidableRel (higher score) := fun left right =>
  inferInstanceAs (Decidable (ratingKey score left <= ratingKey score right))

instance (score : Score) : Std.Total (higher score) where
  total left right := le_total (ratingKey score left) (ratingKey score right)

instance (score : Score) : IsTrans Neighbor (higher score) where
  trans _ _ _ := le_trans

def strongest (neighbors : List Neighbor) (keep : Nat) (score : Score) : List Neighbor :=
  (neighbors.insertionSort (higher score)).take keep

def settled (score : Score) (last : Neighbor) (unread : Unread) : Bool :=
  let floor := score.rate last
  unread.origins.all fun origin =>
    let bound := score unread.confidence.value unread.hops origin
    let below := score unread.confidence.value.nextDown unread.hops origin
    Binary32.Less bound floor ||
      (Binary32.Same floor bound && last.topic <= unread.after && Binary32.Less below floor)

def Walk.strongest (walk : Walk) (keep : Nat) (score : Score) : Option (List Neighbor) :=
  let ranked := Walking.strongest walk.neighbors keep score
  if walk.unread = [] ∨ keep = 0 then
    some ranked
  else
    match ranked[keep - 1]? with
    | none => none
    | some last => if walk.unread.all (settled score last) then some ranked else none

/-!
## Numbers compared
-/

def negativeZero : Binary32 := ⟨true, 0, Binary32.zero_bounded⟩

theorem totalPlace_lt_of_less {left right : Binary32} (h : Binary32.Less left right) :
    left.totalPlace < right.totalPlace := by
  have hplace := h.2.2
  cases hleft : left.negative with
  | true =>
      cases hright : right.negative with
      | true =>
          simp only [Binary32.place, hleft, hright, if_true] at hplace
          simp only [Binary32.totalPlace, hleft, hright, if_true]
          omega
      | false =>
          simp only [Binary32.totalPlace, hleft, hright, if_true, Bool.false_eq_true, if_false]
          omega
  | false =>
      cases hright : right.negative with
      | true =>
          simp only [Binary32.place, hleft, hright, if_true, Bool.false_eq_true, if_false] at hplace
          omega
      | false =>
          simp only [Binary32.place, hleft, hright, Bool.false_eq_true, if_false] at hplace
          simp only [Binary32.totalPlace, hleft, hright, Bool.false_eq_true, if_false]
          exact hplace

theorem same_cases {left right : Binary32} (h : Binary32.Same left right) :
    left = right ∨ (left = negativeZero ∧ right = Binary32.zero) ∨
      (left = Binary32.zero ∧ right = negativeZero) := by
  have hplace := h.2.2
  rcases left with ⟨negative, magnitude, _⟩
  rcases right with ⟨negative', magnitude', _⟩
  simp only [Binary32.place] at hplace
  cases negative with
  | true =>
      cases negative' with
      | true =>
          have hsame : magnitude = magnitude' := by
            simp only [if_true] at hplace
            omega
          subst hsame
          exact Or.inl rfl
      | false =>
          have hzero : magnitude = 0 ∧ magnitude' = 0 := by
            simp only [if_true, Bool.false_eq_true, if_false] at hplace
            omega
          rcases hzero with ⟨rfl, rfl⟩
          exact Or.inr (Or.inl ⟨rfl, rfl⟩)
  | false =>
      cases negative' with
      | true =>
          have hzero : magnitude = 0 ∧ magnitude' = 0 := by
            simp only [if_true, Bool.false_eq_true, if_false] at hplace
            omega
          rcases hzero with ⟨rfl, rfl⟩
          exact Or.inr (Or.inr ⟨rfl, rfl⟩)
      | false =>
          have hsame : magnitude = magnitude' := by
            simp only [Bool.false_eq_true, if_false] at hplace
            omega
          subst hsame
          exact Or.inl rfl

theorem less_of_atMost_less {first second third : Binary32} (h : Binary32.AtMost first second)
    (hless : Binary32.Less second third) : Binary32.Less first third :=
  ⟨h.1, hless.2.1, lt_of_le_of_lt h.2.2 hless.2.2⟩

theorem confidence_positive (confidence : Confidence) :
    confidence.value.negative = false ∧ 0 < confidence.value.magnitude := by
  have hpositive := confidence.positive.2.2
  unfold Binary32.place at hpositive
  rw [show Binary32.zero.negative = false from rfl, show Binary32.zero.magnitude = 0 from rfl]
    at hpositive
  cases hsign : confidence.value.negative with
  | true =>
      rw [hsign] at hpositive
      simp only [Bool.false_eq_true, if_false, if_true] at hpositive
      omega
  | false =>
      rw [hsign] at hpositive
      simp only [Bool.false_eq_true, if_false] at hpositive
      constructor
      · rfl
      · omega

theorem strength_eq (confidence : Confidence) : strength confidence = confidence.value.magnitude := by
  unfold strength Binary32.place
  rw [(confidence_positive confidence).1]
  rfl

theorem value_of_strength {left right : Confidence} (h : strength left = strength right) :
    left.value = right.value := by
  rw [strength_eq, strength_eq] at h
  have hleft := (confidence_positive left).1
  have hright := (confidence_positive right).1
  generalize left.value = one at h hleft
  generalize right.value = other at h hright
  cases one
  cases other
  cases hleft
  cases hright
  cases Int.ofNat.inj h
  rfl

theorem nextDown_confidence (confidence : Confidence) :
    confidence.value.nextDown.negative = false ∧
      confidence.value.nextDown.magnitude = confidence.value.magnitude - 1 := by
  rcases confidence_positive confidence with ⟨hsign, hmagnitude⟩
  have hends : ¬ (confidence.value.IsNaN ∨ (confidence.value.negative = true ∧
      confidence.value.magnitude = Binary32.infinityBits)) := by
    rw [not_or, hsign]
    constructor
    · exact confidence.atMostOne.1
    · intro h
      cases h.1
  have hzero : ¬ confidence.value.magnitude = 0 := by omega
  have hnegative : ¬ confidence.value.negative = true := by
    rw [hsign]
    exact Bool.false_ne_true
  unfold Binary32.nextDown
  rw [dif_neg hends, dif_neg hzero, dif_neg hnegative]
  exact ⟨rfl, rfl⟩

theorem zero_atMost (confidence : Confidence) :
    Binary32.AtMost Binary32.zero confidence.value :=
  ⟨confidence.positive.1, confidence.positive.2.1, le_of_lt confidence.positive.2.2⟩

theorem atMost_nextDown {confidence bound : Confidence}
    (h : strength confidence < strength bound) :
    Binary32.AtMost confidence.value bound.value.nextDown ∧
      Binary32.AtMost bound.value.nextDown Binary32.one := by
  rcases nextDown_confidence bound with ⟨hsign, hmagnitude⟩
  have hnumber := bound.atMostOne.1
  have hone := bound.atMostOne.2.2
  have hplace : bound.value.nextDown.place = bound.value.magnitude - 1 := by
    unfold Binary32.place
    rw [hsign, hmagnitude]
    have hpositive := (confidence_positive bound).2
    simp only [Bool.false_eq_true, if_false]
    omega
  have hnan : ¬ bound.value.nextDown.IsNaN := by
    unfold Binary32.IsNaN at hnumber ⊢
    rw [hmagnitude]
    omega
  rw [strength_eq, strength_eq] at h
  have hbound : bound.value.place = bound.value.magnitude := strength_eq bound
  have hconfidence : confidence.value.place = confidence.value.magnitude := strength_eq confidence
  constructor
  · refine ⟨confidence.atMostOne.1, hnan, ?_⟩
    rw [hplace, hconfidence]
    omega
  · refine ⟨hnan, bound.atMostOne.2.1, ?_⟩
    rw [hplace]
    omega

/-!
## What the unread could have been
-/

section Missed

variable {score : Score} {last missed : Neighbor} {unread : Unread}

theorem rate_le_bound (hrises : score.Rises) (h : strength missed.confidence <=
    strength unread.confidence) (hhops : missed.hops = unread.hops) :
    Binary32.AtMost (score.rate missed)
      (score unread.confidence.value unread.hops missed.origin) := by
  unfold Score.rate
  rw [hhops]
  apply hrises
  · exact zero_atMost _
  · exact ⟨missed.confidence.atMostOne.1, unread.confidence.atMostOne.1, h⟩
  · exact unread.confidence.atMostOne

theorem rate_le_below (hrises : score.Rises) (h : strength missed.confidence <
    strength unread.confidence) (hhops : missed.hops = unread.hops) :
    Binary32.AtMost (score.rate missed)
      (score unread.confidence.value.nextDown unread.hops missed.origin) := by
  unfold Score.rate
  rw [hhops]
  rcases atMost_nextDown h with ⟨hlower, hone⟩
  exact hrises _ _ _ _ (zero_atMost _) hlower hone

theorem higher_of_less (h : Binary32.Less (score.rate missed) (score.rate last)) :
    higher score last missed := by
  have htotal := totalPlace_lt_of_less h
  apply le_of_lt
  exact Prod.Lex.toLex_lt_toLex.mpr (Or.inl (by simpa using htotal))

theorem after_of_settled (hrises : score.Rises) (hsettled : settled score last unread = true)
    (hcovers : Covers unread missed) :
    higher score last missed ∨
      (score.rate last = negativeZero ∧ score.rate missed = Binary32.zero) := by
  rcases hcovers with ⟨hhops, _, horigin, hstrength⟩
  have hverdict := List.all_eq_true.mp hsettled missed.origin horigin
  rw [Bool.or_eq_true, decide_eq_true_eq, Bool.and_eq_true, Bool.and_eq_true, decide_eq_true_eq,
    decide_eq_true_eq, decide_eq_true_eq] at hverdict
  have hle : strength missed.confidence <= strength unread.confidence := by
    rcases hstrength with hless | ⟨hsame, _⟩
    · exact le_of_lt hless
    · exact le_of_eq hsame
  rcases hverdict with hless | ⟨⟨hsame, hafter⟩, hbelow⟩
  · exact Or.inl (higher_of_less (less_of_atMost_less (rate_le_bound hrises hle hhops) hless))
  · rcases hstrength with hweaker | ⟨hequal, htopic⟩
    · exact Or.inl (higher_of_less
        (less_of_atMost_less (rate_le_below hrises hweaker hhops) hbelow))
    · have hvalue := value_of_strength hequal
      have hrate : score.rate missed =
          score unread.confidence.value unread.hops missed.origin := by
        unfold Score.rate
        rw [hvalue, hhops]
      rw [← hrate] at hsame
      rcases same_cases hsame with heq | hzeros | hzeros
      · apply Or.inl
        apply Prod.Lex.toLex_le_toLex.mpr
        exact Or.inr ⟨by rw [heq], hafter.trans (le_of_lt htopic)⟩
      · exact Or.inr hzeros
      · apply Or.inl
        apply Prod.Lex.toLex_le_toLex.mpr
        apply Or.inl
        rw [hzeros.1, hzeros.2]
        show -Binary32.zero.totalPlace < -negativeZero.totalPlace
        decide

theorem not_higher_of_zeros (hlast : score.rate last = negativeZero)
    (hmissed : score.rate missed = Binary32.zero) : ¬ higher score last missed := by
  intro h
  rcases Prod.Lex.toLex_le_toLex.mp h with hless | ⟨hsame, _⟩
  · rw [hlast, hmissed] at hless
    have hnot : ¬ -negativeZero.totalPlace < -Binary32.zero.totalPlace := by decide
    exact hnot hless
  · rw [hlast, hmissed] at hsame
    have hnot : -negativeZero.totalPlace ≠ -Binary32.zero.totalPlace := by decide
    exact hnot hsame

end Missed

section Kept

variable {ledger : Ledger} {options : Expansion} {answers : Answers (edgesOf ledger options)}
  {seeds : List TopicId} {perTopic keep : Nat} {score : Score}

theorem nodup_expand : ((expand ledger options answers seeds).map Neighbor.topic).Nodup := by
  by_cases hseeds : seeds = [] ∨ options.depth = 0
  · rw [expand_nil hseeds]
    exact List.nodup_nil
  · rw [expand_eq hseeds]
    exact nodup_listed fun _ _ hlookup => topic_of_reached hlookup

theorem nodup_expandReading (answers : Answers (edgesOf ledger options)) (seeds : List TopicId)
    (perTopic : Nat) (hone : OneLive ledger) :
    ((expandReading ledger options answers seeds perTopic).neighbors.map
      Neighbor.topic).Nodup := by
  by_cases hread : (seeds = [] ∨ options.depth = 0) ∨ options.moment ≠ none
  · rw [reading_of_moment hread]
    exact nodup_expand
  · rw [not_or, Classical.not_not] at hread
    rcases hread with ⟨hseeds, hmoment⟩
    have hread : (some (max perTopic 1)).filter (fun _ => options.moment.isNone) =
        some (max perTopic 1) := by
      rw [hmoment]
      rfl
    unfold expandReading walk
    rw [if_neg hseeds, hread]
    exact nodup_listed fun _ _ hlookup => topic_of_bounded hone hmoment hlookup

theorem topic_missing (hone : OneLive ledger) {missed : Neighbor}
    (hfull : missed ∈ expand ledger options answers seeds)
    (hnot : missed ∉ (expandReading ledger options answers seeds perTopic).neighbors) :
    missed.topic ∉
      (expandReading ledger options answers seeds perTopic).neighbors.map Neighbor.topic := by
  intro hmem
  rcases List.mem_map.mp hmem with ⟨held, hheld, htopic⟩
  have hboth := mem_expand_of_bounded hone hheld
  rw [List.inj_on_of_nodup_map nodup_expand hboth hfull htopic] at hheld
  exact hnot hheld

theorem higher_antisymm {one other : Neighbor}
    (hone : one ∈ expand ledger options answers seeds)
    (hother : other ∈ expand ledger options answers seeds) (hle : higher score one other)
    (hge : higher score other one) : one = other := by
  have hkey : ratingKey score one = ratingKey score other := le_antisymm hle hge
  have htopic : one.topic = other.topic := congrArg (fun key => (ofLex key).2) hkey
  exact List.inj_on_of_nodup_map nodup_expand hone hother htopic

theorem higher_last {neighbors : List Neighbor} {last kept : Neighbor}
    (hlast : (strongest neighbors keep score)[keep - 1]? = some last)
    (hkept : kept ∈ strongest neighbors keep score) : higher score kept last := by
  have hsorted : (strongest neighbors keep score).Pairwise (higher score) :=
    (List.pairwise_insertionSort (higher score) neighbors).take
  rcases List.getElem?_eq_some_iff.mp hlast with ⟨hlt, rfl⟩
  rcases List.mem_iff_getElem.mp hkept with ⟨i, hi, rfl⟩
  have hlength : (strongest neighbors keep score).length <= keep := by
    unfold strongest
    exact List.length_take_le ..
  rcases Nat.lt_or_ge i (keep - 1) with hbefore | hafter
  · exact List.pairwise_iff_getElem.mp hsorted i (keep - 1) hi hlt hbefore
  · have hsame : i = keep - 1 := by omega
    subst hsame
    exact le_refl _

/-- The last kept is rated the negative zero, and a neighbour the walk lacks the other zero. -/
def ZeroMissed (walk : Walk) (full : List Neighbor) (keep : Nat) (score : Score) : Prop :=
  exists last missed, (strongest walk.neighbors keep score)[keep - 1]? = some last ∧
    missed ∈ full ∧ missed ∉ walk.neighbors ∧ score.rate last = negativeZero ∧
      score.rate missed = Binary32.zero

theorem given_cases {walk : Walk} {list : List Neighbor}
    (h : walk.strongest keep score = some list) :
    list = strongest walk.neighbors keep score ∧ (walk.unread = [] ∨ keep = 0 ∨
      exists last, (strongest walk.neighbors keep score)[keep - 1]? = some last ∧
        forall unread, unread ∈ walk.unread -> settled score last unread = true) := by
  unfold Walk.strongest at h
  dsimp only at h
  split at h
  next hnothing =>
    cases h
    rcases hnothing with hunread | hkeep
    · exact ⟨rfl, Or.inl hunread⟩
    · exact ⟨rfl, Or.inr (Or.inl hkeep)⟩
  next =>
    split at h
    next => cases h
    next last hlast =>
      split at h
      next hsettled =>
        cases h
        exact ⟨rfl, Or.inr (Or.inr ⟨last, hlast, List.all_eq_true.mp hsettled⟩)⟩
      next => cases h

theorem mem_of_nothing_unread (hone : OneLive ledger)
    (hunread : (expandReading ledger options answers seeds perTopic).unread = [])
    {neighbor : Neighbor} (h : neighbor ∈ expand ledger options answers seeds) :
    neighbor ∈ (expandReading ledger options answers seeds perTopic).neighbors := by
  by_cases hheld : neighbor ∈ (expandReading ledger options answers seeds perTopic).neighbors
  · exact hheld
  · rcases covered_of_missing hone h (topic_missing hone h hheld) with ⟨unread, hmem, _⟩
    rw [hunread] at hmem
    exact absurd hmem List.not_mem_nil

theorem strongest_of_nothing_unread (hone : OneLive ledger)
    (hunread : (expandReading ledger options answers seeds perTopic).unread = []) :
    strongest (expandReading ledger options answers seeds perTopic).neighbors keep score =
      strongest (expand ledger options answers seeds) keep score := by
  have hperm : (expandReading ledger options answers seeds perTopic).neighbors.Perm
      (expand ledger options answers seeds) := by
    apply (List.perm_ext_iff_of_nodup
      (List.Nodup.of_map _ (nodup_expandReading answers seeds perTopic hone))
      (List.Nodup.of_map _ nodup_expand)).mpr
    intro neighbor
    constructor
    · exact mem_expand_of_bounded hone
    · exact mem_of_nothing_unread hone hunread
  unfold strongest
  rw [sorted_of_perm hperm fun one other hmem hother => higher_antisymm hmem hother]

/-- What is given of a bounded walk is what the walk over every edge gives, except where the
last kept and one missed are rated the two zeros. -/
theorem kept_of_bounded_iff (ledger : Ledger) (hone : OneLive ledger) (options : Expansion)
    (answers : Answers (edgesOf ledger options)) (seeds : List TopicId) (perTopic keep : Nat)
    (score : Score) (hrises : score.Rises) (list : List Neighbor)
    (hgiven : (expandReading ledger options answers seeds perTopic).strongest keep score =
      some list) :
    list = strongest (expand ledger options answers seeds) keep score <->
      ¬ ZeroMissed (expandReading ledger options answers seeds perTopic)
        (expand ledger options answers seeds) keep score := by
  rcases given_cases hgiven with ⟨rfl, hunread | hkeep | ⟨last, hlast, hsettled⟩⟩
  · constructor
    · intro _ hzero
      rcases hzero with ⟨_, missed, _, hfull, hnot, _⟩
      exact hnot (mem_of_nothing_unread hone hunread hfull)
    · exact fun _ => strongest_of_nothing_unread hone hunread
  · subst hkeep
    constructor
    · intro _ hzero
      rcases hzero with ⟨_, _, hnone, _⟩
      cases hnone
    · exact fun _ => rfl
  · have hmem : last ∈ strongest
        (expandReading ledger options answers seeds perTopic).neighbors keep score :=
      List.mem_of_getElem? hlast
    constructor
    · intro heq hzero
      rcases hzero with ⟨last', missed, hlast', hfull, hnot, hrate, hmissed⟩
      rw [hlast] at hlast'
      cases hlast'
      exact not_higher_of_zeros hrate hmissed (after_of_leading heq.symm hfull hnot hmem)
    · intro hzero
      symm
      have hkeep : keep <=
          (expandReading ledger options answers seeds perTopic).neighbors.length := by
        rcases List.getElem?_eq_some_iff.mp hlast with ⟨hlt, _⟩
        unfold strongest at hlt
        rw [List.length_take, List.length_insertionSort] at hlt
        omega
      apply leading_of_after
        (List.Nodup.of_map _ (nodup_expandReading answers seeds perTopic hone))
        (List.Nodup.of_map _ nodup_expand)
        (fun _ => mem_expand_of_bounded hone)
        (fun one other hmem hother => higher_antisymm hmem hother) hkeep
      intro missed kept hfull hnot hkept
      have hlasts : higher score last missed := by
        rcases covered_of_missing hone hfull (topic_missing hone hfull hnot) with
          ⟨unread, hunread, hcovers⟩
        rcases after_of_settled hrises (hsettled unread hunread) hcovers with hafter | hzeros
        · exact hafter
        · exact absurd ⟨last, missed, hlast, hfull, hnot, hzeros.1, hzeros.2⟩ hzero
      exact le_trans (higher_last hlast hkept) hlasts

end Kept

def byConfidence : Score := fun confidence _ _ => confidence

theorem byConfidence_rises : byConfidence.Rises :=
  fun _ _ _ _ _ hle _ => hle

def chainStart : Neighbor :=
  { topic := 1, origin := 2, hops := 1, via := 2, kind := EdgeKind.dependsOn
    derivation := Derivation.explicit, confidence := Confidence.one, outbound := false }

theorem kept_of_bounded_iff_of_chain :
    [chainStart] = strongest
        (expand chainLedger twoHops (Answers.stored (edgesOf chainLedger twoHops)) [2]) 1
        byConfidence <->
      ¬ ZeroMissed
        (expandReading chainLedger twoHops (Answers.stored (edgesOf chainLedger twoHops)) [2] 1)
        (expand chainLedger twoHops (Answers.stored (edgesOf chainLedger twoHops)) [2]) 1
        byConfidence :=
  kept_of_bounded_iff chainLedger chain_oneLive twoHops
    (Answers.stored (edgesOf chainLedger twoHops)) [2] 1 1 byConfidence byConfidence_rises
    [chainStart] (by decide)

/-- The negative zero for the first seed; nought for the second at full confidence. -/
def bothZeros : Score := fun confidence _ origin =>
  if origin = 1 then
    negativeZero
  else if Binary32.Less confidence Binary32.one then
    ⟨true, 0x3F800000, Binary32.one_bounded⟩
  else
    Binary32.zero

theorem bothZeros_rises : bothZeros.Rises := by
  intro lower upper hops origin _ hle _
  unfold bothZeros
  by_cases horigin : origin = 1
  · rw [if_pos horigin, if_pos horigin]
    decide
  · rw [if_neg horigin, if_neg horigin]
    by_cases hlower : Binary32.Less lower Binary32.one
    · rw [if_pos hlower]
      split
      · decide
      · decide
    · have hupper : ¬ Binary32.Less upper Binary32.one := fun hless =>
        hlower (less_of_atMost_less hle hless)
      rw [if_neg hlower, if_neg hupper]
      decide

/-- The neighbours that are given are not those that the walk over every edge gives. -/
theorem missed_zero_changes_what_is_kept :
    ¬ forall (ledger : Ledger) (options : Expansion)
        (answers : Answers (edgesOf ledger options)) (seeds : List TopicId)
        (perTopic keep : Nat) (score : Score) (list : List Neighbor),
      OneLive ledger -> options.moment = none -> 1 <= perTopic -> score.Rises ->
        (expandReading ledger options answers seeds perTopic).strongest keep score = some list ->
          list = strongest (expand ledger options answers seeds) keep score := by
  intro h
  let answers := Answers.stored (edgesOf forkLedger oneHopAway)
  have hsame := h forkLedger oneHopAway answers [1, 2] 2 3 bothZeros
    (strongest (expandReading forkLedger oneHopAway answers [1, 2] 2).neighbors 3 bothZeros)
    fork_oneLive rfl (by decide) bothZeros_rises (by decide)
  exact absurd hsame (by decide)

end Walking
end PaminMemory
