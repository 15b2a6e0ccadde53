import PaminMemory.Reranking.Attempting

/-!
# Turns of a call

A turn that answers gives the list the scores it would have without a cache, and leaves
only scores of the backend it leaves.  One begun again finds nothing remembered, so the
second is the last.
-/

namespace PaminMemory
namespace Reranking

open Foundation

section Turning

variable {model backend : Type _} {encoding : Type} {r : Runtime model backend encoding}
  {sha256 : List UInt8 -> Digest} {pairs : List Pair} {s : Reranker model}

/-- What holds of a reranker between turns. -/
structure Standing (r : Runtime model backend encoding) (sha256 : List UInt8 -> Digest)
    (s : Reranker model) : Prop where
  tallied : Tallied s.scores
  sound : r.needs_revalidation s.model = false ->
    Sound r sha256 (r.backendOf s.model) s.hashed s.scores

structure Left (s t : Reranker model) : Prop where
  scores : t.scores = s.scores ∨ t.scores = s.scores.invalidate
  work : t.work = s.work
  lengths : t.lengths = s.lengths

theorem noCollision_mono {hashed more : List (List UInt8)} (h : NoCollision sha256 more)
    (hmore : forall bytes, bytes ∈ hashed -> bytes ∈ more) : NoCollision sha256 hashed :=
  fun x hx y hy => h x (hmore x hx) y (hmore y hy)

theorem commit_said {b : backend} {completed : Completed model} (htallied : Tallied s.scores)
    (hsound : Sound r sha256 b s.hashed s.scores) (hsha : NoCollision sha256 s.hashed)
    (hpending : forall row, row ∈ completed.attempt.pending -> Knows r sha256 b s.hashed row)
    (hplan : completed.attempt.keep_plan = false -> forall plan,
      completed.attempt.next_plan = some plan -> Plans r sha256 b s.hashed plan) :
    exists t, s.commit completed =
        (Turn.answered completed.attempt.values completed.planned_on, t) ∧
      t.settings = s.settings ∧ t.model = s.model ∧ t.hashed = s.hashed ∧ Tallied t.scores ∧
        Sound r sha256 b s.hashed t.scores := by
  have hknows : forall row, row ∈ s.scores.known ++ completed.attempt.pending ->
      Knows r sha256 b s.hashed row := by
    intro row hrow
    cases List.mem_append.mp hrow with
    | inl hold => exact hsound.known row hold
    | inr hnew => exact hpending row hnew
  rcases putAll_tallied htallied (alike_of_knows hsha hknows) with
    ⟨after, hputAll, hafter, hknown⟩
  have hlast := putAll_last hputAll
  unfold Reranker.commit Attempt.commit
  rw [hputAll]
  refine ⟨_, rfl, rfl, rfl, rfl, ⟨hafter.keysDistinct, hafter.orderDistinct, hafter.listed,
    hafter.counted, hafter.bounded⟩, ⟨fun row hrow => hknows row (hknown row hrow), ?_⟩⟩
  intro plan hplan'
  cases hkeep : completed.attempt.keep_plan with
  | true =>
      rw [hkeep] at hplan'
      exact hsound.last plan (hlast.symm.trans hplan')
  | false =>
      rw [hkeep] at hplan'
      exact hplan hkeep plan (Option.filter_eq_some_iff.mp hplan').1

theorem knows_of_scored {b : backend} {hashed : List (List UInt8)} {limits : UInt64 × UInt64}
    {memo : Digest} {attempt : Attempt} {cached : Scores}
    (h : Scored r sha256 cached (pairs.map (pairKey sha256)) (passes r b pairs limits) b memo
      attempt)
    (hpairs : forall pair, pair ∈ pairs -> pairBytes pair ∈ hashed)
    (hbatches : forall batch, batch ∈ passes r b pairs limits ->
      batch.bytes r.len (pairs.map (pairKey sha256)) ∈ hashed) :
    forall row, row ∈ attempt.pending -> Knows r sha256 b hashed row := by
  intro row hrow
  rw [h.pending] at hrow
  rcases List.mem_map.mp hrow with ⟨batch, hunfound, heq⟩
  have hbatch : batch ∈ passes r b pairs limits := (List.mem_filter.mp hunfound).1
  have hthere := hbatches batch hbatch
  unfold Batch.bytes at hthere
  rw [rowsAt_map] at hthere
  refine ⟨rowsAt pairs batch.positions, _, _, fun pair hpair => hpairs pair (mem_of_rowsAt hpair),
    hthere, ?_, ?_⟩
  · rw [← heq, ← rowsAt_map]
    rfl
  · rw [← heq, ← encodings_of_passes hbatch]

theorem plans_of_scored {b : backend} {hashed : List (List UInt8)} {limits : UInt64 × UInt64}
    {attempt : Attempt} {cached : Scores}
    (h : Scored r sha256 cached (pairs.map (pairKey sha256)) (passes r b pairs limits) b
      (sha256 (listBytes (pairs.map (pairKey sha256)) limits)) attempt)
    (hpairs : forall pair, pair ∈ pairs -> pairBytes pair ∈ hashed)
    (hlist : listBytes (pairs.map (pairKey sha256)) limits ∈ hashed)
    (hbatches : forall batch, batch ∈ passes r b pairs limits ->
      batch.bytes r.len (pairs.map (pairKey sha256)) ∈ hashed) :
    forall plan, attempt.next_plan = some plan -> Plans r sha256 b hashed plan := by
  intro plan hplan
  rw [h.next_plan] at hplan
  split at hplan
  · cases hplan
    exact ⟨pairs, limits, hpairs, hlist, rfl, rfl, hbatches⟩
  · cases hplan

/-- What a turn starts from: nothing is remembered of a backend to be revalidated. -/
structure Readied (r : Runtime model backend encoding) (sha256 : List UInt8 -> Digest)
    (s t : Reranker model) : Prop where
  settings : t.settings = s.settings
  model : t.model = s.model
  left : Left s t
  tallied : Tallied t.scores
  sound : Sound r sha256 (r.backendOf s.model) t.hashed t.scores
  hashed : forall bytes, bytes ∈ s.hashed -> bytes ∈ t.hashed

theorem readied (h : Standing r sha256 s) (bytes : List (List UInt8)) :
    Readied r sha256 s ((s.revalidate r).note bytes) := by
  unfold Reranker.revalidate
  split
  · refine ⟨rfl, rfl, ⟨Or.inr rfl, rfl, rfl⟩, tallied_invalidate _, sound_invalidate _ _ _, ?_⟩
    exact fun other hother => List.mem_append_left _ hother
  · next hmarked =>
      have hmore : forall other, other ∈ s.hashed -> other ∈ (s.note bytes).hashed :=
        fun other hother => List.mem_append_left _ hother
      exact ⟨rfl, rfl, ⟨Or.inl rfl, rfl, rfl⟩, h.tallied,
        sound_mono (h.sound (Bool.eq_false_iff.mpr hmarked)) hmore, hmore⟩

def Ends (r : Runtime model backend encoding) (sha256 : List UInt8 -> Digest)
    (pairs : List Pair) (s : Reranker model) : Turn model × Reranker model -> Prop
  | (Turn.again, t) => Standing r sha256 t ∧ Left s t ∧ t.scores = s.scores.invalidate
  | (Turn.answered values m, t) =>
      Standing r sha256 t ∧ values = fresh r s.settings m pairs ∧
        r.backendOf m = r.backendOf t.model
  | (Turn.failed _, t) => Standing r sha256 t ∧ Left s t
  | (Turn.panicked, _) => False

theorem commit_hashed (completed : Completed model) (s : Reranker model) :
    (s.commit completed).2.hashed = s.hashed := by
  unfold Reranker.commit
  split
  · rfl
  · rfl

theorem ends_of_commit {t : Reranker model} {b : backend} {completed : Completed model}
    (htallied : Tallied t.scores) (hsound : Sound r sha256 b t.hashed t.scores)
    (hsha : NoCollision sha256 t.hashed) (hmodel : r.backendOf t.model = b)
    (hvalues : completed.attempt.values = fresh r s.settings completed.planned_on pairs)
    (hplanned : r.backendOf completed.planned_on = b)
    (hpending : forall row, row ∈ completed.attempt.pending -> Knows r sha256 b t.hashed row)
    (hplan : completed.attempt.keep_plan = false -> forall plan,
      completed.attempt.next_plan = some plan -> Plans r sha256 b t.hashed plan) :
    Ends r sha256 pairs s (t.commit completed) := by
  rcases commit_said htallied hsound hsha hpending hplan with
    ⟨u, hcommit, _, hkept, hhashed, hafter, hsound'⟩
  rw [hcommit]
  refine ⟨⟨hafter, ?_⟩, hvalues, ?_⟩
  · intro _
    rw [hkept, hmodel, hhashed]
    exact hsound'
  · rw [hplanned, hkept, hmodel]

theorem settle_said {t : Reranker model} {completed : Completed model} {replaced : Bool}
    {cached : Scores}
    (hsettings : t.settings = s.settings) (hleft : Left s t) (htallied : Tallied t.scores)
    (hcached : t.scores = cached)
    (hsound : replaced = false -> Sound r sha256 (r.backendOf t.model) t.hashed t.scores)
    (hpairs : forall pair, pair ∈ pairs -> pairBytes pair ∈ t.hashed)
    (hplanned : r.backendOf completed.planned_on = r.backendOf t.model)
    (hscored : Scored r sha256 cached (pairs.map (pairKey sha256))
      (passes r (r.backendOf t.model) pairs (limitsOf r s.settings completed.planned_on))
      (r.backendOf t.model) (sha256 (listed r sha256 s.settings pairs completed.planned_on))
      completed.attempt)
    (hsha : NoCollision sha256 (settle r sha256 pairs completed replaced t).2.hashed) :
    Ends r sha256 pairs s (settle r sha256 pairs completed replaced t) := by
  have hnoted : forall bytes, bytes ∈ listed r sha256 t.settings pairs completed.planned_on ::
      batched r sha256 t.settings pairs completed.planned_on ->
        bytes ∈ (t.note (listed r sha256 t.settings pairs completed.planned_on ::
          batched r sha256 t.settings pairs completed.planned_on)).hashed :=
    fun bytes hbytes => List.mem_append_right _ hbytes
  have hmore : forall bytes, bytes ∈ t.hashed ->
      bytes ∈ (t.note (listed r sha256 t.settings pairs completed.planned_on ::
        batched r sha256 t.settings pairs completed.planned_on)).hashed :=
    fun bytes hbytes => List.mem_append_left _ hbytes
  unfold settle at hsha ⊢
  simp only at hsha ⊢
  rw [hsettings] at hsha hnoted hmore ⊢
  generalize hu : t.note (listed r sha256 s.settings pairs completed.planned_on ::
    batched r sha256 s.settings pairs completed.planned_on) = u at *
  have hmodel : u.model = t.model := by rw [← hu]; rfl
  have hscores : u.scores = cached := by rw [← hu]; exact hcached
  have hwork : u.work = t.work := by rw [← hu]; rfl
  have hlengths : u.lengths = t.lengths := by rw [← hu]; rfl
  have hpairs' : forall pair, pair ∈ pairs -> pairBytes pair ∈ u.hashed :=
    fun pair hpair => hmore _ (hpairs pair hpair)
  have hlist : listed r sha256 s.settings pairs completed.planned_on ∈ u.hashed :=
    hnoted _ List.mem_cons_self
  have hbatches : forall batch, batch ∈ passes r (r.backendOf t.model) pairs
      (limitsOf r s.settings completed.planned_on) ->
        batch.bytes r.len (pairs.map (pairKey sha256)) ∈ u.hashed := by
    intro batch hbatch
    apply hnoted
    apply List.mem_cons_of_mem
    unfold batched
    rw [hplanned]
    exact List.mem_map_of_mem hbatch
  have hfresh : forall {values}, values = scored r (r.backendOf t.model) pairs
      (limitsOf r s.settings completed.planned_on) ->
        values = fresh r s.settings completed.planned_on pairs := by
    intro values hvalues
    rw [hvalues, ← hplanned]
    rfl
  cases replaced with
  | true =>
      rw [if_pos rfl] at hsha ⊢
      cases hmixed : (u.scores.replaced completed.attempt.hits).2 with
      | true =>
          have hforgotten : u.scores.invalidate = s.scores.invalidate := by
            rw [hscores, ← hcached]
            cases hleft.scores with
            | inl hsame => rw [hsame]
            | inr hnothing =>
                rw [hnothing]
                rfl
          rw [if_pos rfl]
          refine ⟨⟨tallied_invalidate _, fun _ => sound_invalidate _ _ _⟩,
            ⟨Or.inr hforgotten, ?_, ?_⟩, hforgotten⟩
          · exact hwork.trans hleft.work
          · exact hlengths.trans hleft.lengths
      | false =>
          rw [hmixed, if_neg Bool.false_ne_true, commit_hashed] at hsha
          rw [if_neg Bool.false_ne_true]
          have hhits : completed.attempt.hits = 0 := of_not_not (of_decide_eq_false hmixed)
          apply ends_of_commit (tallied_invalidate _) (sound_invalidate _ _ _) hsha
          · exact congrArg r.backendOf hmodel
          · apply hfresh
            apply values_of_scored hscored
            intro batch hbatch values hget
            rw [unserved_of_hits hscored hhits hbatch] at hget
            cases hget
          · exact hplanned
          · exact knows_of_scored hscored hpairs' hbatches
          · exact fun _ => plans_of_scored hscored hpairs' hlist hbatches
  | false =>
      rw [if_neg Bool.false_ne_true] at hsha ⊢
      rw [commit_hashed] at hsha
      have hsound' : Sound r sha256 (r.backendOf t.model) u.hashed u.scores := by
        rw [hscores, ← hcached]
        exact sound_mono (hsound rfl) hmore
      have htallied' : Tallied u.scores := by
        rw [hscores, ← hcached]
        exact htallied
      apply ends_of_commit htallied' hsound' hsha
      · exact congrArg r.backendOf hmodel
      · apply hfresh
        apply values_of_scored hscored
        intro batch hbatch values hget
        rw [← hscores] at hget
        exact logits_of_get hsha hsound' hpairs' hbatch (hbatches batch hbatch) hget
      · exact hplanned
      · exact knows_of_scored hscored hpairs' hbatches
      · exact fun _ => plans_of_scored hscored hpairs' hlist hbatches

theorem turn_said (hr : Reliable r) (h : Standing r sha256 s)
    (hsha : NoCollision sha256 (turn r sha256 pairs s).2.hashed) :
    Ends r sha256 pairs s (turn r sha256 pairs s) := by
  have hready := readied h (pairs.map pairBytes ++ [listed r sha256 s.settings pairs s.model])
  unfold turn at hsha ⊢
  simp only at hsha ⊢
  have hnoted : forall bytes, bytes ∈ pairs.map pairBytes ++
      [listed r sha256 s.settings pairs s.model] -> bytes ∈ ((s.revalidate r).note
        (pairs.map pairBytes ++ [listed r sha256 s.settings pairs s.model])).hashed :=
    fun bytes hbytes => List.mem_append_right _ hbytes
  generalize (s.revalidate r).note
    (pairs.map pairBytes ++ [listed r sha256 s.settings pairs s.model]) = u at *
  have hpairs : forall pair, pair ∈ pairs -> pairBytes pair ∈ u.hashed :=
    fun pair hpair => hnoted _ (List.mem_append_left _ (List.mem_map_of_mem hpair))
  have hlist : listed r sha256 s.settings pairs s.model ∈ u.hashed :=
    hnoted _ (List.mem_append_right _ (List.mem_singleton_self _))
  split at hsha
  · next attempt hreplay =>
      rw [commit_hashed] at hsha
      rcases replay_said hsha hready.sound hpairs hlist hreplay with
        ⟨hvalues, hpending, hkeep⟩
      apply ends_of_commit hready.tallied hready.sound hsha
      · rw [hready.model]
      · rw [hready.model]
        exact hvalues
      · rw [hready.model]
      · intro row hrow
        rw [hpending] at hrow
        cases hrow
      · intro hthis
        rw [hkeep] at hthis
        cases hthis
  · next hreplay =>
      split at hsha
      · next error m hretry =>
          refine ⟨⟨hready.tallied, ?_⟩, hready.left.scores, hready.left.work,
            hready.left.lengths⟩
          intro hunmarked
          rcases hr.retry_failed _ _ _ _ hretry with hsame | hmarked
          · show Sound r sha256 (r.backendOf m) u.hashed u.scores
            rw [hsame, hready.model]
            exact hready.sound
          · exact absurd hmarked (Bool.eq_false_iff.mp hunmarked)
      · next completed replaced m hretry =>
          rcases hr.retry_completed _ _ _ _ _ hretry with ⟨⟨m₀, m₁, hran, hback⟩, hsame⟩
          rcases attemptOn_said hr hran with ⟨hplanned, hscored⟩
          rw [hready.settings, hback] at hscored
          refine settle_said hready.settings
            ⟨hready.left.scores, hready.left.work, hready.left.lengths⟩ hready.tallied rfl ?_
            hpairs (hplanned.trans hback) hscored hsha
          intro hkept
          show Sound r sha256 (r.backendOf m) u.hashed u.scores
          rw [hsame hkept, hready.model]
          exact hready.sound

theorem settle_hashed {completed : Completed model} {replaced : Bool} {bytes : List UInt8}
    (h : bytes ∈ s.hashed) : bytes ∈ (settle r sha256 pairs completed replaced s).2.hashed := by
  unfold settle
  simp only
  split
  · split
    · exact List.mem_append_left _ h
    · rw [commit_hashed]
      exact List.mem_append_left _ h
  · rw [commit_hashed]
    exact List.mem_append_left _ h

theorem turn_hashed {bytes : List UInt8} (h : bytes ∈ s.hashed) :
    bytes ∈ (turn r sha256 pairs s).2.hashed := by
  have hthere : bytes ∈ ((s.revalidate r).note
      (pairs.map pairBytes ++ [listed r sha256 s.settings pairs s.model])).hashed := by
    apply List.mem_append_left
    unfold Reranker.revalidate
    split
    · exact h
    · exact h
  unfold turn
  simp only
  split
  · rw [commit_hashed]
    exact hthere
  · split
    · exact hthere
    · exact settle_hashed hthere

theorem get_of_nothing {scores : Scores} (h : scores.known = []) (key : Digest) :
    scores.get key = none := by
  unfold Scores.get
  rw [h]
  rfl

theorem turn_not_again (hr : Reliable r) (hnone : s.scores.known = []) :
    (turn r sha256 pairs s).1 ≠ Turn.again := by
  have hstill : ((s.revalidate r).note (pairs.map pairBytes ++
      [listed r sha256 s.settings pairs s.model])).scores.known = [] := by
    unfold Reranker.revalidate
    split
    · rfl
    · exact hnone
  have hcommit : forall (completed : Completed model) (u : Reranker model),
      (u.commit completed).1 ≠ Turn.again := by
    intro completed u
    unfold Reranker.commit
    split
    · intro heq
      cases heq
    · intro heq
      cases heq
  unfold turn
  simp only
  generalize (s.revalidate r).note
    (pairs.map pairBytes ++ [listed r sha256 s.settings pairs s.model]) = u at *
  split
  · exact hcommit _ _
  · split
    · intro heq
      cases heq
    · next completed replaced m hretry =>
        rcases hr.retry_completed _ _ _ _ _ hretry with ⟨⟨m₀, m₁, hran, _⟩, _⟩
        have hhits := (attemptOn_said hr hran).2.hits
        have hunfound : forall planned : List (Batch encoding),
            found r.len sha256 u.scores (pairs.map (pairKey sha256)) planned = [] := by
          intro planned
          unfold found
          rw [List.filter_eq_nil_iff]
          intro batch _
          rw [get_of_nothing hstill]
          exact Bool.false_ne_true
        rw [hunfound] at hhits
        unfold settle
        simp only
        split
        · rw [hhits]
          exact hcommit _ _
        · exact hcommit _ _

end Turning

/-!
## Calls
-/

section Calling

variable {model backend : Type _} {encoding : Type} {r : Runtime model backend encoding}
  {sha256 : List UInt8 -> Digest} {pairs : List Pair} {s : Reranker model}

theorem turns_hashed {fuel : Nat} {bytes : List UInt8} :
    (bytes ∈ s.hashed -> bytes ∈ (turns r sha256 pairs fuel s).2.hashed) ∧
      (bytes ∈ (turn r sha256 pairs s).2.hashed ->
        bytes ∈ (turns r sha256 pairs (fuel + 1) s).2.hashed) := by
  induction fuel generalizing s with
  | zero =>
      refine ⟨id, ?_⟩
      intro h
      unfold turns
      split
      · next t heq =>
          rw [heq] at h
          exact h
      · next values m t heq =>
          rw [heq] at h
          exact h
      · next error t heq =>
          rw [heq] at h
          exact h
      · next t heq =>
          rw [heq] at h
          exact h
  | succ fuel ih =>
      refine ⟨fun h => ih.2 (turn_hashed h), ?_⟩
      intro h
      unfold turns
      split
      · next t heq =>
          rw [heq] at h
          exact ih.2 (turn_hashed h)
      · next values m t heq =>
          rw [heq] at h
          exact h
      · next error t heq =>
          rw [heq] at h
          exact h
      · next t heq =>
          rw [heq] at h
          exact h

def Finishes (r : Runtime model backend encoding) (sha256 : List UInt8 -> Digest)
    (pairs : List Pair) (s : Reranker model) : Answer model × Reranker model -> Prop
  | (Answer.ranked order m, t) =>
      Standing r sha256 t ∧ order = ordered (fresh r s.settings m pairs) ∧
        r.backendOf m = r.backendOf t.model
  | (Answer.failed _, t) => Standing r sha256 t ∧ Left s t
  | _ => False

theorem turn_settings : (turn r sha256 pairs s).2.settings = s.settings := by
  have hcommit : forall (completed : Completed model) (u : Reranker model),
      (u.commit completed).2.settings = u.settings := by
    intro completed u
    unfold Reranker.commit
    split
    · rfl
    · rfl
  have hkept : ((s.revalidate r).note (pairs.map pairBytes ++
      [listed r sha256 s.settings pairs s.model])).settings = s.settings := by
    unfold Reranker.revalidate
    split
    · rfl
    · rfl
  unfold turn
  simp only
  split
  · exact (hcommit _ _).trans hkept
  · split
    · exact hkept
    · unfold settle
      simp only
      split
      · split
        · exact hkept
        · exact (hcommit _ _).trans hkept
      · exact (hcommit _ _).trans hkept

theorem finishes_of_ends {fuel : Nat} (h : Ends r sha256 pairs s (turn r sha256 pairs s))
    (hnot : (turn r sha256 pairs s).1 ≠ Turn.again) :
    Finishes r sha256 pairs s (turns r sha256 pairs (fuel + 1) s) := by
  unfold turns
  split
  · next t heq =>
      rw [heq] at hnot
      exact absurd rfl hnot
  · next values m t heq =>
      rw [heq] at h
      exact ⟨h.1, congrArg ordered h.2.1, h.2.2⟩
  · next error t heq =>
      rw [heq] at h
      exact h
  · next t heq =>
      rw [heq] at h
      exact h

theorem left_trans {t u : Reranker model} (h : Left s t) (h' : Left t u) : Left s u where
  scores := by
    rcases h.scores with hsame | hnothing
    · rw [← hsame]
      exact h'.scores
    · cases h'.scores with
      | inl hsame' => exact Or.inr (hsame'.trans hnothing)
      | inr hnothing' =>
          rw [hnothing', hnothing]
          exact Or.inr rfl
  work := h'.work.trans h.work
  lengths := h'.lengths.trans h.lengths

theorem turns_said (hr : Reliable r) (h : Standing r sha256 s)
    (hsha : NoCollision sha256 (turns r sha256 pairs TURNS s).2.hashed) :
    Finishes r sha256 pairs s (turns r sha256 pairs TURNS s) := by
  have hfirst : Ends r sha256 pairs s (turn r sha256 pairs s) :=
    turn_said hr h (noCollision_mono hsha fun bytes hbytes => turns_hashed.2 hbytes)
  by_cases hagain : (turn r sha256 pairs s).1 = Turn.again
  · have hsettings : (turn r sha256 pairs s).2.settings = s.settings := turn_settings
    have hunfold : turns r sha256 pairs TURNS s =
        turns r sha256 pairs 1 (turn r sha256 pairs s).2 := by
      show turns r sha256 pairs (1 + 1) s = _
      rw [turns]
      split
      · next t heq => rw [heq]
      · next values m t heq =>
          rw [heq] at hagain
          cases hagain
      · next error t heq =>
          rw [heq] at hagain
          cases hagain
      · next t heq =>
          rw [heq] at hagain
          cases hagain
    rw [hunfold] at hsha ⊢
    rw [show turn r sha256 pairs s = (Turn.again, (turn r sha256 pairs s).2) from
      Prod.ext hagain rfl] at hfirst
    generalize (turn r sha256 pairs s).2 = t at *
    rcases hfirst with ⟨hstanding, hleft, hnothing⟩
    have hnone : t.scores.known = [] := by rw [hnothing]; rfl
    have hsecond : Ends r sha256 pairs t (turn r sha256 pairs t) :=
      turn_said hr hstanding (noCollision_mono hsha fun bytes hbytes => turns_hashed.2 hbytes)
    have hfinishes : Finishes r sha256 pairs t (turns r sha256 pairs (0 + 1) t) :=
      finishes_of_ends hsecond (turn_not_again hr hnone)
    revert hfinishes
    cases turns r sha256 pairs (0 + 1) t with
    | mk answer u =>
        intro hfinishes
        cases answer with
        | ranked order m =>
            refine ⟨hfinishes.1, ?_, hfinishes.2.2⟩
            rw [← hsettings]
            exact hfinishes.2.1
        | failed error => exact ⟨hfinishes.1, left_trans hleft hfinishes.2⟩
        | panicked => exact hfinishes
        | unfinished => exact hfinishes
  · exact finishes_of_ends hfirst hagain

theorem rank_said (hr : Reliable r) (h : Standing r sha256 s) {query : Text}
    {documents : List Text} (hsha : NoCollision sha256 (rank r sha256 query documents s).2.hashed) :
    Finishes r sha256 (documents.map fun document => (query, document)) s
      (rank r sha256 query documents s) := by
  unfold rank at hsha ⊢
  split
  · next hempty =>
      refine ⟨h, ?_, rfl⟩
      rw [List.isEmpty_iff.mp hempty]
      have hnothing : fresh r s.settings s.model [] = [] := by
        apply List.eq_nil_of_length_eq_zero
        exact length_placeAll _ _
      rw [List.map_nil, hnothing]
      rfl
  · next hsome =>
      rw [if_neg hsome] at hsha
      exact turns_said hr h hsha

theorem rank_hashed {query : Text} {documents : List Text} {bytes : List UInt8}
    (h : bytes ∈ s.hashed) : bytes ∈ (rank r sha256 query documents s).2.hashed := by
  unfold rank
  split
  · exact h
  · exact turns_hashed.1 h

/-!
## One score for each document
-/

theorem commit_answered {completed : Completed model} {values : List Binary32} {m : model}
    {t : Reranker model} (h : s.commit completed = (Turn.answered values m, t)) :
    completed.attempt.values = values := by
  unfold Reranker.commit at h
  split at h
  · cases h
  · cases h
    rfl

theorem turn_answered (hr : Reliable r) {values : List Binary32} {m : model} {t : Reranker model}
    (h : turn r sha256 pairs s = (Turn.answered values m, t)) :
    values.length = pairs.length := by
  unfold turn at h
  simp only at h
  split at h
  · next attempt hreplay =>
      rw [← commit_answered h]
      unfold Scores.replay at hreplay
      split at hreplay
      · cases hreplay
      · split at hreplay
        · cases hreplay
        · rcases Option.map_eq_some_iff.mp hreplay with ⟨visited, _, hattempt⟩
          rw [← hattempt]
          exact (length_placeAll _ _).trans List.length_replicate
  · split at h
    · cases h
    · next completed replaced m' hretry =>
        have hmade : completed.attempt.values = values := by
          unfold settle at h
          simp only at h
          split at h
          · split at h
            · cases h
            · exact commit_answered h
          · exact commit_answered h
        rcases hr.retry_completed _ _ _ _ _ hretry with ⟨⟨before, after, hattempt, _⟩, _⟩
        rw [← hmade, (attemptOn_said hr hattempt).2.values, length_placeAll]
        exact List.length_replicate.trans (List.length_map _)

theorem turns_ranked (hr : Reliable r) {fuel : Nat} {order : List Ranked} {m : model}
    {t : Reranker model} (h : turns r sha256 pairs fuel s = (Answer.ranked order m, t)) :
    exists values, order = ordered values ∧ values.length = pairs.length := by
  induction fuel generalizing s with
  | zero => cases h
  | succ fuel ih =>
      unfold turns at h
      split at h
      · exact ih h
      · next values planned after hturn =>
          cases h
          exact ⟨values, rfl, turn_answered hr hturn⟩
      · cases h
      · cases h

theorem rank_ranked (hr : Reliable r) {query : Text} {documents : List Text}
    {order : List Ranked} {m : model} {t : Reranker model}
    (h : rank r sha256 query documents s = (Answer.ranked order m, t)) :
    exists values, order = ordered values ∧ values.length = documents.length := by
  unfold rank at h
  split at h
  · next hempty =>
      cases h
      rw [List.isEmpty_iff.mp hempty]
      exact ⟨[], rfl, rfl⟩
  · rcases turns_ranked hr h with ⟨values, horder, hlength⟩
    exact ⟨values, horder, hlength.trans (List.length_map _)⟩

theorem standing_load (settings : RerankSettings) (m : model) :
    Standing r sha256 (Reranker.load settings m) where
  tallied := tallied_default
  sound := fun _ => sound_invalidate _ _ Scores.default

end Calling

end Reranking
end PaminMemory
