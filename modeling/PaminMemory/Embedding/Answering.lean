import PaminMemory.Embedding.Remembering

/-!
# What an embedder answers

A remembered vector is that of its query run alone on the plan the embedder is on, or that plan
is revalidated, and the vector forgotten, before it is read.
-/

namespace PaminMemory
namespace Embedding

open Foundation
open Encoder (inOrder inOrder_eq_map runEach_eq_inOrder)
open Reranking (Host IndexError retry_marks retry_reports scoredOn)

variable {model plan encoding : Type} {r : Runtime model plan encoding} {s t : Embedder model}
  {m m' : model} {text : String} {texts : List String} {vectors : List Dense}

/-!
## One call of the model
-/

theorem vectorsOf_ok (hr : Reliable r) (h : vectorsOf r texts m = (Except.ok vectors, m')) :
    vectors = texts.map (vectorOf r (r.planOf m)) ∧ r.planOf m' = r.planOf m := by
  unfold vectorsOf alone at h
  cases hencoded : inOrder (r.encode m) texts with
  | error error =>
      rw [hencoded] at h
      cases h
  | ok encodings =>
      rw [hencoded] at h
      have hrun : r.run_each m (encodings.map fun encoding => [encoding]) =
          (Except.ok vectors, m') := h
      have hpasses := runEach_eq_inOrder (hr.run_runs m _ vectors m' hrun)
      have hkept := hr.run_kept m (encodings.map fun encoding => [encoding])
      rw [hrun] at hkept
      refine ⟨?_, hkept⟩
      rw [inOrder_eq_map (hr.pass_said m) hpasses.symm, inOrder_eq_map (hr.encode_said m) hencoded,
        List.map_map, List.map_map]
      rfl

/-- What is remembered was made on a plan. -/
def Sound (r : Runtime model plan encoding) (p : plan) (queries : Queries) : Prop :=
  forall row, row ∈ queries.known -> row.2 = vectorOf r p row.1

theorem sound_empty (p : plan) : Sound r p Queries.empty := fun _ hrow => nomatch hrow

structure Standing (r : Runtime model plan encoding) (s : Embedder model) : Prop where
  listed : Listed s.remembered
  sound : r.needs_revalidation s.model = false -> Sound r (r.planOf s.model) s.remembered

theorem standing_load (m : model) : Standing r (Embedder.load m) where
  listed := listed_empty
  sound := fun _ => sound_empty _

theorem standing_revalidate (h : Standing r s) : Standing r (s.revalidate r) ∧
    Sound r (r.planOf (s.revalidate r).model) (s.revalidate r).remembered := by
  unfold Embedder.revalidate
  split
  · exact ⟨⟨listed_empty, fun _ => sound_empty _⟩, sound_empty _⟩
  · next hmarked => exact ⟨h, h.sound (Bool.eq_false_iff.mpr hmarked)⟩

structure Ran (r : Runtime model plan encoding) (texts : List String)
    (found : Except IndexError (List Dense)) (t : Embedder model) : Prop where
  standing : Standing r t
  vectors : forall vectors, found = Except.ok vectors ->
    vectors = texts.map (vectorOf r (r.planOf t.model)) ∧
      Sound r (r.planOf t.model) t.remembered

theorem run_ran (hr : Reliable r) (h : Standing r s) (texts : List String) :
    Ran r texts (s.run r texts).1 (s.run r texts).2 := by
  rcases standing_revalidate h with ⟨hstanding, hsound⟩
  unfold Embedder.run
  generalize s.revalidate r = u at *
  simp only
  split
  · next error m hcall =>
      refine ⟨⟨hstanding.listed, ?_⟩, fun _ hok => nomatch hok⟩
      intro hvalid
      cases hr.retry_failed u.model _ error m hcall with
      | inl hsame =>
          show Sound r (r.planOf m) u.remembered
          rw [hsame]
          exact hsound
      | inr hmarked => exact absurd hmarked (Bool.eq_false_iff.mp hvalid)
  · next vectors replaced m hcall =>
      rcases hr.retry_completed u.model _ vectors replaced m hcall with
        ⟨⟨m₀, m₁, hran, hleft⟩, hkept⟩
      rcases vectorsOf_ok hr hran with ⟨hvectors, hplan⟩
      have hstays : Listed (if replaced then Queries.empty else u.remembered) ∧
          Sound r (r.planOf m) (if replaced then Queries.empty else u.remembered) := by
        cases replaced with
        | true => exact ⟨listed_empty, sound_empty _⟩
        | false =>
            rw [hkept rfl]
            exact ⟨hstanding.listed, hsound⟩
      refine ⟨⟨hstays.1, fun _ => hstays.2⟩, ?_⟩
      intro made hmade
      cases hmade
      rw [← hplan, hleft] at hvectors
      exact ⟨hvectors, hstays.2⟩

/-!
## A query
-/

/-- A query is answered with its vector, which is remembered. -/
structure Answered (r : Runtime model plan encoding) (text : String)
    (found : Except IndexError Dense) (t : Embedder model) : Prop where
  standing : Standing r t
  vector : forall vector, found = Except.ok vector ->
    vector = vectorOf r (r.planOf t.model) text ∧ t.remembered.get text = some vector

theorem embedQuery_answered (hr : Reliable r) (h : Standing r s) (text : String) :
    Answered r text (s.embedQuery r text).1 (s.embedQuery r text).2 := by
  rcases standing_revalidate h with ⟨hstanding, hsound⟩
  unfold Embedder.embedQuery
  generalize s.revalidate r = u at *
  simp only
  split
  · next known hknown =>
      refine ⟨hstanding, ?_⟩
      intro vector hvector
      cases hvector
      exact ⟨hsound _ (mem_of_get hknown), hknown⟩
  · unfold Embedder.embedOne
    have hran := run_ran hr hstanding [text]
    generalize u.run r [text] = ran at *
    rcases ran with ⟨found, t⟩
    cases found with
    | error error => exact ⟨hran.standing, fun _ hok => nomatch hok⟩
    | ok vectors =>
        have hvectors : vectors = [vectorOf r (r.planOf t.model) text] :=
          (hran.vectors vectors rfl).1
        have hstays : Sound r (r.planOf t.model) t.remembered := (hran.vectors vectors rfl).2
        have hlisted : Listed t.remembered := hran.standing.listed
        subst hvectors
        refine ⟨⟨listed_put hlisted, fun _ row hrow => ?_⟩, ?_⟩
        · cases mem_put hlisted hrow with
          | inl hnew =>
              rw [hnew]
              rfl
          | inr hold => exact hstays row hold
        · intro vector hvector
          cases hvector
          exact ⟨rfl, get_put hlisted⟩

theorem embedQuery_known {vector : Dense} (hvalid : r.needs_revalidation s.model = false)
    (hknown : s.remembered.get text = some vector) :
    s.embedQuery r text = (Except.ok vector, s) := by
  unfold Embedder.embedQuery Embedder.revalidate
  rw [hvalid]
  simp only [Bool.false_eq_true, if_false, hknown]

/-!
## Runs
-/

theorem standing_step [DecidableEq plan] (hr : Reliable r) :
    Preserved (step r) (Standing r) := by
  intro s action t h hstep
  cases action with
  | query text =>
      cases hstep
      exact (embedQuery_answered hr h text).standing
  | passages texts =>
      cases hstep
      exact (run_ran hr h texts).standing
  | elapse m =>
      rw [step] at hstep
      split at hstep
      · next hquiet =>
          cases hstep
          rw [Bool.and_eq_true, decide_eq_true_eq, Bool.or_eq_true, Bool.not_eq_true'] at hquiet
          refine ⟨h.listed, ?_⟩
          intro hvalid
          show Sound r (r.planOf m) s.remembered
          rw [hquiet.1]
          cases hquiet.2 with
          | inl hwas => exact h.sound hwas
          | inr hmarked => exact absurd hmarked (Bool.eq_false_iff.mp hvalid)
      · cases hstep

/-- What an embedder answers, beside another embedder. -/
structure Answers (r : Runtime model plan encoding) (s other : Embedder model) : Prop where
  remembered : Listed s.remembered
  query : forall text vector t, s.embedQuery r text = (Except.ok vector, t) ->
    vector = vectorOf r (r.planOf t.model) text
  /-- Asked again, a query is answered from memory, and nothing changes. -/
  again : forall text vector t, s.embedQuery r text = (Except.ok vector, t) ->
    r.needs_revalidation t.model = false -> t.embedQuery r text = (Except.ok vector, t)
  passages : forall texts vectors named t,
    s.encodePassages r texts = (Except.ok (vectors, named), t) ->
      vectors = texts.map (vectorOf r (r.planOf t.model))
  /-- Vectors of one text recorded alike are the same, whatever they were made beside. -/
  interchangeable : forall texts texts' vectors vectors' recorded t t',
    s.encodePassages r texts = (Except.ok (vectors, some recorded), t) ->
      other.encodePassages r texts' = (Except.ok (vectors', some recorded), t') ->
        forall i j : Nat, (exists text, texts[i]? = some text ∧ texts'[j]? = some text) ->
          vectors[i]? = vectors'[j]?

theorem encodePassages_ok (hr : Reliable r) (h : Standing r s) {named : Option String}
    (hcall : s.encodePassages r texts = (Except.ok (vectors, named), t)) :
    vectors = texts.map (vectorOf r (r.planOf t.model)) ∧
      named = encodingBy r.recorded_use t.model := by
  have hran := run_ran hr h texts
  unfold Embedder.encodePassages Embedder.embedPassages at hcall
  generalize s.run r texts = ran at *
  rcases ran with ⟨found, u⟩
  cases found with
  | error error => cases hcall
  | ok made =>
      cases hcall
      exact ⟨(hran.vectors vectors rfl).1, rfl⟩

/-- Embedders, however they came to stand, answer for each text as if it were run alone. -/
theorem embedders_answer [DecidableEq plan] (hr : Reliable r)
    {actions actions' : List (Action model)}
    (hrun : RunFrom (step r) (Embedder.load m) actions = some s)
    (hrun' : RunFrom (step r) (Embedder.load m') actions' = some t) : Answers r s t := by
  have h := runFrom_preserved (standing_step hr) (standing_load m) hrun
  have h' := runFrom_preserved (standing_step hr) (standing_load m') hrun'
  refine ⟨h.listed, ?_, ?_, ?_, ?_⟩
  · intro text vector u hcall
    have hanswered := embedQuery_answered hr h text
    rw [hcall] at hanswered
    exact (hanswered.vector vector rfl).1
  · intro text vector u hcall hvalid
    have hanswered := embedQuery_answered hr h text
    rw [hcall] at hanswered
    exact embedQuery_known hvalid (hanswered.vector vector rfl).2
  · intro texts vectors named u hcall
    exact (encodePassages_ok hr h hcall).1
  · intro texts texts' vectors vectors' recorded u u' hcall hcall' i j hsame
    rcases hsame with ⟨text, hat, hat'⟩
    rcases encodePassages_ok hr h hcall with ⟨hvectors, hnamed⟩
    rcases encodePassages_ok hr h' hcall' with ⟨hvectors', hnamed'⟩
    rw [hvectors, hvectors', List.getElem?_map, List.getElem?_map, hat, hat',
      hr.recorded_apart u.model u'.model recorded hnamed.symm hnamed'.symm]

def passOn (host : Host) (batch : List String) : Except IndexError Dense :=
  if batch.any fun text => host.longest < text.length then
    Except.error (IndexError.numerical "not a number")
  else
    Except.ok (batch.map fun _ => scoredOn host.accelerated)

def failing : Runtime Host Bool String where
  planOf := Host.accelerated
  needs_revalidation := Host.marked
  recorded_use := fun host =>
    some { target := if host.accelerated then "gpu" else "cpu", plan := "" }
  loads := fun _ => false
  sideBySide := fun _ => none
  len := String.length
  encoded := fun _ text => text
  dense := fun accelerated batch => batch.map fun _ => scoredOn accelerated
  encode := fun _ text => Except.ok text
  pass := passOn
  run_each := fun host batches => (inOrder (passOn host) batches, host)
  retry_model := Host.retry

theorem reliable_failing : Reliable failing where
  encode_said := fun _ _ _ h => (Except.ok.inj h).symm
  pass_said := by
    intro host batch vector h
    have hpass : passOn host batch = Except.ok vector := h
    unfold passOn at hpass
    split at hpass
    · cases hpass
    · exact (Except.ok.inj hpass).symm
  run_runs := by
    intro host batches vectors after h
    rw [← (Prod.mk.inj h).1]
    exact Encoder.RunEach.alone fun hmany => Nat.lt_irrefl 1 hmany.1
  run_kept := fun _ _ => rfl
  retry_completed := by
    intro host run vectors replaced after h
    rcases retry_reports h with ⟨⟨before, hrun⟩, hkept⟩
    exact ⟨⟨before, after, hrun, rfl⟩, hkept⟩
  retry_failed := fun _ _ _ _ h => Or.inr (retry_marks h)
  recorded_apart := by
    rintro ⟨first, _⟩ ⟨second, _⟩ recorded h h'
    have hsame := h.trans h'.symm
    cases first with
    | false =>
        cases second with
        | false => rfl
        | true =>
            have hnames : "cpu" ++ ":" ++ "" = "gpu" ++ ":" ++ "" := Option.some.inj hsame
            exact absurd hnames (by decide)
    | true =>
        cases second with
        | false =>
            have hnames : "gpu" ++ ":" ++ "" = "cpu" ++ ":" ++ "" := Option.some.inj hsame
            exact absurd hnames (by decide)
        | true => rfl

/-- One is remembered on the accelerator, which then fails and is replaced; what nothing takes
fails a call, and what is asked after it is remembered on the plan that is left. -/
theorem embedders_answer_over_failures :
    Answers failing
      { model := ⟨false, true⟩
        remembered := { known := [("one", [Binary32.zero])], order := ["one"] } }
      (Embedder.load ⟨true, false⟩) := by
  have hrun : RunFrom (step failing) (Embedder.load ⟨true, false⟩)
      [Action.query "one", Action.passages ["two", "three"], Action.query "seventeen",
        Action.query "one"] =
        some { model := ⟨false, true⟩
               remembered := { known := [("one", [Binary32.zero])], order := ["one"] } } := rfl
  exact embedders_answer reliable_failing hrun (runFrom_nil _)

end Embedding
end PaminMemory
