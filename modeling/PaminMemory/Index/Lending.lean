import Mathlib.Data.Finset.Card
import Mathlib.Data.Finset.Range
import PaminMemory.Foundation.Handing
import PaminMemory.Index.Reshape

/-!
# What a set-aside index lends

A rebuild takes over the vectors of the topics the set-aside index holds with exactly the spans
wanted.  Which they are is counted in a pass over its documents, and a second pass hands them
over, those of one encoding together.
-/

namespace PaminMemory
namespace Index

open Foundation

/-- What stops a pass: the engine, a document without its vector, or a span there is none of. -/
inductive LendError (error : Type) where
  | engine (e : error)
  | noVector (topic : TopicId)
  | panicked
deriving Repr

inductive Field (error : Type) where
  | absent
  | null
  | held (read : Except error (Option String))

structure StoredDoc (error vector : Type) where
  key : Option Key
  ngram : Except error (Option String)
  encoding : Field error
  header : Field error
  /-- Its vector as it is read in half precision, or in full. -/
  embedding : Bool -> Except error (Option vector)

def StoredDoc.topic {error vector : Type} (doc : StoredDoc error vector) : Option TopicId :=
  doc.key.map Prod.fst

/-- A span as a write would index it: its text, and the header its vector is embedded under. -/
structure SpanSource where
  text : String
  header : String
deriving DecidableEq, Repr

/-- An index set aside, its documents in the order they are stored in. -/
structure Previous (error vector : Type) where
  settings : Settings
  half : Bool
  docs : List (StoredDoc error vector)
  /-- Where a pass over the documents fails, one with vectors or one without. -/
  stops : Bool -> Option (Nat × error)
  distinct : (docs.filterMap StoredDoc.key).Nodup

/-- The spans a rebuild will write for a topic, in order. -/
abbrev WantedSpans := TopicId -> Option (List SpanSource)

/-!
## What is read of a stored document

An ordinal that the engine gives is taken where it can be one of a span; a document of which a
field cannot be read stops the call.
-/

def fromEngine {error α : Type} : Except error α -> Except (LendError error) α
  | Except.ok value => Except.ok value
  | Except.error e => Except.error (LendError.engine e)

def Field.get {error : Type} (on : Bool) (field : Field error) : Except error (Option String) :=
  if on then
    match field with
    | absent => Except.ok none
    | null => Except.ok none
    | held read => read
  else
    Except.ok none

def holdsExactly (stored : Option String) (wanted : String) : Bool := stored = some wanted

/-!
## What is counted of a topic
-/

structure Tally where
  matched : AList fun _ : TopicId => Nat
  spoiled : Finset TopicId

def Tally.empty : Tally where
  matched := ∅
  spoiled := ∅

def Tally.count (tally : Tally) (topic : TopicId) : Tally :=
  { tally with
    matched := tally.matched.insert topic ((tally.matched.lookup topic).getD 0 + 1) }

def Tally.spoil (tally : Tally) (topic : TopicId) : Tally :=
  { tally with spoiled := insert topic tally.spoiled }

namespace Previous

variable {error vector σ : Type}

def encodingOf (previous : Previous error vector) (doc : StoredDoc error vector) :
    Except error (Option String) :=
  doc.encoding.get previous.settings.encodings

def headerOf (previous : Previous error vector) (doc : StoredDoc error vector) :
    Except error (Option String) :=
  doc.header.get previous.settings.headers

/-- Whether a document already holds a span; a header that was not recorded is the span's. -/
def holdsSource (text header : Option String) (wanted : SpanSource) : Bool :=
  holdsExactly text wanted.text && header.all fun header => header = wanted.header

/-- Calls `visit` for every document whose key is read, in the order they are stored in. -/
def each (previous : Previous error vector) (vectors : Bool)
    (visit : σ -> Key -> StoredDoc error vector -> Except (LendError error) σ) (start : σ) :
    Except (LendError error) σ :=
  let visitDoc := fun state doc =>
    match doc.key with
    | none => Except.ok state
    | some span => visit state span doc
  match previous.stops vectors with
  | none => previous.docs.foldlM visitDoc start
  | some (n, e) => do
      let _ ← (previous.docs.take n).foldlM visitDoc start
      Except.error (LendError.engine e)

def tally (previous : Previous error vector) (wanted : WantedSpans) (counted : Tally) (span : Key)
    (doc : StoredDoc error vector) : Except (LendError error) Tally :=
  match wanted span.1 with
  | none => Except.ok counted
  | some spans =>
      match spans[span.2]? with
      | none => Except.ok (counted.spoil span.1)
      | some source => do
          let text ← fromEngine doc.ngram
          let header ← fromEngine (previous.headerOf doc)
          if holdsSource text header source then
            Except.ok (counted.count span.1)
          else
            Except.ok (counted.spoil span.1)

def whole (previous : Previous error vector) (wanted : WantedSpans) :
    Except (LendError error) (Finset TopicId) := do
  let tallied ← previous.each false (previous.tally wanted) Tally.empty
  Except.ok (tallied.matched.keys.filter fun topic =>
    tallied.matched.lookup topic = (wanted topic).map List.length ∧
      topic ∉ tallied.spoiled).toFinset

def lends (previous : Previous error vector) (wanted : WantedSpans) :
    Except (LendError error) Nat := do
  let lent ← previous.whole wanted
  Except.ok lent.card

def lendDoc (previous : Previous error vector) (wanted : WantedSpans) (batch : Nat)
    (take : Taker (LendError error) (Option String) (SpanDocument vector)) (lent : Finset TopicId)
    (state : Waiting (Option String) (SpanDocument vector)) (span : Key)
    (doc : StoredDoc error vector) :
    Except (LendError error) (Waiting (Option String) (SpanDocument vector)) :=
  if span.1 ∉ lent then
    Except.ok state
  else do
    let read ← fromEngine (doc.embedding previous.half)
    let embedding ←
      match read with
      | none => Except.error (LendError.noVector span.1)
      | some embedding => Except.ok embedding
    let encoding ← fromEngine (previous.encodingOf doc)
    let header ← fromEngine (previous.headerOf doc)
    let source ←
      match (wanted span.1).bind fun spans => spans[span.2]? with
      | none => Except.error LendError.panicked
      | some source => Except.ok source
    offer EncodingLe take batch state
      (encoding, { topic := span.1
                   ordinal := span.2
                   content := source.text
                   header := header
                   embedding := embedding })

/--
Hands `take` every document this index can lend, in groups of one encoding, and returns the
topics it lent with the groups that were handed over.
-/
def lend (previous : Previous error vector) (wanted : WantedSpans) (batch : Nat)
    (take : Taker (LendError error) (Option String) (SpanDocument vector)) :
    Except (LendError error)
      (Finset TopicId × List (Option String × List (SpanDocument vector))) := do
  let lent ← previous.whole wanted
  let state ← previous.each true (previous.lendDoc wanted batch take lent)
    { pending := [], waiting := 0, handed := [] }
  let (_, handed) ← handOver take state.pending state.handed
  Except.ok (lent, handed)

/-- A document is a wanted span: its text, and its header where one was recorded. -/
def Reads (previous : Previous error vector) (doc : StoredDoc error vector) (source : SpanSource) :
    Prop :=
  doc.ngram = Except.ok (some source.text) ∧ exists header,
    previous.headerOf doc = Except.ok header ∧ forall recorded, header = some recorded ->
      recorded = source.header

/-- The documents of a topic are these spans, every one and none past them. -/
structure HoldsSpans (previous : Previous error vector) (topic : TopicId)
    (spans : List SpanSource) : Prop where
  each : forall ordinal source, spans[ordinal]? = some source ->
    exists doc, doc ∈ previous.docs ∧ doc.key = some (topic, ordinal) ∧ previous.Reads doc source
  nonePast : forall doc ordinal, doc ∈ previous.docs -> doc.key = some (topic, ordinal) ->
    ordinal < spans.length

/-- What is handed over of a document: the wanted text, and what is recorded of its vector. -/
structure LentAs (previous : Previous error vector) (wanted : WantedSpans)
    (doc : StoredDoc error vector) (encoding : Option String) (document : SpanDocument vector) :
    Prop where
  span : doc.key = some (document.topic, document.ordinal)
  text : exists spans source, wanted document.topic = some spans ∧
    spans[document.ordinal]? = some source ∧ document.content = source.text
  header : previous.headerOf doc = Except.ok document.header
  encoding : previous.encodingOf doc = Except.ok encoding
  embedding : doc.embedding previous.half = Except.ok (some document.embedding)

end Previous

/-!
## The first pass
-/

section Counting

variable {error vector σ : Type} {previous : Previous error vector} {wanted : WantedSpans}
  {docs : List (StoredDoc error vector)} {doc : StoredDoc error vector} {topic : TopicId}

def Previous.fits (previous : Previous error vector) (wanted : WantedSpans)
    (doc : StoredDoc error vector) : Bool :=
  match doc.key with
  | none => false
  | some span =>
      match (wanted span.1).bind fun spans => spans[span.2]? with
      | none => false
      | some source =>
          match doc.ngram, previous.headerOf doc with
          | Except.ok text, Except.ok header => Previous.holdsSource text header source
          | _, _ => false

def Previous.tallied (previous : Previous error vector) (wanted : WantedSpans) (counted : Tally)
    (doc : StoredDoc error vector) : Tally :=
  match doc.topic with
  | none => counted
  | some topic =>
      if (wanted topic).isNone then
        counted
      else if previous.fits wanted doc then
        counted.count topic
      else
        counted.spoil topic

theorem fromEngine_eq_ok {α : Type} {read : Except error α} {value : α}
    (h : fromEngine read = Except.ok value) : read = Except.ok value := by
  cases read with
  | error e => cases h
  | ok found =>
      cases h
      rfl

theorem each_ok {vectors : Bool}
    {visit : σ -> Key -> StoredDoc error vector -> Except (LendError error) σ} {start result : σ}
    (h : previous.each vectors visit start = Except.ok result) :
    previous.docs.foldlM (fun state doc =>
      match doc.key with
      | none => Except.ok state
      | some span => visit state span doc) start = Except.ok result := by
  unfold Previous.each at h
  cases hstops : previous.stops vectors with
  | none =>
      rw [hstops] at h
      exact h
  | some stop =>
      rw [hstops] at h
      rcases bind_eq_ok.mp h with ⟨_, _, hstop⟩
      cases hstop

theorem tally_ok {counted result : Tally}
    (h : (match doc.key with
      | none => Except.ok counted
      | some span => previous.tally wanted counted span doc) = Except.ok result) :
    result = previous.tallied wanted counted doc := by
  unfold Previous.tallied StoredDoc.topic
  cases hkey : doc.key with
  | none =>
      rw [hkey] at h
      cases h
      rfl
  | some span =>
      rw [hkey] at h
      dsimp only [Option.map_some] at h ⊢
      unfold Previous.tally at h
      cases hwanted : wanted span.1 with
      | none =>
          rw [hwanted] at h
          cases h
          rfl
      | some spans =>
          rw [hwanted] at h
          dsimp only [Option.isNone_some] at h ⊢
          rw [if_neg Bool.false_ne_true]
          cases hspan : spans[span.2]? with
          | none =>
              have hfits : previous.fits wanted doc = false := by
                simp only [Previous.fits, hkey, hwanted, Option.bind_some, hspan]
              rw [hspan] at h
              cases h
              rw [hfits, if_neg Bool.false_ne_true]
          | some source =>
              rw [hspan] at h
              rcases bind_eq_ok.mp h with ⟨text, htext, hrest⟩
              rcases bind_eq_ok.mp hrest with ⟨header, hheader, hresult⟩
              have hfits : previous.fits wanted doc =
                  Previous.holdsSource text header source := by
                simp only [Previous.fits, hkey, hwanted, Option.bind_some, hspan,
                  fromEngine_eq_ok htext, fromEngine_eq_ok hheader]
              rw [hfits]
              split at hresult
              · next hholds =>
                  cases hresult
                  rw [if_pos hholds]
              · next hholds =>
                  cases hresult
                  rw [if_neg hholds]

theorem tallied_ok {counted result : Tally}
    (h : docs.foldlM (fun state doc =>
      match doc.key with
      | none => Except.ok state
      | some span => previous.tally wanted state span doc) counted = Except.ok result) :
    result = docs.foldl (previous.tallied wanted) counted := by
  induction docs generalizing counted with
  | nil =>
      cases h
      rfl
  | cons doc rest ih =>
      rw [List.foldlM_cons] at h
      rcases bind_eq_ok.mp h with ⟨next, hnext, hrest⟩
      rw [List.foldl_cons, ← tally_ok hnext]
      exact ih hrest

def Previous.fitting (previous : Previous error vector) (wanted : WantedSpans) (topic : TopicId)
    (docs : List (StoredDoc error vector)) : List (StoredDoc error vector) :=
  docs.filter fun doc => doc.topic = some topic ∧ previous.fits wanted doc

/-!
## One document after another
-/

structure Tallies (previous : Previous error vector) (wanted : WantedSpans)
    (docs : List (StoredDoc error vector)) (counted : Tally) : Prop where
  matched : forall topic, counted.matched.lookup topic =
    if (previous.fitting wanted topic docs).length = 0 then none
    else some (previous.fitting wanted topic docs).length
  spoiled : forall topic, topic ∈ counted.spoiled <-> exists doc, doc ∈ docs ∧
    doc.topic = some topic ∧ wanted topic ≠ none ∧ previous.fits wanted doc = false

theorem wanted_of_fits (hfits : previous.fits wanted doc = true) (htopic : doc.topic = some topic) :
    wanted topic ≠ none := by
  intro hnone
  unfold StoredDoc.topic at htopic
  unfold Previous.fits at hfits
  cases hkey : doc.key with
  | none =>
      rw [hkey] at htopic
      cases htopic
  | some span =>
      rw [hkey] at htopic hfits
      cases htopic
      dsimp only at hfits
      rw [hnone] at hfits
      cases hfits

theorem fitting_concat (topic : TopicId) : previous.fitting wanted topic (docs ++ [doc]) =
    if doc.topic = some topic ∧ previous.fits wanted doc then
      previous.fitting wanted topic docs ++ [doc]
    else
      previous.fitting wanted topic docs := by
  unfold Previous.fitting
  rw [List.filter_append, List.filter_cons, List.filter_nil]
  simp only [decide_eq_true_eq]
  split
  · rfl
  · exact List.append_nil _

theorem fitting_skip (h : ¬(doc.topic = some topic ∧ previous.fits wanted doc = true)) :
    previous.fitting wanted topic (docs ++ [doc]) = previous.fitting wanted topic docs := by
  rw [fitting_concat, if_neg h]

theorem tallies_nil : Tallies previous wanted [] Tally.empty where
  matched := fun _ => rfl
  spoiled := fun topic => by
    constructor
    · exact fun h => absurd h (Finset.notMem_empty topic)
    · rintro ⟨doc, hdoc, _⟩
      cases hdoc

theorem tallies_skip {counted : Tally} (h : Tallies previous wanted docs counted)
    (hfits : previous.fits wanted doc = false)
    (hspoils : forall topic, doc.topic = some topic -> wanted topic = none) :
    Tallies previous wanted (docs ++ [doc]) counted := by
  constructor
  · intro topic
    rw [fitting_skip (fun hboth => Bool.false_ne_true (hfits.symm.trans hboth.2))]
    exact h.matched topic
  · intro topic
    rw [h.spoiled topic]
    constructor
    · rintro ⟨other, hother, hrest⟩
      exact ⟨other, List.mem_append_left _ hother, hrest⟩
    · rintro ⟨other, hother, htopic, hwanted, hnot⟩
      rcases List.mem_append.mp hother with hold | hnew
      · exact ⟨other, hold, htopic, hwanted, hnot⟩
      · rw [List.mem_singleton.mp hnew] at htopic
        exact absurd (hspoils topic htopic) hwanted

theorem tallies_count {counted : Tally} (h : Tallies previous wanted docs counted)
    (htopic : doc.topic = some topic) (hfits : previous.fits wanted doc = true) :
    Tallies previous wanted (docs ++ [doc]) (counted.count topic) := by
  constructor
  · intro other
    unfold Tally.count
    rcases Decidable.em (other = topic) with rfl | hne
    · have hfitting : previous.fitting wanted other (docs ++ [doc]) =
          previous.fitting wanted other docs ++ [doc] := by
        rw [fitting_concat, if_pos ⟨htopic, hfits⟩]
      rw [hfitting, AList.lookup_insert, h.matched, List.length_append, List.length_singleton,
        if_neg (Nat.succ_ne_zero _)]
      congr 2
      split
      · next hzero => exact hzero.symm
      · rfl
    · have hother : ¬(doc.topic = some other ∧ previous.fits wanted doc = true) := by
        rintro ⟨hsame, _⟩
        rw [htopic] at hsame
        exact hne (Option.some.inj hsame).symm
      rw [fitting_skip hother, AList.lookup_insert_ne hne]
      exact h.matched other
  · intro other
    unfold Tally.count
    rw [h.spoiled other]
    constructor
    · rintro ⟨spoiling, hmem, hrest⟩
      exact ⟨spoiling, List.mem_append_left _ hmem, hrest⟩
    · rintro ⟨spoiling, hmem, hsame, hwanted, hnot⟩
      rcases List.mem_append.mp hmem with hold | hnew
      · exact ⟨spoiling, hold, hsame, hwanted, hnot⟩
      · rw [List.mem_singleton.mp hnew, hfits] at hnot
        cases hnot

theorem tallies_spoil {counted : Tally} (h : Tallies previous wanted docs counted)
    (htopic : doc.topic = some topic) (hwanted : wanted topic ≠ none)
    (hfits : previous.fits wanted doc = false) :
    Tallies previous wanted (docs ++ [doc]) (counted.spoil topic) := by
  constructor
  · intro other
    rw [fitting_skip (fun hboth => Bool.false_ne_true (hfits.symm.trans hboth.2))]
    exact h.matched other
  · intro other
    unfold Tally.spoil
    rw [Finset.mem_insert, h.spoiled other]
    constructor
    · rintro (rfl | ⟨spoiling, hmem, hrest⟩)
      · exact ⟨doc, List.mem_append_right _ List.mem_cons_self, htopic, hwanted, hfits⟩
      · exact ⟨spoiling, List.mem_append_left _ hmem, hrest⟩
    · rintro ⟨spoiling, hmem, hsame, hrest⟩
      rcases List.mem_append.mp hmem with hold | hnew
      · exact Or.inr ⟨spoiling, hold, hsame, hrest⟩
      · rw [List.mem_singleton.mp hnew, htopic] at hsame
        exact Or.inl (Option.some.inj hsame).symm

theorem tallies_step {counted : Tally} (h : Tallies previous wanted docs counted) :
    Tallies previous wanted (docs ++ [doc]) (previous.tallied wanted counted doc) := by
  unfold Previous.tallied
  cases htopic : doc.topic with
  | none =>
      apply tallies_skip h
      · cases hfits : previous.fits wanted doc with
        | false => rfl
        | true =>
            unfold Previous.fits at hfits
            unfold StoredDoc.topic at htopic
            rw [Option.map_eq_none_iff] at htopic
            rw [htopic] at hfits
            cases hfits
      · intro topic hsome
        rw [htopic] at hsome
        cases hsome
  | some topic =>
      dsimp only
      cases hwanted : wanted topic with
      | none =>
        rw [if_pos Option.isNone_none]
        apply tallies_skip h
        · cases hfits : previous.fits wanted doc with
          | false => rfl
          | true => exact absurd hwanted (wanted_of_fits hfits htopic)
        · intro other hsome
          rw [htopic] at hsome
          rw [← Option.some.inj hsome]
          exact hwanted
      | some spans =>
        have hsome : wanted topic ≠ none := by
          rw [hwanted]
          exact Option.some_ne_none spans
        rw [Option.isNone_some, if_neg Bool.false_ne_true]
        cases hfits : previous.fits wanted doc with
        | true => exact tallies_count h htopic hfits
        | false => exact tallies_spoil h htopic hsome hfits

theorem tallies_run (docs : List (StoredDoc error vector)) :
    Tallies previous wanted docs (docs.foldl (previous.tallied wanted) Tally.empty) := by
  induction docs using List.reverseRecOn with
  | nil => exact tallies_nil
  | append_singleton docs doc ih =>
      rw [List.foldl_append]
      exact tallies_step ih

/-- The topics lent: all their documents are wanted spans, and as many as are wanted. -/
theorem mem_whole {lent : Finset TopicId} (h : previous.whole wanted = Except.ok lent) :
    topic ∈ lent <-> exists spans, wanted topic = some spans ∧ spans ≠ [] ∧
      (previous.fitting wanted topic previous.docs).length = spans.length ∧
      forall doc, doc ∈ previous.docs -> doc.topic = some topic ->
        previous.fits wanted doc = true := by
  unfold Previous.whole at h
  rcases bind_eq_ok.mp h with ⟨counted, hcounted, hlent⟩
  cases hlent
  have htallies : Tallies previous wanted previous.docs counted := by
    rw [tallied_ok (each_ok hcounted)]
    exact tallies_run previous.docs
  rw [List.mem_toFinset, List.mem_filter, decide_eq_true_eq, htallies.spoiled, ← AList.mem_keys,
    ← AList.lookup_isSome, htallies.matched]
  constructor
  · rintro ⟨hsome, hcount, hunspoiled⟩
    rcases Decidable.em ((previous.fitting wanted topic previous.docs).length = 0) with hz | hz
    · rw [if_pos hz] at hsome
      cases hsome
    · rw [if_neg hz] at hcount
      rcases Option.map_eq_some_iff.mp hcount.symm with ⟨spans, hwanted, hlength⟩
      refine ⟨spans, hwanted, ?_, hlength.symm, ?_⟩
      · intro hnil
        rw [hnil] at hlength
        exact hz hlength.symm
      · intro doc hdoc htopic
        cases hfits : previous.fits wanted doc with
        | true => rfl
        | false =>
            have hnone : wanted topic ≠ none := by
              rw [hwanted]
              exact Option.some_ne_none spans
            exact absurd ⟨doc, hdoc, htopic, hnone, hfits⟩ hunspoiled
  · rintro ⟨spans, hwanted, hsome, hcount, hfits⟩
    rw [hcount, if_neg (fun hz => hsome (List.length_eq_zero_iff.mp hz)), hwanted]
    refine ⟨rfl, rfl, ?_⟩
    rintro ⟨doc, hdoc, htopic, _, hnot⟩
    rw [hfits doc hdoc htopic] at hnot
    cases hnot

theorem fits_iff {ordinal : Nat} {spans : List SpanSource}
    (hkey : doc.key = some (topic, ordinal)) (hwanted : wanted topic = some spans) :
    previous.fits wanted doc = true <->
      exists source, spans[ordinal]? = some source ∧ previous.Reads doc source := by
  simp only [Previous.fits, hkey, hwanted, Option.bind_some]
  cases hspan : spans[ordinal]? with
  | none => simp
  | some source =>
      simp only [Previous.Reads, Option.some.injEq]
      cases hread : doc.ngram with
      | error e => simp
      | ok text =>
          cases hheader : previous.headerOf doc with
          | error e => simp
          | ok header => cases header <;> simp [Previous.holdsSource, holdsExactly]

theorem doc_unique {span : Key} {one other : StoredDoc error vector}
    (hdistinct : (docs.filterMap StoredDoc.key).Nodup) (hone : one ∈ docs) (hother : other ∈ docs)
    (honeKey : one.key = some span) (hotherKey : other.key = some span) : one = other := by
  induction docs with
  | nil => cases hone
  | cons first rest ih =>
      have hrest : forall {doc}, doc ∈ rest -> doc.key = some span ->
          span ∈ rest.filterMap StoredDoc.key := fun hdoc hkey =>
        List.mem_filterMap.mpr ⟨_, hdoc, hkey⟩
      cases hfirst : first.key with
      | none =>
          rw [List.filterMap_cons_none hfirst] at hdistinct
          have hlater : forall {doc}, doc ∈ first :: rest -> doc.key = some span ->
              doc ∈ rest := by
            intro doc hdoc hkey
            rcases List.mem_cons.mp hdoc with rfl | hmem
            · rw [hfirst] at hkey
              cases hkey
            · exact hmem
          exact ih hdistinct (hlater hone honeKey) (hlater hother hotherKey)
      | some key =>
          rw [List.filterMap_cons_some hfirst, List.nodup_cons] at hdistinct
          rcases List.mem_cons.mp hone with rfl | honeRest
          · rw [honeKey] at hfirst
            cases hfirst
            rcases List.mem_cons.mp hother with rfl | hotherRest
            · rfl
            · exact absurd (hrest hotherRest hotherKey) hdistinct.1
          · rcases List.mem_cons.mp hother with rfl | hotherRest
            · rw [hotherKey] at hfirst
              cases hfirst
              exact absurd (hrest honeRest honeKey) hdistinct.1
            · exact ih hdistinct.2 honeRest hotherRest

def ordinals (topic : TopicId) (docs : List (StoredDoc error vector)) : List Nat :=
  (docs.filterMap StoredDoc.key).filterMap fun span =>
    if span.1 = topic then some span.2 else none

/-!
## Ordinals of one topic
-/

theorem mem_ordinals {ordinal : Nat} : ordinal ∈ ordinals topic docs <->
    exists doc, doc ∈ docs ∧ doc.key = some (topic, ordinal) := by
  unfold ordinals
  simp only [List.mem_filterMap, Option.ite_none_right_eq_some, Option.some.injEq]
  constructor
  · rintro ⟨span, ⟨doc, hdoc, hkey⟩, rfl, rfl⟩
    exact ⟨doc, hdoc, hkey⟩
  · rintro ⟨doc, hdoc, hkey⟩
    exact ⟨(topic, ordinal), ⟨doc, hdoc, hkey⟩, rfl, rfl⟩

theorem nodup_ordinals (hdistinct : (docs.filterMap StoredDoc.key).Nodup) :
    (ordinals topic docs).Nodup := by
  apply hdistinct.filterMap
  intro one other ordinal hone hother
  simp only [Option.mem_def, Option.ite_none_right_eq_some, Option.some.injEq] at hone hother
  exact Prod.ext (hone.1.trans hother.1.symm) (hone.2.trans hother.2.symm)

theorem ordinals_cons {ordinal : Nat} (hkey : doc.key = some (topic, ordinal)) :
    ordinals topic (doc :: docs) = ordinal :: ordinals topic docs := by
  unfold ordinals
  rw [List.filterMap_cons_some hkey]
  exact List.filterMap_cons_some (if_pos rfl)

theorem ordinals_skip (h : doc.topic ≠ some topic) :
    ordinals topic (doc :: docs) = ordinals topic docs := by
  unfold ordinals
  cases hkey : doc.key with
  | none => rw [List.filterMap_cons_none hkey]
  | some span =>
      have hother : span.1 ≠ topic := by
        intro hsame
        rw [StoredDoc.topic, hkey, Option.map_some, hsame] at h
        exact h rfl
      rw [List.filterMap_cons_some hkey]
      exact List.filterMap_cons_none (if_neg hother)

theorem length_fitting
    (h : forall doc, doc ∈ docs -> doc.topic = some topic -> previous.fits wanted doc = true) :
    (previous.fitting wanted topic docs).length = (ordinals topic docs).length := by
  induction docs with
  | nil => rfl
  | cons doc rest ih =>
      have hrest := ih fun other hother => h other (List.mem_cons_of_mem _ hother)
      have hdoc := h doc List.mem_cons_self
      unfold Previous.fitting at hrest ⊢
      rcases Decidable.em (doc.topic = some topic) with hsame | hother
      · rcases Option.map_eq_some_iff.mp hsame with ⟨⟨own, ordinal⟩, hkey, rfl⟩
        rw [ordinals_cons hkey, List.filter_cons_of_pos (by simp [hsame, hdoc hsame]),
          List.length_cons, List.length_cons, hrest]
      · rw [ordinals_skip hother, List.filter_cons_of_neg (by simp [hother]), hrest]

theorem length_eq_iff_all {numbers : List Nat} {n : Nat} (hnodup : numbers.Nodup)
    (hbelow : forall i, i ∈ numbers -> i < n) :
    numbers.length = n <-> forall i, i < n -> i ∈ numbers := by
  have hsub : numbers.toFinset ⊆ Finset.range n := by
    intro i hi
    exact Finset.mem_range.mpr (hbelow i (List.mem_toFinset.mp hi))
  have hcard : numbers.toFinset.card = numbers.length := List.toFinset_card_of_nodup hnodup
  constructor
  · intro hlength i hi
    have hall : numbers.toFinset = Finset.range n := by
      apply Finset.eq_of_subset_of_card_le hsub
      rw [Finset.card_range, hcard, hlength]
    exact List.mem_toFinset.mp (hall ▸ Finset.mem_range.mpr hi)
  · intro hall
    have hrange : Finset.range n ⊆ numbers.toFinset := by
      intro i hi
      exact List.mem_toFinset.mpr (hall i (Finset.mem_range.mp hi))
    rw [← hcard, Finset.Subset.antisymm hsub hrange, Finset.card_range]

/-- As many fit as are wanted, and all fit: the topic's documents are the wanted spans. -/
theorem holdsSpans_iff {spans : List SpanSource} (hwanted : wanted topic = some spans) :
    ((previous.fitting wanted topic previous.docs).length = spans.length ∧
      forall doc, doc ∈ previous.docs -> doc.topic = some topic ->
        previous.fits wanted doc = true) <-> previous.HoldsSpans topic spans := by
  have htopic : forall {doc : StoredDoc error vector} {ordinal},
      doc.key = some (topic, ordinal) -> doc.topic = some topic := fun hkey => by
    rw [StoredDoc.topic, hkey]
    rfl
  have hnodup : (ordinals topic previous.docs).Nodup := nodup_ordinals previous.distinct
  constructor
  · rintro ⟨hlength, hfits⟩
    have hbelow : forall i, i ∈ ordinals topic previous.docs -> i < spans.length := by
      intro i hi
      rcases mem_ordinals.mp hi with ⟨doc, hdoc, hkey⟩
      rcases (fits_iff hkey hwanted).mp (hfits doc hdoc (htopic hkey)) with ⟨source, hsource, _⟩
      exact (List.getElem?_eq_some_iff.mp hsource).1
    rw [length_fitting hfits, length_eq_iff_all hnodup hbelow] at hlength
    constructor
    · intro ordinal source hsource
      rcases mem_ordinals.mp (hlength ordinal (List.getElem?_eq_some_iff.mp hsource).1) with
        ⟨doc, hdoc, hkey⟩
      rcases (fits_iff hkey hwanted).mp (hfits doc hdoc (htopic hkey)) with ⟨own, hown, hreads⟩
      rw [hsource] at hown
      cases hown
      exact ⟨doc, hdoc, hkey, hreads⟩
    · intro doc ordinal hdoc hkey
      exact hbelow ordinal (mem_ordinals.mpr ⟨doc, hdoc, hkey⟩)
  · intro hholds
    have hfits : forall doc, doc ∈ previous.docs -> doc.topic = some topic ->
        previous.fits wanted doc = true := by
      intro doc hdoc hsame
      rcases Option.map_eq_some_iff.mp hsame with ⟨⟨own, ordinal⟩, hkey, rfl⟩
      have hlt := hholds.nonePast doc ordinal hdoc hkey
      rcases hholds.each ordinal spans[ordinal] (List.getElem?_eq_getElem hlt) with
        ⟨other, hother, hotherKey, hreads⟩
      rw [fits_iff hkey hwanted, doc_unique previous.distinct hdoc hother hkey hotherKey]
      exact ⟨spans[ordinal], List.getElem?_eq_getElem hlt, hreads⟩
    have hbelow : forall i, i ∈ ordinals topic previous.docs -> i < spans.length := by
      intro i hi
      rcases mem_ordinals.mp hi with ⟨doc, hdoc, hkey⟩
      exact hholds.nonePast doc i hdoc hkey
    refine ⟨?_, hfits⟩
    rw [length_fitting hfits, length_eq_iff_all hnodup hbelow]
    intro i hi
    rcases hholds.each i spans[i] (List.getElem?_eq_getElem hi) with ⟨doc, hdoc, hkey, _⟩
    exact mem_ordinals.mpr ⟨doc, hdoc, hkey⟩

end Counting

/-!
## The second pass
-/

section Lending

variable {error vector : Type} {previous : Previous error vector} {wanted : WantedSpans}
  {docs : List (StoredDoc error vector)} {doc : StoredDoc error vector} {topic : TopicId}
  {batch : Nat} {take : Taker (LendError error) (Option String) (SpanDocument vector)}
  {lent : Finset TopicId} {state state' : Waiting (Option String) (SpanDocument vector)}

def spanOf (item : Option String × SpanDocument vector) : Key := (item.2.topic, item.2.ordinal)

theorem lendDoc_ok {span : Key} (hkey : doc.key = some span) (hlent : span.1 ∈ lent)
    (h : previous.lendDoc wanted batch take lent state span doc = Except.ok state') :
    exists item, previous.LentAs wanted doc item.1 item.2 ∧ spanOf item = span ∧
      offer EncodingLe take batch state item = Except.ok state' := by
  unfold Previous.lendDoc at h
  rw [if_neg (not_not.mpr hlent)] at h
  rcases bind_eq_ok.mp h with ⟨read, hread, hrest⟩
  cases read with
  | none =>
      rcases bind_eq_ok.mp hrest with ⟨_, hnone, _⟩
      cases hnone
  | some embedding =>
      rcases bind_eq_ok.mp hrest with ⟨_, hembedding, hrest⟩
      cases hembedding
      rcases bind_eq_ok.mp hrest with ⟨encoding, hencoding, hrest⟩
      rcases bind_eq_ok.mp hrest with ⟨header, hheader, hrest⟩
      cases hsource : (wanted span.1).bind fun spans => spans[span.2]? with
      | none =>
          rw [hsource] at hrest
          rcases bind_eq_ok.mp hrest with ⟨_, hnone, _⟩
          cases hnone
      | some source =>
          rw [hsource] at hrest
          rcases bind_eq_ok.mp hrest with ⟨_, hsome, hoffer⟩
          cases hsome
          rcases Option.bind_eq_some_iff.mp hsource with ⟨spans, hwanted, hspan⟩
          refine ⟨_, ?_, rfl, hoffer⟩
          constructor
          · exact hkey
          · exact ⟨spans, source, hwanted, hspan, rfl⟩
          · exact fromEngine_eq_ok hheader
          · exact fromEngine_eq_ok hencoding
          · exact fromEngine_eq_ok hread

def lentSpans (lent : Finset TopicId) (docs : List (StoredDoc error vector)) : List Key :=
  (docs.filterMap StoredDoc.key).filter fun span => span.1 ∈ lent

theorem lendDocs_ok
    (h : docs.foldlM (fun state doc =>
      match doc.key with
      | none => Except.ok state
      | some span => previous.lendDoc wanted batch take lent state span doc) state =
        Except.ok state') :
    exists items : List (Option String × SpanDocument vector),
      items.map spanOf = lentSpans lent docs ∧
      (forall item, item ∈ items -> exists doc, doc ∈ docs ∧
        previous.LentAs wanted doc item.1 item.2) ∧
      items.foldlM (offer EncodingLe take batch) state = Except.ok state' := by
  induction docs generalizing state with
  | nil => exact ⟨[], rfl, fun _ hitem => absurd hitem List.not_mem_nil, h⟩
  | cons doc rest ih =>
      rw [List.foldlM_cons] at h
      rcases bind_eq_ok.mp h with ⟨next, hnext, hrest⟩
      rcases ih hrest with ⟨items, hspans, hlent, hoffers⟩
      have hlater : forall item, item ∈ items -> exists other, other ∈ doc :: rest ∧
          previous.LentAs wanted other item.1 item.2 := by
        intro item hitem
        rcases hlent item hitem with ⟨other, hother, hlentAs⟩
        exact ⟨other, List.mem_cons_of_mem _ hother, hlentAs⟩
      cases hkey : doc.key with
      | none =>
          rw [hkey] at hnext
          cases hnext
          refine ⟨items, ?_, hlater, hoffers⟩
          rw [hspans, lentSpans, lentSpans, List.filterMap_cons_none hkey]
      | some span =>
          rw [hkey] at hnext
          dsimp only at hnext
          rcases Decidable.em (span.1 ∈ lent) with hmem | hnot
          · rcases lendDoc_ok hkey hmem hnext with ⟨item, hitem, hspan, hoffer⟩
            refine ⟨item :: items, ?_, ?_, ?_⟩
            · rw [List.map_cons, hspans, hspan, lentSpans, lentSpans,
                List.filterMap_cons_some hkey, List.filter_cons_of_pos (by simp [hmem])]
            · intro other hother
              rcases List.mem_cons.mp hother with rfl | hold
              · exact ⟨doc, List.mem_cons_self, hitem⟩
              · exact hlater other hold
            · rw [List.foldlM_cons, hoffer]
              exact hoffers
          · unfold Previous.lendDoc at hnext
            rw [if_pos hnot] at hnext
            cases hnext
            refine ⟨items, ?_, hlater, hoffers⟩
            rw [hspans, lentSpans, lentSpans, List.filterMap_cons_some hkey,
              List.filter_cons_of_neg (by simp [hnot])]

theorem mem_lentSpans {ordinal : Nat} : (topic, ordinal) ∈ lentSpans lent docs <->
    topic ∈ lent ∧ exists doc, doc ∈ docs ∧ doc.key = some (topic, ordinal) := by
  rw [lentSpans, List.mem_filter, decide_eq_true_eq, List.mem_filterMap, and_comm]

theorem mem_tagged {κ α : Type} {groups : List (κ × List α)} {item : κ × α} :
    item ∈ tagged groups <-> exists group, group ∈ groups ∧ group.1 = item.1 ∧
      item.2 ∈ group.2 := by
  unfold tagged
  simp only [List.mem_flatMap, List.mem_map]
  constructor
  · rintro ⟨group, hgroup, value, hvalue, rfl⟩
    exact ⟨group, hgroup, rfl, hvalue⟩
  · rintro ⟨group, hgroup, hkey, hvalue⟩
    exact ⟨group, hgroup, item.2, hvalue, Prod.ext hkey rfl⟩

end Lending

/--
A lending that ends lends the topics that are held with exactly the wanted spans, one at least;
it hands over every span of each once and no other document, each group of one encoding and
within the bound, and each document as it is lent; and `lends` counts the same topics.
-/
theorem lend_exactly {error vector : Type} (previous : Previous error vector)
    (wanted : WantedSpans) {batch : Nat} (hbatch : 0 < batch)
    (take : Taker (LendError error) (Option String) (SpanDocument vector)) {lent : Finset TopicId}
    {handed : List (Option String × List (SpanDocument vector))}
    (h : previous.lend wanted batch take = Except.ok (lent, handed)) :
    (forall topic, topic ∈ lent <-> exists spans, wanted topic = some spans ∧ spans ≠ [] ∧
      previous.HoldsSpans topic spans) ∧
    ((tagged handed).map spanOf).Nodup ∧
    (forall topic ordinal, (topic, ordinal) ∈ (tagged handed).map spanOf <->
      topic ∈ lent ∧ exists spans, wanted topic = some spans ∧ ordinal < spans.length) ∧
    (forall group, group ∈ handed -> group.2 ≠ [] ∧ group.2.length <= batch ∧
      forall document, document ∈ group.2 -> exists doc, doc ∈ previous.docs ∧
        previous.LentAs wanted doc group.1 document) ∧
    previous.lends wanted = Except.ok lent.card := by
  unfold Previous.lend at h
  rcases bind_eq_ok.mp h with ⟨topics, hwhole, hrest⟩
  rcases bind_eq_ok.mp hrest with ⟨state, hpass, hrest⟩
  rcases bind_eq_ok.mp hrest with ⟨⟨pending, given⟩, hover, hresult⟩
  cases hresult
  have hlent : forall topic, topic ∈ lent <-> exists spans, wanted topic = some spans ∧
      spans ≠ [] ∧ previous.HoldsSpans topic spans := by
    intro topic
    rw [mem_whole hwhole]
    apply exists_congr
    intro spans
    apply and_congr_right
    intro hwanted
    exact and_congr_right fun _ => holdsSpans_iff hwanted
  rcases lendDocs_ok (each_ok hpass) with ⟨items, hspans, hitems, hoffers⟩
  have hbatched := batched_offers (batched_start hbatch) hoffers
  rw [List.nil_append] at hbatched
  rcases handed_all hbatched hover with ⟨hperm, hbounded⟩
  have hkeys : ((tagged handed).map spanOf).Perm (lentSpans lent previous.docs) := by
    rw [← hspans]
    exact hperm.map spanOf
  refine ⟨hlent, ?_, ?_, ?_, ?_⟩
  · exact hkeys.nodup_iff.mpr (previous.distinct.filter _)
  · intro topic ordinal
    rw [hkeys.mem_iff, mem_lentSpans]
    apply and_congr_right
    intro hmem
    rcases (hlent topic).mp hmem with ⟨spans, hwanted, _, hholds⟩
    constructor
    · rintro ⟨doc, hdoc, hkey⟩
      exact ⟨spans, hwanted, hholds.nonePast doc ordinal hdoc hkey⟩
    · rintro ⟨other, hother, hlt⟩
      rw [hwanted] at hother
      cases hother
      rcases hholds.each ordinal spans[ordinal] (List.getElem?_eq_getElem hlt) with
        ⟨doc, hdoc, hkey, _⟩
      exact ⟨doc, hdoc, hkey⟩
  · intro group hgroup
    refine ⟨(hbounded group hgroup).1, (hbounded group hgroup).2, ?_⟩
    intro document hdocument
    have hmem : (group.1, document) ∈ tagged handed :=
      mem_tagged.mpr ⟨group, hgroup, rfl, hdocument⟩
    exact hitems (group.1, document) (hperm.mem_iff.mp hmem)
  · unfold Previous.lends
    rw [hwhole]
    rfl

/-!
## Two topics of which one is lent
-/

def docAt (topic ordinal : Nat) (text encoding : String) (embedding : Nat) :
    StoredDoc Empty Nat where
  key := some (topic, ordinal)
  ngram := Except.ok (some text)
  encoding := Field.held (Except.ok (some encoding))
  header := Field.null
  embedding := fun _ => Except.ok (some embedding)

def twoTopics : Previous Empty Nat where
  settings := { passage := Passage.named, encodings := true, headers := true }
  half := false
  docs := [docAt 1 1 "second" "new" 11, docAt 2 0 "before" "old" 20, docAt 1 0 "first" "old" 10]
  stops := fun _ => none
  distinct := by decide

def wantedNow : WantedSpans := fun topic =>
  if topic = 1 then
    some [{ text := "first", header := "" }, { text := "second", header := "" }]
  else if topic = 2 then
    some [{ text := "after", header := "" }]
  else
    none

def takeAll : Taker (LendError Empty) (Option String) (SpanDocument Nat) :=
  fun _ _ _ => Except.ok ()

theorem lend_exactly_two : exists lent handed,
    twoTopics.lend wantedNow 2 takeAll = Except.ok (lent, handed) ∧
      handed.map (fun group => (group.1, group.2.map SpanDocument.embedding)) =
        [(some "new", [11]), (some "old", [10])] ∧
      twoTopics.lends wantedNow = Except.ok lent.card := by
  refine ⟨_, _, rfl, by decide +kernel, ?_⟩
  exact (lend_exactly twoTopics wantedNow Nat.two_pos takeAll rfl).2.2.2.2

def noDocuments : Previous Empty Nat where
  settings := { passage := Passage.named, encodings := true, headers := true }
  half := false
  docs := []
  stops := fun _ => none
  distinct := List.nodup_nil

/-- A topic no span is wanted of is held with exactly those, and is not lent. -/
theorem empty_topic_is_not_lent :
    noDocuments.HoldsSpans 1 [] ∧
      noDocuments.lend (fun _ => some []) 1 takeAll = Except.ok (∅, []) := by
  constructor
  · constructor
    · intro ordinal source hsource
      cases hsource
    · intro doc ordinal hdoc
      cases hdoc
  · rfl

end Index
end PaminMemory
