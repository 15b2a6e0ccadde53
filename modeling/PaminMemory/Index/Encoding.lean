import PaminMemory.Index.Replacing

/-!
# One plan for a batch

A sync embeds only what the index does not already hold under the plan the model is on.
The model can move to another plan at every question and at every pass, so the plan is
asked again after the read, and a pass under another plan is run again for the whole
batch.
-/

namespace PaminMemory
namespace Index

open Foundation

structure Indexed where
  text : String
  header : String
  /-- What its vector is embedded from. -/
  passage : String
deriving DecidableEq, Repr

/-- A topic and the spans it is to have; a memory that says nothing is one span still. -/
structure Wanted where
  topic : TopicId
  spans : List Indexed
  some : spans ≠ []
deriving DecidableEq

/-- The states of one sync, each of another topic. -/
abbrev Batch := { wanted : List Wanted // (wanted.map Wanted.topic).Nodup }

structure Pass (vector : Type) (texts : List String) where
  vectors : List vector
  plan : Option String
  each : vectors.length = texts.length

structure Encoder (σ vector : Type) where
  reusableEncoding : σ -> Option String × σ
  encodePassages : σ -> (texts : List String) -> Option (Pass vector texts) × σ

/-!
## What is held already
-/

section Reading

variable {code : Type} (settings : Settings)

/-- Whether a document's text and header are the span's; a header that was not recorded is. -/
def holdsSource (text : String) (header : Option String) (wanted : Indexed) : Bool :=
  text = wanted.text && header.all fun header => header = wanted.header

def holdsSpans (stored : List (Document code)) (wanted : List Indexed) (encoding : String) :
    Bool :=
  decide (stored.length = wanted.length) && !wanted.isEmpty &&
    (stored.zip wanted).all fun pair =>
      holdsSource pair.1.content (pair.1.header.filter fun _ => settings.headers) pair.2 &&
        (pair.1.encoding.filter fun _ => settings.encodings) = some encoding

def holds (collection : Collection code) (wanted : Wanted) (encoding : String) : Bool :=
  holdsSpans settings (fetch collection wanted.topic) wanted.spans encoding

/--
Which topics still have to be embedded; with no plan to compare, or an index that cannot be
read, all of them.
-/
def unheld (readable : Bool) (collection : Collection code) (wanted : List Wanted)
    (encoding : Option String) : List Bool :=
  match encoding with
  | none => wanted.map fun _ => true
  | some encoding =>
      if readable then
        wanted.map fun topic => !holds settings collection topic encoding
      else
        wanted.map fun _ => true

def unheldNow (readable : Bool) (collection : Collection code) (wanted : List Wanted)
    (reusable again : Option String) : List Bool :=
  if again = reusable then
    unheld settings readable collection wanted reusable
  else
    wanted.map fun _ => true

end Reading

/-!
## What is embedded and written
-/

section Writing

variable {σ vector code : Type}

def placed (wanted : List Wanted) : List (Key × Indexed) :=
  wanted.flatMap fun topic =>
    topic.spans.zipIdx.map fun item => ((topic.topic, item.2), item.1)

def texts (wanted : List Wanted) : List String :=
  wanted.flatMap fun topic => topic.spans.map Indexed.passage

def documentsOf (wanted : List Wanted) (vectors : List vector) : List (SpanDocument vector) :=
  ((placed wanted).zip vectors).map fun item =>
    { topic := item.1.1.1, ordinal := item.1.1.2, content := item.1.2.text
      header := some item.1.2.header, embedding := item.2 }

structure Wrote (σ code : Type) where
  model : σ
  collection : Collection code
  plan : Option (Option String)

variable (settings : Settings) (encode : vector -> code) (encoder : Encoder σ vector)

def writeEncoded (stop : Option Nat) (model : σ) (collection : Collection code)
    (wanted : List Wanted) : Wrote σ code :=
  match encoder.encodePassages model (texts wanted) with
  | (none, model) => { model := model, collection := collection, plan := none }
  | (some pass, model) =>
      let calls := replace settings encode (documentsOf wanted pass.vectors) pass.plan collection
      match stop with
      | none =>
          { model := model, collection := perform calls collection, plan := some pass.plan }
      | some n =>
          { model := model, collection := perform (calls.take n) collection, plan := none }

/-- What the index does meanwhile: whether it can be read, and where its writes stop. -/
structure Faults where
  readable : Bool
  first : Option Nat
  second : Option Nat

def writeUnheld (faults : Faults) (model : σ) (collection : Collection code)
    (wanted : List Wanted) : Collection code × Bool :=
  let (reusable, model) := encoder.reusableEncoding model
  let (again, model) := encoder.reusableEncoding model
  let marked := wanted.zip (unheldNow settings faults.readable collection wanted reusable again)
  let fresh := (marked.filter Prod.snd).map Prod.fst
  let held := (marked.filter fun mark => !mark.2).map Prod.fst
  if fresh = [] then
    (collection, true)
  else
    let wrote := writeEncoded settings encode encoder faults.first model collection fresh
    match wrote.plan with
    | none => (wrote.collection, false)
    | some encoding =>
        if held ≠ [] ∧ encoding ≠ reusable then
          let every :=
            writeEncoded settings encode encoder faults.second wrote.model wrote.collection wanted
          (every.collection, every.plan.isSome)
        else
          (wrote.collection, true)

/-!
## One plan
-/

def Says (plan : Option String) : Option Indexed -> Option (Document code) -> Prop
  | none, none => True
  | some span, some document =>
      document.content = span.text ∧
        (forall header, document.header.filter (fun _ => settings.headers) = some header ->
          header = span.header) ∧
        document.encoding.filter (fun _ => settings.encodings) =
          plan.filter fun _ => settings.encodings
  | _, _ => False

/-- Every wanted topic has exactly its spans, all of them under one plan. -/
def OnePlan (collection : Collection code) (wanted : List Wanted) : Prop :=
  exists plan, forall topic, topic ∈ wanted -> forall ordinal,
    Says settings plan topic.spans[ordinal]? (collection.lookup (topic.topic, ordinal))

/-!
## What is written of a batch
-/

section Written

variable {wanted : List Wanted} {topic : Wanted}

theorem mem_placed {item : Key × Indexed} :
    item ∈ placed wanted <->
      exists topic, topic ∈ wanted ∧ topic.topic = item.1.1 ∧
        topic.spans[item.1.2]? = some item.2 := by
  unfold placed
  simp only [List.mem_flatMap, List.mem_map, List.mem_zipIdx_iff_getElem?]
  constructor
  · intro h
    rcases h with ⟨topic, hmem, ⟨span, ordinal⟩, hspan, hitem⟩
    rw [← hitem]
    exact ⟨topic, hmem, rfl, hspan⟩
  · intro h
    rcases h with ⟨topic, hmem, htopic, hspan⟩
    refine ⟨topic, hmem, (item.2, item.1.2), hspan, ?_⟩
    rw [htopic]

theorem length_placed (wanted : List Wanted) :
    (placed wanted).length = (texts wanted).length := by
  unfold placed texts
  rw [List.length_flatMap, List.length_flatMap]
  simp

theorem documentsOf_columns (pass : Pass vector (texts wanted)) :
    (documentsOf wanted pass.vectors).map
        (fun span => (span.key, span.content, span.header)) =
      (placed wanted).map fun item => (item.1, item.2.text, some item.2.header) := by
  have hfirst : ((placed wanted).zip pass.vectors).map Prod.fst = placed wanted := by
    apply List.map_fst_zip
    rw [length_placed, pass.each]
  unfold documentsOf
  conv_rhs => rw [← hfirst]
  rw [List.map_map, List.map_map]
  rfl

theorem mem_documentsOf (pass : Pass vector (texts wanted)) {span : SpanDocument vector}
    (h : span ∈ documentsOf wanted pass.vectors) :
    exists topic indexed, topic ∈ wanted ∧ topic.topic = span.topic ∧
      topic.spans[span.ordinal]? = some indexed ∧ span.content = indexed.text ∧
        span.header = some indexed.header := by
  have hcolumns := List.mem_map_of_mem
    (f := fun span : SpanDocument vector => (span.key, span.content, span.header)) h
  rw [documentsOf_columns] at hcolumns
  rcases List.mem_map.mp hcolumns with ⟨item, hitem, hsame⟩
  rcases mem_placed.mp hitem with ⟨topic, hmem, htopic, hspan⟩
  simp only [Prod.mk.injEq] at hsame
  rcases hsame with ⟨hkey, hcontent, hheader⟩
  rw [hkey] at htopic hspan
  exact ⟨topic, item.2, hmem, htopic, hspan, hcontent.symm, hheader.symm⟩

theorem exists_document (pass : Pass vector (texts wanted)) (hmem : topic ∈ wanted)
    {ordinal : Nat} (hordinal : ordinal < topic.spans.length) :
    exists span, span ∈ documentsOf wanted pass.vectors ∧ span.topic = topic.topic ∧
      span.ordinal = ordinal := by
  have hitem : ((topic.topic, ordinal), topic.spans[ordinal]) ∈ placed wanted :=
    mem_placed.mpr ⟨topic, hmem, rfl, List.getElem?_eq_getElem hordinal⟩
  have hcolumns := List.mem_map_of_mem
    (f := fun item : Key × Indexed => (item.1, item.2.text, some item.2.header)) hitem
  rw [← documentsOf_columns pass] at hcolumns
  rcases List.mem_map.mp hcolumns with ⟨span, hspan, hsame⟩
  simp only [Prod.mk.injEq] at hsame
  have hkey : span.key = (topic.topic, ordinal) := hsame.1
  exact ⟨span, hspan, congrArg Prod.fst hkey, congrArg Prod.snd hkey⟩

theorem whole_documentsOf (pass : Pass vector (texts wanted)) :
    Whole (documentsOf wanted pass.vectors) := by
  intro span hspan ordinal hbelow
  rcases mem_documentsOf pass hspan with ⟨topic, indexed, hmem, htopic, hlast, _⟩
  rcases List.getElem?_eq_some_iff.mp hlast with ⟨hlength, _⟩
  rcases exists_document pass hmem (Nat.lt_trans hbelow hlength) with
    ⟨other, hother, hsame, hordinal⟩
  exact ⟨other, hother, hsame.trans htopic, hordinal⟩

theorem topic_mem_documentsOf (pass : Pass vector (texts wanted)) (hmem : topic ∈ wanted) :
    topic.topic ∈ (documentsOf wanted pass.vectors).map SpanDocument.topic := by
  rcases exists_document pass hmem (List.length_pos_iff.mpr topic.some) with
    ⟨span, hspan, htopic, _⟩
  exact htopic ▸ List.mem_map_of_mem hspan

theorem topic_not_mem_documentsOf (pass : Pass vector (texts wanted)) {other : TopicId}
    (hnot : other ∉ wanted.map Wanted.topic) :
    other ∉ (documentsOf wanted pass.vectors).map SpanDocument.topic := by
  intro hmem
  rcases List.mem_map.mp hmem with ⟨span, hspan, htopic⟩
  rcases mem_documentsOf pass hspan with ⟨topic, _, hwanted, hsame, _⟩
  exact hnot (htopic ▸ hsame ▸ List.mem_map_of_mem hwanted)

section Distinct

variable (hdistinct : (wanted.map Wanted.topic).Nodup) (hmem : topic ∈ wanted)

include hdistinct hmem

theorem wanted_unique {other : Wanted} (hother : other ∈ wanted)
    (hsame : other.topic = topic.topic) : other = topic :=
  List.inj_on_of_nodup_map hdistinct hother hmem hsame

theorem endOf_documentsOf (pass : Pass vector (texts wanted)) :
    endOf (documentsOf wanted pass.vectors) topic.topic = topic.spans.length := by
  apply Nat.le_antisymm
  · apply Nat.le_of_not_lt
    intro hpast
    rcases lt_endOf.mp hpast with ⟨span, hspan, htopic, hle⟩
    rcases mem_documentsOf pass hspan with ⟨other, indexed, hother, hsame, hlast, _⟩
    rw [wanted_unique hdistinct hmem hother (hsame.trans htopic)] at hlast
    rcases List.getElem?_eq_some_iff.mp hlast with ⟨hlength, _⟩
    exact absurd hlength (Nat.not_lt.mpr hle)
  · apply Nat.le_of_not_lt
    intro hshort
    rcases exists_document pass hmem hshort with ⟨span, hspan, htopic, hordinal⟩
    have hlt : endOf (documentsOf wanted pass.vectors) topic.topic <
        endOf (documentsOf wanted pass.vectors) topic.topic :=
      lt_endOf.mpr ⟨span, hspan, htopic, Nat.le_of_eq hordinal.symm⟩
    exact absurd hlt (Nat.lt_irrefl _)

theorem says_given (pass : Pass vector (texts wanted)) {ordinal : Nat}
    (hordinal : ordinal < topic.spans.length) :
    Says settings pass.plan topic.spans[ordinal]?
      (given ((documentsOf wanted pass.vectors).map (settings.document encode pass.plan))
        (topic.topic, ordinal)) := by
  have hend := endOf_documentsOf hdistinct hmem pass
  have hsome : (given ((documentsOf wanted pass.vectors).map
      (settings.document encode pass.plan)) (topic.topic, ordinal)).isSome :=
    (given_whole (whole_documentsOf pass)).mpr (hend.symm ▸ hordinal)
  rcases Option.isSome_iff_exists.mp hsome with ⟨document, hgiven⟩
  rcases List.mem_map.mp (given_mem hgiven) with ⟨span, hspan, hwritten⟩
  have hkey : span.key = (topic.topic, ordinal) := congrArg Prod.fst hwritten
  rcases mem_documentsOf pass hspan with
    ⟨other, indexed, hother, hsame, hlast, hcontent, hheader⟩
  rw [wanted_unique hdistinct hmem hother (hsame.trans (congrArg Prod.fst hkey)),
    show span.ordinal = ordinal from congrArg Prod.snd hkey] at hlast
  have hdocument : document = (settings.document encode pass.plan span).2 :=
    (congrArg Prod.snd hwritten).symm
  rw [hgiven, hlast, hdocument]
  refine ⟨hcontent, ?_, ?_⟩
  · intro header hread
    simp only [Settings.document, hheader] at hread
    simp only [Option.filter_eq_some_iff, Option.some.injEq] at hread
    exact hread.1.1.symm
  · cases hplan : pass.plan with
    | none => rfl
    | some plan => cases hencodings : settings.encodings <;> simp [Settings.document, hencodings]

end Distinct

structure Begins (plan : Option String) (topic : Wanted) (collection : Collection code) :
    Prop where
  begun : forall ordinal, ordinal < topic.spans.length ->
    Says settings plan topic.spans[ordinal]? (collection.lookup (topic.topic, ordinal))
  ended : collection.lookup (topic.topic, topic.spans.length) = none

theorem Begins.congr {plan : Option String} {collection other : Collection code}
    (h : Begins settings plan topic collection)
    (hsame : forall ordinal, other.lookup (topic.topic, ordinal) =
      collection.lookup (topic.topic, ordinal)) : Begins settings plan topic other where
  begun := by
    intro ordinal hordinal
    rw [hsame]
    exact h.begun ordinal hordinal
  ended := by
    rw [hsame]
    exact h.ended

theorem past_of_ended {cut : Nat} {other : TopicId} {collection : Collection code}
    (hended : collection.lookup (other, cut) = none) :
    (forall ordinal, cut <= ordinal -> collection.lookup (other, ordinal) = none) <->
      Unbroken collection other cut := by
  constructor
  · intro hnone last hle hheld
    rw [Held, hnone last hle] at hheld
    cases hheld
  · intro hunbroken ordinal hle
    by_contra hheld
    have hhere := hunbroken ordinal hle (Option.isSome_iff_ne_none.mpr hheld) cut
      (Nat.le_refl _) hle
    rw [Held, hended] at hhere
    cases hhere

theorem onePlan_iff {plan : Option String} {collection : Collection code}
    (h : forall topic, topic ∈ wanted -> Begins settings plan topic collection) :
    OnePlan settings collection wanted <->
      forall topic, topic ∈ wanted ->
        Unbroken collection topic.topic topic.spans.length := by
  constructor
  · intro hone topic hmem
    rcases hone with ⟨plan, hsays⟩
    rw [← past_of_ended (h topic hmem).ended]
    intro ordinal hle
    have hpast := hsays topic hmem ordinal
    rw [List.getElem?_eq_none hle] at hpast
    cases hread : collection.lookup (topic.topic, ordinal) with
    | none => rfl
    | some document =>
        rw [hread] at hpast
        cases hpast
  · intro hunbroken
    refine ⟨plan, ?_⟩
    intro topic hmem ordinal
    rcases Nat.lt_or_ge ordinal topic.spans.length with hbelow | hpast
    · exact (h topic hmem).begun ordinal hbelow
    · have hnone := (past_of_ended (h topic hmem).ended).mpr (hunbroken topic hmem)
      rw [hnone ordinal hpast, List.getElem?_eq_none hpast]
      exact True.intro

/-!
## A pass, and what is held
-/

variable {settings encode encoder} {collection : Collection code} {model : σ}
  {stop : Option Nat} {encoding : Option String}

structure Passed (settings : Settings) (encoding : Option String) (wanted : List Wanted)
    (collection final : Collection code) : Prop where
  begins : forall topic, topic ∈ wanted -> Begins settings encoding topic final
  unbroken : forall topic, topic ∈ wanted ->
    (Unbroken final topic.topic topic.spans.length <->
      Unbroken collection topic.topic topic.spans.length)
  others : forall other, other ∉ wanted.map Wanted.topic -> forall ordinal,
    final.lookup (other, ordinal) = collection.lookup (other, ordinal)

theorem passed_writeEncoded (hdistinct : (wanted.map Wanted.topic).Nodup)
    (h : (writeEncoded settings encode encoder stop model collection wanted).plan =
      some encoding) :
    Passed settings encoding wanted collection
      (writeEncoded settings encode encoder stop model collection wanted).collection := by
  unfold writeEncoded at h ⊢
  cases hpass : encoder.encodePassages model (texts wanted) with
  | mk result next =>
      cases result with
      | none =>
          rw [hpass] at h
          cases h
      | some pass =>
          rw [hpass] at h
          cases stop with
          | some n => cases h
          | none =>
              cases h
              have hwhole := whole_documentsOf pass
              constructor
              case begins =>
                intro topic hmem
                have htopic := topic_mem_documentsOf pass hmem
                have hend := endOf_documentsOf hdistinct hmem pass
                constructor
                · intro ordinal hordinal
                  rw [replace_below rfl htopic hwhole (hend.symm ▸ hordinal)]
                  exact says_given settings encode hdistinct hmem pass hordinal
                · rw [← hend]
                  exact replace_cut rfl htopic
              case unbroken =>
                intro topic hmem
                have htopic := topic_mem_documentsOf pass hmem
                have hend := endOf_documentsOf hdistinct hmem pass
                rw [← hend]
                exact (past_of_ended (replace_cut rfl htopic)).symm.trans
                  (replace_past_iff rfl htopic)
              case others =>
                intro other hnot ordinal
                exact replace_other rfl (topic_not_mem_documentsOf pass hnot) ordinal

theorem begins_of_holds {plan : String} (h : holds settings collection topic plan = true) :
    Begins settings (some plan) topic collection := by
  unfold holds holdsSpans at h
  rw [Bool.and_eq_true, Bool.and_eq_true, decide_eq_true_eq, List.all_eq_true] at h
  rcases h with ⟨⟨hlength, _⟩, hall⟩
  have hread : forall ordinal, ordinal < topic.spans.length ->
      exists document, (fetch collection topic.topic)[ordinal]? = some document ∧
        Held collection (topic.topic, ordinal) ∧
          collection.lookup (topic.topic, ordinal) = some document := by
    intro ordinal hordinal
    have hbelow : ordinal < (fetch collection topic.topic).length := hlength ▸ hordinal
    have hsome := List.getElem?_eq_getElem hbelow
    have hfetched := hsome
    rw [getElem?_fetch] at hfetched
    split at hfetched
    · next hrow => exact ⟨_, hsome, hrow ordinal (Nat.le_refl _), hfetched⟩
    · cases hfetched
  constructor
  case begun =>
    intro ordinal hordinal
    rcases hread ordinal hordinal with ⟨document, hdocument, _, hlookup⟩
    have hspan := List.getElem?_eq_getElem hordinal
    have hpair : (document, topic.spans[ordinal]) ∈
        (fetch collection topic.topic).zip topic.spans := by
      apply List.mem_iff_getElem?.mpr
      exact ⟨ordinal, by rw [List.getElem?_zip_eq_some]; exact ⟨hdocument, hspan⟩⟩
    have hsame := hall _ hpair
    rw [holdsSource, Bool.and_eq_true, Bool.and_eq_true, decide_eq_true_eq,
      decide_eq_true_eq] at hsame
    rcases hsame with ⟨⟨htext, hheader⟩, hencoding⟩
    rw [hlookup, hspan]
    refine ⟨htext, ?_, ?_⟩
    · intro header hrecorded
      rw [hrecorded] at hheader
      simpa using hheader
    · rcases Option.filter_eq_some_iff.mp hencoding with ⟨_, hrecords⟩
      rw [hencoding, Option.filter_some, if_pos hrecords]
  case ended =>
    by_contra hmore
    have hrow : forall j, j <= topic.spans.length -> Held collection (topic.topic, j) := by
      intro j hj
      rcases Nat.lt_or_ge j topic.spans.length with hbelow | hpast
      · rcases hread j hbelow with ⟨_, _, hheld, _⟩
        exact hheld
      · rw [Nat.le_antisymm hj hpast]
        exact Option.isSome_iff_ne_none.mpr hmore
    have hpast : (fetch collection topic.topic)[topic.spans.length]? = none :=
      List.getElem?_eq_none (Nat.le_of_eq hlength)
    rw [getElem?_fetch, if_pos hrow] at hpast
    exact hmore hpast

theorem fresh_eq (mark : Wanted -> Bool) (wanted : List Wanted) :
    ((wanted.zip (wanted.map mark)).filter Prod.snd).map Prod.fst = wanted.filter mark := by
  induction wanted with
  | nil => rfl
  | cons topic rest ih =>
      rw [List.map_cons, List.zip_cons_cons, List.filter_cons, List.filter_cons]
      cases mark topic with
      | false => exact ih
      | true => simpa using ih

theorem held_eq (mark : Wanted -> Bool) (wanted : List Wanted) :
    ((wanted.zip (wanted.map mark)).filter fun pair => !pair.2).map Prod.fst =
      wanted.filter fun topic => !mark topic := by
  induction wanted with
  | nil => rfl
  | cons topic rest ih =>
      rw [List.map_cons, List.zip_cons_cons, List.filter_cons, List.filter_cons]
      cases mark topic with
      | false => simpa using ih
      | true => exact ih

theorem marks_eq (readable : Bool) (collection : Collection code) (wanted : List Wanted)
    (reusable again : Option String) :
    exists mark : Wanted -> Bool,
      unheldNow settings readable collection wanted reusable again = wanted.map mark ∧
        forall topic, mark topic = false -> exists plan, reusable = some plan ∧
          holds settings collection topic plan = true := by
  have hall : exists mark : Wanted -> Bool, (wanted.map fun _ => true) = wanted.map mark ∧
      forall topic, mark topic = false -> exists plan, reusable = some plan ∧
        holds settings collection topic plan = true :=
    ⟨fun _ => true, rfl, fun _ hmark => by cases hmark⟩
  unfold unheldNow
  split
  · cases reusable with
    | none => exact hall
    | some plan =>
        cases readable with
        | false => exact hall
        | true =>
            refine ⟨fun topic => !holds settings collection topic plan, rfl, ?_⟩
            intro topic hmark
            exact ⟨plan, rfl, by simpa using hmark⟩
  · exact hall

/-- The whole batch begins under one plan, and nothing was removed past it but what goes on. -/
structure Settled (settings : Settings) (wanted : List Wanted)
    (collection final : Collection code) (plan : Option String) : Prop where
  begins : forall topic, topic ∈ wanted -> Begins settings plan topic final
  unbroken : forall topic, topic ∈ wanted ->
    (Unbroken final topic.topic topic.spans.length <->
      Unbroken collection topic.topic topic.spans.length)

theorem unbroken_of_others {final : Collection code} {fresh : List Wanted}
    (h : Passed settings encoding fresh collection final)
    (hnot : topic.topic ∉ fresh.map Wanted.topic) :
    Unbroken final topic.topic topic.spans.length <->
      Unbroken collection topic.topic topic.spans.length :=
  unbroken_congr fun ordinal _ => h.others topic.topic hnot ordinal

theorem settled_of_passed {final : Collection code} (mark : Wanted -> Bool)
    (hdistinct : (wanted.map Wanted.topic).Nodup)
    (h : Passed settings encoding (wanted.filter mark) collection final)
    (hheld : forall topic, topic ∈ wanted -> mark topic = false ->
      Begins settings encoding topic collection) :
    Settled settings wanted collection final encoding := by
  have hother : forall topic, topic ∈ wanted -> mark topic = false ->
      topic.topic ∉ (wanted.filter mark).map Wanted.topic := by
    intro topic hmem hmark hfresh
    rcases List.mem_map.mp hfresh with ⟨other, hfiltered, hsame⟩
    rcases List.mem_filter.mp hfiltered with ⟨hwanted, htrue⟩
    rw [wanted_unique hdistinct hmem hwanted hsame, hmark] at htrue
    cases htrue
  constructor
  · intro topic hmem
    cases hmark : mark topic with
    | true => exact h.begins topic (List.mem_filter.mpr ⟨hmem, hmark⟩)
    | false =>
        exact (hheld topic hmem hmark).congr settings
          (h.others topic.topic (hother topic hmem hmark))
  · intro topic hmem
    cases hmark : mark topic with
    | true => exact h.unbroken topic (List.mem_filter.mpr ⟨hmem, hmark⟩)
    | false => exact unbroken_of_others h (hother topic hmem hmark)

theorem settled_writeUnheld {faults : Faults} {final : Collection code}
    (hdistinct : (wanted.map Wanted.topic).Nodup)
    (h : writeUnheld settings encode encoder faults model collection wanted = (final, true)) :
    exists plan, Settled settings wanted collection final plan := by
  unfold writeUnheld at h
  cases hfirst : encoder.reusableEncoding model with
  | mk reusable asked =>
      cases hsecond : encoder.reusableEncoding asked with
      | mk again next =>
          rcases marks_eq faults.readable collection wanted reusable again with
            ⟨mark, hmarks, hheld⟩
          simp only [hfirst, hsecond] at h
          rw [hmarks, fresh_eq, held_eq] at h
          have hbegins : forall topic, topic ∈ wanted -> mark topic = false ->
              Begins settings reusable topic collection := by
            intro topic _ hmark
            rcases hheld topic hmark with ⟨plan, rfl, hholds⟩
            exact begins_of_holds hholds
          split at h
          · next hnone =>
              cases h
              refine ⟨reusable, ?_, fun _ _ => Iff.rfl⟩
              intro topic hmem
              apply hbegins topic hmem
              rw [Bool.eq_false_iff]
              intro hmark
              have hfresh := List.mem_filter.mpr ⟨hmem, hmark⟩
              rw [hnone] at hfresh
              cases hfresh
          · split at h
            · cases h
            · next encoding hwrote =>
                have hfreshDistinct : ((wanted.filter mark).map Wanted.topic).Nodup :=
                  hdistinct.sublist (List.filter_sublist.map Wanted.topic)
                have hpassed := passed_writeEncoded hfreshDistinct hwrote
                split at h
                · rcases Prod.mk.inj h with ⟨rfl, hsome⟩
                  rcases Option.isSome_iff_exists.mp hsome with ⟨plan, hevery⟩
                  have hagain := passed_writeEncoded hdistinct hevery
                  refine ⟨plan, hagain.begins, ?_⟩
                  intro topic hmem
                  rw [hagain.unbroken topic hmem]
                  by_cases hfresh : topic.topic ∈ (wanted.filter mark).map Wanted.topic
                  · rcases List.mem_map.mp hfresh with ⟨other, hother, hsame⟩
                    have hwanted := (List.mem_filter.mp hother).1
                    rw [wanted_unique hdistinct hmem hwanted hsame] at hother
                    exact hpassed.unbroken topic hother
                  · exact unbroken_of_others hpassed hfresh
                · next hsame =>
                    rcases Prod.mk.inj h with ⟨rfl, _⟩
                    refine ⟨encoding, settled_of_passed mark hdistinct hpassed ?_⟩
                    intro topic hmem hmark
                    have hheldTopic : topic ∈ wanted.filter fun topic => !mark topic :=
                      List.mem_filter.mpr ⟨hmem, by simp [hmark]⟩
                    have heq : encoding = reusable := by
                      by_contra hne
                      exact hsame ⟨List.ne_nil_of_mem hheldTopic, hne⟩
                    rw [heq]
                    exact hbegins topic hmem hmark

/--
If the write returns, the batch has exactly its spans under one plan if and only if the
ordinals held of each topic past its spans had no gap.
-/
theorem one_plan_iff {faults : Faults} {batch : Batch} {final : Collection code}
    (h : writeUnheld settings encode encoder faults model collection batch.val =
      (final, true)) :
    OnePlan settings final batch.val <->
      forall topic, topic ∈ batch.val ->
        Unbroken collection topic.topic topic.spans.length := by
  rcases settled_writeUnheld batch.property h with ⟨plan, hsettled⟩
  rw [onePlan_iff settings hsettled.begins]
  constructor
  · intro hunbroken topic hmem
    exact (hsettled.unbroken topic hmem).mp (hunbroken topic hmem)
  · intro hunbroken topic hmem
    exact (hsettled.unbroken topic hmem).mpr (hunbroken topic hmem)

end Written

end Writing

/-!
## A topic cut short before it is written
-/

section Runs

def steady : Encoder Unit (List Nat) where
  reusableEncoding := fun model => (some "cpu:one", model)
  encodePassages := fun model texts =>
    (some
      { vectors := texts.map fun text => [text.length, 3]
        plan := some "cpu:one"
        each := by simp },
      model)

def noFaults : Faults := { readable := true, first := none, second := none }

def oneSpan : Batch :=
  ⟨[{ topic := 5, spans := [{ text := "span", header := "five", passage := "five: span" }],
      some := by decide }], by decide⟩

def cutShort : Collection (List Nat) :=
  let long := perform
    ((Call.replace threeSpans (some "cpu:one")).engineCalls recordsAll halved ∅) ∅
  let shorter := documentsOf oneSpan.val [[10, 3]]
  perform ((replace recordsAll halved shorter (some "cpu:one") long).take 3) long

def writtenShort : Collection (List Nat) × Bool :=
  writeUnheld recordsAll halved steady noFaults () cutShort oneSpan.val

theorem one_plan_iff_short :
    OnePlan recordsAll writtenShort.1 oneSpan.val <->
      forall topic, topic ∈ oneSpan.val ->
        Unbroken cutShort topic.topic topic.spans.length := by
  have hreturned : writeUnheld recordsAll halved steady noFaults () cutShort oneSpan.val =
      (writtenShort.1, true) := Prod.ext rfl (by decide)
  exact one_plan_iff hreturned

/-- The topic is held, so the write returns, and the third span of the old text is left. -/
theorem orphan_outlives_write :
    writtenShort.2 = true ∧ ¬ OnePlan recordsAll writtenShort.1 oneSpan.val := by
  refine ⟨by decide, ?_⟩
  intro hone
  rcases hone with ⟨plan, hsays⟩
  have horphan := hsays _ (List.mem_singleton.mpr rfl) 2
  have hleft : (writtenShort.1.lookup (5, 2)).isSome = true := by decide
  rcases Option.isSome_iff_exists.mp hleft with ⟨document, hdocument⟩
  rw [hdocument] at horphan
  exact horphan

end Runs

end Index
end PaminMemory
