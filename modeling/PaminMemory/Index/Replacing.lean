import PaminMemory.Index.Collection
import PaminMemory.Foundation.Numbered

/-!
# Replacing and removing topics

Writing a topic puts its spans over those held and then removes the ones past them,
upward from the cut until an ordinal is missing.  Stopped between two removals it
leaves the ones above, with a gap under them, which nothing asks for again.
-/

namespace PaminMemory
namespace Index

open Foundation

section Truncating

variable {code : Type}

/-- The engine's calls of a truncation: each round reads the next ordinal of every topic
that still had one and removes what it found. -/
def truncating : Nat -> List Key -> Collection code -> List (EngineCall code)
  | 0, _, _ => []
  | n + 1, next, collection =>
      if next = [] then
        []
      else
        let held := next.filter fun key => Held collection key
        (chunks WRITE_BATCH next).map EngineCall.fetch ++
          ((chunks WRITE_BATCH held).map EngineCall.delete ++
            truncating n (held.map Key.next) (deleteAll held collection))

def truncate (cuts : List Key) (collection : Collection code) : List (EngineCall code) :=
  truncating (collection.entries.length + 1) cuts collection

def Reached (collection : Collection code) (cuts : List Key) (key : Key) : Prop :=
  exists cut, cut ∈ cuts ∧ cut.1 = key.1 ∧ cut.2 <= key.2 ∧
    forall between, cut.2 <= between -> between <= key.2 -> Held collection (key.1, between)

structure Truncated (collection : Collection code) (cuts : List Key)
    (final : Collection code) : Prop where
  gone : forall key, Reached collection cuts key -> final.lookup key = none
  kept : forall key, ¬ Reached collection cuts key ->
    final.lookup key = collection.lookup key

def CutOnce (cuts : List Key) : Prop :=
  forall first, first ∈ cuts -> forall second, second ∈ cuts -> first.1 = second.1 ->
    first = second

variable {collection : Collection code} {cuts : List Key}

theorem held_deleteAll {keys : List Key} {key : Key} :
    Held (deleteAll keys collection) key <-> key ∉ keys ∧ Held collection key := by
  unfold Held
  rw [lookup_deleteAll]
  by_cases hmem : key ∈ keys
  · simp [hmem]
  · simp [hmem]

theorem cutOnce_next (h : CutOnce cuts) (p : Key -> Bool) :
    CutOnce ((cuts.filter p).map Key.next) := by
  intro first hfirst second hsecond hsame
  rcases List.mem_map.mp hfirst with ⟨left, hleft, rfl⟩
  rcases List.mem_map.mp hsecond with ⟨right, hright, rfl⟩
  rw [h left (List.mem_filter.mp hleft).1 right (List.mem_filter.mp hright).1 hsame]

theorem reached_round (honce : CutOnce cuts) (key : Key) :
    Reached collection cuts key <->
      (key ∈ cuts ∧ Held collection key) ∨
        Reached (deleteAll (cuts.filter fun cut => Held collection cut) collection)
          ((cuts.filter fun cut => Held collection cut).map Key.next) key := by
  constructor
  · rintro ⟨cut, hcut, htopic, hle, hrow⟩
    have hheld : Held collection cut := by
      have hfirst := hrow cut.2 (Nat.le_refl _) hle
      rwa [← htopic] at hfirst
    rcases Nat.eq_or_lt_of_le hle with heq | hlt
    · have hsame : cut = key := Prod.ext htopic heq
      exact Or.inl ⟨hsame ▸ hcut, hsame ▸ hheld⟩
    · refine Or.inr ⟨cut.next, ?_, htopic, hlt, ?_⟩
      · exact List.mem_map_of_mem (List.mem_filter.mpr ⟨hcut, by simpa using hheld⟩)
      · intro between habove hbelow
        refine held_deleteAll.mpr ⟨?_, hrow between (Nat.le_of_succ_le habove) hbelow⟩
        intro hdeleted
        have hsame := honce _ (List.mem_filter.mp hdeleted).1 cut hcut htopic.symm
        have hordinal : between = cut.2 := congrArg Prod.snd hsame
        have habove : cut.2 + 1 <= between := habove
        omega
  · rintro (⟨hcut, hheld⟩ | ⟨next, hnext, htopic, hle, hrow⟩)
    · refine ⟨key, hcut, rfl, Nat.le_refl _, ?_⟩
      intro between habove hbelow
      rw [Nat.le_antisymm hbelow habove]
      exact hheld
    · rcases List.mem_map.mp hnext with ⟨cut, hcut, rfl⟩
      rcases List.mem_filter.mp hcut with ⟨hmem, hheld⟩
      have hheld : Held collection cut := by simpa using hheld
      refine ⟨cut, hmem, htopic, Nat.le_of_succ_le hle, ?_⟩
      intro between habove hbelow
      rcases Nat.eq_or_lt_of_le habove with heq | hlt
      · have hsame : cut = (key.1, between) := Prod.ext htopic heq
        rw [← hsame]
        exact hheld
      · exact (held_deleteAll.mp (hrow between hlt hbelow)).2

theorem truncated_truncating (n : Nat) (honce : CutOnce cuts)
    (hends : forall cut, cut ∈ cuts -> exists k, k < n ∧ ¬ Held collection (cut.1, cut.2 + k)) :
    Truncated collection cuts (perform (truncating n cuts collection) collection) := by
  induction n generalizing cuts collection with
  | zero =>
      constructor
      · rintro key ⟨cut, hcut, _⟩
        rcases hends cut hcut with ⟨k, hk, _⟩
        cases hk
      · intro key _
        rfl
  | succ n ih =>
      unfold truncating
      by_cases hnone : cuts = []
      · rw [if_pos hnone, hnone]
        constructor
        · rintro key ⟨cut, hcut, _⟩
          cases hcut
        · intro key _
          rfl
      · rw [if_neg hnone, perform_append, perform_append, perform_fetches, perform_deletes]
        have hlater : forall cut,
            cut ∈ (cuts.filter fun cut => Held collection cut).map Key.next ->
              exists k, k < n ∧ ¬ Held (deleteAll (cuts.filter fun cut => Held collection cut)
                collection) (cut.1, cut.2 + k) := by
          intro next hnext
          rcases List.mem_map.mp hnext with ⟨cut, hcut, rfl⟩
          rcases List.mem_filter.mp hcut with ⟨hmem, hheld⟩
          rcases hends cut hmem with ⟨k, hk, hmissing⟩
          cases k with
          | zero => exact absurd (by simpa using hheld) hmissing
          | succ k =>
              refine ⟨k, Nat.lt_of_succ_lt_succ hk, ?_⟩
              intro hlater
              apply hmissing
              rw [show cut.2 + (k + 1) = cut.2 + 1 + k by omega]
              exact (held_deleteAll.mp hlater).2
        have hrest := ih (cutOnce_next honce _) hlater
        constructor
        · intro key hreached
          rcases (reached_round honce key).mp hreached with ⟨hcut, hheld⟩ | hreached
          · by_cases hagain : Reached
                (deleteAll (cuts.filter fun cut => Held collection cut) collection)
                ((cuts.filter fun cut => Held collection cut).map Key.next) key
            · exact hrest.gone key hagain
            · rw [hrest.kept key hagain, lookup_deleteAll, if_pos]
              exact List.mem_filter.mpr ⟨hcut, by simpa using hheld⟩
          · exact hrest.gone key hreached
        · intro key hnot
          have hround := fun h => hnot ((reached_round honce key).mpr h)
          rw [hrest.kept key fun h => hround (Or.inr h), lookup_deleteAll, if_neg]
          intro hdeleted
          rcases List.mem_filter.mp hdeleted with ⟨hcut, hheld⟩
          exact hround (Or.inl ⟨hcut, by simpa using hheld⟩)

theorem truncated_truncate (honce : CutOnce cuts) (collection : Collection code) :
    Truncated collection cuts (perform (truncate cuts collection) collection) := by
  apply truncated_truncating _ honce
  intro cut _
  by_contra hnone
  have hrow : forall k, k < collection.entries.length + 1 ->
      Held collection (cut.1, cut.2 + k) := by
    intro k hk
    by_contra hmissing
    exact hnone ⟨k, hk, hmissing⟩
  exact absurd (row_le hrow) (Nat.not_succ_le_self _)

end Truncating

/-!
## The calls of an index
-/

section Calls

variable {vector code : Type}

def Whole (documents : List (SpanDocument vector)) : Prop :=
  forall document, document ∈ documents -> forall ordinal, ordinal < document.ordinal ->
    exists other, other ∈ documents ∧ other.topic = document.topic ∧ other.ordinal = ordinal

abbrev WholeTopics (vector : Type) := { documents : List (SpanDocument vector) // Whole documents }

def SpanDocument.key (document : SpanDocument vector) : Key :=
  (document.topic, document.ordinal)

def endOf (documents : List (SpanDocument vector)) (topic : TopicId) : Nat :=
  ((documents.filter fun document => document.topic = topic).map fun document =>
    document.ordinal + 1).foldr max 0

def ends (documents : List (SpanDocument vector)) : List Key :=
  ((documents.map SpanDocument.topic).insertionSort (· <= ·)).dedup.map fun topic =>
    (topic, endOf documents topic)

inductive Call (vector : Type) where
  | replace (documents : WholeTopics vector) (encoding : Option String)
  | writeSpans (documents : List (SpanDocument vector)) (encoding : Option String)
  | truncate (cuts : List Key)
  | delete (topics : List TopicId)

variable (settings : Settings) (encode : vector -> code)

/-- The document a span is written as: an index records what it was created to record. -/
def Settings.document (encoding : Option String) (span : SpanDocument vector) :
    Key × Document code :=
  (span.key,
    { content := span.content
      header := span.header.filter fun _ =>
        settings.headers && settings.passage = Passage.named
      encoding := encoding.filter fun _ => settings.encodings
      embedding := encode span.embedding })

def writeSpans (documents : List (SpanDocument vector)) (encoding : Option String) :
    List (EngineCall code) :=
  (chunks WRITE_BATCH (documents.map (settings.document encode encoding))).map
    EngineCall.upsert

def replace (documents : List (SpanDocument vector)) (encoding : Option String)
    (collection : Collection code) : List (EngineCall code) :=
  let written := writeSpans settings encode documents encoding
  written ++ truncate (ends documents) (perform written collection)

def Call.engineCalls (collection : Collection code) : Call vector -> List (EngineCall code)
  | replace documents encoding =>
      Index.replace settings encode documents.val encoding collection
  | writeSpans documents encoding => Index.writeSpans settings encode documents encoding
  | truncate cuts => Index.truncate cuts collection
  | delete topics => Index.truncate (topics.map fun topic => (topic, 0)) collection

/-!
## Calls that stop
-/

/-- A call, and after how many of the engine's calls it stops, if it does not return. -/
structure Attempt (vector : Type) where
  call : Call vector
  stop : Option Nat

def Attempt.made (collection : Collection code) (attempt : Attempt vector) :
    List (EngineCall code) :=
  match attempt.stop with
  | none => attempt.call.engineCalls settings encode collection
  | some n => (attempt.call.engineCalls settings encode collection).take n

def step (collection : Collection code) (attempt : Attempt vector) :
    Option (Collection code) :=
  some (perform (attempt.made settings encode collection) collection)

def Call.settles : Call vector -> List TopicId
  | replace documents _ => documents.val.map SpanDocument.topic
  | writeSpans _ _ => []
  | truncate _ => []
  | delete topics => topics

def Call.leaves (key : Key) : Call vector -> Option (Document code)
  | replace documents encoding =>
      given (documents.val.map (settings.document encode encoding)) key
  | _ => none

def Call.cut (topic : TopicId) : Call vector -> Nat
  | replace documents _ => endOf documents.val topic
  | _ => 0

/--
If the call returns, each of its topics has exactly the documents it says, and a read
finds them all.
-/
def LeavesExactly (collection : Collection code) (attempt : Attempt vector) : Prop :=
  attempt.stop = none ->
    forall final, step settings encode collection attempt = some final ->
      forall topic, topic ∈ attempt.call.settles ->
        (forall ordinal, final.lookup (topic, ordinal) =
            attempt.call.leaves settings encode (topic, ordinal)) ∧
          ReadWhole final topic

/-- If the call returns, what the index holds of its topics past their cuts has no gap. -/
def CutsUnbroken (collection : Collection code) (attempt : Attempt vector) : Prop :=
  attempt.stop = none ->
    forall topic, topic ∈ attempt.call.settles ->
      Unbroken collection topic (attempt.call.cut topic)

/-!
## What a call that returns leaves
-/

section Returns

variable {settings : Settings} {encode : vector -> code} {collection final : Collection code}
  {documents : List (SpanDocument vector)} {encoding : Option String} {topic : TopicId}

theorem given_isSome {entries : List (Key × Document code)} {key : Key} :
    (given entries key).isSome <-> key ∈ entries.map Prod.fst := by
  unfold given
  rw [Option.isSome_map, List.find?_isSome]
  simp

theorem given_document {ordinal : Nat} :
    (given (documents.map (settings.document encode encoding)) (topic, ordinal)).isSome <->
      exists span, span ∈ documents ∧ span.topic = topic ∧ span.ordinal = ordinal := by
  rw [given_isSome]
  simp [Settings.document, SpanDocument.key]

theorem lt_endOf {ordinal : Nat} : ordinal < endOf documents topic <->
    exists span, span ∈ documents ∧ span.topic = topic ∧ ordinal <= span.ordinal := by
  unfold endOf
  rw [lt_foldr_max]
  simp only [List.mem_map, List.mem_filter, decide_eq_true_eq]
  constructor
  · rintro ⟨past, ⟨span, ⟨hmem, htopic⟩, rfl⟩, hlt⟩
    exact ⟨span, hmem, htopic, Nat.le_of_lt_succ hlt⟩
  · rintro ⟨span, hmem, htopic, hle⟩
    exact ⟨span.ordinal + 1, ⟨span, ⟨hmem, htopic⟩, rfl⟩, Nat.lt_succ_of_le hle⟩

theorem given_whole (hwhole : Whole documents) {ordinal : Nat} :
    (given (documents.map (settings.document encode encoding)) (topic, ordinal)).isSome <->
      ordinal < endOf documents topic := by
  rw [given_document, lt_endOf]
  constructor
  · rintro ⟨span, hmem, htopic, rfl⟩
    exact ⟨span, hmem, htopic, Nat.le_refl _⟩
  · rintro ⟨span, hmem, rfl, hle⟩
    rcases Nat.eq_or_lt_of_le hle with heq | hbelow
    · exact ⟨span, hmem, rfl, heq.symm⟩
    · exact hwhole span hmem ordinal hbelow

theorem mem_ends {cut : Key} : cut ∈ ends documents <->
    cut.1 ∈ documents.map SpanDocument.topic ∧ cut.2 = endOf documents cut.1 := by
  unfold ends
  rw [List.mem_map]
  constructor
  · rintro ⟨topic, htopic, rfl⟩
    refine ⟨?_, rfl⟩
    simpa using htopic
  · rintro ⟨htopic, hend⟩
    refine ⟨cut.1, ?_, Prod.ext rfl hend.symm⟩
    simpa using htopic

theorem cutOnce_ends : CutOnce (ends documents) := by
  intro first hfirst second hsecond hsame
  rcases mem_ends.mp hfirst with ⟨_, hfirst⟩
  rcases mem_ends.mp hsecond with ⟨_, hsecond⟩
  exact Prod.ext hsame (by rw [hfirst, hsecond, hsame])

theorem cutOnce_zero (topics : List TopicId) :
    CutOnce (topics.map fun topic => ((topic, 0) : Key)) := by
  intro first hfirst second hsecond hsame
  rcases List.mem_map.mp hfirst with ⟨left, _, rfl⟩
  rcases List.mem_map.mp hsecond with ⟨right, _, rfl⟩
  exact Prod.ext hsame rfl

/--
A topic cut in one place has exactly what is held under the cut if and only if what is held
past it has no gap.
-/
theorem exact_iff_unbroken {cuts : List Key} {cut : Nat}
    (htruncated : Truncated collection cuts final) (honce : CutOnce cuts)
    (hcut : (topic, cut) ∈ cuts) :
    (forall ordinal, cut <= ordinal -> final.lookup (topic, ordinal) = none) <->
      Unbroken collection topic cut := by
  constructor
  · intro hgone last hle hheld between habove hbelow
    by_contra hmissing
    have hnot : ¬ Reached collection cuts (topic, last) := by
      rintro ⟨other, hother, htopic, _, hrow⟩
      have hsame : other = (topic, cut) := honce other hother _ hcut htopic
      rw [hsame] at hrow
      exact hmissing (hrow between habove hbelow)
    have hkept := htruncated.kept _ hnot
    rw [hgone last hle] at hkept
    rw [Held, ← hkept] at hheld
    cases hheld
  · intro hunbroken ordinal hle
    by_cases hheld : Held collection (topic, ordinal)
    · exact htruncated.gone _ ⟨(topic, cut), hcut, rfl, hle, hunbroken ordinal hle hheld⟩
    · have hnot : ¬ Reached collection cuts (topic, ordinal) := by
        rintro ⟨other, _, _, habove, hrow⟩
        exact hheld (hrow ordinal habove (Nat.le_refl _))
      rw [htruncated.kept _ hnot]
      simpa [Held] using hheld

theorem lookup_cut {cuts : List Key} {cut : Nat} (htruncated : Truncated collection cuts final)
    (hcut : (topic, cut) ∈ cuts) : final.lookup (topic, cut) = none := by
  by_cases hheld : Held collection (topic, cut)
  · apply htruncated.gone
    refine ⟨(topic, cut), hcut, rfl, Nat.le_refl _, ?_⟩
    intro between habove hbelow
    rw [Nat.le_antisymm hbelow habove]
    exact hheld
  · have hnot : ¬ Reached collection cuts (topic, cut) := by
      intro hreached
      rcases hreached with ⟨other, _, _, habove, hrow⟩
      exact hheld (hrow cut habove (Nat.le_refl _))
    rw [htruncated.kept _ hnot]
    simpa [Held] using hheld

theorem lookup_below_cut {cuts : List Key} {cut ordinal : Nat}
    (htruncated : Truncated collection cuts final) (honce : CutOnce cuts)
    (hcut : (topic, cut) ∈ cuts) (hbelow : ordinal < cut) :
    final.lookup (topic, ordinal) = collection.lookup (topic, ordinal) := by
  apply htruncated.kept
  rintro ⟨other, hother, htopic, hle, _⟩
  have hsame : other = (topic, cut) := honce other hother _ hcut htopic
  rw [hsame] at hle
  exact absurd hle (Nat.not_le.mpr hbelow)

theorem readWhole_of_row (count : Nat)
    (hrow : forall ordinal, Held final (topic, ordinal) <-> ordinal < count) :
    ReadWhole final topic := by
  rw [readWhole_iff]
  intro last _ hlast between _ hbetween
  exact (hrow between).mpr (Nat.lt_of_le_of_lt hbetween ((hrow last).mp hlast))

def Call.returned (settings : Settings) (encode : vector -> code)
    (collection : Collection code) (call : Call vector) : Collection code :=
  perform (call.engineCalls settings encode collection) collection

theorem truncated_replace (settings : Settings) (encode : vector -> code)
    (collection : Collection code) (documents : List (SpanDocument vector))
    (encoding : Option String) :
    Truncated (upsertAll (documents.map (settings.document encode encoding)) collection)
      (ends documents)
      (perform (replace settings encode documents encoding collection) collection) := by
  unfold replace
  rw [perform_append]
  unfold writeSpans
  rw [perform_upserts]
  exact truncated_truncate cutOnce_ends _

theorem returned_delete (settings : Settings) (encode : vector -> code)
    (collection : Collection code) (topics : List TopicId) :
    Truncated collection (topics.map fun topic => (topic, 0))
      ((Call.delete topics : Call vector).returned settings encode collection) :=
  truncated_truncate (cutOnce_zero topics) collection

theorem lookup_past_end {ordinal : Nat} (hpast : endOf documents topic <= ordinal) :
    (upsertAll (documents.map (settings.document encode encoding)) collection).lookup
      (topic, ordinal) = collection.lookup (topic, ordinal) := by
  rw [lookup_upsertAll]
  cases hgiven : given (documents.map (settings.document encode encoding)) (topic, ordinal) with
  | none => rfl
  | some document =>
      have hsome := given_document.mp (Option.isSome_iff_exists.mpr ⟨document, hgiven⟩)
      rcases hsome with ⟨span, hmem, htopic, hordinal⟩
      have hlt : ordinal < endOf documents topic :=
        lt_endOf.mpr ⟨span, hmem, htopic, Nat.le_of_eq hordinal.symm⟩
      exact absurd hlt (Nat.not_lt.mpr hpast)

theorem unbroken_congr {other : Collection code} {cut : Nat}
    (h : forall ordinal, cut <= ordinal ->
      collection.lookup (topic, ordinal) = other.lookup (topic, ordinal)) :
    Unbroken collection topic cut <-> Unbroken other topic cut := by
  have hheld : forall ordinal, cut <= ordinal ->
      (Held collection (topic, ordinal) <-> Held other (topic, ordinal)) := by
    intro ordinal hle
    unfold Held
    rw [h ordinal hle]
  constructor
  · intro hunbroken last hle hlast between habove hbelow
    exact (hheld between habove).mp
      (hunbroken last hle ((hheld last hle).mpr hlast) between habove hbelow)
  · intro hunbroken last hle hlast between habove hbelow
    exact (hheld between habove).mpr
      (hunbroken last hle ((hheld last hle).mp hlast) between habove hbelow)

section Replaced

variable (hfinal : final =
  perform (replace settings encode documents encoding collection) collection)

include hfinal

/-!
## A call that replaces
-/

theorem replace_below (htopic : topic ∈ documents.map SpanDocument.topic) {ordinal : Nat}
    (hwhole : Whole documents) (hbelow : ordinal < endOf documents topic) :
    final.lookup (topic, ordinal) =
      given (documents.map (settings.document encode encoding)) (topic, ordinal) := by
  have htruncated := truncated_replace settings encode collection documents encoding
  rw [← hfinal] at htruncated
  have hcut : (topic, endOf documents topic) ∈ ends documents := mem_ends.mpr ⟨htopic, rfl⟩
  rw [lookup_below_cut htruncated cutOnce_ends hcut hbelow, lookup_upsertAll]
  rcases Option.isSome_iff_exists.mp ((given_whole hwhole).mpr hbelow) with ⟨document, hdocument⟩
  rw [hdocument]
  rfl

theorem replace_past_iff (htopic : topic ∈ documents.map SpanDocument.topic) :
    (forall ordinal, endOf documents topic <= ordinal ->
        final.lookup (topic, ordinal) = none) <->
      Unbroken collection topic (endOf documents topic) := by
  have htruncated := truncated_replace settings encode collection documents encoding
  rw [← hfinal] at htruncated
  have hcut : (topic, endOf documents topic) ∈ ends documents := mem_ends.mpr ⟨htopic, rfl⟩
  rw [← unbroken_congr fun ordinal => lookup_past_end]
  exact exact_iff_unbroken htruncated cutOnce_ends hcut

theorem replace_other (htopic : topic ∉ documents.map SpanDocument.topic) (ordinal : Nat) :
    final.lookup (topic, ordinal) = collection.lookup (topic, ordinal) := by
  have htruncated := truncated_replace settings encode collection documents encoding
  rw [← hfinal] at htruncated
  have hnot : forall key : Key, key.1 = topic -> ¬ Reached
      (upsertAll (documents.map (settings.document encode encoding)) collection)
      (ends documents) key := by
    intro key hkey hreached
    rcases hreached with ⟨cut, hcut, hsame, _⟩
    rcases mem_ends.mp hcut with ⟨hmem, _⟩
    exact htopic (hkey ▸ hsame ▸ hmem)
  rw [htruncated.kept _ (hnot (topic, ordinal) rfl), lookup_upsertAll]
  cases hgiven : given (documents.map (settings.document encode encoding)) (topic, ordinal) with
  | none => rfl
  | some document =>
      have hsome := given_document.mp (Option.isSome_iff_exists.mpr ⟨document, hgiven⟩)
      rcases hsome with ⟨span, hmem, hsame, _⟩
      exact absurd (hsame ▸ List.mem_map_of_mem hmem) htopic

theorem replace_cut (htopic : topic ∈ documents.map SpanDocument.topic) :
    final.lookup (topic, endOf documents topic) = none := by
  have htruncated := truncated_replace settings encode collection documents encoding
  rw [← hfinal] at htruncated
  exact lookup_cut htruncated (mem_ends.mpr ⟨htopic, rfl⟩)

theorem replace_exact_iff (hwhole : Whole documents)
    (htopic : topic ∈ documents.map SpanDocument.topic) :
    (forall ordinal, final.lookup (topic, ordinal) =
        given (documents.map (settings.document encode encoding)) (topic, ordinal)) <->
      Unbroken collection topic (endOf documents topic) := by
  rw [← replace_past_iff hfinal htopic]
  have hgiven : forall ordinal, endOf documents topic <= ordinal ->
      given (documents.map (settings.document encode encoding)) (topic, ordinal) = none := by
    intro ordinal hle
    rw [← Option.not_isSome_iff_eq_none, given_whole hwhole]
    exact Nat.not_lt.mpr hle
  constructor
  · intro hexact ordinal hle
    rw [hexact ordinal, hgiven ordinal hle]
  · intro hnone ordinal
    rcases Nat.lt_or_ge ordinal (endOf documents topic) with hbelow | hpast
    · exact replace_below hfinal htopic hwhole hbelow
    · rw [hnone ordinal hpast, hgiven ordinal hpast]

end Replaced

theorem readWhole_of_given (hwhole : Whole documents)
    (hexact : forall ordinal, final.lookup (topic, ordinal) =
      given (documents.map (settings.document encode encoding)) (topic, ordinal)) :
    ReadWhole final topic := by
  apply readWhole_of_row (endOf documents topic)
  intro ordinal
  unfold Held
  rw [hexact ordinal]
  exact given_whole hwhole

theorem delete_exact_iff {topics : List TopicId} (htopic : topic ∈ topics)
    (hfinal : final = (Call.delete topics : Call vector).returned settings encode collection) :
    ((forall ordinal, final.lookup (topic, ordinal) = none) ∧ ReadWhole final topic) <->
      Unbroken collection topic 0 := by
  have htruncated := returned_delete settings encode collection topics
  rw [← hfinal] at htruncated
  have hcut : ((topic, 0) : Key) ∈ topics.map fun topic => ((topic, 0) : Key) :=
    List.mem_map_of_mem htopic
  rw [← exact_iff_unbroken htruncated (cutOnce_zero topics) hcut]
  constructor
  · rintro ⟨hnone, _⟩ ordinal _
    exact hnone ordinal
  · intro hnone
    have hgone := fun ordinal => hnone ordinal (Nat.zero_le ordinal)
    refine ⟨hgone, readWhole_of_row 0 ?_⟩
    intro ordinal
    simp [Held, hgone ordinal]

theorem leavesExactly_iff (collection : Collection code) (attempt : Attempt vector) :
    LeavesExactly settings encode collection attempt <-> CutsUnbroken collection attempt := by
  rcases attempt with ⟨call, stop⟩
  unfold LeavesExactly CutsUnbroken
  cases stop with
  | some n => simp
  | none =>
      have hstep : forall final,
          step settings encode collection { call := call, stop := none } = some final <->
            final = call.returned settings encode collection := by
        intro final
        exact ⟨fun h => (Option.some.inj h).symm, fun h => by rw [h]; rfl⟩
      simp only [hstep, forall_eq, true_implies]
      apply forall_congr'
      intro topic
      apply forall_congr'
      intro htopic
      cases call with
      | replace whole encoding =>
          have hexact : (forall ordinal,
                ((Call.replace whole encoding).returned settings encode collection).lookup
                  (topic, ordinal) =
                    given (whole.val.map (settings.document encode encoding)) (topic, ordinal)) <->
              Unbroken collection topic (endOf whole.val topic) :=
            replace_exact_iff rfl whole.property htopic
          constructor
          · intro hleaves
            exact hexact.mp hleaves.1
          · intro hunbroken
            have hgiven := hexact.mpr hunbroken
            exact ⟨hgiven, readWhole_of_given whole.property hgiven⟩
      | writeSpans documents encoding => cases htopic
      | truncate cuts => cases htopic
      | delete topics =>
          have hreturned : (Call.delete topics : Call vector).returned settings encode collection =
              (Call.delete topics : Call vector).returned settings encode collection := rfl
          exact delete_exact_iff htopic hreturned

end Returns

/--
Through any run of calls, stopped or not, every one that returns leaves exactly what it
says if and only if every one that returns finds what it cuts without a gap.
-/
theorem replaced_exactly_iff (settings : Settings) (encode : vector -> code)
    (collection : Collection code) (attempts : List (Attempt vector)) :
    Along (step settings encode) (LeavesExactly settings encode) collection attempts <->
      Along (step settings encode) CutsUnbroken collection attempts :=
  along_congr leavesExactly_iff collection attempts

/-!
## Three spans of one topic
-/

def halved (vector : List Nat) : List Nat :=
  vector.map fun component => component / 2

def doubled (code : List Nat) : List Nat :=
  code.map fun component => 2 * component

theorem halved_doubled (code : List Nat) : halved (doubled code) = code := by
  unfold halved doubled
  rw [List.map_map]
  have hback : (fun component : Nat => component / 2) ∘ (fun component => 2 * component) = id :=
    funext fun component => Nat.mul_div_cancel_left component Nat.two_pos
  rw [hback, List.map_id]

def threeSpans : WholeTopics (List Nat) :=
  ⟨(List.range 3).map fun ordinal =>
    { topic := 5, ordinal := ordinal, content := "span", header := none
      embedding := [ordinal, 5] },
    by unfold Whole; decide⟩

def recordsAll : Settings :=
  { passage := Passage.named, encodings := true, headers := true }

def removedTwice : List (Attempt (List Nat)) :=
  [{ call := Call.replace threeSpans none, stop := none },
    { call := Call.delete [5], stop := some 2 }, { call := Call.delete [5], stop := none }]

/-- The second removal finds nothing at the first ordinal, and leaves the other two spans. -/
theorem removal_leaves_orphans :
    ¬ Along (step recordsAll halved) (LeavesExactly recordsAll halved) ∅ removedTwice := by
  intro hleaves
  have hfirst := hleaves.2 _ rfl
  have hsecond := hfirst.2 _ rfl
  have hgone := (hsecond.1 rfl _ rfl 5 (by decide)).1 1
  revert hgone
  decide

end Calls

end Index
end PaminMemory
