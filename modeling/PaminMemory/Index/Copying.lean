import PaminMemory.Index.Reshape

/-!
# What a reshape's copy holds

Applying a batch leaves each of its topics in the copy as it was read, without a gap.  A
topic that is not there as the served index is read now was written since, and is still to
be read again.
-/

namespace PaminMemory
namespace Index

open Foundation

section Applying

variable {vector code : Type} {settings : Settings} {encode : vector -> code}
  {collection : Collection code} {read : Read vector} {topic : TopicId}
  {spans : List (Stored vector)}

def copiedAs (settings : Settings) (encode : vector -> code) (topic : TopicId)
    (span : Stored vector × Nat) : Document code :=
  (settings.document encode (respan topic span).1 (respan topic span).2).2

/-- The collection holds just these spans of the topic. -/
def HoldsSpans (settings : Settings) (encode : vector -> code) (collection : Collection code)
    (topic : TopicId) (spans : List (Stored vector)) : Prop :=
  forall ordinal, collection.lookup (topic, ordinal) =
    spans[ordinal]?.map fun span => copiedAs settings encode topic (span, ordinal)

def entries (settings : Settings) (encode : vector -> code) (read : Read vector) :
    List (Key × Document code) :=
  (((present read).map Prod.fst).insertionSort EncodingLe).dedup.flatMap fun encoding =>
    (((present read).filter fun span => span.1 = encoding).map Prod.snd).map
      (settings.document encode encoding)

theorem upsertAll_append (first second : List (Key × Document code)) :
    upsertAll (first ++ second) collection = upsertAll second (upsertAll first collection) := by
  unfold upsertAll
  rw [List.foldl_append]

theorem perform_written (encodings : List (Option String))
    (documents : Option String -> List (SpanDocument vector)) :
    perform (encodings.flatMap fun encoding =>
        writeSpans settings encode (documents encoding) encoding) collection =
      upsertAll (encodings.flatMap fun encoding =>
        (documents encoding).map (settings.document encode encoding)) collection := by
  induction encodings generalizing collection with
  | nil => rfl
  | cons encoding rest ih =>
      rw [List.flatMap_cons, List.flatMap_cons, perform_append, upsertAll_append, ih]
      unfold writeSpans
      rw [perform_upserts]

theorem mem_entries {entry : Key × Document code} :
    entry ∈ entries settings encode read <->
      exists topic spans, (topic, spans) ∈ read ∧ exists ordinal span,
        spans[ordinal]? = some span ∧
          entry = ((topic, ordinal), copiedAs settings encode topic (span, ordinal)) := by
  unfold entries present
  simp only [List.mem_flatMap, List.mem_map, List.mem_filter, List.mem_dedup,
    List.mem_insertionSort, decide_eq_true_eq]
  constructor
  · intro h
    rcases h with ⟨encoding, _, document, ⟨pair, ⟨⟨⟨topic, spans⟩, hread, ⟨span, ordinal⟩,
      hspan, hpair⟩, hencoding⟩, hdocument⟩, hentry⟩
    refine ⟨topic, spans, hread, ordinal, span, List.mem_zipIdx_iff_getElem?.mp hspan, ?_⟩
    rw [← hentry, ← hdocument, ← hencoding, ← hpair]
    rfl
  · intro h
    rcases h with ⟨topic, spans, hread, ordinal, span, hspan, hentry⟩
    have hmem : (span, ordinal) ∈ spans.zipIdx := List.mem_zipIdx_iff_getElem?.mpr hspan
    refine ⟨(respan topic (span, ordinal)).1, ?_, (respan topic (span, ordinal)).2, ?_, ?_⟩
    · exact ⟨respan topic (span, ordinal), ⟨(topic, spans), hread, (span, ordinal), hmem, rfl⟩,
        rfl⟩
    · exact ⟨respan topic (span, ordinal),
        ⟨⟨(topic, spans), hread, (span, ordinal), hmem, rfl⟩, rfl⟩, rfl⟩
    · rw [hentry]
      rfl

theorem read_unique (hdistinct : (read.map Prod.fst).Nodup) (hread : (topic, spans) ∈ read)
    {other : List (Stored vector)} (hother : (topic, other) ∈ read) : other = spans := by
  have hsame := List.inj_on_of_nodup_map hdistinct hother hread rfl
  exact congrArg Prod.snd hsame

theorem given_entries (hdistinct : (read.map Prod.fst).Nodup) (hread : (topic, spans) ∈ read)
    (ordinal : Nat) :
    given (entries settings encode read) (topic, ordinal) =
      spans[ordinal]?.map fun span => copiedAs settings encode topic (span, ordinal) := by
  cases hgiven : given (entries settings encode read) (topic, ordinal) with
  | some document =>
      rcases mem_entries.mp (given_mem hgiven) with
        ⟨other, otherSpans, hother, place, span, hspan, hentry⟩
      rcases Prod.mk.inj hentry with ⟨hkey, hdocument⟩
      rcases Prod.mk.inj hkey with ⟨rfl, rfl⟩
      rw [read_unique hdistinct hread hother] at hspan
      rw [hspan, hdocument]
      rfl
  | none =>
      cases hspan : spans[ordinal]? with
      | none => rfl
      | some span =>
          have hmem : ((topic, ordinal), copiedAs settings encode topic (span, ordinal)) ∈
              entries settings encode read :=
            mem_entries.mpr ⟨topic, spans, hread, ordinal, span, hspan, rfl⟩
          have hsome := given_isSome.mpr (List.mem_map_of_mem hmem)
          rw [hgiven] at hsome
          cases hsome

theorem given_entries_other (hnot : topic ∉ read.map Prod.fst) (ordinal : Nat) :
    given (entries settings encode read) (topic, ordinal) = none := by
  cases hgiven : given (entries settings encode read) (topic, ordinal) with
  | none => rfl
  | some document =>
      rcases mem_entries.mp (given_mem hgiven) with ⟨other, otherSpans, hother, _, _, _, hentry⟩
      have hsame : topic = other := congrArg (fun entry => entry.1.1) hentry
      exact absurd (hsame ▸ List.mem_map_of_mem (f := Prod.fst) hother) hnot

variable (settings encode collection) in
theorem truncated_applied (hdistinct : (read.map Prod.fst).Nodup) :
    CutOnce (read.map fun entry => ((entry.1, entry.2.length) : Key)) ∧
      Truncated (upsertAll (entries settings encode read) collection)
        (read.map fun entry => (entry.1, entry.2.length))
        (applied settings encode read collection) := by
  have honce : CutOnce (read.map fun entry => ((entry.1, entry.2.length) : Key)) := by
    intro first hfirst second hsecond hsame
    rcases List.mem_map.mp hfirst with ⟨⟨left, leftSpans⟩, hleft, rfl⟩
    rcases List.mem_map.mp hsecond with ⟨⟨right, rightSpans⟩, hright, rfl⟩
    have hsame : left = right := hsame
    rw [← hsame] at hright
    rw [read_unique hdistinct hleft hright, ← hsame]
  refine ⟨honce, ?_⟩
  unfold applied applyCalls
  rw [perform_append, perform_written]
  exact truncated_truncate honce _

theorem holdsSpans_applied (hdistinct : (read.map Prod.fst).Nodup)
    (hread : (topic, spans) ∈ read) (hunbroken : Unbroken collection topic 0) :
    HoldsSpans settings encode (applied settings encode read collection) topic spans := by
  rcases truncated_applied settings encode collection hdistinct with ⟨honce, htruncated⟩
  have hcut : ((topic, spans.length) : Key) ∈
      read.map fun entry => ((entry.1, entry.2.length) : Key) :=
    List.mem_map.mpr ⟨(topic, spans), hread, rfl⟩
  have hpast : forall ordinal, spans.length <= ordinal ->
      (upsertAll (entries settings encode read) collection).lookup (topic, ordinal) =
        collection.lookup (topic, ordinal) := by
    intro ordinal hle
    rw [lookup_upsertAll, given_entries hdistinct hread, List.getElem?_eq_none hle]
    rfl
  have habove : Unbroken collection topic spans.length := by
    intro last _ hlast between _ hbelow
    exact hunbroken last (Nat.zero_le _) hlast between (Nat.zero_le _) hbelow
  have hgone := (exact_iff_unbroken htruncated honce hcut).mpr
    ((unbroken_congr hpast).mpr habove)
  intro ordinal
  rcases Nat.lt_or_ge ordinal spans.length with hbelow | hle
  · rw [lookup_below_cut htruncated honce hcut hbelow, lookup_upsertAll,
      given_entries hdistinct hread, List.getElem?_eq_getElem hbelow]
    rfl
  · rw [hgone ordinal hle, List.getElem?_eq_none hle]
    rfl

theorem lookup_applied_other (hdistinct : (read.map Prod.fst).Nodup)
    (hnot : topic ∉ read.map Prod.fst) (ordinal : Nat) :
    (applied settings encode read collection).lookup (topic, ordinal) =
      collection.lookup (topic, ordinal) := by
  rcases truncated_applied settings encode collection hdistinct with ⟨_, htruncated⟩
  have hreached : ¬ Reached (upsertAll (entries settings encode read) collection)
      (read.map fun entry => ((entry.1, entry.2.length) : Key)) (topic, ordinal) := by
    intro hreached
    rcases hreached with ⟨cut, hcut, hsame, _⟩
    rcases List.mem_map.mp hcut with ⟨entry, hentry, rfl⟩
    have hsame : entry.1 = topic := hsame
    exact hnot (hsame ▸ List.mem_map_of_mem hentry)
  rw [htruncated.kept _ hreached, lookup_upsertAll, given_entries_other hnot]
  rfl

theorem unbroken_of_holdsSpans (h : HoldsSpans settings encode collection topic spans) :
    Unbroken collection topic 0 := by
  intro last _ hlast between _ hbelow
  unfold Held at hlast ⊢
  rw [h last, Option.isSome_map] at hlast
  rw [h between, Option.isSome_map]
  have hlength := (List.getElem?_eq_some_iff.mp (Option.isSome_iff_exists.mp hlast).choose_spec).1
  rw [List.getElem?_eq_getElem (Nat.lt_of_le_of_lt hbelow hlength)]
  rfl

theorem HoldsSpans.congr {other : Collection code}
    (h : HoldsSpans settings encode collection topic spans)
    (hsame : forall ordinal, other.lookup (topic, ordinal) =
      collection.lookup (topic, ordinal)) : HoldsSpans settings encode other topic spans :=
  fun ordinal => (hsame ordinal).trans (h ordinal)

end Applying

/-!
## Reading the served index again
-/

section Reading

variable {vector code : Type} {settings : Settings} {encode : vector -> code}
  {widen : code -> vector} {served next : Collection code} {topic : TopicId}
  {spans : List (Stored vector)}

variable (settings widen) in
def stored (collection : Collection code) (topic : TopicId) : List (Stored vector) :=
  (fetch collection topic).map (settings.view widen)

theorem storedAll_nodup {batch : List TopicId} (hnodup : batch.Nodup) :
    storedAll settings widen served batch =
      batch.map fun topic => (topic, stored settings widen served topic) := by
  induction batch with
  | nil => rfl
  | cons first rest ih =>
      rcases List.nodup_cons.mp hnodup with ⟨hnot, hrest⟩
      rw [storedAll, ih hrest, List.map_map, List.map_cons]
      congr 1
      apply List.map_congr_left
      intro topic hmem
      have hne : topic ≠ first := fun hsame => hnot (hsame ▸ hmem)
      exact if_neg hne

variable (settings widen served) in
theorem map_fst_storedAll {batch : List TopicId} (hnodup : batch.Nodup) :
    (storedAll settings widen served batch).map Prod.fst = batch := by
  rw [storedAll_nodup hnodup, List.map_map]
  exact List.map_id'' (fun _ => rfl) batch

variable (settings widen served) in
theorem holdsSpans_batch {copied : Settings} {batch : List TopicId} (hnodup : batch.Nodup)
    (h : HoldsSpans copied encode next topic spans) :
    HoldsSpans copied encode
      (applied copied encode (storedAll settings widen served batch) next) topic
      (if topic ∈ batch then stored settings widen served topic else spans) := by
  have hbatch := map_fst_storedAll settings widen served hnodup
  have hdistinct : ((storedAll settings widen served batch).map Prod.fst).Nodup := by
    rw [hbatch]
    exact hnodup
  split
  · next hmem =>
    apply holdsSpans_applied hdistinct _ (unbroken_of_holdsSpans h)
    rw [storedAll_nodup hnodup]
    exact List.mem_map_of_mem hmem
  · next hnot =>
    apply h.congr
    exact lookup_applied_other hdistinct (by rw [hbatch]; exact hnot)

variable (settings widen served) in
theorem holdsSpans_batches {copied : Settings} {batches : List (List TopicId)}
    (hnodup : forall batch, batch ∈ batches -> batch.Nodup)
    (h : HoldsSpans copied encode next topic spans) :
    HoldsSpans copied encode
      (batches.foldl (fun next batch =>
        applied copied encode (storedAll settings widen served batch) next) next) topic
      (if topic ∈ batches.flatten then stored settings widen served topic else spans) := by
  induction batches generalizing next spans with
  | nil => exact h
  | cons batch rest ih =>
      have hfirst := holdsSpans_batch settings widen served (hnodup batch List.mem_cons_self) h
      have hrest := ih (fun later hmem => hnodup later (List.mem_cons_of_mem _ hmem)) hfirst
      rw [List.foldl_cons, List.flatten_cons]
      by_cases hlater : topic ∈ rest.flatten
      · rw [if_pos hlater] at hrest
        rw [if_pos (List.mem_append_right batch hlater)]
        exact hrest
      · rw [if_neg hlater] at hrest
        simpa [hlater] using hrest

variable (widen served) in
theorem holdsSpans_caughtUp {order : List TopicId} (hnodup : order.Nodup)
    (h : HoldsSpans settings.copied encode next topic spans) :
    HoldsSpans settings.copied encode (caughtUp settings encode widen served order next) topic
      (if topic ∈ order then stored settings widen served topic else spans) := by
  have honce : forall batch, batch ∈ chunks COPY_BATCH order -> batch.Nodup :=
    fun batch => chunk_nodup (by decide) hnodup
  have hbatches := holdsSpans_batches settings widen served honce h
  rw [chunks_flatten (by decide)] at hbatches
  exact hbatches

end Reading

/-!
## The copy while writes go on
-/

section Running

variable {vector code : Type} {settings : Settings} {encode : vector -> code}
  {widen : code -> vector} {s : Reshape vector code} {order : List TopicId}

variable (settings encode) in
def Reshape.pending (s : Reshape vector code) : Collection code :=
  match s.read with
  | none => s.next
  | some read => applied settings.copied encode read s.next

variable (settings encode widen) in
structure Copies (s : Reshape vector code) : Prop where
  recorded : Recorded settings encode s.served
  spans : forall topic, exists spans, HoldsSpans settings.copied encode s.next topic spans
  workOnce : forall batch, batch ∈ chunks COPY_BATCH s.work -> batch.Nodup
  readOnce : forall read, s.read = some read -> (read.map Prod.fst).Nodup
  unlisted : s.listed = false -> s.work = [] ∧ s.read = none ∧ s.next = ∅
  /-- A write is recorded before it is made. -/
  writing : forall call, s.writing = some call ->
    forall topic, topic ∈ call.topics -> topic ∈ s.touched ∨ topic ∈ s.work
  /-- A topic that is not still to be read is in the copy as the served index holds it now. -/
  mirrored : s.listed = true -> forall topic, topic ∈ s.touched ∨ topic ∈ s.work ∨
    HoldsSpans settings.copied encode (s.pending settings encode) topic
      (stored settings widen s.served topic)

theorem holdsSpans_empty (topic : TopicId) :
    HoldsSpans settings encode (∅ : Collection code) topic [] := by
  intro ordinal
  rfl

theorem Copies.begun {served : Collection code} (h : Recorded settings encode served) :
    Copies settings encode widen (Reshape.begun served) := by
  constructor
  · exact h
  · exact fun topic => ⟨[], holdsSpans_empty topic⟩
  · exact fun batch hbatch => absurd hbatch List.not_mem_nil
  · exact fun read hread => nomatch hread
  · exact fun _ => ⟨rfl, rfl, rfl⟩
  · exact fun call hcall => nomatch hcall
  · exact fun hlisted => nomatch hlisted

theorem Copies.pending_spans (h : Copies settings encode widen s) (topic : TopicId) :
    exists spans, HoldsSpans settings.copied encode (s.pending settings encode) topic spans := by
  rcases h.spans topic with ⟨spans, hspans⟩
  unfold Reshape.pending
  cases hread : s.read with
  | none => exact ⟨spans, hspans⟩
  | some read =>
      have hdistinct := h.readOnce read hread
      by_cases hmem : topic ∈ read.map Prod.fst
      · rcases List.mem_map.mp hmem with ⟨entry, hentry, rfl⟩
        exact ⟨entry.2, holdsSpans_applied hdistinct hentry (unbroken_of_holdsSpans hspans)⟩
      · exact ⟨spans, hspans.congr (lookup_applied_other hdistinct hmem)⟩

theorem Copies.touch (h : Copies settings encode widen s) (call : Call vector) :
    Copies settings encode widen
      { s with touched := s.touched ∪ call.topics, writing := some call } :=
  { h with
    writing := by
      intro other hother topic htopic
      cases hother
      exact Or.inl (List.mem_union_iff.mpr (Or.inr htopic))
    mirrored := by
      intro hlisted topic
      rcases h.mirrored hlisted topic with htouched | hrest
      · exact Or.inl (List.mem_union_iff.mpr (Or.inl htouched))
      · exact Or.inr hrest }

theorem stored_made {collection : Collection code} (attempt : Attempt vector) {topic : TopicId}
    (hnot : topic ∉ attempt.call.topics) :
    stored settings widen
        (perform (attempt.made settings encode collection) collection) topic =
      stored settings widen collection topic := by
  unfold stored
  rw [fetch_congr]
  intro ordinal
  apply lookup_perform_other _ hnot
  intro call hcall
  exact within_engineCalls attempt.call (made_subset attempt hcall)

theorem Copies.write (h : Copies settings encode widen s) {call : Call vector}
    (hwriting : s.writing = some call) (stop : Option Nat) :
    Copies settings encode widen
      { s with
        served := perform
          (({ call := call, stop := stop } : Attempt vector).made settings encode s.served)
          s.served
        writing := none } :=
  { h with
    recorded := recorded_perform h.recorded call (made_subset { call := call, stop := stop })
    writing := fun other hother => nomatch hother
    mirrored := by
      intro hlisted topic
      by_cases htopic : topic ∈ call.topics
      · rcases h.writing call hwriting topic htopic with htouched | hwork
        · exact Or.inl htouched
        · exact Or.inr (Or.inl hwork)
      · rcases h.mirrored hlisted topic with htouched | hwork | hholds
        · exact Or.inl htouched
        · exact Or.inr (Or.inl hwork)
        · apply Or.inr (Or.inr _)
          rw [stored_made { call := call, stop := stop } htopic]
          exact hholds }

theorem stored_absent {collection : Collection code} {topic : TopicId}
    (h : topic ∉ collection.keys.map Prod.fst) : stored settings widen collection topic = [] := by
  unfold stored
  rw [List.map_eq_nil_iff]
  apply List.eq_nil_iff_forall_not_mem.mpr
  intro document hmem
  rcases List.mem_iff_getElem?.mp hmem with ⟨ordinal, hread⟩
  rw [getElem?_fetch] at hread
  split at hread
  · have hheld : (topic, ordinal) ∈ collection.keys :=
      AList.mem_keys.mp (AList.lookup_isSome.mp (Option.isSome_of_eq_some hread))
    exact h (List.mem_map_of_mem hheld)
  · cases hread

theorem Copies.copy (h : Copies settings encode widen s) {topics : List TopicId}
    (hunlisted : s.listed = false) (hheld : s.served.keys.map Prod.fst ⊆ topics)
    (honce : forall batch, batch ∈ chunks COPY_BATCH topics -> batch.Nodup) :
    Copies settings encode widen { s with work := topics, listed := true } := by
  rcases h.unlisted hunlisted with ⟨hwork, hread, hnext⟩
  exact
    { h with
      workOnce := honce
      unlisted := fun hlisted => nomatch hlisted
      writing := by
        intro call hcall topic htopic
        rcases h.writing call hcall topic htopic with htouched | hnone
        · exact Or.inl htouched
        · rw [hwork] at hnone
          cases hnone
      mirrored := by
        intro _ topic
        by_cases hmem : topic ∈ topics
        · exact Or.inr (Or.inl hmem)
        · apply Or.inr (Or.inr _)
          have hpending : { s with work := topics, listed := true }.pending settings encode = ∅ := by
            unfold Reshape.pending
            rw [hread]
            exact hnext
          rw [hpending, stored_absent fun hkeys => hmem (hheld hkeys)]
          exact holdsSpans_empty topic }

theorem Copies.take (h : Copies settings encode widen s) (hresting : s.Resting)
    (htakes : s.Takes order) :
    Copies settings encode widen { s with work := order, touched := [] } := by
  rcases hresting with ⟨hlisted, hwork, _⟩
  rcases htakes with ⟨honce, _, htaken⟩
  exact
    { h with
      workOnce := fun batch => chunk_nodup (by decide) honce
      unlisted := by
        intro hunlisted
        rw [hlisted] at hunlisted
        cases hunlisted
      writing := by
        intro call hcall topic htopic
        rcases h.writing call hcall topic htopic with htouched | hnone
        · exact Or.inr (htaken htouched)
        · rw [hwork] at hnone
          cases hnone
      mirrored := by
        intro _ topic
        rcases h.mirrored hlisted topic with htouched | hnone | hholds
        · exact Or.inr (Or.inl (htaken htouched))
        · rw [hwork] at hnone
          cases hnone
        · exact Or.inr (Or.inr hholds) }

theorem Copies.read (h : Copies settings encode widen s) (hwriting : s.writing.isNone)
    (hread : s.read.isNone) (hwork : s.work ≠ []) :
    Copies settings encode widen
      { s with
        read := some (storedAll settings widen s.served (s.work.take COPY_BATCH))
        work := s.work.drop COPY_BATCH } := by
  have hchunks : chunks COPY_BATCH s.work =
      s.work.take COPY_BATCH :: chunks COPY_BATCH (s.work.drop COPY_BATCH) :=
    chunks_of_ne_nil (by decide) hwork
  have honce := h.workOnce
  rw [hchunks] at honce
  have hbatch := honce _ List.mem_cons_self
  have hread : s.read = none := Option.isNone_iff_eq_none.mp hread
  exact
    { h with
      workOnce := fun batch hmem => honce batch (List.mem_cons_of_mem _ hmem)
      readOnce := by
        intro read hsame
        cases hsame
        rw [map_fst_storedAll settings widen s.served hbatch]
        exact hbatch
      unlisted := by
        intro hunlisted
        exact absurd (h.unlisted hunlisted).1 hwork
      writing := by
        intro call hcall
        rw [Option.isNone_iff_eq_none.mp hwriting] at hcall
        cases hcall
      mirrored := by
        intro hlisted topic
        have hpending : s.pending settings encode = s.next := by
          unfold Reshape.pending
          rw [hread]
        rcases h.spans topic with ⟨spans, hspans⟩
        have happlied := holdsSpans_batch settings widen s.served hbatch hspans
        rcases h.mirrored hlisted topic with htouched | hlater | hholds
        · exact Or.inl htouched
        · rw [← List.take_append_drop COPY_BATCH s.work] at hlater
          rcases List.mem_append.mp hlater with hmem | hrest
          · rw [if_pos hmem] at happlied
            exact Or.inr (Or.inr happlied)
          · exact Or.inr (Or.inl hrest)
        · rw [hpending] at hholds
          have happlied := holdsSpans_batch settings widen s.served hbatch hholds
          rw [ite_self] at happlied
          exact Or.inr (Or.inr happlied) }

theorem Copies.apply (h : Copies settings encode widen s) {read : Read vector}
    (hread : s.read = some read) :
    Copies settings encode widen
      { s with next := applied settings.copied encode read s.next, read := none } := by
  have hpending : s.pending settings encode = applied settings.copied encode read s.next := by
    unfold Reshape.pending
    rw [hread]
  exact
    { h with
      spans := by
        intro topic
        rw [← hpending]
        exact h.pending_spans topic
      readOnce := fun other hother => nomatch hother
      unlisted := by
        intro hunlisted
        rw [(h.unlisted hunlisted).2.1] at hread
        cases hread
      mirrored := by
        intro hlisted topic
        have hmirrored := h.mirrored hlisted topic
        rw [hpending] at hmirrored
        exact hmirrored }

theorem Copies.caughtUp (h : Copies settings encode widen s) (hresting : s.Resting)
    (htakes : s.Takes order) (topic : TopicId) :
    HoldsSpans settings.copied encode (caughtUp settings encode widen s.served order s.next)
      topic (stored settings widen s.served topic) := by
  rcases hresting with ⟨hlisted, hwork, hread⟩
  have hpending : s.pending settings encode = s.next := by
    unfold Reshape.pending
    rw [Option.isNone_iff_eq_none.mp hread]
  rcases h.spans topic with ⟨spans, hspans⟩
  have hlast := holdsSpans_caughtUp widen s.served htakes.1 hspans
  rcases h.mirrored hlisted topic with htouched | hnone | hholds
  · rw [if_pos (htakes.2.2 htouched)] at hlast
    exact hlast
  · rw [hwork] at hnone
    cases hnone
  · rw [hpending] at hholds
    have hlast := holdsSpans_caughtUp widen s.served htakes.1 hholds
    rw [ite_self] at hlast
    exact hlast

theorem Copies.recheck (h : Copies settings encode widen s) (hresting : s.Resting)
    (htakes : s.Takes order) (hwriting : s.writing.isNone) :
    Copies settings encode widen
      { s with
        next := Index.caughtUp settings encode widen s.served order s.next, touched := [] } := by
  have hmirrors := h.caughtUp hresting htakes
  rcases hresting with ⟨hlisted, _, hread⟩
  exact
    { h with
      spans := fun topic => ⟨_, hmirrors topic⟩
      unlisted := by
        intro hunlisted
        rw [hlisted] at hunlisted
        cases hunlisted
      writing := by
        intro call hcall
        rw [Option.isNone_iff_eq_none.mp hwriting] at hcall
        cases hcall
      mirrored := by
        intro _ topic
        apply Or.inr (Or.inr _)
        unfold Reshape.pending
        rw [Option.isNone_iff_eq_none.mp hread]
        exact hmirrors topic }

theorem copies_step :
    PreservedWhen (reshapeStep settings encode widen) (fun _ => ListsOnce)
      (fun s => s.ended = false -> Copies settings encode widen s) := by
  intro s action t hinv hallowed hstep hover
  unfold reshapeStep at hstep
  cases hstart : s.ended with
  | true => simp [hstart] at hstep
  | false =>
      have h := hinv hstart
      have hon : ¬ s.ended = true := by simp [hstart]
      rw [if_neg hon] at hstep
      cases action with
      | touch call =>
          rcases Option.ite_none_right_eq_some.mp hstep with ⟨_, hsame⟩
          cases hsame
          exact h.touch call
      | write stop =>
          rcases Option.map_eq_some_iff.mp hstep with ⟨call, hwriting, hsame⟩
          cases hsame
          exact h.write hwriting stop
      | copy topics =>
          rcases Option.ite_none_right_eq_some.mp hstep with ⟨⟨hunlisted, hheld⟩, hsame⟩
          cases hsame
          exact h.copy hunlisted hheld hallowed
      | take order =>
          rcases Option.ite_none_right_eq_some.mp hstep with ⟨⟨hresting, htakes⟩, hsame⟩
          cases hsame
          exact h.take hresting htakes
      | read =>
          rcases Option.ite_none_right_eq_some.mp hstep with ⟨⟨hwriting, hread, hwork⟩, hsame⟩
          cases hsame
          exact h.read hwriting hread hwork
      | apply =>
          rcases Option.map_eq_some_iff.mp hstep with ⟨read, hread, hsame⟩
          cases hsame
          exact h.apply hread
      | recheck order =>
          rcases Option.ite_none_right_eq_some.mp hstep with
            ⟨⟨hresting, hwriting, htakes⟩, hsame⟩
          cases hsame
          exact h.recheck hresting htakes hwriting
      | swap order =>
          rcases Option.ite_none_right_eq_some.mp hstep with ⟨_, hsame⟩
          cases hsame
          cases hover
      | abandon =>
          cases hstep
          cases hover

theorem view_copiedAs (hcodec : forall v, widen (encode (widen (encode v))) = widen (encode v))
    {key : Key} {document : Document code}
    (h : exists encoding span, settings.document encode encoding span = (key, document))
    (topic : TopicId) (ordinal : Nat) :
    settings.copied.view widen
        (copiedAs settings.copied encode topic (settings.view widen document, ordinal)) =
      settings.view widen document := by
  rcases h with ⟨encoding, span, hdocument⟩
  have hdocument := (Prod.mk.inj hdocument).2
  rw [← hdocument]
  unfold copiedAs respan Settings.view Settings.document Settings.copied
  simp only [Option.filter_filter, hcodec]
  congr 1
  · congr 1
    funext header
    cases settings.headers <;> cases settings.passage <;> rfl
  · simp

theorem map_fetch_eq_iff {β : Type} {collection : Collection code} {topic : TopicId}
    (view : Document code -> β) :
    (forall ordinal, (fetch collection topic)[ordinal]?.map view =
        (collection.lookup (topic, ordinal)).map view) <-> ReadWhole collection topic := by
  constructor
  · intro hsame ordinal
    have hhere := hsame ordinal
    rw [getElem?_fetch] at hhere ⊢
    split
    · rfl
    · next hgap =>
      rw [if_neg hgap] at hhere
      exact (Option.map_eq_none_iff.mp hhere.symm).symm
  · intro hwhole ordinal
    rw [hwhole ordinal]

theorem Copies.swapped (h : Copies settings encode widen s)
    (hcodec : forall v, widen (encode (widen (encode v))) = widen (encode v))
    (hresting : s.Resting) (htakes : s.Takes order) (topic : TopicId) (ordinal : Nat) :
    ((Index.caughtUp settings encode widen s.served order s.next).lookup (topic, ordinal)).map
        (settings.copied.view widen) =
      (fetch s.served topic)[ordinal]?.map (settings.view widen) := by
  rw [h.caughtUp hresting htakes topic ordinal]
  unfold stored
  rw [List.getElem?_map]
  cases hread : (fetch s.served topic)[ordinal]? with
  | none => rfl
  | some document =>
      have hlookup : s.served.lookup (topic, ordinal) = some document := by
        rw [getElem?_fetch] at hread
        split at hread
        · exact hread
        · cases hread
      exact congrArg some (view_copiedAs hcodec (h.recorded _ _ hlookup) topic ordinal)

theorem swapsExactly_iff (hcodec : forall v, widen (encode (widen (encode v))) = widen (encode v))
    (h : s.ended = false -> Copies settings encode widen s) (action : ReshapeAction vector) :
    SwapsExactly settings encode widen s action <->
      SwapsUnbroken settings encode widen s action := by
  unfold SwapsExactly SwapsUnbroken
  apply forall_congr'
  intro order
  apply forall_congr'
  intro haction
  apply forall_congr'
  intro t
  apply forall_congr'
  intro hstep
  rw [haction] at hstep
  unfold reshapeStep at hstep
  rcases Option.ite_none_left_eq_some.mp hstep with ⟨hon, hstep⟩
  rcases Option.ite_none_right_eq_some.mp hstep with ⟨⟨hresting, _, htakes⟩, hsame⟩
  have hcopies := h (Bool.eq_false_of_not_eq_true hon)
  have hswapped := hcopies.swapped hcodec hresting htakes
  cases hsame
  constructor
  · intro hexact topic
    apply readWhole_iff.mp
    apply (map_fetch_eq_iff (settings.view widen)).mp
    intro ordinal
    rw [← hswapped topic ordinal]
    exact hexact (topic, ordinal)
  · intro hunbroken key
    rw [← (map_fetch_eq_iff (settings.view widen)).mpr (readWhole_iff.mpr (hunbroken key.1)) key.2]
    exact hswapped key.1 key.2

end Running

/--
Through any run of a reshape and of writes through the lock it holds, each stopped or not,
a swap leaves what the served index held if and only if that has no gap.
-/
theorem swapped_exactly_iff {vector code : Type} (settings : Settings)
    (encode : vector -> code) (widen : code -> vector)
    (hcodec : forall v, widen (encode (widen (encode v))) = widen (encode v))
    (served : Collection code) (hrecorded : Recorded settings encode served)
    (actions : List (ReshapeAction vector))
    (hlists : Along (reshapeStep settings encode widen) (fun _ => ListsOnce)
      (Reshape.begun served) actions) :
    Along (reshapeStep settings encode widen) (SwapsExactly settings encode widen)
        (Reshape.begun served) actions <->
      Along (reshapeStep settings encode widen) (SwapsUnbroken settings encode widen)
        (Reshape.begun served) actions :=
  along_iff_of_preservedWhen copies_step
    (fun _ action hinv => swapsExactly_iff hcodec hinv action)
    (fun _ => Copies.begun hrecorded) hlists

def threeHeld : Collection (List Nat) :=
  perform (writeSpans recordsAll halved threeSpans.val none) ∅

theorem recorded_threeHeld : Recorded recordsAll halved threeHeld := by
  have hempty : Recorded recordsAll halved ∅ := by
    intro key document hlookup
    cases hlookup
  exact recorded_perform hempty (Call.writeSpans threeSpans.val none) (List.Subset.refl _)

def removedMeanwhile : List (ReshapeAction (List Nat)) :=
  [ReshapeAction.copy [5], ReshapeAction.read, ReshapeAction.apply,
    ReshapeAction.touch (Call.delete [5]), ReshapeAction.write none, ReshapeAction.swap [5]]

theorem swapped_exactly_iff_removedMeanwhile :
    Along (reshapeStep recordsAll halved doubled) (SwapsExactly recordsAll halved doubled)
        (Reshape.begun threeHeld) removedMeanwhile <->
      Along (reshapeStep recordsAll halved doubled) (SwapsUnbroken recordsAll halved doubled)
        (Reshape.begun threeHeld) removedMeanwhile :=
  swapped_exactly_iff recordsAll halved doubled
    (fun vector => congrArg doubled (halved_doubled (halved vector))) threeHeld recorded_threeHeld
    removedMeanwhile (by decide)

def removalStopped : List (ReshapeAction (List Nat)) :=
  [ReshapeAction.touch (Call.delete [5]), ReshapeAction.write (some 2), ReshapeAction.copy [5],
    ReshapeAction.read, ReshapeAction.apply, ReshapeAction.swap [5]]

/-- The two spans above the gap are served before the swap, and not after it. -/
theorem swap_drops_spans_past_a_gap :
    ¬ Along (reshapeStep recordsAll halved doubled) (SwapsExactly recordsAll halved doubled)
      (Reshape.begun threeHeld) removalStopped := by
  intro hexact
  have hwritten := (hexact.2 _ rfl).2 _ rfl
  have happlied := ((hwritten.2 _ rfl).2 _ rfl).2 _ rfl
  have hsame := happlied.1 [5] rfl _ rfl (5, 1)
  revert hsame
  decide

end Index
end PaminMemory
