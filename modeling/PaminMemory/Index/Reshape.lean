import PaminMemory.Index.Replacing

/-!
# Reshaping an index while it is served

A copy is read from the served index a batch at a time under its lock and written outside
it, while writes go on.  Each write is recorded before it is made, and what was recorded is
read again: after the copy, and for the last time under the lock, right before the copy
takes the served index's place.
-/

namespace PaminMemory
namespace Index

open Foundation

structure Stored (vector : Type) where
  content : String
  header : Option String
  encoding : Option String
  embedding : vector
deriving DecidableEq, Repr

def COPY_BATCH : Nat := 256

/-- A copy is created in the served index's passage, and records all there is to record. -/
def Settings.copied (settings : Settings) : Settings :=
  { passage := settings.passage, encodings := true, headers := true }

section Reading

variable {vector code : Type} (settings : Settings) (widen : code -> vector)

def Settings.view (document : Document code) : Stored vector :=
  { content := document.content
    header := document.header.filter fun _ => settings.headers
    encoding := document.encoding.filter fun _ => settings.encodings
    embedding := widen document.embedding }

/--
What the index holds of each topic.  What was fetched of a topic is handed out once, so a
topic that is asked for again in the same call is read as one the index does not hold.
-/
def storedAll (collection : Collection code) : List TopicId -> List (TopicId × List (Stored vector))
  | [] => []
  | topic :: rest =>
      (topic, (fetch collection topic).map (settings.view widen)) ::
        (storedAll collection rest).map fun entry =>
          if entry.1 = topic then (entry.1, []) else entry

end Reading

/-!
## The copy

A batch of topics is read and then written; what is written through the lock meanwhile is kept
for the copy to catch up with.
-/

section Copying

variable {vector code : Type} (settings : Settings) (encode : vector -> code)

abbrev Read (vector : Type) := List (TopicId × List (Stored vector))

def respan (topic : TopicId) (item : Stored vector × Nat) :
    Option String × SpanDocument vector :=
  (item.1.encoding,
    { topic := topic, ordinal := item.2, content := item.1.content, header := item.1.header
      embedding := item.1.embedding })

def present (read : Read vector) : List (Option String × SpanDocument vector) :=
  read.flatMap fun entry => entry.2.zipIdx.map (respan entry.1)

/-- The order of what produced vectors: nothing recorded comes first. -/
def EncodingLe : Option String -> Option String -> Prop
  | none, _ => True
  | some _, none => False
  | some first, some second => first <= second

instance : DecidableRel EncodingLe := by
  intro first second
  cases first <;> cases second <;> (unfold EncodingLe; infer_instance)

def applyCalls (read : Read vector) (collection : Collection code) : List (EngineCall code) :=
  let encodings := (((present read).map Prod.fst).insertionSort EncodingLe).dedup
  let written := encodings.flatMap fun encoding =>
    writeSpans settings encode
      (((present read).filter fun span => span.1 = encoding).map Prod.snd) encoding
  written ++
    truncate (read.map fun entry => (entry.1, entry.2.length)) (perform written collection)

def applied (read : Read vector) (collection : Collection code) : Collection code :=
  perform (applyCalls settings encode read collection) collection

end Copying

def Call.topics {vector : Type} : Call vector -> List TopicId
  | replace documents _ => documents.val.map SpanDocument.topic
  | writeSpans documents _ => documents.map SpanDocument.topic
  | truncate cuts => cuts.map Prod.fst
  | delete topics => topics

/-- The served index and its copy, who writes, and how far the copy is. -/
structure Reshape (vector code : Type) where
  served : Collection code
  next : Collection code
  /-- The topics written since they were last taken. -/
  touched : List TopicId
  writing : Option (Call vector)
  /-- The topics still to be read, and the batch that was read and is not applied. -/
  work : List TopicId
  read : Option (Read vector)
  listed : Bool
  ended : Bool

/-- One statement of the reshape or of a write. -/
inductive ReshapeAction (vector : Type) where
  | touch (call : Call vector)
  | write (stop : Option Nat)
  | copy (topics : List TopicId)
  | take (order : List TopicId)
  | read
  | apply
  | recheck (order : List TopicId)
  | swap (order : List TopicId)
  | abandon

/-!
## The statements
-/

section Model

variable {vector code : Type} (settings : Settings) (encode : vector -> code)
  (widen : code -> vector)

def Reshape.Resting (s : Reshape vector code) : Prop :=
  s.listed = true ∧ s.work = [] ∧ s.read.isNone

instance (s : Reshape vector code) : Decidable s.Resting := by
  unfold Reshape.Resting
  infer_instance

def Reshape.Takes (s : Reshape vector code) (order : List TopicId) : Prop :=
  order.Nodup ∧ order ⊆ s.touched ∧ s.touched ⊆ order

instance (s : Reshape vector code) (order : List TopicId) : Decidable (s.Takes order) := by
  unfold Reshape.Takes
  infer_instance

def caughtUp (served : Collection code) (order : List TopicId) (next : Collection code) :
    Collection code :=
  (chunks COPY_BATCH order).foldl (fun next batch =>
    applied settings.copied encode (storedAll settings widen served batch) next) next

def reshapeStep (s : Reshape vector code) (action : ReshapeAction vector) :
    Option (Reshape vector code) :=
  if s.ended then
    none
  else
    match action with
    | ReshapeAction.touch call =>
        if s.writing.isNone then
          some { s with touched := s.touched ∪ call.topics, writing := some call }
        else
          none
    | ReshapeAction.write stop =>
        s.writing.map fun call =>
          { s with
            served := perform
              (({ call := call, stop := stop } : Attempt vector).made settings encode s.served)
              s.served
            writing := none }
    | ReshapeAction.copy topics =>
        -- the list is taken after the recording starts, and names all that is held then
        if s.listed = false ∧ s.served.keys.map Prod.fst ⊆ topics then
          some { s with work := topics, listed := true }
        else
          none
    | ReshapeAction.take order =>
        if s.Resting ∧ s.Takes order then
          some { s with work := order, touched := [] }
        else
          none
    | ReshapeAction.read =>
        if s.writing.isNone ∧ s.read.isNone ∧ s.work ≠ [] then
          some
            { s with
              read := some (storedAll settings widen s.served (s.work.take COPY_BATCH))
              work := s.work.drop COPY_BATCH }
        else
          none
    | ReshapeAction.apply =>
        s.read.map fun read =>
          { s with next := applied settings.copied encode read s.next, read := none }
    | ReshapeAction.recheck order =>
        -- a handle on the served index is still out, so the lock is let go of again
        if s.Resting ∧ s.writing.isNone ∧ s.Takes order then
          some
            { s with
              next := caughtUp settings encode widen s.served order s.next, touched := [] }
        else
          none
    | ReshapeAction.swap order =>
        if s.Resting ∧ s.writing.isNone ∧ s.Takes order then
          let next := caughtUp settings encode widen s.served order s.next
          some { s with next := next, served := next, touched := [], ended := true }
        else
          none
    | ReshapeAction.abandon => some { s with ended := true }

def Reshape.begun (served : Collection code) : Reshape vector code :=
  { served := served, next := ∅, touched := [], writing := none, work := [], read := none
    listed := false, ended := false }

/-!
## What a swap shall leave
-/

/-- A swap leaves every document of the served index, as it is read back, and no other. -/
def SwapsExactly (s : Reshape vector code) (action : ReshapeAction vector) : Prop :=
  forall order, action = ReshapeAction.swap order ->
    forall t, reshapeStep settings encode widen s action = some t ->
      forall key, (t.served.lookup key).map (settings.copied.view widen) =
        (s.served.lookup key).map (settings.view widen)

/-- What the served index holds of a topic at the swap has no gap. -/
def SwapsUnbroken (s : Reshape vector code) (action : ReshapeAction vector) : Prop :=
  forall order, action = ReshapeAction.swap order ->
    forall t, reshapeStep settings encode widen s action = some t ->
      forall topic, Unbroken s.served topic 0

/-- No batch of the list asks for a topic twice. -/
def ListsOnce : ReshapeAction vector -> Prop
  | ReshapeAction.copy topics =>
      forall batch, batch ∈ chunks COPY_BATCH topics -> batch.Nodup
  | _ => True

instance : DecidablePred (ListsOnce : ReshapeAction vector -> Prop) := by
  intro action
  cases action <;> (unfold ListsOnce; infer_instance)

end Model

/-!
## What a write changes
-/

section Writes

variable {vector code : Type} {settings : Settings} {encode : vector -> code}
  {collection : Collection code} {topics : List TopicId}

theorem within_truncating (n : Nat) {cuts : List Key} {collection : Collection code}
    (h : forall cut, cut ∈ cuts -> cut.1 ∈ topics) {call : EngineCall code}
    (hcall : call ∈ truncating n cuts collection) : call.Within topics := by
  induction n generalizing cuts collection with
  | zero => cases hcall
  | succ n ih =>
      unfold truncating at hcall
      split at hcall
      · cases hcall
      · rcases List.mem_append.mp hcall with hfetch | hrest
        · rcases List.mem_map.mp hfetch with ⟨keys, _, rfl⟩
          exact True.intro
        · rcases List.mem_append.mp hrest with hdelete | hlater
          · rcases List.mem_map.mp hdelete with ⟨keys, hkeys, rfl⟩
            intro key hkey
            have hmem := mem_of_mem_chunks (by decide) hkeys hkey
            exact h key (List.mem_filter.mp hmem).1
          · apply ih _ hlater
            intro next hnext
            rcases List.mem_map.mp hnext with ⟨cut, hcut, rfl⟩
            exact h cut (List.mem_filter.mp hcut).1

theorem upsert_not_truncating {n : Nat} {cuts : List Key} {collection : Collection code}
    {documents : List (Key × Document code)} :
    EngineCall.upsert documents ∉ truncating n cuts collection := by
  induction n generalizing cuts collection with
  | zero => exact List.not_mem_nil
  | succ n ih =>
      unfold truncating
      split
      · exact List.not_mem_nil
      · simp [ih]

theorem within_writeSpans {documents : List (SpanDocument vector)} {encoding : Option String}
    (h : forall document, document ∈ documents -> document.topic ∈ topics)
    {call : EngineCall code} (hcall : call ∈ writeSpans settings encode documents encoding) :
    call.Within topics := by
  rcases List.mem_map.mp hcall with ⟨chunk, hchunk, rfl⟩
  intro entry hentry
  rcases List.mem_map.mp (mem_of_mem_chunks (by decide) hchunk hentry) with
    ⟨document, hdocument, rfl⟩
  exact h document hdocument

theorem within_engineCalls (call : Call vector) {engineCall : EngineCall code}
    (h : engineCall ∈ call.engineCalls settings encode collection) :
    engineCall.Within call.topics := by
  cases call with
  | replace whole encoding =>
      rcases List.mem_append.mp h with hwritten | hcut
      · exact within_writeSpans (fun document => List.mem_map_of_mem) hwritten
      · apply within_truncating _ _ hcut
        intro cut hmem
        exact (mem_ends.mp hmem).1
  | writeSpans documents encoding =>
      exact within_writeSpans (fun document => List.mem_map_of_mem) h
  | truncate cuts => exact within_truncating _ (fun cut => List.mem_map_of_mem) h
  | delete topics =>
      apply within_truncating _ _ h
      intro cut hmem
      rcases List.mem_map.mp hmem with ⟨topic, htopic, rfl⟩
      exact htopic

/-- Every document is one the index wrote, with what it was created to record. -/
def Recorded (settings : Settings) (encode : vector -> code) (collection : Collection code) :
    Prop :=
  forall key document, collection.lookup key = some document ->
    exists encoding span, settings.document encode encoding span = (key, document)

theorem recorded_upsert {documents : List (SpanDocument vector)} {encoding : Option String}
    {entries : List (Key × Document code)}
    (h : EngineCall.upsert entries ∈ writeSpans settings encode documents encoding)
    {entry : Key × Document code} (hentry : entry ∈ entries) :
    exists encoding span, settings.document encode encoding span = (entry.1, entry.2) := by
  rcases List.mem_map.mp h with ⟨chunk, hchunk, hsame⟩
  cases hsame
  rcases List.mem_map.mp (mem_of_mem_chunks (by decide) hchunk hentry) with ⟨span, _, hspan⟩
  exact ⟨encoding, span, hspan⟩

theorem recorded_perform (h : Recorded settings encode collection) (call : Call vector)
    {calls : List (EngineCall code)}
    (hcalls : calls ⊆ call.engineCalls settings encode collection) :
    Recorded settings encode (perform calls collection) := by
  apply perform_documents _ h
  intro entries hmem entry hentry
  have hcall := hcalls hmem
  cases call with
  | replace whole encoding =>
      rcases List.mem_append.mp hcall with hwritten | hcut
      · exact recorded_upsert hwritten hentry
      · exact absurd hcut upsert_not_truncating
  | writeSpans documents encoding => exact recorded_upsert hcall hentry
  | truncate cuts => exact absurd hcall upsert_not_truncating
  | delete topics => exact absurd hcall upsert_not_truncating

theorem made_subset (attempt : Attempt vector) :
    attempt.made settings encode collection ⊆
      attempt.call.engineCalls settings encode collection := by
  unfold Attempt.made
  split
  · exact List.Subset.refl _
  · exact List.take_subset _ _

end Writes

end Index
end PaminMemory
