import Mathlib.Data.Finset.Lattice.Lemmas
import PaminMemory.Reindexing.Opening

/-!
# A rebuild, step by step

A rebuild moves the index aside, opens an empty one in its place and writes into it all that the
ledger says, most of it lent by the one set aside.  What it writes is on the disk once it has
flushed.
-/

namespace PaminMemory
namespace Reindexing

open Foundation
open Index (Cut Key Outcome Span chunks)

/-- What topics say, each cut into its spans. -/
abbrev States := AList fun _ : TopicId => Cut

abbrev Entry := Sigma fun _ : TopicId => Cut

def REINDEX_BATCH : Nat := 256

def keyed (topic : TopicId) (spans : List Span) : List Doc :=
  spans.zipIdx.map fun listed => ((topic, listed.2), listed.1)

/-!
## What a rebuild writes
-/

def docsOf (entries : List Entry) : List Doc :=
  entries.flatMap fun entry => keyed entry.1 entry.2.val

def restated (states : States) : Docs := (docsOf states.entries).toFinset

def ofTopic (documents : Docs) (topic : TopicId) : Docs :=
  documents.filter fun document => document.1.1 = topic

def lendsWhole (previous : Option Docs) (entry : Entry) : Bool :=
  previous.any fun documents =>
    ofTopic documents entry.1 = (keyed entry.1 entry.2.val).toFinset

def put (held : Docs) (document : Doc) : Docs :=
  insert document (held.filter fun other => other.1 ≠ document.1)

def putAll (held : Docs) (documents : List Doc) : Docs := documents.foldl put held

/-!
## How its steps may go
-/

/-- How writing documents goes; stopped, any of them were written. -/
inductive Writing where
  | done
  | stopped (written : Docs) (dies : Bool)
deriving DecidableEq

/-- How each step of a rebuild goes. -/
structure RebuildOutcomes where
  discardAside : Removal
  readMarker : Outcome
  moveAside : Outcome
  openAside : CollectionOutcomes
  discardLive : Removal
  discardLegacy : Outcome
  opening : OpenOutcomes
  repairPointers : Outcome
  nameIndex : Outcome
  readStates : Outcome
  cutSpans : Outcome
  countLendable : Outcome
  loadModel : Outcome
  lend : Writing
  /-- Of the batches that are embedded. -/
  encode : Nat -> Outcome
  write : Nat -> Writing
  flush : Outcome
  optimize : Outcome
  discardPrevious : Removal

/-!
## The rebuild

Topics that the index set aside holds as they are wanted are lent; the rest is embedded in
batches.
-/

section Program

def canLend (marker : Option Marker) : Bool :=
  marker.any fun recorded => recorded.isCurrent && recorded.grain

/-- Moves the index aside and opens it to lend its vectors, or deletes one that has none to. -/
def setAside (outcomes : RebuildOutcomes) : Crash World (Option Docs) := do
  discard Directory.previous outcomes.discardAside
  step outcomes.readMarker
  let marker <- look fun world => world.live.bind Folder.marker
  if canLend marker then do
    rename Directory.live Directory.previous outcomes.moveAside
    let documents <- openCollection Directory.previous outcomes.openAside
    pure (some documents)
  else do
    discard Directory.live outcomes.discardLive
    pure none

/-- Deletes the layout every project shared; stopped, something of it is left. -/
def discardLegacy (outcome : Outcome) : Crash World Unit :=
  fun world =>
    if world.legacy then
      match outcome with
      | Outcome.done => (Ending.returned (), { world with legacy := false })
      | Outcome.fails => (Ending.failed, world)
      | Outcome.dies => (Ending.died, world)
    else
      (Ending.returned (), world)

/-- Opens an engine for a rebuild, the one in the slot dropped first.  What a swap left aside was
recovered before. -/
def rebuilding (index : VectorIndex) (outcomes : RebuildOutcomes) : Crash World (Option Docs) := do
  change fun world => { world with serving := none }
  let previous <- setAside outcomes
  discardLegacy outcomes.discardLegacy
  let documents <- openAs index outcomes.opening
  change fun world => { world with serving := some documents }
  pure previous

def stepIf (needed : Bool) (outcome : Outcome) : Crash World Unit :=
  if needed then step outcome else pure ()

def write (documents : List Doc) (outcome : Writing) : Crash World Unit :=
  fun world =>
    match world.serving, outcome with
    | none, _ => (Ending.failed, world)
    | some held, Writing.done =>
        (Ending.returned (), { world with serving := some (putAll held documents) })
    | some held, Writing.stopped written dies =>
        (Ending.stopped dies,
          { world with serving := some (putAll held (documents.filter (· ∈ written))) })

def lend (previous : Option Docs) (documents : List Doc) (outcome : Writing) : Crash World Unit :=
  if previous.isSome then write documents outcome else pure ()

def embedAll (encode : Nat -> Outcome) (writes : Nat -> Writing) :
    Nat -> List (List Doc) -> Crash World Unit
  | _, [] => pure ()
  | n, batch :: rest => do
      step (encode n)
      write batch (writes n)
      embedAll encode writes (n + 1) rest

def flush (outcome : Outcome) : Crash World Unit :=
  fun world =>
    match outcome with
    | Outcome.done =>
        (Ending.returned (),
          setCollection Directory.live (world.serving.map Contents.holding) world)
    | Outcome.fails => (Ending.failed, world)
    | Outcome.dies => (Ending.died, world)

def lent (states : States) (previous : Option Docs) : List Entry :=
  states.entries.filter fun entry => lendsWhole previous entry

def missing (states : States) (previous : Option Docs) : List Entry :=
  states.entries.filter fun entry => !lendsWhole previous entry

def batches (states : States) (previous : Option Docs) : List (List Doc) :=
  chunks REINDEX_BATCH (docsOf (missing states previous))

def reindex (states : States) (outcomes : RebuildOutcomes) (previous : Option Docs) :
    Crash World Unit := do
  step outcomes.repairPointers
  step outcomes.nameIndex
  step outcomes.readStates
  step outcomes.cutSpans
  stepIf previous.isSome outcomes.countLendable
  -- The model is loaded only where something is not lent.
  stepIf ((lent states previous).length < states.entries.length) outcomes.loadModel
  lend previous (docsOf (lent states previous)) outcomes.lend
  embedAll outcomes.encode outcomes.write 0 (batches states previous)
  flush outcomes.flush
  step outcomes.optimize
  if previous.isSome then discard Directory.previous outcomes.discardPrevious else pure ()

def rebuild (index : VectorIndex) (states : States) (outcomes : RebuildOutcomes) :
    Crash World Unit := do
  let previous <- rebuilding index outcomes
  reindex states outcomes previous

end Program

/-!
## What is written
-/

section Written

variable {states : States} {held : Docs} {documents : List Doc} {document other : Doc}
  {topic : TopicId} {spans : List Span}

theorem mem_keyed : document ∈ keyed topic spans <->
    document.1.1 = topic ∧ spans[document.1.2]? = some document.2 := by
  unfold keyed
  rw [List.mem_map]
  constructor
  · rintro ⟨⟨span, ordinal⟩, hlisted, rfl⟩
    exact ⟨rfl, List.mk_mem_zipIdx_iff_getElem?.mp hlisted⟩
  · rintro ⟨rfl, hspan⟩
    exact ⟨(document.2, document.1.2), List.mk_mem_zipIdx_iff_getElem?.mpr hspan, rfl⟩

theorem mem_docsOf {entries : List Entry} : document ∈ docsOf entries <->
    exists entry, entry ∈ entries ∧ document.1.1 = entry.1 ∧
      entry.2.val[document.1.2]? = some document.2 := by
  unfold docsOf
  rw [List.mem_flatMap]
  exact exists_congr fun entry => and_congr_right fun _ => mem_keyed

theorem mem_restated : document ∈ restated states <-> document ∈ docsOf states.entries := by
  unfold restated
  exact List.mem_toFinset

theorem restated_inj (h : document ∈ restated states) (hother : other ∈ restated states)
    (hkey : document.1 = other.1) : document = other := by
  rcases mem_docsOf.mp (mem_restated.mp h) with ⟨entry, hentry, htopic, hspan⟩
  rcases mem_docsOf.mp (mem_restated.mp hother) with ⟨entry', hentry', htopic', hspan'⟩
  have hsame : entry.1 = entry'.1 := by rw [← htopic, ← htopic', hkey]
  have hentries : entry = entry' := states.nodupKeys.eq_of_fst_eq hentry hentry' hsame
  rw [hentries, hkey, hspan'] at hspan
  exact Prod.ext hkey (Option.some.inj hspan).symm

theorem put_eq (hheld : held ⊆ restated states) (h : document ∈ restated states) :
    put held document = insert document held := by
  ext other
  unfold put
  rw [Finset.mem_insert, Finset.mem_insert, Finset.mem_filter]
  constructor
  · rintro (hsame | hthere)
    · exact Or.inl hsame
    · exact Or.inr hthere.1
  · rintro (hsame | hthere)
    · exact Or.inl hsame
    · rcases eq_or_ne other.1 document.1 with hkey | hkey
      · exact Or.inl (restated_inj (hheld hthere) h hkey)
      · exact Or.inr ⟨hthere, hkey⟩

theorem putAll_eq (hheld : held ⊆ restated states)
    (h : forall document, document ∈ documents -> document ∈ restated states) :
    putAll held documents = held ∪ documents.toFinset := by
  induction documents generalizing held with
  | nil =>
      rw [List.toFinset_nil, Finset.union_empty]
      rfl
  | cons document rest ih =>
      have hdocument := h document List.mem_cons_self
      have hinserted : insert document held ⊆ restated states :=
        Finset.insert_subset hdocument hheld
      show putAll (put held document) rest = _
      rw [put_eq hheld hdocument, ih hinserted fun other hother =>
        h other (List.mem_cons_of_mem _ hother), List.toFinset_cons, Finset.insert_union,
        Finset.union_insert]

theorem lent_union_missing (states : States) (previous : Option Docs) :
    (docsOf (lent states previous)).toFinset ∪ (docsOf (missing states previous)).toFinset =
      restated states := by
  ext document
  rw [Finset.mem_union, List.mem_toFinset, List.mem_toFinset, mem_restated, mem_docsOf, mem_docsOf,
    mem_docsOf]
  constructor
  · rintro (⟨entry, hentry, hdocument⟩ | ⟨entry, hentry, hdocument⟩)
    · exact ⟨entry, List.mem_of_mem_filter hentry, hdocument⟩
    · exact ⟨entry, List.mem_of_mem_filter hentry, hdocument⟩
  · rintro ⟨entry, hentry, hdocument⟩
    cases hlends : lendsWhole previous entry with
    | true => exact Or.inl ⟨entry, List.mem_filter.mpr ⟨hentry, hlends⟩, hdocument⟩
    | false =>
        refine Or.inr ⟨entry, List.mem_filter.mpr ⟨hentry, ?_⟩, hdocument⟩
        rw [hlends]
        rfl

theorem ofTopic_restated_of_notMem (h : topic ∉ states) : ofTopic (restated states) topic = ∅ := by
  refine Finset.filter_eq_empty_iff.mpr ?_
  intro document hdocument htopic
  rcases mem_docsOf.mp (mem_restated.mp hdocument) with ⟨entry, hentry, hsame, _⟩
  apply h
  rw [← htopic, hsame]
  exact List.mem_keys_of_mem hentry

theorem ofTopic_restated_ne_empty (h : topic ∈ states) :
    ofTopic (restated states) topic ≠ ∅ := by
  rcases List.exists_of_mem_keys h with ⟨cut, hentry⟩
  rcases List.exists_mem_of_ne_nil _ cut.property with ⟨span, hspan⟩
  rcases List.getElem?_of_mem hspan with ⟨ordinal, hordinal⟩
  have hdocument : ((topic, ordinal), span) ∈ restated states :=
    mem_restated.mpr (mem_docsOf.mpr ⟨⟨topic, cut⟩, hentry, rfl, hordinal⟩)
  exact Finset.ne_empty_of_mem (Finset.mem_filter.mpr ⟨hdocument, rfl⟩)

end Written

end Reindexing
end PaminMemory
