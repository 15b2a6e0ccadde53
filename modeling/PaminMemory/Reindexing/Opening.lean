import PaminMemory.Index.Collection
import PaminMemory.Index.Documents
import PaminMemory.Index.Exchange

/-!
# Opening a project's index

An open puts back what a swap left aside, refuses a workspace that still has the shared layout
and an index recorded as another than is asked for, and creates an index where it finds none.
The registry hands out the engine it holds, if it holds one, and opens otherwise.
-/

namespace PaminMemory
namespace Reindexing

open Foundation
open Index (Key Outcome Passage Span)

/-- A span under its key. -/
abbrev Doc := Key × Span

abbrev Docs := Finset Doc

inductive VectorIndex where
  | disk
  | memory
deriving DecidableEq, Repr

def VectorIndex.label : VectorIndex -> String
  | disk => "disk"
  | memory => "memory"

def MODEL_ID : String := "gpahal/bge-m3-onnx-int8"

def PASSAGE : Passage := Passage.named

/-- What an index records it was built for, as it is read. -/
structure Marker where
  model : String
  /-- This build knows the grain it records. -/
  grain : Bool
  storage : String
  passage : Passage
deriving DecidableEq, Repr

namespace Marker

def current (index : VectorIndex) : Marker :=
  { model := MODEL_ID, grain := true, storage := index.label, passage := PASSAGE }

def isCurrent (marker : Marker) : Bool := marker.model = MODEL_ID && marker.passage = PASSAGE

def opensFor (marker : Marker) (index : VectorIndex) : Bool :=
  marker.model = MODEL_ID && marker.grain && marker.storage = index.label

def opens (marker : Marker) : Bool :=
  marker.opensFor VectorIndex.disk || marker.opensFor VectorIndex.memory

end Marker

/-- What is where a collection should be; the engine refuses one it cannot read. -/
inductive Contents where
  | unreadable
  | holding (documents : Docs)
deriving DecidableEq

/-- The directory of an index. -/
structure Folder where
  marker : Option Marker
  collection : Option Contents
deriving DecidableEq

def Folder.empty : Folder := { marker := none, collection := none }

/-- The directories of a project's index: the one it is served from, the one a rebuild has set
aside, and the one a swap moved away. -/
inductive Directory where
  | live
  | previous
  | replaced
deriving DecidableEq, Repr

/-- The directories, and the registry's slot for the project. -/
structure World where
  live : Option Folder
  previous : Option Folder
  replaced : Option Folder
  /-- The layout every project shared is still there. -/
  legacy : Bool
  serving : Option Docs
deriving DecidableEq

namespace World

def folder (world : World) : Directory -> Option Folder
  | Directory.live => world.live
  | Directory.previous => world.previous
  | Directory.replaced => world.replaced

def setFolder (world : World) (folder : Option Folder) : Directory -> World
  | Directory.live => { world with live := folder }
  | Directory.previous => { world with previous := folder }
  | Directory.replaced => { world with replaced := folder }

end World

/-- What is left of a directory whose removal stopped: whether its marker, and how much of its
collection, which may not be read any more. -/
structure Left where
  marker : Bool
  collection : Option (Option Docs)
deriving DecidableEq

def Left.ofFolder (left : Left) (folder : Folder) : Folder where
  marker := if left.marker then folder.marker else none
  collection :=
    match folder.collection, left.collection with
    | none, _ => none
    | some _, none => none
    | some (Contents.holding documents), some (some kept) =>
        some (Contents.holding (documents ∩ kept))
    | some _, some _ => some Contents.unreadable

/-!
## What a step may come to
-/

inductive Removal where
  | done
  | stopped (left : Left) (dies : Bool)
deriving DecidableEq

/-- How the creation of a collection goes; stopped, there is none, or an empty one, which may not
be read. -/
inductive Creation where
  | done
  | stopped (left : Option Bool) (dies : Bool)
deriving DecidableEq, Repr

/-- How a marker is written; stopped, what is there may be read as another. -/
inductive Recording where
  | done
  | stopped (left : Option Marker) (dies : Bool)
deriving DecidableEq, Repr

structure CollectionOutcomes where
  look : Outcome
  create : Creation
  openIt : Outcome

structure OpenOutcomes where
  lookForLegacy : Outcome
  createDirectory : Outcome
  readMarker : Outcome
  writeMarker : Recording
  collection : CollectionOutcomes

/-!
## The steps of an open

Each goes, fails or is where the process dies; nothing after a death is done.
-/

section Steps

def step (outcome : Outcome) : Crash World Unit :=
  fun world =>
    match outcome with
    | Outcome.done => (Ending.returned (), world)
    | Outcome.fails => (Ending.failed, world)
    | Outcome.dies => (Ending.died, world)

def change (after : World -> World) : Crash World Unit :=
  fun world => (Ending.returned (), after world)

def look {α : Type} (what : World -> α) : Crash World α :=
  fun world => (Ending.returned (what world), world)

def discard (directory : Directory) (outcome : Removal) : Crash World Unit :=
  fun world =>
    match world.folder directory, outcome with
    | none, _ => (Ending.returned (), world)
    | some _, Removal.done => (Ending.returned (), world.setFolder none directory)
    | some folder, Removal.stopped left dies =>
        (Ending.stopped dies, world.setFolder (some (left.ofFolder folder)) directory)

def rename (source target : Directory) (outcome : Outcome) : Crash World Unit :=
  fun world =>
    match outcome, world.folder source, world.folder target with
    | Outcome.done, some folder, none =>
        (Ending.returned (), (world.setFolder none source).setFolder (some folder) target)
    | Outcome.dies, _, _ => (Ending.died, world)
    | _, _, _ => (Ending.failed, world)

structure Recovering where
  lookForReplaced : Outcome
  lookForLive : Outcome
  discardReplaced : Removal
  moveBack : Outcome

/-- Puts back an index a swap moved aside and did not replace, and deletes one a finished swap
left behind. -/
def recover (outcomes : Recovering) : Crash World Unit := do
  step outcomes.lookForReplaced
  let replaced <- look World.replaced
  if replaced.isSome then
    step outcomes.lookForLive
    let live <- look World.live
    if live.isSome then
      discard Directory.replaced outcomes.discardReplaced
    else
      rename Directory.replaced Directory.live outcomes.moveBack
  else
    pure ()

def setCollection (directory : Directory) (contents : Option Contents) : World -> World :=
  fun world => world.setFolder
    ((world.folder directory).map fun folder => { folder with collection := contents }) directory

def createCollection (directory : Directory) (outcome : Creation) : Crash World Unit :=
  fun world =>
    match outcome with
    | Creation.done =>
        (Ending.returned (), setCollection directory (some (Contents.holding ∅)) world)
    | Creation.stopped left dies =>
        (Ending.stopped dies,
          setCollection directory
            (left.map fun read => if read then Contents.holding ∅ else Contents.unreadable) world)

def createMissing (directory : Directory) (outcome : Creation) : Crash World Unit :=
  fun world =>
    if (world.folder directory).bind Folder.collection = none then
      createCollection directory outcome world
    else
      (Ending.returned (), world)

def readCollection (directory : Directory) : Crash World Docs :=
  fun world =>
    match (world.folder directory).bind Folder.collection with
    | some (Contents.holding documents) => (Ending.returned documents, world)
    | _ => (Ending.failed, world)

def openCollection (directory : Directory) (outcomes : CollectionOutcomes) : Crash World Docs := do
  step outcomes.look
  createMissing directory outcomes.create
  step outcomes.openIt
  readCollection directory

def refuseLegacy : Crash World Unit :=
  fun world => if world.legacy then (Ending.failed, world) else (Ending.returned (), world)

def recordMarker (marker : Marker) (outcome : Recording) : Crash World Unit :=
  fun world =>
    let recorded := fun left : Option Marker =>
      { world with live := world.live.map fun folder => { folder with marker := left } }
    match outcome with
    | Recording.done => (Ending.returned (), recorded (some marker))
    | Recording.stopped left dies => (Ending.stopped dies, recorded left)

/-- Refuses an index recorded as another than is asked for, and records one that is not. -/
def checkMarker (index : VectorIndex) (outcome : Recording) : Crash World Unit :=
  fun world =>
    match world.live.bind Folder.marker with
    | some recorded =>
        if recorded.opensFor index then (Ending.returned (), world) else (Ending.failed, world)
    | none => recordMarker (Marker.current index) outcome world

def openAs (index : VectorIndex) (outcomes : OpenOutcomes) : Crash World Docs := do
  step outcomes.lookForLegacy
  refuseLegacy
  step outcomes.createDirectory
  change fun world => { world with live := some (world.live.getD Folder.empty) }
  step outcomes.readMarker
  checkMarker index outcomes.writeMarker
  openCollection Directory.live outcomes.collection

def getOrOpen (index : VectorIndex) (recovering : Recovering) (outcomes : OpenOutcomes) :
    Crash World Docs := do
  let serving <- look World.serving
  match serving with
  | some documents => pure documents
  | none => do
      recover recovering
      let documents <- openAs index outcomes
      change fun world => { world with serving := some documents }
      pure documents

end Steps

/-!
## What an open finds
-/

def readable : Option Contents -> Option Docs
  | none => some ∅
  | some Contents.unreadable => none
  | some (Contents.holding documents) => some documents

/-- What an open of a directory serves; `none` where it is refused. -/
def offered : Option Folder -> Option Docs
  | none => some ∅
  | some folder => if folder.marker.all Marker.opens then readable folder.collection else none

/-- The project may be opened next on this world: where the process goes on, or once it has ended
with any part of what was not flushed on the disk. -/
def World.closed (world : World) (kept : Finset Key) : World :=
  match world.serving with
  | none => world
  | some held =>
      let settled := fun durable : Docs =>
        held.filter (fun document => document.1 ∈ kept) ∪
          durable.filter fun document => document.1 ∉ kept
      { world with
        serving := none
        live := world.live.map fun folder =>
          { folder with
            collection := folder.collection.map fun contents =>
              match contents with
              | Contents.unreadable => Contents.unreadable
              | Contents.holding durable => Contents.holding (settled durable) } }

def Found (run : Ending Unit × World) (world : World) : Prop :=
  (run.1 ≠ Ending.died ∧ world = run.2) ∨ exists kept, world = run.2.closed kept

def Serves (run : Ending Unit × World) (documents : Docs) : Prop :=
  exists world index recovering outcomes final, Found run world ∧
    getOrOpen index recovering outcomes world = (Ending.returned documents, final)

section Offered

variable {world final : World} {documents : Docs} {index : VectorIndex} {folder : Folder}

theorem step_eq_returned {outcome : Outcome} :
    step outcome world = (Ending.returned (), final) <->
      outcome = Outcome.done ∧ final = world := by
  cases outcome with
  | done =>
      constructor
      · intro h
        cases h
        exact ⟨rfl, rfl⟩
      · rintro ⟨_, rfl⟩
        rfl
  | fails =>
      constructor
      · intro h
        cases h
      · rintro ⟨h, _⟩
        cases h
  | dies =>
      constructor
      · intro h
        cases h
      · rintro ⟨h, _⟩
        cases h

theorem opens_iff {marker : Marker} :
    marker.opens = true <-> exists index, marker.opensFor index = true := by
  unfold Marker.opens
  rw [Bool.or_eq_true]
  constructor
  · rintro (h | h)
    · exact ⟨_, h⟩
    · exact ⟨_, h⟩
  · rintro ⟨index, h⟩
    cases index with
    | disk => exact Or.inl h
    | memory => exact Or.inr h

theorem opens_current (index : VectorIndex) : (Marker.current index).opensFor index = true := by
  cases index <;> rfl

theorem readable_of_openCollection {outcomes : CollectionOutcomes}
    (hlive : world.live = some folder)
    (h : openCollection Directory.live outcomes world = (Ending.returned documents, final)) :
    readable folder.collection = some documents := by
  unfold openCollection at h
  rcases Crash.bind_eq_returned.mp h with ⟨_, _, hlook, h⟩
  cases (step_eq_returned.mp hlook).2
  rcases Crash.bind_eq_returned.mp h with ⟨_, between, hcreate, h⟩
  rcases Crash.bind_eq_returned.mp h with ⟨_, _, hopen, hread⟩
  cases (step_eq_returned.mp hopen).2
  have hfound : (world.folder Directory.live).bind Folder.collection = folder.collection := by
    rw [World.folder, hlive]
    rfl
  unfold createMissing at hcreate
  rw [hfound] at hcreate
  cases hcollection : folder.collection with
  | none =>
      rw [hcollection, if_pos rfl] at hcreate
      unfold createCollection setCollection at hcreate
      cases houtcome : outcomes.create with
      | done =>
          rw [houtcome] at hcreate
          cases hcreate
          simp only [readCollection, World.folder, World.setFolder, hlive] at hread
          cases hread
          rfl
      | stopped left dies =>
          rw [houtcome] at hcreate
          cases dies <;> cases hcreate
  | some contents =>
      rw [hcollection, if_neg (Option.some_ne_none contents)] at hcreate
      cases hcreate
      unfold readCollection at hread
      rw [hfound, hcollection] at hread
      cases contents with
      | unreadable => cases hread
      | holding held =>
          cases hread
          rfl

theorem refuseLegacy_eq_returned :
    refuseLegacy world = (Ending.returned (), final) <-> world.legacy = false ∧ final = world := by
  unfold refuseLegacy
  cases world.legacy with
  | true =>
      constructor
      · intro h
        cases h
      · rintro ⟨h, _⟩
        cases h
  | false =>
      constructor
      · intro h
        cases h
        exact ⟨rfl, rfl⟩
      · rintro ⟨_, rfl⟩
        rfl

theorem opens_of_checkMarker {outcome : Recording} (hlive : world.live = some folder)
    (h : checkMarker index outcome world = (Ending.returned (), final)) :
    folder.marker.all Marker.opens = true ∧
      exists marker, final.live = some { folder with marker := some marker } := by
  have hmarker : world.live.bind Folder.marker = folder.marker := by
    rw [hlive]
    rfl
  unfold checkMarker at h
  rw [hmarker] at h
  cases hrecorded : folder.marker with
  | none =>
      rw [hrecorded] at h
      refine ⟨rfl, Marker.current index, ?_⟩
      unfold recordMarker at h
      cases outcome with
      | done =>
          cases h
          rw [hlive]
          rfl
      | stopped left dies => cases dies <;> cases h
  | some recorded =>
      rw [hrecorded] at h
      cases hopens : recorded.opensFor index with
      | true =>
          simp only [hopens, if_true] at h
          cases h
          refine ⟨opens_iff.mpr ⟨index, hopens⟩, recorded, ?_⟩
          rw [hlive, ← hrecorded]
      | false =>
          simp only [hopens, Bool.false_eq_true, if_false] at h
          cases h

theorem offered_of_openAs {outcomes : OpenOutcomes}
    (h : openAs index outcomes world = (Ending.returned documents, final)) :
    world.legacy = false ∧ offered world.live = some documents := by
  unfold openAs at h
  rcases Crash.bind_eq_returned.mp h with ⟨_, _, hlook, hlooked⟩
  rcases Crash.bind_eq_returned.mp hlooked with ⟨_, _, hrefuse, hrefused⟩
  rcases Crash.bind_eq_returned.mp hrefused with ⟨_, _, hcreate, hcreated⟩
  rcases Crash.bind_eq_returned.mp hcreated with ⟨_, _, hchange, hchanged⟩
  rcases Crash.bind_eq_returned.mp hchanged with ⟨_, _, hmark, hmarked⟩
  rcases Crash.bind_eq_returned.mp hmarked with ⟨_, _, hcheck, hopen⟩
  cases (step_eq_returned.mp hlook).2
  rcases refuseLegacy_eq_returned.mp hrefuse with ⟨hlegacy, hsame⟩
  cases hsame
  cases (step_eq_returned.mp hcreate).2
  cases hchange
  cases (step_eq_returned.mp hmark).2
  rcases opens_of_checkMarker rfl hcheck with ⟨hopens, marker, hlive⟩
  have hread := readable_of_openCollection hlive hopen
  refine ⟨hlegacy, ?_⟩
  cases hfound : world.live with
  | none =>
      rw [hfound] at hread
      exact hread
  | some folder =>
      rw [hfound] at hread hopens
      exact (if_pos hopens).trans hread

/-!
## An open of which every step goes
-/

def opensSmoothly : OpenOutcomes where
  lookForLegacy := Outcome.done
  createDirectory := Outcome.done
  readMarker := Outcome.done
  writeMarker := Recording.done
  collection := { look := Outcome.done, create := Creation.done, openIt := Outcome.done }

def recoversSmoothly : Recovering where
  lookForReplaced := Outcome.done
  lookForLive := Outcome.done
  discardReplaced := Removal.done
  moveBack := Outcome.done

theorem openCollection_smoothly (hlive : world.live = some folder)
    (h : readable folder.collection = some documents) :
    exists final, openCollection Directory.live opensSmoothly.collection world =
      (Ending.returned documents, final) := by
  rcases world with ⟨live, previous, replaced, legacy, serving⟩
  rcases folder with ⟨marker, collection⟩
  cases hlive
  cases collection with
  | none =>
      cases h
      exact ⟨_, rfl⟩
  | some contents =>
      cases contents with
      | unreadable => cases h
      | holding held =>
          cases h
          exact ⟨_, rfl⟩

theorem openAs_smoothly (hlegacy : world.legacy = false)
    (h : offered world.live = some documents) :
    exists index final, openAs index opensSmoothly world = (Ending.returned documents, final) := by
  rcases world with ⟨live, previous, replaced, legacy, serving⟩
  cases hlegacy
  cases live with
  | none =>
      cases h
      exact ⟨VectorIndex.memory, _, rfl⟩
  | some folder =>
      rcases folder with ⟨marker, collection⟩
      rcases Option.ite_none_right_eq_some.mp h with ⟨hopens, hreadable⟩
      cases marker with
      | none =>
          rcases @openCollection_smoothly
            ⟨some ⟨some (Marker.current VectorIndex.memory), collection⟩, previous, replaced, false,
              serving⟩ documents _ rfl hreadable with ⟨final, hfinal⟩
          exact ⟨VectorIndex.memory, final, hfinal⟩
      | some recorded =>
          rcases opens_iff.mp hopens with ⟨index, hindex⟩
          rcases @openCollection_smoothly
            ⟨some ⟨some recorded, collection⟩, previous, replaced, false, serving⟩ documents _ rfl
              hreadable with ⟨final, hfinal⟩
          refine ⟨index, final, ?_⟩
          rw [← hfinal]
          show (checkMarker index Recording.done >>= fun _ => _) _ = _
          have hcheck : checkMarker index Recording.done
              ⟨some ⟨some recorded, collection⟩, previous, replaced, false, serving⟩ =
                (Ending.returned (), ⟨some ⟨some recorded, collection⟩, previous, replaced, false,
                  serving⟩) := if_pos hindex
          exact Crash.bind_returned hcheck

theorem recover_nothing {recovering : Recovering} {u : Unit} (hreplaced : world.replaced = none)
    (h : recover recovering world = (Ending.returned u, final)) : final = world := by
  unfold recover at h
  rcases Crash.bind_eq_returned.mp h with ⟨_, _, hlook, hlooked⟩
  cases (step_eq_returned.mp hlook).2
  rcases Crash.bind_eq_returned.mp hlooked with ⟨found, _, hfound, hrest⟩
  cases hfound
  rw [hreplaced] at hrest
  cases hrest
  rfl

/-- Where the registry holds no engine and no swap left an index aside, an open serves what its
directory offers, unless the shared layout is there. -/
theorem getOrOpen_iff (hserving : world.serving = none) (hreplaced : world.replaced = none) :
    (exists index recovering outcomes final,
      getOrOpen index recovering outcomes world = (Ending.returned documents, final)) <->
      world.legacy = false ∧ offered world.live = some documents := by
  constructor
  · rintro ⟨index, recovering, outcomes, final, h⟩
    unfold getOrOpen at h
    rcases Crash.bind_eq_returned.mp h with ⟨held, _, hheld, hopen⟩
    cases hheld
    rw [hserving] at hopen
    rcases Crash.bind_eq_returned.mp hopen with ⟨_, _, hrecover, hrecovered⟩
    cases recover_nothing hreplaced hrecover
    rcases Crash.bind_eq_returned.mp hrecovered with ⟨found, _, hfound, hchange⟩
    rcases Crash.bind_eq_returned.mp hchange with ⟨_, _, hserve, hresult⟩
    cases hresult
    exact offered_of_openAs hfound
  · rintro ⟨hlegacy, hoffered⟩
    rcases openAs_smoothly hlegacy hoffered with ⟨index, final, hopen⟩
    refine ⟨index, recoversSmoothly, opensSmoothly, { final with serving := some documents }, ?_⟩
    have hrecover : recover recoversSmoothly world = (Ending.returned (), world) := by
      rcases world with ⟨live, previous, replaced, legacy, serving⟩
      cases hreplaced
      rfl
    unfold getOrOpen
    rw [Crash.bind_returned (show look World.serving world = (Ending.returned none, world) by
      rw [← hserving]
      rfl)]
    show (recover recoversSmoothly >>= fun _ => _) world = _
    rw [Crash.bind_returned hrecover, Crash.bind_returned hopen]
    rfl

end Offered

end Reindexing
end PaminMemory
