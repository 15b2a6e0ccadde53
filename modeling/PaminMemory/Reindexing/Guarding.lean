import PaminMemory.Reindexing.Stopping

/-!
# A rebuild that fails or dies

The old index is out of its place from its move, or its deletion, on; until the new one is flushed
nothing but the syncs that are owed makes up for a rebuild that stops.
-/

namespace PaminMemory
namespace Reindexing

open Foundation
open Index (Outcome)

/-- The marker of the old index was read, once what an earlier rebuild had set aside was gone. -/
structure MarkerRead (leftover : Option Folder) (outcomes : RebuildOutcomes) : Prop where
  discardAside : leftover = none ∨ outcomes.discardAside = Removal.done
  readMarker : outcomes.readMarker = Outcome.done

structure AsideOpened (outcomes : CollectionOutcomes) : Prop where
  look : outcomes.look = Outcome.done
  openIt : outcomes.openIt = Outcome.done

inductive Spared (states : States) (previous : Option Docs) (legacy : Bool)
    (outcomes : RebuildOutcomes) : Prop where
  | legacy (hlegacy : legacy = true) (hleft : outcomes.discardLegacy ≠ Outcome.done) :
      Spared states previous legacy outcomes
  | refused (hgone : legacy = true -> outcomes.discardLegacy = Outcome.done)
      (hrefused : Refused outcomes.opening) : Spared states previous legacy outcomes
  | restated (hgone : legacy = true -> outcomes.discardLegacy = Outcome.done)
      (hcreated : Created outcomes.opening) (hrestates : Restates states previous outcomes) :
      Spared states previous legacy outcomes

section Guarded

variable (old : Docs) (marker : Option Marker) (leftover : Option Folder) (legacy : Bool)
  (states : States) (owed : Finset TopicId) (outcomes : RebuildOutcomes)

def oldFolder : Folder := { marker := marker, collection := some (Contents.holding old) }

def standing (serving : Option Docs) : World :=
  { live := some (oldFolder old marker), previous := leftover, replaced := none, legacy := legacy
    serving := serving }

/-!
## What is not in service while it is rebuilt
-/

/-- Wherever the rebuild stops, what the next open finds is made up for. -/
structure Guarded : Prop where
  /-- The old index is where it was; only an empty one is to be made up for. -/
  untouched : ¬(MarkerRead leftover outcomes ∧
      (canLend marker = true -> outcomes.moveAside = Outcome.done)) ->
    legacy = false -> marker.all Marker.opens = true -> old = ∅ -> AllOwed states owed
  /-- A part is left of an index that has nothing to lend. -/
  deleting : MarkerRead leftover outcomes -> canLend marker = false ->
    forall left dies, outcomes.discardLive = Removal.stopped left dies -> legacy = false ->
      forall documents, offered (some (left.ofFolder (oldFolder old marker))) = some documents ->
        MayServe old states owed documents
  deleted : MarkerRead leftover outcomes -> canLend marker = false ->
    outcomes.discardLive = Removal.done -> AllOwed states owed ∨ Spared states none legacy outcomes
  /-- The old index is aside, and was not opened there. -/
  refused : MarkerRead leftover outcomes -> canLend marker = true ->
    outcomes.moveAside = Outcome.done -> ¬AsideOpened outcomes.openAside ->
      AllOwed states owed ∨ legacy = true
  moved : MarkerRead leftover outcomes -> canLend marker = true ->
    outcomes.moveAside = Outcome.done -> AsideOpened outcomes.openAside ->
      AllOwed states owed ∨ Spared states (some old) legacy outcomes

end Guarded

section Leaves

variable {old : Docs} {marker : Option Marker} {leftover : Option Folder} {legacy : Bool}
  {states : States} {owed : Finset TopicId} {outcomes : RebuildOutcomes} {world : World}

theorem neverInService_untouched {dies : Bool} (hserving : world.serving = none)
    (hreplaced : world.replaced = none) (hlegacy : world.legacy = legacy)
    (hlive : world.live = some (oldFolder old marker))
    (hstop : ¬(MarkerRead leftover outcomes ∧
      (canLend marker = true -> outcomes.moveAside = Outcome.done))) :
    NeverInService old states owed (Ending.stopped dies, world) <->
      Guarded old marker leftover legacy states owed outcomes := by
  rw [neverInService_idle hserving hreplaced, hlegacy, hlive]
  constructor
  · intro hserves
    refine
      { untouched := ?_
        deleting := fun hread hlends => absurd ⟨hread, fun h => absurd (h.symm.trans hlends) nofun⟩
          hstop
        deleted := fun hread hlends => absurd ⟨hread, fun h => absurd (h.symm.trans hlends) nofun⟩
          hstop
        refused := fun hread _ hmove => absurd ⟨hread, fun _ => hmove⟩ hstop
        moved := fun hread _ hmove => absurd ⟨hread, fun _ => hmove⟩ hstop }
    intro _ hnone hopens hempty
    have hoffered : offered (some (oldFolder old marker)) = some old := if_pos hopens
    have hmay := hserves hnone old hoffered
    rw [hempty] at hmay
    exact mayServe_empty.mp hmay
  · intro hguarded hnone documents hoffered
    have hwhole : documents = old := offered_holding hoffered
    rcases Finset.eq_empty_or_nonempty old with hempty | hsome
    · have hopens : marker.all Marker.opens = true := (Option.ite_none_right_eq_some.mp hoffered).1
      rw [hwhole, hempty]
      exact mayServe_empty.mpr (hguarded.untouched hstop hnone hopens hempty)
    · exact MayServe.old (hwhole ▸ hsome) hwhole

theorem spared_iff {previous : Option Docs}
    (hgone : legacy = true -> outcomes.discardLegacy = Outcome.done) :
    Spared states previous legacy outcomes <->
      Refused outcomes.opening ∨
        (Created outcomes.opening ∧ Restates states previous outcomes) := by
  constructor
  · intro h
    cases h with
    | legacy hlegacy hleft => exact absurd (hgone hlegacy) hleft
    | refused _ hrefused => exact Or.inl hrefused
    | restated _ hcreated hrestates => exact Or.inr ⟨hcreated, hrestates⟩
  · rintro (hrefused | ⟨hcreated, hrestates⟩)
    · exact Spared.refused hgone hrefused
    · exact Spared.restated hgone hcreated hrestates

def refill (index : VectorIndex) (states : States) (outcomes : RebuildOutcomes)
    (previous : Option Docs) : Crash World Unit :=
  discardLegacy outcomes.discardLegacy >>= fun _ =>
    openAs index outcomes.opening >>= fun documents =>
      change (fun world => { world with serving := some documents }) >>= fun _ =>
        reindex states outcomes previous

theorem neverInService_openNew {index : VectorIndex} (previous : Option Docs) (h : Idle world)
    (hlive : world.live = none) :
    NeverInService old states owed ((openAs index outcomes.opening >>= fun documents =>
        change (fun world => { world with serving := some documents }) >>= fun _ =>
          reindex states outcomes previous) world) <->
      AllOwed states owed ∨ (Refused outcomes.opening ∨
        (Created outcomes.opening ∧ Restates states previous outcomes)) := by
  apply neverInService_openAs h hlive
  apply neverInService_reindex previous
  exact
    { serving := rfl
      replaced := h.replaced
      legacy := h.legacy
      live := ⟨_, opens_iff.mpr ⟨index, opens_current index⟩, rfl⟩
      part := Finset.empty_subset _ }

theorem neverInService_refill {index : VectorIndex} (previous : Option Docs)
    (hserving : world.serving = none) (hreplaced : world.replaced = none)
    (hlive : world.live = none) :
    NeverInService old states owed (refill index states outcomes previous world) <->
      AllOwed states owed ∨ Spared states previous world.legacy outcomes := by
  unfold refill
  cases hlegacy : world.legacy with
  | false =>
      have hgone : discardLegacy outcomes.discardLegacy world = (Ending.returned (), world) := by
        unfold discardLegacy
        rw [hlegacy]
        rfl
      have hnone : false = true -> outcomes.discardLegacy = Outcome.done := nofun
      rw [Crash.bind_returned hgone, spared_iff hnone]
      exact neverInService_openNew previous ⟨hserving, hreplaced, hlegacy⟩ hlive
  | true =>
      have hleft : forall dies, NeverInService old states owed (Ending.stopped dies, world) := by
        intro dies
        apply (neverInService_idle hserving hreplaced).mpr
        intro hnone
        rw [hlegacy] at hnone
        cases hnone
      cases hdiscard : outcomes.discardLegacy with
      | done =>
          have hgone : discardLegacy Outcome.done world =
              (Ending.returned (), { world with legacy := false }) := by
            unfold discardLegacy
            rw [hlegacy]
            rfl
          rw [Crash.bind_returned hgone, spared_iff fun _ => hdiscard]
          exact neverInService_openNew previous ⟨hserving, hreplaced, rfl⟩ hlive
      | fails =>
          have hstopped : discardLegacy Outcome.fails world = (Ending.stopped false, world) := by
            unfold discardLegacy
            rw [hlegacy]
            rfl
          rw [Crash.bind_stopped hstopped]
          exact iff_of_true (hleft false) (Or.inr (Spared.legacy rfl (by rw [hdiscard]; nofun)))
      | dies =>
          have hstopped : discardLegacy Outcome.dies world = (Ending.stopped true, world) := by
            unfold discardLegacy
            rw [hlegacy]
            rfl
          rw [Crash.bind_stopped hstopped]
          exact iff_of_true (hleft true) (Or.inr (Spared.legacy rfl (by rw [hdiscard]; nofun)))

/-!
## What a rebuild leaves where it stops

One lemma for each step it may stop at.
-/

theorem rebuild_eq (index : VectorIndex) (world : World) :
    rebuild index states outcomes world =
      (setAside outcomes >>= refill index states outcomes) { world with serving := none } := by
  unfold rebuild rebuilding
  simp only [Crash.bind_assoc]
  rfl

theorem discard_leftover (h : leftover = none ∨ outcomes.discardAside = Removal.done) :
    discard Directory.previous outcomes.discardAside (standing old marker leftover legacy none) =
      (Ending.returned (), standing old marker none legacy none) := by
  unfold discard
  cases leftover with
  | none => rfl
  | some folder =>
      rcases h with h | h
      · cases h
      · rw [h]
        rfl

theorem discard_leftover_stopped (h : ¬(leftover = none ∨ outcomes.discardAside = Removal.done)) :
    exists folder dies,
      discard Directory.previous outcomes.discardAside (standing old marker leftover legacy none) =
        (Ending.stopped dies, standing old marker folder legacy none) := by
  unfold discard
  cases leftover with
  | none => exact absurd (Or.inl rfl) h
  | some folder =>
      cases houtcome : outcomes.discardAside with
      | done => exact absurd (Or.inr houtcome) h
      | stopped left dies => exact ⟨some (left.ofFolder folder), dies, rfl⟩

theorem step_stopped {outcome : Outcome} (h : outcome ≠ Outcome.done) (world : World) :
    exists dies, step outcome world = (Ending.stopped dies, world) := by
  cases outcome with
  | done => exact absurd rfl h
  | fails => exact ⟨false, rfl⟩
  | dies => exact ⟨true, rfl⟩

theorem setAside_unread (h : ¬MarkerRead leftover outcomes) :
    exists folder dies, setAside outcomes (standing old marker leftover legacy none) =
      (Ending.stopped dies, standing old marker folder legacy none) := by
  unfold setAside
  by_cases hdiscard : leftover = none ∨ outcomes.discardAside = Removal.done
  · have hread : outcomes.readMarker ≠ Outcome.done := fun hread => h ⟨hdiscard, hread⟩
    rcases step_stopped hread (standing old marker none legacy none) with ⟨dies, hstopped⟩
    refine ⟨none, dies, ?_⟩
    rw [Crash.bind_returned (discard_leftover hdiscard), Crash.bind_stopped hstopped]
  · rcases @discard_leftover_stopped old marker leftover legacy outcomes hdiscard with
      ⟨folder, dies, hstopped⟩
    refine ⟨folder, dies, ?_⟩
    rw [Crash.bind_stopped hstopped]

theorem setAside_read (h : MarkerRead leftover outcomes) :
    setAside outcomes (standing old marker leftover legacy none) =
      (if canLend marker then
        rename Directory.live Directory.previous outcomes.moveAside >>= fun _ =>
          openCollection Directory.previous outcomes.openAside >>= fun documents =>
            pure (some documents)
      else
        discard Directory.live outcomes.discardLive >>= fun _ => pure none)
        (standing old marker none legacy none) := by
  have hread : step outcomes.readMarker (standing old marker none legacy none) =
      (Ending.returned (), standing old marker none legacy none) := by
    rw [h.readMarker]
    rfl
  unfold setAside
  rw [Crash.bind_returned (discard_leftover h.discardAside), Crash.bind_returned hread]
  rfl

theorem setAside_unmoved (hread : MarkerRead leftover outcomes) (hlends : canLend marker = true)
    (hmove : outcomes.moveAside ≠ Outcome.done) :
    exists dies, setAside outcomes (standing old marker leftover legacy none) =
      (Ending.stopped dies, standing old marker none legacy none) := by
  rw [setAside_read hread, if_pos hlends]
  cases houtcome : outcomes.moveAside with
  | done => exact absurd houtcome hmove
  | fails => exact ⟨false, rfl⟩
  | dies => exact ⟨true, rfl⟩

def aside (old : Docs) (marker : Option Marker) (legacy : Bool) : World :=
  { live := none, previous := some (oldFolder old marker), replaced := none, legacy := legacy
    serving := none }

theorem openCollection_aside (h : AsideOpened outcomes.openAside) :
    openCollection Directory.previous outcomes.openAside (aside old marker legacy) =
      (Ending.returned old, aside old marker legacy) := by
  unfold openCollection
  rw [h.look, h.openIt]
  rfl

theorem openCollection_refused (h : ¬AsideOpened outcomes.openAside) :
    exists dies, openCollection Directory.previous outcomes.openAside (aside old marker legacy) =
      (Ending.stopped dies, aside old marker legacy) := by
  have hmissing : createMissing Directory.previous outcomes.openAside.create
      (aside old marker legacy) = (Ending.returned (), aside old marker legacy) := rfl
  unfold openCollection
  by_cases hlook : outcomes.openAside.look = Outcome.done
  · have hopen : outcomes.openAside.openIt ≠ Outcome.done := fun hopen => h ⟨hlook, hopen⟩
    rcases step_stopped hopen (aside old marker legacy) with ⟨dies, hstopped⟩
    refine ⟨dies, ?_⟩
    rw [hlook]
    rw [Crash.bind_returned (show step Outcome.done (aside old marker legacy) = _ from rfl),
      Crash.bind_returned hmissing, Crash.bind_stopped hstopped]
  · rcases step_stopped hlook (aside old marker legacy) with ⟨dies, hstopped⟩
    exact ⟨dies, Crash.bind_stopped hstopped⟩

theorem guarded_moved (hread : MarkerRead leftover outcomes) (hlends : canLend marker = true)
    (hmove : outcomes.moveAside = Outcome.done) :
    Guarded old marker leftover legacy states owed outcomes <->
      AllOwed states owed ∨ (¬AsideOpened outcomes.openAside ∧ legacy = true) ∨
        (AsideOpened outcomes.openAside ∧ Spared states (some old) legacy outcomes) := by
  constructor
  · intro h
    by_cases hopened : AsideOpened outcomes.openAside
    · rcases h.moved hread hlends hmove hopened with howed | hspared
      · exact Or.inl howed
      · exact Or.inr (Or.inr ⟨hopened, hspared⟩)
    · rcases h.refused hread hlends hmove hopened with howed | hlegacy
      · exact Or.inl howed
      · exact Or.inr (Or.inl ⟨hopened, hlegacy⟩)
  · intro h
    refine
      { untouched := fun hstop => absurd ⟨hread, fun _ => hmove⟩ hstop
        deleting := fun _ hnone => nomatch hlends.symm.trans hnone
        deleted := fun _ hnone => nomatch hlends.symm.trans hnone
        refused := ?_
        moved := ?_ }
    · intro _ _ _ hclosed
      rcases h with howed | ⟨_, hlegacy⟩ | ⟨hopened, _⟩
      · exact Or.inl howed
      · exact Or.inr hlegacy
      · exact absurd hopened hclosed
    · intro _ _ _ hopened
      rcases h with howed | ⟨hclosed, _⟩ | ⟨_, hspared⟩
      · exact Or.inl howed
      · exact absurd hopened hclosed
      · exact Or.inr hspared

theorem guarded_deleted (hread : MarkerRead leftover outcomes) (hlends : canLend marker = false) :
    Guarded old marker leftover legacy states owed outcomes <->
      match outcomes.discardLive with
      | Removal.done => AllOwed states owed ∨ Spared states none legacy outcomes
      | Removal.stopped left _ => legacy = false -> forall documents,
          offered (some (left.ofFolder (oldFolder old marker))) = some documents ->
            MayServe old states owed documents := by
  have hnone : canLend marker = true -> False := fun h => nomatch h.symm.trans hlends
  cases hdiscard : outcomes.discardLive with
  | done =>
      constructor
      · exact fun h => h.deleted hread hlends hdiscard
      · intro h
        exact
          { untouched := fun hstop => absurd ⟨hread, fun h => (hnone h).elim⟩ hstop
            deleting := fun _ _ left dies hstopped => nomatch hdiscard.symm.trans hstopped
            deleted := fun _ _ _ => h
            refused := fun _ h => (hnone h).elim
            moved := fun _ h => (hnone h).elim }
  | stopped left dies =>
      constructor
      · exact fun h => h.deleting hread hlends left dies hdiscard
      · intro h
        refine
          { untouched := fun hstop => absurd ⟨hread, fun h => (hnone h).elim⟩ hstop
            deleting := ?_
            deleted := fun _ _ hdone => nomatch hdiscard.symm.trans hdone
            refused := fun _ h => (hnone h).elim
            moved := fun _ h => (hnone h).elim }
        intro _ _ other dies' hstopped
        cases hdiscard.symm.trans hstopped
        exact h

theorem neverInService_moved {index : VectorIndex} (hread : MarkerRead leftover outcomes)
    (hlends : canLend marker = true) (hmove : outcomes.moveAside = Outcome.done) :
    NeverInService old states owed ((setAside outcomes >>= refill index states outcomes)
        (standing old marker leftover legacy none)) <->
      Guarded old marker leftover legacy states owed outcomes := by
  have hmoved : rename Directory.live Directory.previous outcomes.moveAside
      (standing old marker none legacy none) = (Ending.returned (), aside old marker legacy) := by
    rw [hmove]
    rfl
  have hset : setAside outcomes (standing old marker leftover legacy none) =
      (openCollection Directory.previous outcomes.openAside >>= fun documents =>
        pure (some documents)) (aside old marker legacy) := by
    rw [setAside_read hread, if_pos hlends, Crash.bind_returned hmoved]
  rw [guarded_moved hread hlends hmove]
  by_cases hopened : AsideOpened outcomes.openAside
  · rw [Crash.bind_returned (hset.trans (Crash.bind_returned (openCollection_aside hopened))),
      or_iff_right fun h : ¬AsideOpened outcomes.openAside ∧ legacy = true => h.1 hopened,
      and_iff_right hopened]
    exact neverInService_refill (some old) rfl rfl rfl
  · rcases @openCollection_refused old marker legacy outcomes hopened with ⟨dies, hrefused⟩
    have hnot : ¬(AsideOpened outcomes.openAside ∧ Spared states (some old) legacy outcomes) :=
      fun h => hopened h.1
    rw [Crash.bind_stopped (hset.trans (Crash.bind_stopped hrefused)), or_iff_left hnot,
      and_iff_right hopened]
    cases legacy with
    | true =>
        refine iff_of_true ((neverInService_idle rfl rfl).mpr ?_) (Or.inr rfl)
        exact fun hnone => nomatch hnone
    | false =>
        rw [or_iff_left (show ¬ false = true from nofun)]
        exact Idle.neverInService_iff ⟨rfl, rfl, rfl⟩ rfl

theorem neverInService_deleted {index : VectorIndex} (hread : MarkerRead leftover outcomes)
    (hlends : canLend marker = false) :
    NeverInService old states owed ((setAside outcomes >>= refill index states outcomes)
        (standing old marker leftover legacy none)) <->
      Guarded old marker leftover legacy states owed outcomes := by
  have hset := @setAside_read old marker leftover legacy outcomes hread
  rw [if_neg (show ¬canLend marker = true by rw [hlends]; exact Bool.false_ne_true)] at hset
  rw [guarded_deleted hread hlends]
  cases hdiscard : outcomes.discardLive with
  | done =>
      have hgone : discard Directory.live Removal.done (standing old marker none legacy none) =
          (Ending.returned (), (standing old marker none legacy none).setFolder none
            Directory.live) := rfl
      rw [hdiscard, Crash.bind_returned hgone] at hset
      rw [Crash.bind_returned hset]
      exact neverInService_refill none rfl rfl rfl
  | stopped left dies =>
      have hstopped : discard Directory.live (Removal.stopped left dies)
          (standing old marker none legacy none) = (Ending.stopped dies,
            (standing old marker none legacy none).setFolder
              (some (left.ofFolder (oldFolder old marker))) Directory.live) := rfl
      rw [hdiscard, Crash.bind_stopped hstopped] at hset
      rw [Crash.bind_stopped hset]
      exact neverInService_idle rfl rfl

/--
However each step of a rebuild goes, the next open serves the whole old index, or one in which
every topic is whole or owed, or fails, if and only if the rebuild is guarded where it stops.
-/
theorem never_in_service_iff (index : VectorIndex) (old : Docs) (marker : Option Marker)
    (leftover : Option Folder) (legacy : Bool) (serving : Option Docs) (states : States)
    (owed : Finset TopicId) (outcomes : RebuildOutcomes) :
    NeverInService old states owed
        (rebuild index states outcomes (standing old marker leftover legacy serving)) <->
      Guarded old marker leftover legacy states owed outcomes := by
  rw [rebuild_eq]
  show NeverInService old states owed ((setAside outcomes >>= refill index states outcomes)
    (standing old marker leftover legacy none)) <-> _
  by_cases hread : MarkerRead leftover outcomes
  · cases hlends : canLend marker with
    | false => exact neverInService_deleted hread hlends
    | true =>
        by_cases hmove : outcomes.moveAside = Outcome.done
        · exact neverInService_moved hread hlends hmove
        · rcases @setAside_unmoved old marker leftover legacy outcomes hread hlends hmove with
            ⟨dies, hstopped⟩
          rw [Crash.bind_stopped hstopped]
          exact neverInService_untouched rfl rfl rfl rfl fun h => hmove (h.2 hlends)
  · rcases @setAside_unread old marker leftover legacy outcomes hread with
      ⟨folder, dies, hstopped⟩
    rw [Crash.bind_stopped hstopped]
    exact neverInService_untouched rfl rfl rfl rfl fun h => hread h.1

end Leaves

/-!
## An index that is set aside while another process has it open
-/

def oneTopic : States := ⟨[⟨1, ⟨[{ text := "said", header := "one" }], List.cons_ne_nil _ _⟩⟩],
  List.nodupKeys_singleton _⟩

def heldByAnother : RebuildOutcomes where
  discardAside := Removal.done
  readMarker := Outcome.done
  moveAside := Outcome.done
  openAside := { look := Outcome.done, create := Creation.done, openIt := Outcome.fails }
  discardLive := Removal.done
  discardLegacy := Outcome.done
  opening := opensSmoothly
  repairPointers := Outcome.done
  nameIndex := Outcome.done
  readStates := Outcome.done
  cutSpans := Outcome.done
  countLendable := Outcome.done
  loadModel := Outcome.done
  lend := Writing.done
  encode := fun _ => Outcome.done
  write := fun _ => Writing.done
  flush := Outcome.done
  optimize := Outcome.done
  discardPrevious := Removal.done

def markedMemory : Option Marker := some (Marker.current VectorIndex.memory)

/-- The next open creates an empty index beside the whole one. -/
theorem refused_aside_serves_nothing : ¬NeverInService (restated oneTopic) oneTopic ∅
    (rebuild VectorIndex.memory oneTopic heldByAnother
      (standing (restated oneTopic) markedMemory none false none)) := by
  intro hnever
  have hrun : rebuild VectorIndex.memory oneTopic heldByAnother
      (standing (restated oneTopic) markedMemory none false none) =
        (Ending.failed, aside (restated oneTopic) markedMemory false) := rfl
  rw [hrun] at hnever
  have hempty := hnever ∅ ⟨_, VectorIndex.memory, recoversSmoothly, opensSmoothly, _,
    Or.inl ⟨nofun, rfl⟩, rfl⟩
  exact Finset.notMem_empty 1 (mayServe_empty.mp hempty 1 (by decide))

end Reindexing
end PaminMemory
