import PaminMemory.Reindexing.Rebuild

/-!
# Where a rebuild stops

Wherever a rebuild stops, by an error or with its process, the next open of the project is to
serve the whole old index, or one in which every topic is whole or has its sync owed.
-/

namespace PaminMemory
namespace Reindexing

open Foundation
open Index (Cut Key Outcome Span chunks)

inductive MayServe (old : Docs) (states : States) (owed : Finset TopicId) (documents : Docs) :
    Prop where
  /-- The whole old index; an empty one is as good as none. -/
  | old (hsome : documents.Nonempty) (hold : documents = old) : MayServe old states owed documents
  | restated (htopics : forall topic,
      ofTopic documents topic = ofTopic (restated states) topic ∨ topic ∈ owed) :
      MayServe old states owed documents

/-- Whatever the next open serves it may serve. -/
def NeverInService (old : Docs) (states : States) (owed : Finset TopicId)
    (run : Ending Unit × World) : Prop :=
  forall documents, Serves run documents -> MayServe old states owed documents

def AllOwed (states : States) (owed : Finset TopicId) : Prop :=
  forall topic, topic ∈ states -> topic ∈ owed

section Serving

variable {old held documents : Docs} {states : States} {owed : Finset TopicId} {world : World}
  {dies : Bool}

theorem mayServe_restated : MayServe old states owed (restated states) :=
  MayServe.restated fun _ => Or.inl rfl

theorem mayServe_part (howed : AllOwed states owed) (hpart : documents ⊆ restated states) :
    MayServe old states owed documents := by
  apply MayServe.restated
  intro topic
  by_cases htopic : topic ∈ states
  · exact Or.inr (howed topic htopic)
  · have hnone := ofTopic_restated_of_notMem htopic
    have hempty : ofTopic documents topic = ∅ :=
      Finset.subset_empty.mp (hnone ▸ Finset.filter_subset_filter _ hpart)
    exact Or.inl (hempty.trans hnone.symm)

theorem mayServe_empty : MayServe old states owed ∅ <-> AllOwed states owed := by
  constructor
  · intro h topic htopic
    cases h with
    | old hsome hold => exact absurd hsome Finset.not_nonempty_empty
    | restated htopics =>
        rcases htopics topic with hsame | howed
        · exact absurd hsame.symm (ofTopic_restated_ne_empty htopic)
        · exact howed
  · exact fun howed => mayServe_part howed (Finset.empty_subset _)

theorem neverInService_idle (hserving : world.serving = none) (hreplaced : world.replaced = none) :
    NeverInService old states owed (Ending.stopped dies, world) <->
      (world.legacy = false -> forall documents, offered world.live = some documents ->
        MayServe old states owed documents) := by
  have hclosed : forall kept, world.closed kept = world := by
    intro kept
    unfold World.closed
    rw [hserving]
  constructor
  · intro h hlegacy documents hoffered
    rcases (getOrOpen_iff hserving hreplaced).mpr ⟨hlegacy, hoffered⟩ with
      ⟨index, recovering, outcomes, final, hopen⟩
    exact h documents
      ⟨world, index, recovering, outcomes, final, Or.inr ⟨∅, (hclosed ∅).symm⟩, hopen⟩
  · rintro h documents ⟨found, index, recovering, outcomes, final, hfound, hopen⟩
    have hsame : found = world := by
      rcases hfound with ⟨_, hsame⟩ | ⟨kept, hsame⟩
      · exact hsame
      · exact hsame.trans (hclosed kept)
    rw [hsame] at hopen
    rcases (getOrOpen_iff hserving hreplaced).mp ⟨index, recovering, outcomes, final, hopen⟩ with
      ⟨hlegacy, hoffered⟩
    exact h hlegacy documents hoffered

structure Filling (states : States) (world : World) (held : Docs) : Prop where
  serving : world.serving = some held
  replaced : world.replaced = none
  legacy : world.legacy = false
  live : exists marker, Marker.opens marker = true ∧
    world.live = some { marker := some marker, collection := some (Contents.holding ∅) }
  part : held ⊆ restated states

structure Flushed (states : States) (world : World) : Prop where
  serving : world.serving = some (restated states)
  replaced : world.replaced = none
  live : exists marker,
    world.live = some { marker := marker, collection := some (Contents.holding (restated states)) }

theorem getOrOpen_serving {index : VectorIndex} {recovering : Recovering}
    {outcomes : OpenOutcomes} {final : World} (hserving : world.serving = some held)
    (h : getOrOpen index recovering outcomes world = (Ending.returned documents, final)) :
    documents = held := by
  unfold getOrOpen at h
  rcases Crash.bind_eq_returned.mp h with ⟨found, _, hfound, hrest⟩
  cases hfound
  rw [hserving] at hrest
  cases hrest
  rfl

theorem serves_closed {durable : Docs} {marker : Option Marker} (kept : Finset Key)
    (hserving : world.serving = some held)
    (hlive : world.live =
      some { marker := marker, collection := some (Contents.holding durable) }) :
    (world.closed kept).serving = none ∧ (world.closed kept).replaced = world.replaced ∧
      (world.closed kept).legacy = world.legacy ∧
      (world.closed kept).live = some
        { marker := marker
          collection := some (Contents.holding
            (held.filter (fun document => document.1 ∈ kept) ∪
              durable.filter fun document => document.1 ∉ kept)) } := by
  rcases world with ⟨live, previous, replaced, legacy, serving⟩
  cases hserving
  cases hlive
  exact ⟨rfl, rfl, rfl, rfl⟩

theorem offered_holding {marker : Option Marker} {durable : Docs}
    (h : offered (some { marker := marker, collection := some (Contents.holding durable) }) =
      some documents) : documents = durable := by
  rcases Option.ite_none_right_eq_some.mp h with ⟨_, hreadable⟩
  exact (Option.some.inj hreadable).symm

theorem Filling.neverInService_iff (h : Filling states world held) :
    NeverInService old states owed (Ending.stopped dies, world) <-> AllOwed states owed := by
  rcases h.live with ⟨marker, hopens, hlive⟩
  constructor
  · intro hnever
    apply mayServe_empty.mp
    rcases serves_closed ∅ h.serving hlive with ⟨hserving, hreplaced, hlegacy, hclosed⟩
    apply hnever
    have hoffered : offered (world.closed ∅).live = some ∅ := by
      rw [hclosed]
      refine (if_pos hopens).trans ?_
      simp [readable]
    rcases (getOrOpen_iff hserving (hreplaced.trans h.replaced)).mpr
      ⟨hlegacy.trans h.legacy, hoffered⟩ with ⟨index, recovering, outcomes, final, hopen⟩
    exact ⟨_, index, recovering, outcomes, final, Or.inr ⟨∅, rfl⟩, hopen⟩
  · rintro howed documents ⟨found, index, recovering, outcomes, final, hfound, hopen⟩
    apply mayServe_part howed
    rcases hfound with ⟨_, hsame⟩ | ⟨kept, hsame⟩
    · rw [hsame] at hopen
      rw [getOrOpen_serving h.serving hopen]
      exact h.part
    · rw [hsame] at hopen
      rcases serves_closed kept h.serving hlive with ⟨hserving, hreplaced, _, hclosed⟩
      rcases (getOrOpen_iff hserving (hreplaced.trans h.replaced)).mp
        ⟨index, recovering, outcomes, final, hopen⟩ with ⟨_, hoffered⟩
      rw [hclosed] at hoffered
      rw [offered_holding hoffered, Finset.filter_empty, Finset.union_empty]
      exact (Finset.filter_subset _ _).trans h.part

theorem Flushed.neverInService (h : Flushed states world) (ending : Ending Unit) :
    NeverInService old states owed (ending, world) := by
  rcases h.live with ⟨marker, hlive⟩
  rintro documents ⟨found, index, recovering, outcomes, final, hfound, hopen⟩
  have hwhole : documents = restated states := by
    rcases hfound with ⟨_, hsame⟩ | ⟨kept, hsame⟩
    · rw [hsame] at hopen
      exact getOrOpen_serving h.serving hopen
    · rw [hsame] at hopen
      rcases serves_closed kept h.serving hlive with ⟨hserving, hreplaced, _, hclosed⟩
      rcases (getOrOpen_iff hserving (hreplaced.trans h.replaced)).mp
        ⟨index, recovering, outcomes, final, hopen⟩ with ⟨_, hoffered⟩
      rw [hclosed] at hoffered
      rw [offered_holding hoffered, Finset.filter_union_filter_not_eq]
  rw [hwhole]
  exact mayServe_restated

end Serving

/-!
## One step after another
-/

section Steps

variable {old held : Docs} {states : States} {owed : Finset TopicId} {world : World}
  {next : Unit -> Crash World Unit} {covered rest : Prop}

theorem neverInService_step {outcome : Outcome}
    (hstop : forall dies, NeverInService old states owed (Ending.stopped dies, world) <-> covered)
    (hnext : NeverInService old states owed (next () world) <-> covered ∨ rest) :
    NeverInService old states owed ((step outcome >>= next) world) <->
      covered ∨ (outcome = Outcome.done ∧ rest) := by
  cases outcome with
  | done =>
      rw [and_iff_right rfl]
      exact hnext
  | fails =>
      rw [or_iff_left fun h => nomatch h.1]
      exact hstop false
  | dies =>
      rw [or_iff_left fun h => nomatch h.1]
      exact hstop true

theorem neverInService_stepIf {outcome : Outcome} (needed : Bool)
    (hstop : forall dies, NeverInService old states owed (Ending.stopped dies, world) <-> covered)
    (hnext : NeverInService old states owed (next () world) <-> covered ∨ rest) :
    NeverInService old states owed ((stepIf needed outcome >>= next) world) <->
      covered ∨ ((needed = true -> outcome = Outcome.done) ∧ rest) := by
  cases needed with
  | true =>
      rw [forall_prop_of_true rfl]
      exact neverInService_step hstop hnext
  | false =>
      rw [and_iff_right fun h => nomatch h]
      exact hnext

theorem Filling.putAll {documents : List Doc} (h : Filling states world held)
    (hdocuments : forall document, document ∈ documents -> document ∈ restated states) :
    Filling states { world with serving := some (putAll held documents) }
      (held ∪ documents.toFinset) where
  serving := congrArg some (putAll_eq h.part hdocuments)
  replaced := h.replaced
  legacy := h.legacy
  live := h.live
  part := by
    refine Finset.union_subset h.part ?_
    exact fun document hdocument => hdocuments document (List.mem_toFinset.mp hdocument)

theorem neverInService_write {documents : List Doc} {outcome : Writing}
    (h : Filling states world held)
    (hdocuments : forall document, document ∈ documents -> document ∈ restated states)
    (hnext : forall after, Filling states after (held ∪ documents.toFinset) ->
      (NeverInService old states owed (next () after) <-> AllOwed states owed ∨ rest)) :
    NeverInService old states owed ((write documents outcome >>= next) world) <->
      AllOwed states owed ∨ (outcome = Writing.done ∧ rest) := by
  cases outcome with
  | done =>
      have hwritten : write documents Writing.done world =
          (Ending.returned (), { world with serving := some (putAll held documents) }) := by
        unfold write
        rw [h.serving]
      rw [Crash.bind_returned hwritten, and_iff_right rfl]
      exact hnext _ (h.putAll hdocuments)
  | stopped written dies =>
      have hwritten : write documents (Writing.stopped written dies) world =
          (Ending.stopped dies,
            { world with
              serving := some (putAll held (documents.filter (· ∈ written))) }) := by
        unfold write
        rw [h.serving]
      rw [Crash.bind_stopped hwritten, or_iff_left fun h => nomatch h.1]
      refine (h.putAll ?_).neverInService_iff
      exact fun document hdocument => hdocuments document (List.mem_of_mem_filter hdocument)

def AllEmbedded (encode : Nat -> Outcome) (writes : Nat -> Writing) (start count : Nat) : Prop :=
  forall n, n < count -> encode (start + n) = Outcome.done ∧ writes (start + n) = Writing.done

theorem allEmbedded_succ {encode : Nat -> Outcome} {writes : Nat -> Writing} {start count : Nat} :
    AllEmbedded encode writes start (count + 1) <->
      (encode start = Outcome.done ∧ writes start = Writing.done) ∧
        AllEmbedded encode writes (start + 1) count := by
  constructor
  · intro h
    refine ⟨h 0 (Nat.succ_pos count), ?_⟩
    intro n hn
    rw [Nat.add_assoc, Nat.add_comm 1]
    exact h (n + 1) (Nat.succ_lt_succ hn)
  · rintro ⟨hfirst, hmore⟩ n hn
    cases n with
    | zero => exact hfirst
    | succ n =>
        have hlater := hmore n (Nat.lt_of_succ_lt_succ hn)
        rw [Nat.add_assoc, Nat.add_comm 1] at hlater
        exact hlater

theorem neverInService_embedAll {encode : Nat -> Outcome} {writes : Nat -> Writing} {start : Nat}
    {batches : List (List Doc)} (h : Filling states world held)
    (hbatches : forall document, document ∈ batches.flatten -> document ∈ restated states)
    (hnext : forall after, Filling states after (held ∪ batches.flatten.toFinset) ->
      (NeverInService old states owed (next () after) <-> AllOwed states owed ∨ rest)) :
    NeverInService old states owed ((embedAll encode writes start batches >>= next) world) <->
      AllOwed states owed ∨ (AllEmbedded encode writes start batches.length ∧ rest) := by
  induction batches generalizing start world held with
  | nil =>
      have hnone : AllEmbedded encode writes start ([] : List (List Doc)).length :=
        fun n hn => absurd hn (Nat.not_lt_zero n)
      rw [and_iff_right hnone]
      apply hnext world
      rw [List.flatten_nil, List.toFinset_nil, Finset.union_empty]
      exact h
  | cons batch more ih =>
      rw [List.length_cons, allEmbedded_succ, and_assoc, and_assoc]
      rw [embedAll, Crash.bind_assoc]
      apply neverInService_step fun dies => h.neverInService_iff
      rw [Crash.bind_assoc]
      apply neverInService_write h
      · intro document hdocument
        exact hbatches document (List.mem_append_left _ hdocument)
      · intro after hafter
        apply ih hafter
        · intro document hdocument
          exact hbatches document (List.mem_append_right _ hdocument)
        · intro final hfinal
          apply hnext final
          rw [List.flatten_cons, List.toFinset_append, ← Finset.union_assoc]
          exact hfinal

theorem neverInService_flush {outcome : Outcome} (h : Filling states world (restated states))
    (hnext : forall after, Flushed states after ->
      NeverInService old states owed (next () after)) :
    NeverInService old states owed ((flush outcome >>= next) world) <->
      AllOwed states owed ∨ outcome = Outcome.done := by
  rcases h.live with ⟨marker, _, hlive⟩
  cases outcome with
  | done =>
      refine iff_of_true (hnext _ ⟨h.serving, h.replaced, some marker, ?_⟩) (Or.inr rfl)
      simp [setCollection, World.folder, World.setFolder, hlive, h.serving]
  | fails =>
      have hfails : Outcome.fails ≠ Outcome.done := by
        intro heq
        cases heq
      rw [or_iff_left hfails]
      exact @Filling.neverInService_iff old _ states owed world false h
  | dies =>
      have hdies : Outcome.dies ≠ Outcome.done := by
        intro heq
        cases heq
      rw [or_iff_left hdies]
      exact @Filling.neverInService_iff old _ states owed world true h

end Steps

/-!
## The rebuild
-/

structure Restates (states : States) (previous : Option Docs) (outcomes : RebuildOutcomes) :
    Prop where
  repairPointers : outcomes.repairPointers = Outcome.done
  nameIndex : outcomes.nameIndex = Outcome.done
  readStates : outcomes.readStates = Outcome.done
  cutSpans : outcomes.cutSpans = Outcome.done
  countLendable : previous.isSome = true -> outcomes.countLendable = Outcome.done
  loadModel : (lent states previous).length < states.entries.length ->
    outcomes.loadModel = Outcome.done
  lend : previous.isSome = true -> outcomes.lend = Writing.done
  embed : AllEmbedded outcomes.encode outcomes.write 0 (batches states previous).length
  flush : outcomes.flush = Outcome.done

section Reindexed

variable {old : Docs} {states : States} {owed : Finset TopicId} {world : World}
  {outcomes : RebuildOutcomes}

theorem docsOf_lent (previous : Option Docs) (document : Doc)
    (h : document ∈ docsOf (lent states previous)) : document ∈ restated states := by
  rw [← lent_union_missing states previous]
  exact Finset.mem_union_left _ (List.mem_toFinset.mpr h)

theorem flatten_batches (previous : Option Docs) :
    (batches states previous).flatten = docsOf (missing states previous) :=
  Index.chunks_flatten (by decide) _

theorem docsOf_lent_none : docsOf (lent states none) = [] := by
  unfold lent lendsWhole
  simp [docsOf]

theorem neverInService_lend {previous : Option Docs} {next : Unit -> Crash World Unit} {rest : Prop}
    {outcome : Writing} (h : Filling states world ∅)
    (hnext : forall after, Filling states after (docsOf (lent states previous)).toFinset ->
      (NeverInService old states owed (next () after) <-> AllOwed states owed ∨ rest)) :
    NeverInService old states owed
        ((lend previous (docsOf (lent states previous)) outcome >>= next) world) <->
      AllOwed states owed ∨ ((previous.isSome = true -> outcome = Writing.done) ∧ rest) := by
  cases previous with
  | none =>
      rw [and_iff_right fun h => nomatch h]
      apply hnext world
      rw [docsOf_lent_none]
      exact h
  | some documents =>
      rw [forall_prop_of_true (show (some documents).isSome = true from rfl)]
      apply neverInService_write h (docsOf_lent (some documents))
      intro after hafter
      apply hnext after
      rw [Finset.empty_union] at hafter
      exact hafter

theorem restates_iff {previous : Option Docs} : Restates states previous outcomes <->
    outcomes.repairPointers = Outcome.done ∧ outcomes.nameIndex = Outcome.done ∧
      outcomes.readStates = Outcome.done ∧ outcomes.cutSpans = Outcome.done ∧
      (previous.isSome = true -> outcomes.countLendable = Outcome.done) ∧
      (decide ((lent states previous).length < states.entries.length) = true ->
        outcomes.loadModel = Outcome.done) ∧
      (previous.isSome = true -> outcomes.lend = Writing.done) ∧
      AllEmbedded outcomes.encode outcomes.write 0 (batches states previous).length ∧
      outcomes.flush = Outcome.done := by
  rw [decide_eq_true_iff]
  constructor
  · rintro ⟨hrepair, hname, hread, hcut, hcount, hload, hlend, hembed, hflush⟩
    exact ⟨hrepair, hname, hread, hcut, hcount, hload, hlend, hembed, hflush⟩
  · rintro ⟨hrepair, hname, hread, hcut, hcount, hload, hlend, hembed, hflush⟩
    exact ⟨hrepair, hname, hread, hcut, hcount, hload, hlend, hembed, hflush⟩

theorem Flushed.neverInService_after (h : Flushed states world) (previous : Option Docs) :
    NeverInService old states owed
      ((step outcomes.optimize >>= fun _ =>
        if previous.isSome then discard Directory.previous outcomes.discardPrevious
        else pure ()) world) := by
  have hset : forall folder, Flushed states (world.setFolder folder Directory.previous) :=
    fun _ => ⟨h.serving, h.replaced, h.live⟩
  have hdiscard : NeverInService old states owed
      (discard Directory.previous outcomes.discardPrevious world) := by
    unfold discard
    cases world.folder Directory.previous with
    | none => exact h.neverInService _
    | some folder =>
        cases outcomes.discardPrevious with
        | done => exact (hset none).neverInService _
        | stopped left dies => exact (hset (some (left.ofFolder folder))).neverInService _
  cases outcomes.optimize with
  | done =>
      cases previous with
      | none => exact h.neverInService _
      | some documents => exact hdiscard
  | fails => exact h.neverInService _
  | dies => exact h.neverInService _

theorem neverInService_reindex (previous : Option Docs) (h : Filling states world ∅) :
    NeverInService old states owed (reindex states outcomes previous world) <->
      AllOwed states owed ∨ Restates states previous outcomes := by
  have hstop : forall dies, NeverInService old states owed (Ending.stopped dies, world) <->
      AllOwed states owed := fun dies => h.neverInService_iff
  rw [restates_iff]
  apply neverInService_step hstop
  apply neverInService_step hstop
  apply neverInService_step hstop
  apply neverInService_step hstop
  apply neverInService_stepIf _ hstop
  apply neverInService_stepIf _ hstop
  apply neverInService_lend h
  intro lentAfter hlent
  apply neverInService_embedAll hlent
  · intro document hdocument
    rw [flatten_batches] at hdocument
    rw [← lent_union_missing states previous]
    exact Finset.mem_union_right _ (List.mem_toFinset.mpr hdocument)
  · intro after hafter
    rw [flatten_batches, lent_union_missing] at hafter
    exact neverInService_flush hafter fun final hfinal => hfinal.neverInService_after previous

end Reindexed

structure Created (outcomes : OpenOutcomes) : Prop where
  lookForLegacy : outcomes.lookForLegacy = Outcome.done
  createDirectory : outcomes.createDirectory = Outcome.done
  readMarker : outcomes.readMarker = Outcome.done
  writeMarker : outcomes.writeMarker = Recording.done
  look : outcomes.collection.look = Outcome.done
  create : outcomes.collection.create = Creation.done
  openIt : outcomes.collection.openIt = Outcome.done

/-- The new index is left such that the next open refuses it: its marker torn, or its collection
unreadable. -/
inductive Refused (outcomes : OpenOutcomes) : Prop where
  | marker {left : Marker} {dies : Bool} (hlook : outcomes.lookForLegacy = Outcome.done)
      (hcreate : outcomes.createDirectory = Outcome.done)
      (hread : outcomes.readMarker = Outcome.done)
      (hwrite : outcomes.writeMarker = Recording.stopped (some left) dies)
      (hleft : left.opens = false) : Refused outcomes
  | collection {dies : Bool} (hlook : outcomes.lookForLegacy = Outcome.done)
      (hcreate : outcomes.createDirectory = Outcome.done)
      (hread : outcomes.readMarker = Outcome.done)
      (hwrite : outcomes.writeMarker = Recording.done)
      (hcollection : outcomes.collection.look = Outcome.done)
      (hunreadable : outcomes.collection.create = Creation.stopped (some false) dies) :
      Refused outcomes

section Opened

variable {old : Docs} {states : States} {owed : Finset TopicId} {world : World} {dies : Bool}
  {rest : Prop}

structure Idle (world : World) : Prop where
  serving : world.serving = none
  replaced : world.replaced = none
  legacy : world.legacy = false

theorem Idle.neverInService_iff (h : Idle world) (hoffered : offered world.live = some ∅) :
    NeverInService old states owed (Ending.stopped dies, world) <-> AllOwed states owed := by
  rw [neverInService_idle h.serving h.replaced, ← @mayServe_empty old]
  constructor
  · exact fun hserves => hserves h.legacy ∅ hoffered
  · intro hempty _ documents hdocuments
    rw [hoffered] at hdocuments
    cases hdocuments
    exact hempty

theorem Idle.neverInService_of_refused (h : Idle world) (hoffered : offered world.live = none) :
    NeverInService old states owed (Ending.stopped dies, world) := by
  apply (neverInService_idle h.serving h.replaced).mpr
  intro _ documents hdocuments
  rw [hoffered] at hdocuments
  cases hdocuments

theorem neverInService_openCollection {outcomes : CollectionOutcomes} {marker : Marker}
    {next : Docs -> Crash World Unit} (h : Idle world) (hopens : marker.opens = true)
    (hlive : world.live = some { marker := some marker, collection := none })
    (hnext : NeverInService old states owed (next ∅ (world.setFolder
        (some { marker := some marker, collection := some (Contents.holding ∅) })
        Directory.live)) <-> AllOwed states owed ∨ rest) :
    NeverInService old states owed
        ((openCollection Directory.live outcomes >>= next) world) <->
      AllOwed states owed ∨ (outcomes.look = Outcome.done ∧
        match outcomes.create with
        | Creation.stopped left _ => left = some false
        | Creation.done => outcomes.openIt = Outcome.done ∧ rest) := by
  let made := fun contents : Option Contents =>
    world.setFolder (some { marker := some marker, collection := contents }) Directory.live
  have hoffered : forall contents, readable contents = some ∅ ->
      offered (made contents).live = some ∅ :=
    fun contents hempty => (if_pos hopens).trans hempty
  have hidle : forall contents, Idle (made contents) :=
    fun contents => ⟨h.serving, h.replaced, h.legacy⟩
  have hsame : made none = world := by
    rcases world with ⟨live, previous, replaced, legacy, serving⟩
    cases hlive
    rfl
  have hset : forall contents, setCollection Directory.live contents world = made contents := by
    intro contents
    simp [made, setCollection, World.folder, hlive]
  have hmissing : forall outcome, createMissing Directory.live outcome world =
      createCollection Directory.live outcome world := by
    intro outcome
    unfold createMissing
    rw [World.folder, hlive]
    rfl
  unfold openCollection
  rw [Crash.bind_assoc]
  apply neverInService_step
  · exact fun dies => h.neverInService_iff (hsame ▸ hoffered none rfl)
  rw [Crash.bind_assoc]
  cases hcreate : outcomes.create with
  | stopped left dies =>
      have hstopped : createMissing Directory.live (Creation.stopped left dies) world =
          (Ending.stopped dies, made (left.map fun read =>
            if read then Contents.holding ∅ else Contents.unreadable)) := by
        rw [hmissing, ← hset]
        rfl
      rw [Crash.bind_stopped hstopped]
      rcases left with _ | _ | _
      · have hunmade : none ≠ some false := by
          intro heq
          cases heq
        rw [or_iff_left hunmade]
        exact (hidle none).neverInService_iff (hoffered none rfl)
      · refine iff_of_true ((hidle _).neverInService_of_refused ?_) (Or.inr rfl)
        exact if_pos hopens
      · have hempty : some true ≠ some false := by
          intro heq
          cases heq
        rw [or_iff_left hempty]
        exact (hidle _).neverInService_iff (hoffered (some (Contents.holding ∅)) rfl)
  | done =>
      have hcreated : createMissing Directory.live Creation.done world =
          (Ending.returned (), made (some (Contents.holding ∅))) := by
        rw [hmissing, ← hset]
        rfl
      rw [Crash.bind_returned hcreated, Crash.bind_assoc]
      apply neverInService_step
      · exact fun dies => (hidle _).neverInService_iff (hoffered _ rfl)
      · exact hnext

theorem refused_or_created_iff {outcomes : OpenOutcomes} :
    Refused outcomes ∨ (Created outcomes ∧ rest) <->
      outcomes.lookForLegacy = Outcome.done ∧ outcomes.createDirectory = Outcome.done ∧
        outcomes.readMarker = Outcome.done ∧
          match outcomes.writeMarker with
          | Recording.stopped left _ => left.all Marker.opens = false
          | Recording.done => outcomes.collection.look = Outcome.done ∧
              match outcomes.collection.create with
              | Creation.stopped left _ => left = some false
              | Creation.done => outcomes.collection.openIt = Outcome.done ∧ rest := by
  constructor
  · rintro (hrefused | ⟨hcreated, hrest⟩)
    · cases hrefused with
      | marker hlook hcreate hread hwrite hleft =>
          rw [hwrite]
          exact ⟨hlook, hcreate, hread, hleft⟩
      | collection hlook hcreate hread hwrite hcollection hunreadable =>
          rw [hwrite, hunreadable]
          exact ⟨hlook, hcreate, hread, hcollection, rfl⟩
    · rw [hcreated.writeMarker, hcreated.create]
      exact ⟨hcreated.lookForLegacy, hcreated.createDirectory, hcreated.readMarker, hcreated.look,
        hcreated.openIt, hrest⟩
  · rintro ⟨hlook, hcreate, hread, hmore⟩
    cases hwrite : outcomes.writeMarker with
    | stopped left dies =>
        rw [hwrite] at hmore
        cases left with
        | none => cases hmore
        | some left => exact Or.inl (Refused.marker hlook hcreate hread hwrite hmore)
    | done =>
        rw [hwrite] at hmore
        rcases hmore with ⟨hcollection, hmore⟩
        cases hmake : outcomes.collection.create with
        | stopped left dies =>
            rw [hmake] at hmore
            cases hmore
            exact Or.inl (Refused.collection hlook hcreate hread hwrite hcollection hmake)
        | done =>
            rw [hmake] at hmore
            exact Or.inr ⟨⟨hlook, hcreate, hread, hwrite, hcollection, hmake, hmore.1⟩, hmore.2⟩

theorem neverInService_openAs {index : VectorIndex} {outcomes : OpenOutcomes}
    {next : Docs -> Crash World Unit} (h : Idle world) (hlive : world.live = none)
    (hnext : NeverInService old states owed (next ∅ (world.setFolder
        (some { marker := some (Marker.current index), collection := some (Contents.holding ∅) })
        Directory.live)) <-> AllOwed states owed ∨ rest) :
    NeverInService old states owed ((openAs index outcomes >>= next) world) <->
      AllOwed states owed ∨ (Refused outcomes ∨ (Created outcomes ∧ rest)) := by
  let made := fun marker : Option Marker =>
    world.setFolder (some { marker := marker, collection := none }) Directory.live
  have hidle : forall marker, Idle (made marker) :=
    fun marker => ⟨h.serving, h.replaced, h.legacy⟩
  have hoffered : offered world.live = some ∅ := by
    rw [hlive]
    rfl
  have hrefuse : refuseLegacy world = (Ending.returned (), world) :=
    refuseLegacy_eq_returned.mpr ⟨h.legacy, rfl⟩
  have hmade : change (fun world => { world with live := some (world.live.getD Folder.empty) })
      world = (Ending.returned (), made none) := by
    rcases world with ⟨live, previous, replaced, legacy, serving⟩
    cases hlive
    rfl
  rw [refused_or_created_iff]
  unfold openAs
  rw [Crash.bind_assoc]
  apply neverInService_step
  · exact fun dies => h.neverInService_iff hoffered
  rw [Crash.bind_assoc, Crash.bind_returned hrefuse, Crash.bind_assoc]
  apply neverInService_step
  · exact fun dies => h.neverInService_iff hoffered
  rw [Crash.bind_assoc, Crash.bind_returned hmade, Crash.bind_assoc]
  apply neverInService_step
  · exact fun dies => (hidle none).neverInService_iff rfl
  rw [Crash.bind_assoc]
  cases hwrite : outcomes.writeMarker with
  | stopped left dies =>
      have hstopped : checkMarker index (Recording.stopped left dies) (made none) =
          (Ending.stopped dies, made left) := rfl
      rw [Crash.bind_stopped hstopped]
      show _ <-> AllOwed states owed ∨ left.all Marker.opens = false
      cases hopens : left.all Marker.opens with
      | true =>
          rw [or_iff_left (show ¬ true = false from nofun)]
          exact (hidle left).neverInService_iff (if_pos hopens)
      | false =>
          refine iff_of_true ((hidle left).neverInService_of_refused ?_) (Or.inr rfl)
          exact if_neg (by rw [hopens]; exact Bool.false_ne_true)
  | done =>
      have hwritten : checkMarker index Recording.done (made none) =
          (Ending.returned (), made (some (Marker.current index))) := rfl
      rw [Crash.bind_returned hwritten]
      exact neverInService_openCollection (hidle _) (opens_iff.mpr ⟨index, opens_current index⟩) rfl
        hnext

end Opened

end Reindexing
end PaminMemory
