import Mathlib.Data.List.GetD
import PaminMemory.Topics.Naming
import PaminMemory.Topics.Reading

/-!
# What a read shows

Each version of a topic says what the promoted write of its number said, whatever was deleted,
renamed or written since.  A read shows one of the versions that were live when it looked for them.
-/

namespace PaminMemory
namespace Topics

open Foundation
open Spans (Span SpanView)

def promotedBy (topic : TopicId) (written : Store) : Action -> List String
  | Action.write _ request _ _ _ =>
      if request.promoted = true ∧ lookFor request.topic written = some topic then
        [request.content]
      else
        []
  | _ => []

def promotedTo (step : Store -> Action -> Option Store) (topic : TopicId) :
    Store -> List Action -> List String
  | _, [] => []
  | store, action :: rest =>
      match step store action with
      | none => []
      | some t => promotedBy topic t action ++ promotedTo step topic t rest

/-- The versions of a topic are numbered as they were promoted, and say what was promoted. -/
structure Paged (topic : TopicId) (store : Store) (written : List String) : Prop where
  numbered : Contiguous TopicState.version (store.statesOf topic) written.length
  texts : forall state, state ∈ store.statesOf topic ->
    exists text, written[state.version - 1]? = some text ∧ store.contentOf state = some text
  bounded : written.length <= MAX_VERSION

def Remarked (store t : Store) : Prop :=
  exists mark : TopicState -> TopicState, t.states = store.states.map mark ∧
    forall state, (mark state).record = state.record

section Marks

variable {store t : Store} {project : ProjectId}

theorem record_same {state other : TopicState} (h : state.record = other.record) :
    state.topicId = other.topicId ∧ state.version = other.version ∧
      state.sourceSpanId = other.sourceSpanId := by
  have htopic := congrArg TopicState.topicId h
  have hversion := congrArg TopicState.version h
  have hspan := congrArg TopicState.sourceSpanId h
  exact ⟨htopic, hversion, hspan⟩

theorem remarked_same (h : t.states = store.states) : Remarked store t :=
  ⟨id, by rw [List.map_id, h], fun _ => rfl⟩

theorem remarked_deleteStates (now : Instant) (topic : TopicId) (picks : TopicState -> Bool)
    (h : t.states = (deleteStates now topic picks store).states) : Remarked store t :=
  ⟨marked now topic picks, h, record_marked now topic picks⟩

theorem remarked_retire (now : Instant) (topic : TopicId) (jobs : IndexJobId × IndexJobId) :
    Remarked store (retireTopic now project topic jobs store).1 := by
  unfold retireTopic
  split
  · exact remarked_deleteStates now topic (fun _ => true) rfl
  · exact remarked_same rfl

theorem remarked_softDelete (now : Instant) (topic : TopicId) (version : Nat) :
    Remarked store (softDeleteTopicState now topic version store).1 := by
  unfold softDeleteTopicState
  simp only
  split
  · exact remarked_deleteStates now topic _ rfl
  · exact remarked_same rfl

theorem softDelete_extends (now : Instant) (topic : TopicId) (version : Nat) :
    Extends store (softDeleteTopicState now topic version store).1 := by
  unfold softDeleteTopicState
  simp only
  split
  · exact extends_same rfl rfl
  · exact extends_same rfl rfl

theorem remarked_retireSection (now : Instant) (topic : String) (seen : TopicStateId)
    (jobs : IndexJobId × IndexJobId) :
    Remarked store (retireSection now project topic seen jobs store).1 := by
  unfold retireSection
  split
  · exact remarked_same rfl
  · split
    · exact remarked_same rfl
    · split
      · exact remarked_same rfl
      · split
        · exact remarked_same rfl
        · exact remarked_retire now _ jobs

theorem remarked_step {segment : String -> List String} {action : Action}
    (hstep : step segment project store action = some t)
    (hwrite : forall now request kind root drawn,
      action ≠ Action.write now request kind root drawn) :
    Remarked store t ∧ Extends store t := by
  cases action with
  | write now request kind root drawn => exact absurd rfl (hwrite now request kind root drawn)
  | deleteState now topic version =>
      cases hstep
      exact ⟨remarked_softDelete now topic version, softDelete_extends now topic version⟩
  | retire now topic jobs =>
      cases hstep
      exact ⟨remarked_retire now topic jobs, retire_extends now project topic jobs store⟩
  | rename now topic names locators job =>
      cases hstep
      exact ⟨remarked_same (rename_kept now topic names locators job store),
        rename_extends now project topic names locators job store⟩
  | retireSection now topic seen jobs =>
      cases hstep
      exact ⟨remarked_retireSection now topic seen jobs,
        retireSection_extends now project topic seen jobs store⟩
  | renameSection now names seen job =>
      cases hstep
      exact ⟨remarked_same (renameSection_kept now project names seen job store),
        renameSection_extends now project names seen job store⟩

end Marks

/-!
## Each step
-/

section Steps

variable {store t : Store} {topic : TopicId} {written : List String} {project : ProjectId}
  {segment : String -> List String}

theorem paged_empty : Paged topic Store.empty [] where
  numbered := rfl
  texts := by
    intro state hstate
    cases hstate
  bounded := Nat.zero_le _

theorem paged_remarked (h : Paged topic store written) (hremarked : Remarked store t)
    (hextends : Extends store t) : Paged topic t written := by
  rcases hremarked with ⟨mark, hstates, hmark⟩
  have hof : t.statesOf topic = (store.statesOf topic).map mark := by
    unfold Store.statesOf
    rw [hstates, List.filter_map]
    congr 1
    apply List.filter_congr
    intro state _
    simp [(record_same (hmark state)).1]
  constructor
  · unfold Contiguous
    rw [hof, List.map_map, ← show _ = List.range' 1 written.length from h.numbered]
    apply List.map_congr_left
    intro state _
    exact (record_same (hmark state)).2.1
  · intro state hstate
    rw [hof] at hstate
    rcases List.mem_map.mp hstate with ⟨old, hold, rfl⟩
    rcases record_same (hmark old) with ⟨_, hversion, hspan⟩
    rcases h.texts old hold with ⟨text, hthere, hcontent⟩
    refine ⟨text, by rw [hversion]; exact hthere, ?_⟩
    rw [contentOf_congr hspan]
    exact contentOf_extends hextends hcontent
  · exact h.bounded

theorem owner_of_leaves {request : Write} {drawn : Drawn} {state : TopicState} (hkept : Kept t)
    (hleaves : Leaves request drawn store t state) :
    lookFor request.topic t = some state.topicId := by
  have hpoints := hleaves.pointers request.topic
  rw [if_pos rfl] at hpoints
  rcases Option.bind_eq_some_iff.mp hpoints with ⟨row, hrow, hcurrent⟩
  have hmem := List.mem_of_find?_eq_some hrow
  have hpointed : row.currentStateId = (t.newest row.id).map TopicState.id :=
    congrArg Prod.fst (hkept.pointed row.pointer (List.mem_map_of_mem hmem))
  rw [hcurrent] at hpointed
  rcases Option.map_eq_some_iff.mp hpointed.symm with ⟨newest, hnewest, hid⟩
  rcases mem_survivors.mp (List.argmax_mem hnewest) with ⟨hthere, howner, _⟩
  have hstate : state ∈ t.states := by
    rw [hleaves.states]
    exact List.mem_append_right _ (List.mem_singleton_self state)
  have hsame : newest = state := List.inj_on_of_nodup_map hkept.statesDistinct hthere hstate hid
  unfold lookFor
  rw [hrow, ← hsame, howner]
  rfl

theorem appendPromoted_bounded {now : Instant} {source : SourceId} {evidence : Evidence}
    {promotion : Promotion} {drawn : Drawn} {version : SourceVersion} {state : TopicState}
    (h : appendPromoted now project source evidence promotion drawn store =
      some (t, version, state)) : state.version <= MAX_VERSION := by
  unfold appendPromoted at h
  split at h
  · cases h
  · simp only at h
    split at h
    · cases h
    · next hbound =>
        cases h
        exact Nat.le_of_not_lt hbound

theorem writeFrom_bounded {now : Instant} {request : Write} {kind : SourceKind}
    {root : Option String} {drawn : Drawn} {recorded : Recorded} {state : TopicState}
    (h : writeFrom segment now project request kind root drawn store = some (t, recorded))
    (hmem : state ∈ t.states) : state ∈ store.states ∨ state.version <= MAX_VERSION := by
  have hsourced := (sourceFor_same kind root request.topic drawn.source store).1
  unfold writeFrom at h
  simp only at h
  split at h
  · have hobtained := (topicFor_obtains segment now kind request.topic drawn.topic
      (sourceFor kind root request.topic drawn.source store).1).1
    split at h
    · cases h
    · next written version appended hpromoted =>
        cases h
        rw [(nameFirst_same _ _ _ _ _ _ _ _ _).1,
          (appendPromoted_some hpromoted).2.states, hobtained, hsourced] at hmem
        rcases List.mem_append.mp hmem with hbefore | hnew
        · exact Or.inl hbefore
        · rw [List.mem_singleton.mp hnew]
          exact Or.inr (appendPromoted_bounded hpromoted)
  · split at h
    · cases h
    · next written version hheld =>
        cases h
        rw [(nameFirst_same _ _ _ _ _ _ _ _ _).1, (appendEvidence_some hheld).2.2] at hmem
        exact Or.inl (hsourced ▸ hmem)

/-- A state that a topic appends is its next page; one of another topic changes none. -/
theorem paged_appended {state : TopicState} {text : String} (h : Paged topic store written)
    (hextends : Extends store t) (hstates : t.states = store.states ++ [state])
    (hnumber : state.version = nextNumber TopicState.version (store.statesOf state.topicId))
    (hcontent : t.contentOf state = some text) (hbound : state.version <= MAX_VERSION) :
    Paged topic t (written ++ if state.topicId = topic then [text] else []) := by
  have hof := statesOf_append store t state hstates topic
  have hold : forall old, old ∈ store.statesOf topic -> exists said,
      written[old.version - 1]? = some said ∧ t.contentOf old = some said := by
    intro old hmem
    rcases h.texts old hmem with ⟨said, hthere, hsaid⟩
    exact ⟨said, hthere, contentOf_extends hextends hsaid⟩
  split
  · next hsame =>
      rw [if_pos hsame] at hof
      rw [hsame] at hnumber
      have hnext : state.version = written.length + 1 :=
        hnumber.trans (nextNumber_of_contiguous h.numbered)
      constructor
      · rw [hof, List.length_append]
        exact contiguous_append h.numbered hnumber
      · intro old hmem
        rw [hof] at hmem
        rcases List.mem_append.mp hmem with hbefore | hnew
        · rcases hold old hbefore with ⟨said, hthere, hsaid⟩
          have hinside := (List.getElem?_eq_some_iff.mp hthere).1
          refine ⟨said, ?_, hsaid⟩
          rw [List.getElem?_append_left hinside]
          exact hthere
        · rw [List.mem_singleton.mp hnew]
          refine ⟨text, ?_, hcontent⟩
          rw [hnext, Nat.add_sub_cancel, List.getElem?_concat_length]
      · rw [List.length_append]
        change written.length + 1 <= MAX_VERSION
        rw [← hnext]
        exact hbound
  · next hother =>
      rw [if_neg hother] at hof
      rw [List.append_nil]
      constructor
      · rw [hof]
        exact h.numbered
      · intro old hmem
        rw [hof] at hmem
        exact hold old hmem
      · exact h.bounded

theorem paged_write {now : Instant} {request : Write} {kind : SourceKind} {root : Option String}
    {drawn : Drawn} {recorded : Recorded} (hgrounded : Grounded store) (hkept : Kept t)
    (hunused : Unused store drawn) (h : Paged topic store written)
    (hwritten : writeFrom segment now project request kind root drawn store =
      some (t, recorded)) :
    Paged topic t (written ++ promotedBy topic t (Action.write now request kind root drawn)) := by
  change Paged topic t (written ++ if request.promoted = true ∧
    lookFor request.topic t = some topic then [request.content] else [])
  rcases writeFrom_leaves hgrounded.kept hunused hwritten with ⟨hextends, hleft⟩
  rcases hleft with ⟨hpromoted, state, hleaves⟩ | ⟨hheld, hstates, _⟩
  · have hmem : state ∈ t.states := by
      rw [hleaves.states]
      exact List.mem_append_right _ (List.mem_singleton_self state)
    have hnew : state ∉ store.states := by
      intro hthere
      apply hunused.2.2.2.2
      rw [← hleaves.drawn]
      exact List.mem_map_of_mem hthere
    have hnumber : state.version =
        nextNumber TopicState.version (store.statesOf state.topicId) := by
      cases writeFrom_writes hwritten with
      | held _ hstates _ =>
          rw [hstates] at hmem
          exact absurd hmem hnew
      | promoted middle locked appended _ hmiddle _ happends =>
          have hsame := hleaves.states.symm.trans (hmiddle ▸ happends.states)
          have hstate : state = appended := by simpa using hsame
          rw [hstate, happends.number]
          unfold Store.statesOf
          rw [hmiddle]
    have hbound := (writeFrom_bounded hwritten hmem).resolve_left hnew
    have hpaged := paged_appended h hextends hleaves.states hnumber hleaves.content hbound
    simpa [hpromoted, owner_of_leaves hkept hleaves] using hpaged
  · rw [hheld, if_neg (by simp), List.append_nil]
    exact paged_remarked h (remarked_same hstates) hextends

theorem paged_step {action : Action} (hgrounded : Grounded store) (h : Paged topic store written)
    (hstep : step segment project store action = some t) :
    Paged topic t (written ++ promotedBy topic t action) := by
  by_cases hwrite : exists now request kind root drawn,
      action = Action.write now request kind root drawn
  · rcases hwrite with ⟨now, request, kind, root, drawn, rfl⟩
    have hkept : Kept t := kept_step store _ t hgrounded.kept hstep
    simp only [step] at hstep
    rcases Option.ite_none_right_eq_some.mp hstep with ⟨hunused, hmapped⟩
    rcases Option.map_eq_some_iff.mp hmapped with ⟨⟨after, recorded⟩, hwritten, rfl⟩
    exact paged_write hgrounded hkept hunused h hwritten
  · have hnot : forall now request kind root drawn,
        action ≠ Action.write now request kind root drawn := by
      intro now request kind root drawn hsame
      exact hwrite ⟨now, request, kind, root, drawn, hsame⟩
    rcases remarked_step hstep hnot with ⟨hremarked, hextends⟩
    have hnone : promotedBy topic t action = [] := by
      cases action with
      | write now request kind root drawn => exact absurd rfl (hnot now request kind root drawn)
      | _ => rfl
    rw [hnone, List.append_nil]
    exact paged_remarked h hremarked hextends

theorem paged_run {actions : List Action} (hgrounded : Grounded store)
    (h : Paged topic store written)
    (hrun : RunFrom (step segment project) store actions = some t) :
    Paged topic t (written ++ promotedTo (step segment project) topic store actions) := by
  induction actions generalizing store written with
  | nil =>
      cases hrun
      rw [promotedTo, List.append_nil]
      exact h
  | cons action rest ih =>
      rcases runFrom_cons_some.mp hrun with ⟨between, hstep, hrest⟩
      rw [promotedTo, hstep, ← List.append_assoc]
      exact ih (grounded_step store action between hgrounded hstep) (paged_step hgrounded h hstep)
        hrest

end Steps

/-!
## What a read finds
-/

structure Resolves (versions : List Nat) (offset : Nat) (resolved : ResolvedVersion) : Prop where
  live : resolved.version ∈ versions
  back : resolved.actualOffset = min offset (versions.length - 1)
  /-- So many versions are newer. -/
  newer : (versions.filter fun version => resolved.version < version).length =
    resolved.actualOffset
  current : resolved.isCurrent = decide (resolved.version = resolved.latestVersion)
  oldest : resolved.oldestVersion ∈ versions ∧
    forall version, version ∈ versions -> resolved.oldestVersion <= version
  latest : resolved.latestVersion ∈ versions ∧
    forall version, version ∈ versions -> version <= resolved.latestVersion
  available : resolved.availableVersions = versions.length

section Resolving

variable {versions : List Nat} {offset : Nat} {resolved : ResolvedVersion}

theorem resolveVersion_none : resolveVersion versions offset = none <-> versions = [] := by
  cases versions with
  | nil => exact ⟨fun _ => rfl, fun _ => rfl⟩
  | cons first rest =>
      constructor
      · intro h
        cases h
      · intro h
        cases h

theorem resolveVersion_some (hascending : Ascending id versions)
    (hfew : versions.length < 2 ^ 32) (h : resolveVersion versions offset = some resolved) :
    Resolves versions offset resolved := by
  unfold resolveVersion at h
  cases hlength : versions.length with
  | zero =>
      rw [hlength] at h
      cases h
  | succ latestIndex =>
      rw [hlength] at h
      cases h
      have hget : forall index, index < versions.length ->
          versions[index]? = some (versions.getD index 0) := by
        intro index hindex
        rw [List.getD_eq_getElem _ _ hindex, List.getElem?_eq_getElem hindex]
      have hordered : forall before after, before < after -> after < versions.length ->
          versions.getD before 0 < versions.getD after 0 := by
        intro before after hless hinside
        have hbefore := Nat.lt_trans hless hinside
        rw [List.getD_eq_getElem _ _ hbefore, List.getD_eq_getElem _ _ hinside]
        exact List.pairwise_iff_getElem.mp hascending before after hbefore hinside hless
      have hplace : forall version, version ∈ versions ->
          exists index, index < versions.length ∧ versions.getD index 0 = version := by
        intro version hversion
        rcases List.getElem_of_mem hversion with ⟨index, hindex, hat⟩
        exact ⟨index, hindex, (List.getD_eq_getElem _ _ hindex).trans hat⟩
      have hselected : latestIndex - offset < versions.length := by omega
      have hback : (latestIndex - (latestIndex - offset)) % 2 ^ 32 =
          latestIndex - (latestIndex - offset) := Nat.mod_eq_of_lt (by omega)
      constructor
      · exact List.mem_of_getElem? (hget _ hselected)
      · change (latestIndex - (latestIndex - offset)) % 2 ^ 32 = _
        rw [hback, hlength]
        omega
      · change _ = (latestIndex - (latestIndex - offset)) % 2 ^ 32
        rw [hback]
        have habove := length_filter_above hascending (hget _ hselected)
        simp only [id_eq] at habove
        rw [habove, hlength, Nat.add_sub_cancel]
      · change decide (latestIndex - offset = latestIndex) = decide (versions.getD _ 0 = _)
        rcases Nat.lt_or_ge (latestIndex - offset) latestIndex with hless | hge
        · have hversion := hordered _ latestIndex hless (by omega)
          rw [decide_eq_false (Nat.ne_of_lt hless), decide_eq_false (Nat.ne_of_lt hversion)]
        · have hsame : latestIndex - offset = latestIndex := by omega
          rw [hsame, decide_eq_true rfl, decide_eq_true rfl]
      · refine ⟨List.mem_of_getElem? (hget 0 (by omega)), ?_⟩
        intro version hversion
        rcases hplace version hversion with ⟨index, hindex, rfl⟩
        rcases Nat.eq_zero_or_pos index with rfl | hpos
        · exact Nat.le_refl _
        · exact Nat.le_of_lt (hordered 0 index hpos hindex)
      · refine ⟨List.mem_of_getElem? (hget latestIndex (by omega)), ?_⟩
        intro version hversion
        rcases hplace version hversion with ⟨index, hindex, rfl⟩
        rcases Nat.lt_or_ge index latestIndex with hless | hge
        · exact Nat.le_of_lt (hordered index latestIndex hless (by omega))
        · have hsame : index = latestIndex := by omega
          rw [hsame]
      · exact (Nat.mod_eq_of_lt (by omega)).trans hlength.symm

end Resolving

/-- What a read shows of a topic to which these texts were promoted, in order. -/
structure Shows (cut : String -> String -> List Span) (asking : Asking) (topic : Topic)
    (looked : Store) (written : List String) (shown : Shown) : Prop where
  name : shown.topic = topic.name
  resolves : Resolves (topicVersions topic.id looked) asking.versionOffset shown.resolved
  /-- The versions that no deletion marked when the read looked for them. -/
  live : forall version, version ∈ topicVersions topic.id looked <->
    exists state, state ∈ looked.states ∧ state.topicId = topic.id ∧ state.version = version ∧
      state.deletedAt = none
  pointed : forall row, row ∈ looked.topics -> row.id = topic.id ->
    row.currentVersion = some shown.resolved.latestVersion
  text : exists text, written[shown.resolved.version - 1]? = some text ∧
    shownOf cut asking topic.name shown.resolved.version text =
      Except.ok (shown.content, shown.span)

/-- Why a read shows nothing: no topic, no version that is live, or no such span. -/
inductive Refuses (cut : String -> String -> List Span) (asking : Asking) (first second : Store) :
    ReadError -> Prop where
  | noTopic (absent : findTopic asking.topic first = none) :
      Refuses cut asking first second (ReadError.noTopic asking.topic)
  | noLiveVersions (topic : Topic) (found : findTopic asking.topic first = some topic)
      (deleted : forall state, state ∈ second.states -> state.topicId = topic.id ->
        state.deletedAt ≠ none) :
      Refuses cut asking first second (ReadError.noLiveVersions asking.topic)
  | noSpan (topic : Topic) (found : findTopic asking.topic first = some topic) (ordinal : Nat)
      (asked : asking.span = some ordinal) (version : Nat) (text : String)
      (beyond : (cut topic.name text).length <= ordinal) :
      Refuses cut asking first second
        (ReadError.noSpan asking.topic version (cut topic.name text).length)

section Reading

variable {store first second third : Store} {topic : TopicId} {written : List String}
  {cut : String -> String -> List Span} {asking : Asking} {promoted : TopicId -> List String}

theorem topicVersions_eq (h : Kept store) : topicVersions topic store =
    ((store.statesOf topic).filter TopicState.survives).map TopicState.version := by
  unfold topicVersions
  apply List.Pairwise.insertionSort_eq
  apply List.pairwise_map.mpr
  exact ((h.ascending topic).filter _).imp fun hless => Nat.le_of_lt hless

theorem ascending_topicVersions (h : Kept store) : Ascending id (topicVersions topic store) := by
  rw [topicVersions_eq h]
  exact List.pairwise_map.mpr ((h.ascending topic).filter _)

theorem mem_topicVersions (h : Kept store) {version : Nat} :
    version ∈ topicVersions topic store <-> exists state, state ∈ store.states ∧
      state.topicId = topic ∧ state.version = version ∧ state.deletedAt = none := by
  rw [topicVersions_eq h, List.mem_map]
  constructor
  · rintro ⟨state, hstate, hversion⟩
    rcases mem_survivors.mp hstate with ⟨hmem, howner, hlive⟩
    exact ⟨state, hmem, howner, hversion, hlive⟩
  · rintro ⟨state, hmem, howner, hversion, hlive⟩
    exact ⟨state, mem_survivors.mpr ⟨hmem, howner, hlive⟩, hversion⟩

theorem few_topicVersions (h : Kept store) (hpaged : Paged topic store written) :
    (topicVersions topic store).length < 2 ^ 32 := by
  have hnumbers : (store.statesOf topic).length = written.length := by
    have hlength := congrArg List.length hpaged.numbered
    rwa [List.length_map, List.length_range'] at hlength
  rw [topicVersions_eq h, List.length_map]
  have hfilter := List.length_filter_le TopicState.survives (store.statesOf topic)
  have hbound := hpaged.bounded
  unfold MAX_VERSION at hbound
  omega

theorem topicState_some (hpaged : Paged topic store written) {version : Nat}
    (h : exists state, state ∈ store.statesOf topic ∧ state.version = version) :
    exists state text, topicState topic version store = some (state, text) ∧
      written[version - 1]? = some text := by
  rcases h with ⟨state, hstate, hversion⟩
  rcases List.mem_filter.mp hstate with ⟨hmem, howner⟩
  unfold topicState
  cases hfind : store.states.find? fun state =>
      state.topicId = topic ∧ state.version = version with
  | none =>
      have hnone := List.find?_eq_none.mp hfind state hmem
      exact absurd (decide_eq_true ⟨of_decide_eq_true howner, hversion⟩) hnone
  | some found =>
      have hfound : found.topicId = topic ∧ found.version = version := by
        simpa using List.find?_some hfind
      have hpage : found ∈ store.statesOf topic :=
        List.mem_filter.mpr ⟨List.mem_of_find?_eq_some hfind, decide_eq_true hfound.1⟩
      rcases hpaged.texts found hpage with ⟨text, hthere, hcontent⟩
      refine ⟨found, text, ?_, hfound.2 ▸ hthere⟩
      simp [hcontent]

theorem viewAround_none {spans : List Span} {ordinal around : Nat}
    (h : viewAround spans ordinal around = none) : spans.length <= ordinal := by
  rcases Nat.lt_or_ge ordinal spans.length with hinside | hbeyond
  · have hfirst : ordinal - around < spans.length := by omega
    have hlast : min (ordinal + around) (spans.length - 1) < spans.length := by omega
    simp [viewAround, List.getElem?_eq_getElem hinside, List.getElem?_eq_getElem hfirst,
      List.getElem?_eq_getElem hlast] at h
  · exact hbeyond

theorem shownOf_error {name text : String} {version : Nat} {error : ReadError}
    (h : shownOf cut asking name version text = Except.error error) :
    exists ordinal, asking.span = some ordinal ∧ (cut name text).length <= ordinal ∧
      error = ReadError.noSpan asking.topic version (cut name text).length := by
  unfold shownOf at h
  cases hspan : asking.span with
  | none =>
      rw [hspan] at h
      cases h
  | some ordinal =>
      rw [hspan] at h
      cases hview : viewAround (cut name text) ordinal asking.around with
      | none =>
          simp only [hview] at h
          cases h
          exact ⟨ordinal, rfl, viewAround_none hview, rfl⟩
      | some view =>
          simp only [hview] at h
          cases h

theorem paged_versions (h : Paged topic store written) {version : Nat} :
    (exists state, state ∈ store.statesOf topic ∧ state.version = version) <->
      1 <= version ∧ version <= written.length := by
  have hmem : version ∈ (store.statesOf topic).map TopicState.version <->
      version ∈ List.range' 1 written.length := by
    rw [show _ = List.range' 1 written.length from h.numbered]
  rw [List.mem_map, List.mem_range'_1] at hmem
  rw [hmem]
  omega

theorem pointed_latest (h : Kept store) {row : Topic} (hrow : row ∈ store.topics)
    {latest : Nat} (hlatest : latest ∈ topicVersions row.id store ∧
      forall version, version ∈ topicVersions row.id store -> version <= latest) :
    row.currentVersion = some latest := by
  rcases (mem_topicVersions h).mp hlatest.1 with ⟨state, hmem, howner, hversion, hlive⟩
  have hpoints := pointsAtNewest_of_kept h hrow
  unfold PointsAtNewest at hpoints
  cases hcurrent : row.currentStateId with
  | none =>
      rw [hcurrent] at hpoints
      exact absurd hlive (hpoints.2 state hmem howner)
  | some id =>
      rw [hcurrent] at hpoints
      rcases hpoints with ⟨newest, hnewest, _, hsame, hsurvives, hnumber, hmost⟩
      have hle : newest.version <= latest :=
        hlatest.2 _ ((mem_topicVersions h).mpr ⟨newest, hnewest, hsame, rfl, hsurvives⟩)
      have hge : latest <= newest.version := hversion ▸ hmost state hmem howner hlive
      rw [hnumber, Nat.le_antisymm hle hge]

theorem topicState_later {resolved : ResolvedVersion} (hkept : Kept second)
    (hpaged : Paged topic second written)
    (hlater : exists more, Paged topic third (written ++ more))
    (h : resolveVersion (topicVersions topic second) asking.versionOffset = some resolved) :
    Resolves (topicVersions topic second) asking.versionOffset resolved ∧
      exists state text, topicState topic resolved.version third = some (state, text) ∧
        written[resolved.version - 1]? = some text := by
  have hresolves := resolveVersion_some (ascending_topicVersions hkept)
    (few_topicVersions hkept hpaged) h
  rcases (mem_topicVersions hkept).mp hresolves.live with ⟨state, hmem, howner, hversion, _⟩
  have hinside := (paged_versions hpaged).mp
    ⟨state, List.mem_filter.mpr ⟨hmem, decide_eq_true howner⟩, hversion⟩
  rcases hlater with ⟨more, hmore⟩
  have hthere := (paged_versions hmore).mpr ⟨hinside.1, by rw [List.length_append]; omega⟩
  rcases topicState_some hmore hthere with ⟨found, text, hstate, htext⟩
  rw [List.getElem?_append_left (by omega)] at htext
  exact ⟨hresolves, found, text, hstate, htext⟩

theorem read_ok {shown : Shown} (hkept : Kept second)
    (hpaged : forall topic, Paged topic second (promoted topic))
    (hlater : forall topic, exists more, Paged topic third (promoted topic ++ more))
    (h : read cut asking first second third = Except.ok shown) :
    exists topic, findTopic asking.topic first = some topic ∧
      Shows cut asking topic second (promoted topic.id) shown := by
  unfold read at h
  cases hfound : findTopic asking.topic first with
  | none =>
      rw [hfound] at h
      cases h
  | some topic =>
      simp only [hfound] at h
      cases hresolved : resolveVersion (topicVersions topic.id second) asking.versionOffset with
      | none =>
          rw [hresolved] at h
          cases h
      | some resolved =>
          simp only [hresolved] at h
          rcases topicState_later hkept (hpaged topic.id) (hlater topic.id) hresolved with
            ⟨hresolves, state, text, hstate, htext⟩
          simp only [hstate] at h
          cases hshown : shownOf cut asking topic.name resolved.version text with
          | error error =>
              rw [hshown] at h
              cases h
          | ok pair =>
              rw [hshown] at h
              cases h
              refine ⟨topic, rfl, ?_⟩
              constructor
              · rfl
              · exact hresolves
              · exact fun version => mem_topicVersions hkept
              · intro row hrow hsame
                exact pointed_latest hkept hrow (hsame ▸ hresolves.latest)
              · exact ⟨text, htext, hshown⟩

theorem read_error {error : ReadError} (hkept : Kept second)
    (hpaged : forall topic, Paged topic second (promoted topic))
    (hlater : forall topic, exists more, Paged topic third (promoted topic ++ more))
    (h : read cut asking first second third = Except.error error) :
    Refuses cut asking first second error := by
  unfold read at h
  cases hfound : findTopic asking.topic first with
  | none =>
      rw [hfound] at h
      cases h
      exact Refuses.noTopic hfound
  | some topic =>
      simp only [hfound] at h
      cases hresolved : resolveVersion (topicVersions topic.id second) asking.versionOffset with
      | none =>
          rw [hresolved] at h
          cases h
          apply Refuses.noLiveVersions topic hfound
          intro state hmem howner hlive
          have hthere := (mem_topicVersions hkept).mpr ⟨state, hmem, howner, rfl, hlive⟩
          rw [resolveVersion_none.mp hresolved] at hthere
          cases hthere
      | some resolved =>
          simp only [hresolved] at h
          rcases topicState_later hkept (hpaged topic.id) (hlater topic.id) hresolved with
            ⟨_, state, text, hstate, _⟩
          simp only [hstate] at h
          cases hshown : shownOf cut asking topic.name resolved.version text with
          | ok pair =>
              rw [hshown] at h
              cases h
          | error refused =>
              rw [hshown] at h
              cases h
              rcases shownOf_error hshown with ⟨ordinal, hasked, hbeyond, rfl⟩
              exact Refuses.noSpan topic hfound ordinal hasked resolved.version text hbeyond

end Reading

/--
In every run of transactions, of which any may commit between the looks of a read: a read of a topic
that is found shows one of the versions that were live when it looked for them, so many back from
the latest as was asked for or the oldest there is, with what the promoted write of that number said
to the topic; and it shows nothing only for the lack of the topic, of a live version or of a span.
-/
theorem read_shows_what_was_written {segment : String -> List String} {project : ProjectId}
    {before between after : List Action} {first second third : Store}
    (hfirst : RunFrom (step segment project) Store.empty before = some first)
    (hsecond : RunFrom (step segment project) first between = some second)
    (hthird : RunFrom (step segment project) second after = some third)
    (cut : String -> String -> List Span) (asking : Asking) :
    (forall shown, read cut asking first second third = Except.ok shown ->
      exists topic, findTopic asking.topic first = some topic ∧
        Shows cut asking topic second
          (promotedTo (step segment project) topic.id Store.empty (before ++ between)) shown) ∧
    forall error, read cut asking first second third = Except.error error ->
      Refuses cut asking first second error := by
  have hrun : RunFrom (step segment project) Store.empty (before ++ between) = some second :=
    runFrom_append_some.mpr ⟨first, hfirst, hsecond⟩
  have hgrounded : Grounded second := runFrom_preserved grounded_step grounded_empty hrun
  have hpaged : forall topic, Paged topic second
      (promotedTo (step segment project) topic Store.empty (before ++ between)) :=
    fun topic => paged_run grounded_empty paged_empty hrun
  have hlater : forall topic, exists more, Paged topic third
      (promotedTo (step segment project) topic Store.empty (before ++ between) ++ more) :=
    fun topic => ⟨_, paged_run hgrounded (hpaged topic) hthird⟩
  exact ⟨fun shown => read_ok hgrounded.kept hpaged hlater,
    fun error => read_error hgrounded.kept hpaged hlater⟩

def notedTwice : List Action :=
  [Action.write 1 (noted "t" "one" true) SourceKind.manual none (drawnAt 1),
    Action.write 2 (noted "t" "two" true) SourceKind.manual none (drawnAt 4)]

def oneBack : Asking := { topic := "t", versionOffset := 1, span := none, around := 0 }

theorem read_shows_what_was_written_one_back :
    exists first third shown,
      RunFrom (step (fun _ => []) 0) Store.empty notedTwice = some first ∧
      RunFrom (step (fun _ => []) 0) first [Action.deleteState 3 1 1] = some third ∧
      read (fun _ _ => []) oneBack first first third = Except.ok shown ∧ shown.content = "one" ∧
      exists topic, findTopic "t" first = some topic ∧
        Shows (fun _ _ => []) oneBack topic first
          (promotedTo (step (fun _ => []) 0) topic.id Store.empty (notedTwice ++ [])) shown := by
  have hruns : ((RunFrom (step (fun _ => []) 0) Store.empty notedTwice).any fun first =>
      (RunFrom (step (fun _ => []) 0) first [Action.deleteState 3 1 1]).any fun third =>
        ((read (fun _ _ => []) oneBack first first third).toOption.map Shown.content) =
          some "one") = true := by decide
  rcases (Option.any_eq_true _ _).mp hruns with ⟨first, hfirst, hrest⟩
  rcases (Option.any_eq_true _ _).mp hrest with ⟨third, hthird, hread⟩
  cases hshown : read (fun _ _ => []) oneBack first first third with
  | error error =>
      rw [hshown] at hread
      cases of_decide_eq_true hread
  | ok shown =>
      rw [hshown] at hread
      refine ⟨first, third, shown, hfirst, hthird, hshown, ?_, ?_⟩
      · exact Option.some.inj (of_decide_eq_true hread)
      · exact (read_shows_what_was_written hfirst rfl hthird (fun _ _ => []) oneBack).1 shown
          hshown

end Topics
end PaminMemory
