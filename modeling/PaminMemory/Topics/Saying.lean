import PaminMemory.Topics.Filter
import PaminMemory.Topics.History

/-!
# What a topic's text is

A state's content is cut from the evidence its span lies in.  A held write leaves every
text as it was; a promoted one gives its topic a new text, over the one it held before.
-/

namespace PaminMemory
namespace Topics

open Foundation

def SourceSpan.textOf (span : SourceSpan) (evidence : String) : String :=
  if span.byteStart = 0 ∧ span.byteEnd = evidence.utf8ByteSize then evidence
  else String.Pos.Raw.extract evidence ⟨span.byteStart⟩ ⟨span.byteEnd⟩

def Store.contentOf (store : Store) (state : TopicState) : Option String := do
  let span <- store.spans.find? fun span => span.id = state.sourceSpanId
  let version <- store.sourceVersions.find? fun version => version.id = span.sourceVersionId
  some (span.textOf version.content)

def Store.currentStateOf (store : Store) (name : String) : Option TopicStateId :=
  (store.topics.find? fun topic => topic.name = name).bind Topic.currentStateId

def Store.contentAt (store : Store) (id : TopicStateId) : Option String := do
  let state <- store.states.find? fun state => state.id = id
  store.contentOf state

def Store.currentContent (store : Store) (name : String) : Option String := do
  let id <- store.currentStateOf name
  store.contentAt id

def Store.latestHashAt (store : Store) (locator : String) : Option String := do
  let source <- store.sources.find? fun source => source.locator = locator
  let version <- (store.evidenceOf source.id).argmax SourceVersion.version
  some version.contentHash

structure Grounded (store : Store) : Prop where
  kept : Kept store
  texts : forall state, state ∈ store.states -> exists text, store.contentOf state = some text

theorem find_append_new {row key : Type _} [DecidableEq key] {keyOf : row -> key}
    {rows : List row} {new : row} (h : keyOf new ∉ rows.map keyOf) :
    ((rows ++ [new]).find? fun r => keyOf r = keyOf new) = some new := by
  rw [List.find?_append, List.find?_eq_none.mpr]
  · simp
  · intro old hold heq
    apply h
    have hsame : keyOf old = keyOf new := by simpa using heq
    rw [← hsame]
    exact List.mem_map_of_mem hold

section Contents

variable {store t : Store}

def Extends (store t : Store) : Prop :=
  exists versions spans, t.sourceVersions = store.sourceVersions ++ versions ∧
    t.spans = store.spans ++ spans

theorem contentOf_extends (h : Extends store t) {state : TopicState} {text : String}
    (htext : store.contentOf state = some text) : t.contentOf state = some text := by
  rcases h with ⟨versions, spans, hversions, hspans⟩
  unfold Store.contentOf at htext ⊢
  cases hspan : store.spans.find? fun span => span.id = state.sourceSpanId with
  | none =>
      rw [hspan] at htext
      cases htext
  | some span =>
      rw [hspan] at htext
      have hfound : (t.spans.find? fun span => span.id = state.sourceSpanId) = some span := by
        rw [hspans, List.find?_append, hspan]
        rfl
      rw [hfound]
      cases hversion : store.sourceVersions.find? fun version =>
          version.id = span.sourceVersionId with
      | none =>
          simp only [Option.bind_eq_bind, Option.bind_some, hversion] at htext
          cases htext
      | some version =>
          have hread : (t.sourceVersions.find? fun version =>
              version.id = span.sourceVersionId) = some version := by
            rw [hversions, List.find?_append, hversion]
            rfl
          simp only [Option.bind_eq_bind, Option.bind_some, hversion, hread] at htext ⊢
          exact htext

theorem contentOf_congr {state other : TopicState} (h : state.sourceSpanId = other.sourceSpanId) :
    store.contentOf state = store.contentOf other := by
  unfold Store.contentOf
  rw [h]

theorem contentOf_written {evidence : Evidence} {drawn : Drawn} {version : SourceVersion}
    {state : TopicState} (hspan : drawn.span ∉ store.spans.map SourceSpan.id)
    (hversion : drawn.version ∉ store.sourceVersions.map SourceVersion.id)
    (hspans : t.spans = store.spans ++ [wholeSpan evidence drawn])
    (hversions : t.sourceVersions = store.sourceVersions ++ [version])
    (hid : version.id = drawn.version) (hcontent : version.content = evidence.content)
    (hstate : state.sourceSpanId = drawn.span) : t.contentOf state = some evidence.content := by
  have hfound : (t.spans.find? fun span => span.id = state.sourceSpanId) =
      some (wholeSpan evidence drawn) := by
    rw [hspans, hstate]
    exact @find_append_new _ _ _ SourceSpan.id store.spans (wholeSpan evidence drawn) hspan
  have hread : (t.sourceVersions.find? fun row =>
      row.id = (wholeSpan evidence drawn).sourceVersionId) = some version := by
    rw [hversions]
    have hnew := @find_append_new _ _ _ SourceVersion.id store.sourceVersions version
      (by rw [hid]; exact hversion)
    rw [hid] at hnew
    exact hnew
  unfold Store.contentOf
  rw [hfound]
  simp only [Option.bind_eq_bind, Option.bind_some, hread, SourceSpan.textOf, hcontent]
  rw [if_pos ⟨rfl, rfl⟩]

end Contents

/-!
## What one write leaves
-/

section Writing

variable {store t : Store}

theorem sourceFor_spans (kind : SourceKind) (root : Option String) (topic : String)
    (id : SourceId) (store : Store) :
    (sourceFor kind root topic id store).1.spans = store.spans := by
  unfold sourceFor ensureSourceCreated
  cases store.sources.find? fun source => source.locator = locator kind topic with
  | none =>
      cases root with
      | none => rfl
      | some root => rfl
  | some source =>
      cases root with
      | none => rfl
      | some root => rfl

theorem nameFirst_spans (segment : String -> List String) (now : Instant)
    (project : ProjectId) (kind : SourceKind) (name : String) (first created : Bool)
    (job : IndexJobId) (store : Store) :
    (nameFirst segment now project kind name first created job store).spans = store.spans := by
  have hnamed : forall key tokens, (nameTopic name key tokens store).1.spans = store.spans := by
    intro key tokens
    unfold nameTopic
    cases store.topics.find? fun topic => topic.name = name with
    | none => rfl
    | some topic =>
        simp only
        split
        · rfl
        · rfl
  unfold nameFirst
  split
  · split
    · next hresult =>
        have h := hnamed (" ".intercalate (segment name)) (segment name).length
        rw [hresult] at h
        exact h
    · next hresult =>
        have h := hnamed (" ".intercalate (segment name)) (segment name).length
        rw [hresult] at h
        exact h
  · rfl

theorem topicFor_cases (segment : String -> List String) (now : Instant) (kind : SourceKind)
    (name : String) (id : TopicId) (store : Store) :
    (topicFor segment now kind name id store).1.spans = store.spans ∧
      ((exists row, (store.topics.find? fun topic => topic.name = name) = some row ∧
          (topicFor segment now kind name id store).1.topics = store.topics ∧
          (topicFor segment now kind name id store).2.1 = lockedTopic row) ∨
        exists row, (store.topics.find? fun topic => topic.name = name) = none ∧
          row.id = id ∧ row.name = name ∧ row.currentStateId = none ∧
          (topicFor segment now kind name id store).1.topics = store.topics ++ [row] ∧
          (topicFor segment now kind name id store).2.1 = lockedTopic row) := by
  unfold topicFor
  cases hfind : store.topics.find? fun topic => topic.name = name with
  | some row =>
      have hlock : lockTopic name store = some (lockedTopic row) := by
        unfold lockTopic
        rw [hfind]
        rfl
      rw [hlock]
      exact ⟨rfl, Or.inl ⟨row, rfl, rfl, rfl⟩⟩
  | none =>
      have hlock : lockTopic name store = none := by
        unfold lockTopic
        rw [hfind]
        rfl
      rw [hlock]
      cases kind with
      | file =>
          unfold createTopicUnnamed createTopic
          rw [hlock]
          exact ⟨rfl, Or.inr ⟨_, rfl, rfl, rfl, rfl, rfl, rfl⟩⟩
      | manual =>
          unfold createTopicNamed createTopic
          rw [hlock]
          exact ⟨rfl, Or.inr ⟨_, rfl, rfl, rfl, rfl, rfl, rfl⟩⟩

theorem currentStateOf_pointAt (topic : TopicId) (state : TopicState) (name : String) :
    (pointAt topic (some state) store).currentStateOf name =
      (store.topics.find? fun row => row.name = name).bind fun row =>
        if row.id = topic then some state.id else row.currentStateId := by
  unfold Store.currentStateOf pointAt
  simp only [List.find?_map]
  have hname : ((fun row : Topic => decide (row.name = name)) ∘ fun row : Topic =>
      if row.id = topic then row.pointAt (some state) else row) =
        fun row => decide (row.name = name) := by
    funext row
    rw [Function.comp_apply]
    by_cases hrow : row.id = topic
    · rw [if_pos hrow]
      rfl
    · rw [if_neg hrow]
  rw [hname]
  cases store.topics.find? fun row => row.name = name with
  | none => rfl
  | some row =>
      simp only [Option.map_some, Option.bind_some]
      by_cases hrow : row.id = topic
      · rw [if_pos hrow, if_pos hrow]
        rfl
      · rw [if_neg hrow, if_neg hrow]

structure Leaves (request : Write) (drawn : Drawn) (store t : Store) (state : TopicState) :
    Prop where
  drawn : state.id = drawn.state
  content : t.contentOf state = some request.content
  supersedes : state.supersedes = store.currentStateOf request.topic
  states : t.states = store.states ++ [state]
  pointers : forall name, t.currentStateOf name =
    if name = request.topic then some state.id else store.currentStateOf name

theorem currentStateOf_congr (h : t.topics = store.topics) (name : String) :
    t.currentStateOf name = store.currentStateOf name := by
  unfold Store.currentStateOf
  rw [h]

theorem appendEvidence_rows {now : Instant} {source : SourceId} {evidence : Evidence}
    {drawn : Drawn} {version : SourceVersion}
    (h : appendEvidence now source evidence drawn store = some (t, version)) :
    version.id = drawn.version ∧ version.content = evidence.content ∧
      t = { store with
            sourceVersions := store.sourceVersions ++ [version]
            spans := store.spans ++ [wholeSpan evidence drawn] } := by
  unfold appendEvidence at h
  simp only at h
  split at h
  · cases h
  · cases h
    exact ⟨rfl, rfl, rfl⟩

theorem appendPromoted_rows {now : Instant} {project : ProjectId} {source : SourceId}
    {evidence : Evidence} {promotion : Promotion} {drawn : Drawn} {version : SourceVersion}
    {state : TopicState}
    (h : appendPromoted now project source evidence promotion drawn store =
      some (t, version, state)) :
    (version.id = drawn.version ∧ version.content = evidence.content ∧
      t.sourceVersions = store.sourceVersions ++ [version] ∧
      t.spans = store.spans ++ [wholeSpan evidence drawn]) ∧
      state.id = drawn.state ∧ state.sourceSpanId = drawn.span ∧
      state.supersedes = promotion.topic.current ∧ t.states = store.states ++ [state] ∧
      t.topics = (pointAt promotion.topic.topic (some state) store).topics := by
  unfold appendPromoted at h
  cases hevidence : appendEvidence now source evidence drawn store with
  | none =>
      rw [hevidence] at h
      cases h
  | some recorded =>
      rcases recorded with ⟨recorded, filed⟩
      rcases appendEvidence_rows hevidence with ⟨hid, hcontent, hrecorded⟩
      simp only [hevidence] at h
      split at h
      · cases h
      · cases h
        rw [hrecorded]
        exact ⟨⟨hid, hcontent, rfl, rfl⟩, rfl, rfl, rfl, rfl, rfl⟩

theorem pointers_promoted {middle : Store} {locked : LockedTopic} {state : TopicState}
    {request : Write} {drawn : Drawn} (hkept : Kept store)
    (hfresh : drawn.topic ∉ store.topics.map Topic.id)
    (hobtained : (exists row,
        (store.topics.find? fun topic => topic.name = request.topic) = some row ∧
          middle.topics = store.topics ∧ locked = lockedTopic row) ∨
      exists row, (store.topics.find? fun topic => topic.name = request.topic) = none ∧
        row.id = drawn.topic ∧ row.name = request.topic ∧ row.currentStateId = none ∧
        middle.topics = store.topics ++ [row] ∧ locked = lockedTopic row)
    (hsupersedes : state.supersedes = locked.current)
    (htopics : t.topics = (pointAt locked.topic (some state) middle).topics) :
    state.supersedes = store.currentStateOf request.topic ∧
      forall name, t.currentStateOf name =
        if name = request.topic then some state.id else store.currentStateOf name := by
  have hpointed : forall name, t.currentStateOf name =
      (middle.topics.find? fun row => row.name = name).bind fun row =>
        if row.id = locked.topic then some state.id else row.currentStateId := by
    intro name
    rw [currentStateOf_congr htopics, currentStateOf_pointAt]
  have hdistinct := hkept.topicsDistinct
  rw [pointer_ids] at hdistinct
  cases hobtained with
  | inl hfound =>
      rcases hfound with ⟨row, hrow, hmiddle, hlocked⟩
      have hmem := List.mem_of_find?_eq_some hrow
      have hname : row.name = request.topic := by simpa using List.find?_some hrow
      constructor
      · rw [hsupersedes, hlocked]
        unfold Store.currentStateOf
        rw [hrow]
        rfl
      · intro name
        rw [hpointed, hmiddle, hlocked]
        by_cases hsame : name = request.topic
        · rw [if_pos hsame, hsame, hrow]
          exact if_pos rfl
        · rw [if_neg hsame]
          unfold Store.currentStateOf
          cases hother : store.topics.find? fun topic => topic.name = name with
          | none => rfl
          | some other =>
              have hothername : other.name = name := by simpa using List.find?_some hother
              have hne : other.id ≠ row.id := by
                intro heq
                have hrows := List.inj_on_of_nodup_map hdistinct
                  (List.mem_of_find?_eq_some hother) hmem heq
                rw [← hothername, hrows, hname] at hsame
                exact hsame rfl
              exact if_neg hne
  | inr hcreated =>
      rcases hcreated with ⟨row, hnone, hid, hname, hcurrent, hmiddle, hlocked⟩
      constructor
      · rw [hsupersedes, hlocked]
        unfold Store.currentStateOf
        rw [hnone]
        exact hcurrent
      · intro name
        rw [hpointed, hmiddle, hlocked, List.find?_append]
        by_cases hsame : name = request.topic
        · rw [if_pos hsame, hsame, hnone, Option.none_or, List.find?_singleton,
            if_pos (decide_eq_true hname)]
          exact if_pos rfl
        · rw [if_neg hsame]
          have hnot : ¬decide (row.name = name) = true := by
            intro heq
            exact hsame ((of_decide_eq_true heq).symm.trans hname)
          rw [List.find?_singleton, if_neg hnot, Option.or_none]
          unfold Store.currentStateOf
          cases hother : store.topics.find? fun topic => topic.name = name with
          | none => rfl
          | some other =>
              have hne : other.id ≠ row.id := by
                intro heq
                apply hfresh
                rw [← hid, ← heq]
                exact List.mem_map_of_mem (List.mem_of_find?_eq_some hother)
              exact if_neg hne

theorem writeFrom_leaves {segment : String -> List String} {now : Instant}
    {project : ProjectId} {request : Write} {kind : SourceKind} {root : Option String}
    {drawn : Drawn} {recorded : Recorded} (hkept : Kept store) (hunused : Unused store drawn)
    (h : writeFrom segment now project request kind root drawn store = some (t, recorded)) :
    Extends store t ∧
      ((request.promoted = true ∧ exists state, Leaves request drawn store t state) ∨
        (request.promoted = false ∧ t.states = store.states ∧
          forall name, t.currentStateOf name = store.currentStateOf name)) := by
  rcases hunused with ⟨_, hversion, hspan, htopic, _⟩
  rcases sourceFor_same kind root request.topic drawn.source store with
    ⟨hstates, htopics, hversions⟩
  have hspans := sourceFor_spans kind root request.topic drawn.source store
  unfold writeFrom at h
  simp only at h
  generalize sourceFor kind root request.topic drawn.source store = sourced
    at h hstates htopics hversions hspans
  split at h
  · next hpromoted =>
      rcases topicFor_cases segment now kind request.topic drawn.topic sourced.1 with
        ⟨hobtainedspans, hobtained⟩
      rcases topicFor_obtains segment now kind request.topic drawn.topic sourced.1 with
        ⟨hobtainedstates, hobtainedversions, _⟩
      generalize topicFor segment now kind request.topic drawn.topic sourced.1 = obtained
        at h hobtainedspans hobtained hobtainedstates hobtainedversions
      split at h
      · cases h
      · next written version state happended =>
          cases h
          rcases appendPromoted_rows happended with
            ⟨⟨hid, hcontent, hnewversions, hnewspans⟩, hdrawn, hstatespan, hover, hnewstates,
              hnewtopics⟩
          rcases nameFirst_same segment now project kind request.topic sourced.2.2
            (!obtained.2.2 && decide (kind = SourceKind.manual)) drawn.backfill written with
            ⟨hnamedstates, hnamedtopics, hnamedversions⟩
          have hnamedspans := nameFirst_spans segment now project kind request.topic sourced.2.2
            (!obtained.2.2 && decide (kind = SourceKind.manual)) drawn.backfill written
          rw [htopics] at hobtained
          have hallversions := hnamedversions.trans hnewversions
          have hallspans := hnamedspans.trans hnewspans
          rw [hobtainedversions, hversions] at hallversions
          rw [hobtainedspans, hspans] at hallspans
          rcases pointers_promoted hkept htopic hobtained hover
            (hnamedtopics.trans hnewtopics) with ⟨hsupersedes, hpointers⟩
          refine ⟨⟨[version], _, hallversions, hallspans⟩, Or.inl ⟨hpromoted, state, ?_⟩⟩
          constructor
          · exact hdrawn
          · exact contentOf_written hspan hversion hallspans hallversions hid hcontent hstatespan
          · exact hsupersedes
          · rw [hnamedstates, hnewstates, hobtainedstates, hstates]
          · exact hpointers
  · next hheld =>
      split at h
      · cases h
      · next written version happended =>
          cases h
          rcases appendEvidence_rows happended with ⟨hid, hcontent, hwritten⟩
          rcases nameFirst_same segment now project kind request.topic sourced.2.2 false
            drawn.backfill written with ⟨hnamedstates, hnamedtopics, hnamedversions⟩
          have hnamedspans := nameFirst_spans segment now project kind request.topic sourced.2.2
            false drawn.backfill written
          rw [hwritten] at hnamedstates hnamedtopics hnamedversions hnamedspans ⊢
          refine ⟨⟨[version], _, by rw [hnamedversions, hversions], by rw [hnamedspans, hspans]⟩,
            Or.inr ⟨Bool.eq_false_iff.mpr hheld, ?_, ?_⟩⟩
          · rw [hnamedstates]
            exact hstates
          · intro name
            apply currentStateOf_congr
            rw [hnamedtopics]
            exact htopics

end Writing

/-!
## Every state keeps its text
-/

section Texts

variable {store t : Store}

theorem grounded_of_rows (hkept : Kept t) (h : Grounded store) (hextends : Extends store t)
    (hstates : forall state, state ∈ t.states ->
      exists old, old ∈ store.states ∧ old.record = state.record) : Grounded t where
  kept := hkept
  texts := by
    intro state hstate
    rcases hstates state hstate with ⟨old, hold, hrecord⟩
    rcases h.texts old hold with ⟨text, htext⟩
    have hspan : old.record.sourceSpanId = state.record.sourceSpanId :=
      congrArg TopicState.sourceSpanId hrecord
    have hsame : t.contentOf old = t.contentOf state := contentOf_congr hspan
    refine ⟨text, ?_⟩
    rw [← hsame]
    exact contentOf_extends hextends htext

theorem grounded_empty : Grounded Store.empty where
  kept := kept_empty
  texts := by
    intro state hstate
    cases hstate

theorem extends_same (hspans : t.spans = store.spans)
    (hversions : t.sourceVersions = store.sourceVersions) : Extends store t :=
  ⟨[], [], by rw [hversions, List.append_nil], by rw [hspans, List.append_nil]⟩

theorem retire_extends (now : Instant) (project : ProjectId) (topic : TopicId)
    (jobs : IndexJobId × IndexJobId) (store : Store) :
    Extends store (retireTopic now project topic jobs store).1 := by
  unfold retireTopic
  split
  · exact extends_same rfl rfl
  · exact extends_same rfl rfl

theorem rename_extends (now : Instant) (project : ProjectId) (topic : TopicId)
    (names locators : String × String) (job : IndexJobId) (store : Store) :
    Extends store (renameTopic now project topic names locators job store).1 := by
  unfold renameTopic
  split
  · exact extends_same rfl rfl
  · exact extends_same rfl rfl

theorem retireSection_extends (now : Instant) (project : ProjectId) (topic : String)
    (seen : TopicStateId) (jobs : IndexJobId × IndexJobId) (store : Store) :
    Extends store (retireSection now project topic seen jobs store).1 := by
  unfold retireSection
  split
  · exact extends_same rfl rfl
  · split
    · exact extends_same rfl rfl
    · split
      · exact extends_same rfl rfl
      · split
        · exact extends_same rfl rfl
        · exact retire_extends _ _ _ _ _

theorem renameSection_extends (now : Instant) (project : ProjectId) (names : String × String)
    (seen : TopicStateId) (job : IndexJobId) (store : Store) :
    Extends store (renameSection now project names seen job store).1 := by
  unfold renameSection
  split
  · exact extends_same rfl rfl
  · split
    · exact extends_same rfl rfl
    · exact rename_extends _ _ _ _ _ _ _

theorem retireSection_kept {now : Instant} {project : ProjectId} {topic : String}
    {seen : TopicStateId} {jobs : IndexJobId × IndexJobId} {state : TopicState}
    (hmem : state ∈ (retireSection now project topic seen jobs store).1.states) :
    exists old, old ∈ store.states ∧ old.record = state.record := by
  unfold retireSection at hmem
  split at hmem
  · exact ⟨state, hmem, rfl⟩
  · split at hmem
    · exact ⟨state, hmem, rfl⟩
    · split at hmem
      · exact ⟨state, hmem, rfl⟩
      · split at hmem
        · exact ⟨state, hmem, rfl⟩
        · exact retire_kept hmem

theorem renameSection_kept (now : Instant) (project : ProjectId) (names : String × String)
    (seen : TopicStateId) (job : IndexJobId) (store : Store) :
    (renameSection now project names seen job store).1.states = store.states := by
  unfold renameSection
  split
  · rfl
  · split
    · rfl
    · exact rename_kept _ _ _ _ _ _

theorem grounded_write {segment : String -> List String} {now : Instant} {project : ProjectId}
    {request : Write} {kind : SourceKind} {root : Option String} {drawn : Drawn}
    {recorded : Recorded} (hgrounded : Grounded store) (hkept : Kept t)
    (hunused : Unused store drawn)
    (h : writeFrom segment now project request kind root drawn store = some (t, recorded)) :
    Grounded t := by
  rcases writeFrom_leaves hgrounded.kept hunused h with ⟨hextends, hleaves⟩
  cases hleaves with
  | inr hheld =>
      apply grounded_of_rows hkept hgrounded hextends
      intro state hstate
      rw [hheld.right.left] at hstate
      exact ⟨state, hstate, rfl⟩
  | inl hpromoted =>
      rcases hpromoted with ⟨_, written, hwritten⟩
      refine ⟨hkept, ?_⟩
      intro state hstate
      rw [hwritten.states] at hstate
      cases List.mem_append.mp hstate with
      | inl hold =>
          rcases hgrounded.texts state hold with ⟨text, htext⟩
          exact ⟨text, contentOf_extends hextends htext⟩
      | inr hnew =>
          rw [List.mem_singleton.mp hnew]
          exact ⟨request.content, hwritten.content⟩

theorem grounded_step {segment : String -> List String} {project : ProjectId} :
    Preserved (step segment project) Grounded := by
  intro store action t h hstep
  have hkept := kept_step store action t h.kept hstep
  cases action with
  | write now request kind root drawn =>
      simp only [step] at hstep
      split at hstep
      · next hunused =>
          rcases Option.map_eq_some_iff.mp hstep with ⟨result, hresult, heq⟩
          subst heq
          exact grounded_write h hkept hunused hresult
      · cases hstep
  | deleteState now topic version =>
      cases hstep
      unfold softDeleteTopicState at hkept ⊢
      simp only at hkept ⊢
      split at hkept
      · next hany =>
          rw [if_pos hany]
          exact grounded_of_rows hkept h (extends_same rfl rfl) fun state => deleteStates_kept
      · next hnone =>
          rw [if_neg hnone]
          exact h
  | retire now topic jobs =>
      cases hstep
      exact grounded_of_rows hkept h (retire_extends now project topic jobs store)
        fun state => retire_kept
  | rename now topic names locators job =>
      cases hstep
      apply grounded_of_rows hkept h (rename_extends now project topic names locators job store)
      intro state hstate
      rw [rename_kept] at hstate
      exact ⟨state, hstate, rfl⟩
  | retireSection now topic seen jobs =>
      cases hstep
      apply grounded_of_rows hkept h
      · exact retireSection_extends now project topic seen jobs store
      · intro state
        exact retireSection_kept
  | renameSection now names seen job =>
      cases hstep
      apply grounded_of_rows hkept h
      · exact renameSection_extends now project names seen job store
      · intro state hstate
        rw [renameSection_kept] at hstate
        exact ⟨state, hstate, rfl⟩

end Texts

/-!
## What a topic says after a write
-/

section Says

variable {store t : Store}

theorem pointed_state (h : Kept store) {name : String} {id : TopicStateId}
    (hid : store.currentStateOf name = some id) :
    exists state, state ∈ store.states ∧ state.id = id := by
  rcases Option.bind_eq_some_iff.mp hid with ⟨row, hrow, hcurrent⟩
  have hmem := List.mem_of_find?_eq_some hrow
  have hpointed := h.pointed row.pointer (List.mem_map_of_mem hmem)
  have hnewest : row.currentStateId = (store.newest row.id).map TopicState.id :=
    congrArg Prod.fst hpointed
  rw [hcurrent] at hnewest
  rcases Option.map_eq_some_iff.mp hnewest.symm with ⟨state, hstate, hsame⟩
  exact ⟨state, (mem_survivors.mp (List.argmax_mem hstate)).left, hsame⟩

theorem find_state (h : Kept store) {state : TopicState} (hmem : state ∈ store.states) :
    (store.states.find? fun row => row.id = state.id) = some state := by
  cases hfind : store.states.find? fun row => row.id = state.id with
  | none =>
      have hnone := List.find?_eq_none.mp hfind state hmem
      simp at hnone
  | some row =>
      have hid : row.id = state.id := by simpa using List.find?_some hfind
      rw [List.inj_on_of_nodup_map h.statesDistinct (List.mem_of_find?_eq_some hfind) hmem hid]

theorem contentAt_of_mem (h : Kept store) {state : TopicState} (hmem : state ∈ store.states) :
    store.contentAt state.id = store.contentOf state := by
  unfold Store.contentAt
  rw [find_state h hmem]
  rfl

theorem contentAt_extends (h : Grounded store) (hextends : Extends store t)
    {new : List TopicState} (hstates : t.states = store.states ++ new) {state : TopicState}
    (hmem : state ∈ store.states) : t.contentAt state.id = store.contentAt state.id := by
  rcases h.texts state hmem with ⟨text, htext⟩
  have hfound : (t.states.find? fun row => row.id = state.id) = some state := by
    rw [hstates, List.find?_append, find_state h.kept hmem]
    rfl
  rw [contentAt_of_mem h.kept hmem, htext]
  unfold Store.contentAt
  rw [hfound]
  exact contentOf_extends hextends htext

theorem currentContent_same (h : Grounded store) (hextends : Extends store t)
    {new : List TopicState} (hstates : t.states = store.states ++ new) {name : String}
    (hpointer : t.currentStateOf name = store.currentStateOf name) :
    t.currentContent name = store.currentContent name := by
  unfold Store.currentContent
  rw [hpointer]
  cases hid : store.currentStateOf name with
  | none => rfl
  | some id =>
      rcases pointed_state h.kept hid with ⟨state, hmem, hsame⟩
      rw [← hsame]
      exact contentAt_extends h hextends hstates hmem

theorem currentContent_leaves {request : Write} {drawn : Drawn} {state : TopicState}
    (h : Grounded store) (hextends : Extends store t) (hkept : Kept t)
    (hleaves : Leaves request drawn store t state) (name : String) :
    t.currentContent name =
      if name = request.topic then some request.content else store.currentContent name := by
  by_cases hsame : name = request.topic
  · rw [if_pos hsame]
    have hmem : state ∈ t.states := by
      rw [hleaves.states]
      exact List.mem_append_right _ (List.mem_singleton_self state)
    unfold Store.currentContent
    rw [hleaves.pointers, if_pos hsame]
    exact (contentAt_of_mem hkept hmem).trans hleaves.content
  · rw [if_neg hsame]
    apply currentContent_same h hextends hleaves.states
    rw [hleaves.pointers, if_neg hsame]

end Says

end Topics
end PaminMemory
