import PaminMemory.Topics.Pointers

/-!
# What a sequence of transactions leaves

A write appends one row of evidence whatever its verdict, and a promoted write
one state, which supersedes what its topic said under the lock.  Nothing else
appends either, and no row is altered but by the mark of a deletion.
-/

namespace PaminMemory
namespace Topics

open Foundation

def Store.says (store : Store) (topic : TopicId) : Option TopicStateId :=
  (store.topics.find? fun row => row.id = topic).bind Topic.currentStateId

/-!
## One write
-/

theorem appendEvidence_some {now : Instant} {source : SourceId} {evidence : Evidence}
    {drawn : Drawn} {store t : Store} {version : SourceVersion}
    (h : appendEvidence now source evidence drawn store = some (t, version)) :
    version.sourceId = source ∧
      version.version = nextNumber SourceVersion.version (store.evidenceOf source) ∧
        t = { store with
              sourceVersions := store.sourceVersions ++ [version]
              spans := store.spans ++ [wholeSpan evidence drawn] } := by
  unfold appendEvidence at h
  simp only at h
  split at h
  · cases h
  · cases h
    exact ⟨rfl, rfl, rfl⟩

/-- The evidence one write appends under a source. -/
def Filed (source : SourceId) (store t : Store) : Prop :=
  exists version, version.sourceId = source ∧
    version.version = nextNumber SourceVersion.version (store.evidenceOf source) ∧
      t.sourceVersions = store.sourceVersions ++ [version]

structure Appends (locked : LockedTopic) (id : TopicStateId) (store t : Store)
    (state : TopicState) : Prop where
  drawn : state.id = id
  owner : state.topicId = locked.topic
  number : state.version = nextNumber TopicState.version (store.statesOf state.topicId)
  supersedes : state.supersedes = locked.current
  live : state.deletedAt = none
  states : t.states = store.states ++ [state]
  pointers : t.pointers = store.pointers.map fun pointer =>
    if pointer.1 = state.topicId then (pointer.1, pointerTo (some state)) else pointer

theorem appendPromoted_some {now : Instant} {project : ProjectId} {source : SourceId}
    {evidence : Evidence} {promotion : Promotion} {drawn : Drawn} {store t : Store}
    {version : SourceVersion} {state : TopicState}
    (h : appendPromoted now project source evidence promotion drawn store =
      some (t, version, state)) :
    Filed source store t ∧ Appends promotion.topic drawn.state store t state := by
  unfold appendPromoted at h
  cases hevidence : appendEvidence now source evidence drawn store with
  | none => simp [hevidence] at h
  | some recorded =>
      rcases recorded with ⟨recorded, filed⟩
      rcases appendEvidence_some hevidence with ⟨hsource, hnumber, hrecorded⟩
      simp only [hevidence] at h
      split at h
      · cases h
      · cases h
        constructor
        · exact ⟨_, hsource, hnumber, by rw [hrecorded]; rfl⟩
        · rw [hrecorded]
          exact
            { drawn := rfl, owner := rfl, number := rfl, supersedes := rfl, live := rfl
              states := rfl, pointers := pointers_pointAt _ _ _ }

inductive Obtained (id : TopicId) (store middle : Store) (locked : LockedTopic) : Prop where
  | found (row : Topic) (hmem : row ∈ store.topics) (hlocked : locked = lockedTopic row)
      (hpointers : middle.pointers = store.pointers)
  | created (hlocked : locked = { topic := id, current := none })
      (hpointers : middle.pointers = store.pointers ++ [(id, none, none)])

theorem lockTopic_mem {name : String} {store : Store} {locked : LockedTopic}
    (h : lockTopic name store = some locked) :
    exists row, row ∈ store.topics ∧ locked = lockedTopic row := by
  unfold lockTopic at h
  rcases Option.map_eq_some_iff.mp h with ⟨row, hfind, hrow⟩
  exact ⟨row, List.mem_of_find?_eq_some hfind, hrow.symm⟩

theorem createTopic_new {now : Instant} {id : TopicId} {name : String}
    (named : Option (String × Nat)) {store : Store} (h : lockTopic name store = none) :
    (createTopic now id name named store).1.states = store.states ∧
      (createTopic now id name named store).1.sourceVersions = store.sourceVersions ∧
        Obtained id store (createTopic now id name named store).1
          (createTopic now id name named store).2 := by
  unfold createTopic
  rw [h]
  refine ⟨rfl, rfl, Obtained.created rfl ?_⟩
  show (store.topics ++ [_]).map Topic.pointer = _
  rw [List.map_append]
  rfl

theorem topicFor_obtains (segment : String -> List String) (now : Instant)
    (kind : SourceKind) (name : String) (id : TopicId) (store : Store) :
    (topicFor segment now kind name id store).1.states = store.states ∧
      (topicFor segment now kind name id store).1.sourceVersions = store.sourceVersions ∧
        Obtained id store (topicFor segment now kind name id store).1
          (topicFor segment now kind name id store).2.1 := by
  unfold topicFor
  cases hlock : lockTopic name store with
  | some locked =>
      rcases lockTopic_mem hlock with ⟨row, hmem, hlocked⟩
      exact ⟨rfl, rfl, Obtained.found row hmem hlocked rfl⟩
  | none =>
      cases kind with
      | file => exact createTopic_new none hlock
      | manual => exact createTopic_new _ hlock

theorem sourceFor_same (kind : SourceKind) (root : Option String) (topic : String)
    (id : SourceId) (store : Store) :
    (sourceFor kind root topic id store).1.states = store.states ∧
      (sourceFor kind root topic id store).1.topics = store.topics ∧
        (sourceFor kind root topic id store).1.sourceVersions = store.sourceVersions := by
  unfold sourceFor ensureSourceCreated
  cases store.sources.find? fun source => source.locator = locator kind topic with
  | none =>
      cases root with
      | none => exact ⟨rfl, rfl, rfl⟩
      | some root => exact ⟨rfl, rfl, rfl⟩
  | some source =>
      cases root with
      | none => exact ⟨rfl, rfl, rfl⟩
      | some root => exact ⟨rfl, rfl, rfl⟩

theorem nameTopic_same (name key : String) (tokens : Nat) (store : Store) :
    (nameTopic name key tokens store).1.states = store.states ∧
      (nameTopic name key tokens store).1.topics = store.topics ∧
        (nameTopic name key tokens store).1.sourceVersions = store.sourceVersions := by
  unfold nameTopic
  cases store.topics.find? fun topic => topic.name = name with
  | none => exact ⟨rfl, rfl, rfl⟩
  | some topic =>
      simp only
      split
      · exact ⟨rfl, rfl, rfl⟩
      · exact ⟨rfl, rfl, rfl⟩

theorem nameFirst_same (segment : String -> List String) (now : Instant)
    (project : ProjectId) (kind : SourceKind) (name : String) (first created : Bool)
    (job : IndexJobId) (store : Store) :
    (nameFirst segment now project kind name first created job store).states = store.states ∧
      (nameFirst segment now project kind name first created job store).topics =
          store.topics ∧
        (nameFirst segment now project kind name first created job store).sourceVersions =
          store.sourceVersions := by
  have hnamed := nameTopic_same name (" ".intercalate (segment name)) (segment name).length store
  unfold nameFirst
  split
  · split
    · next hresult =>
        rw [hresult] at hnamed
        exact hnamed
    · next hresult =>
        rw [hresult] at hnamed
        exact hnamed
  · exact ⟨rfl, rfl, rfl⟩

/-- What one write leaves: its evidence, and with a promotion its state. -/
inductive Writes (source : SourceId) (drawn : Drawn) (store t : Store) : Prop where
  | held (hfiled : Filed source store t) (hstates : t.states = store.states)
      (hpointers : t.pointers = store.pointers)
  | promoted (middle : Store) (locked : LockedTopic) (state : TopicState)
      (hfiled : Filed source store t) (hmiddle : middle.states = store.states)
      (hobtained : Obtained drawn.topic store middle locked)
      (happends : Appends locked drawn.state middle t state)

theorem filed_congr {source : SourceId} {store store' t t' : Store}
    (h : Filed source store t) (hstore : store.sourceVersions = store'.sourceVersions)
    (ht : t.sourceVersions = t'.sourceVersions) : Filed source store' t' := by
  rcases h with ⟨version, hsource, hnumber, hversions⟩
  refine ⟨version, hsource, ?_, ?_⟩
  · unfold Store.evidenceOf
    rw [← hstore]
    exact hnumber
  · rw [← ht, ← hstore]
    exact hversions

theorem pointers_of_topics {store t : Store} (h : t.topics = store.topics) :
    t.pointers = store.pointers := by
  unfold Store.pointers
  rw [h]

theorem appends_congr {locked : LockedTopic} {id : TopicStateId} {store t t' : Store}
    {state : TopicState} (h : Appends locked id store t state)
    (hstates : t'.states = t.states) (hpointers : t'.pointers = t.pointers) :
    Appends locked id store t' state :=
  { h with
    states := hstates.trans h.states
    pointers := hpointers.trans h.pointers }

theorem obtained_congr {id : TopicId} {store store' middle : Store} {locked : LockedTopic}
    (h : Obtained id store middle locked) (htopics : store.topics = store'.topics) :
    Obtained id store' middle locked := by
  have hsame : store.pointers = store'.pointers := (pointers_of_topics htopics.symm).symm
  cases h with
  | found row hmem hlocked hpointers =>
      exact Obtained.found row (htopics ▸ hmem) hlocked (hpointers.trans hsame)
  | created hlocked hpointers =>
      exact Obtained.created hlocked (by rw [hpointers, hsame])

/-- The source a write files its evidence under. -/
def sourceOf (request : Write) (kind : SourceKind) (root : Option String) (drawn : Drawn)
    (store : Store) : SourceId :=
  (sourceFor kind root request.topic drawn.source store).2.1

theorem writeFrom_writes {segment : String -> List String} {now : Instant}
    {project : ProjectId} {request : Write} {kind : SourceKind} {root : Option String}
    {drawn : Drawn} {store t : Store} {recorded : Recorded}
    (h : writeFrom segment now project request kind root drawn store = some (t, recorded)) :
    Writes (sourceOf request kind root drawn store) drawn store t := by
  rcases sourceFor_same kind root request.topic drawn.source store with
    ⟨hstates, htopics, hversions⟩
  unfold writeFrom at h
  simp only at h
  split at h
  · rcases topicFor_obtains segment now kind request.topic drawn.topic
        (sourceFor kind root request.topic drawn.source store).1 with
      ⟨hmiddle, hfiled, hobtained⟩
    split at h
    · cases h
    · next written version state hpromoted =>
        cases h
        rcases appendPromoted_some hpromoted with ⟨hnew, happends⟩
        rcases nameFirst_same segment now project kind request.topic
            (sourceFor kind root request.topic drawn.source store).2.2
            (!(topicFor segment now kind request.topic drawn.topic
                (sourceFor kind root request.topic drawn.source store).1).2.2 &&
              decide (kind = SourceKind.manual)) drawn.backfill written with
          ⟨hnamed, hnamedTopics, hnamedVersions⟩
        exact Writes.promoted _ _ state
          (filed_congr hnew (hfiled.trans hversions) hnamedVersions.symm)
          (hmiddle.trans hstates) (obtained_congr hobtained htopics)
          (appends_congr happends hnamed (pointers_of_topics hnamedTopics))
  · split at h
    · cases h
    · next written version hevidence =>
        cases h
        rcases appendEvidence_some hevidence with ⟨hsource, hnumber, hwritten⟩
        rcases nameFirst_same segment now project kind request.topic
            (sourceFor kind root request.topic drawn.source store).2.2 false drawn.backfill
            written with
          ⟨hnamed, hnamedTopics, hnamedVersions⟩
        rw [hwritten] at hnamed hnamedTopics hnamedVersions
        apply Writes.held
        · refine ⟨version, hsource, ?_, ?_⟩
          · rw [hnumber]
            unfold Store.evidenceOf
            rw [hversions]
            rfl
          · rw [hwritten, hnamedVersions, hversions]
        · rw [hwritten, hnamed, hstates]
        · rw [hwritten]
          exact pointers_of_topics (hnamedTopics.trans htopics)

/-!
## Every transaction keeps the pointers in step
-/

theorem pointer_ids (store : Store) :
    store.pointers.map Prod.fst = store.topics.map Topic.id := by
  unfold Store.pointers
  rw [List.map_map]
  rfl

theorem kept_writes {source : SourceId} {drawn : Drawn} {store t : Store} (h : Kept store)
    (hunused : Unused store drawn) (hwrites : Writes source drawn store t) : Kept t := by
  rcases hunused with ⟨_, _, _, htopic, hstate⟩
  cases hwrites with
  | held _ hstates hpointers => exact kept_congr h hstates hpointers
  | promoted middle locked state _ hmiddle hobtained happends =>
      have hnew : state.id ∉ middle.states.map TopicState.id := by
        rw [hmiddle, happends.drawn]
        exact hstate
      cases hobtained with
      | found row hmem hlocked hpointers =>
          have hkept := kept_congr h hmiddle hpointers
          refine kept_appended hkept hnew ?_ happends.number happends.live happends.states
            happends.pointers
          rw [happends.owner, hlocked, hpointers, pointer_ids]
          exact List.mem_map_of_mem hmem
      | created hlocked hpointers =>
          rw [← pointer_ids] at htopic
          have hkept := kept_created h htopic hmiddle hpointers
          refine kept_appended hkept hnew ?_ happends.number happends.live happends.states
            happends.pointers
          rw [happends.owner, hlocked, hpointers]
          simp

section Run

variable {segment : String -> List String} {project : ProjectId}

theorem step_write {now : Instant} {request : Write} {kind : SourceKind}
    {root : Option String} {drawn : Drawn} {store t : Store}
    (h : step segment project store (Action.write now request kind root drawn) = some t) :
    Unused store drawn ∧ Writes (sourceOf request kind root drawn store) drawn store t := by
  simp only [step] at h
  split at h
  · next hunused =>
      rcases Option.map_eq_some_iff.mp h with ⟨result, hresult, rfl⟩
      exact ⟨hunused, writeFrom_writes hresult⟩
  · cases h

theorem kept_step : Preserved (step segment project) Kept := by
  intro store action t h hstep
  cases action with
  | write now request kind root drawn =>
      rcases step_write hstep with ⟨hunused, hwrites⟩
      exact kept_writes h hunused hwrites
  | deleteState now topic version =>
      cases hstep
      exact kept_softDelete now topic version h
  | retire now topic jobs =>
      cases hstep
      exact kept_retire now project topic jobs h
  | rename now topic names locators job =>
      cases hstep
      exact kept_rename now project topic names locators job h
  | retireSection now topic seen jobs =>
      cases hstep
      exact kept_retireSection now project topic seen jobs h
  | renameSection now names seen job =>
      cases hstep
      exact kept_renameSection now project names seen job h

/-!
## Evidence
-/

/-- The source an action files evidence under, if it is a write. -/
def filedUnder (store : Store) : Action -> Option SourceId
  | Action.write _ request kind root drawn => some (sourceOf request kind root drawn store)
  | _ => none

/-- How many writes of a run filed their evidence under a source. -/
def writesTo (step : Store -> Action -> Option Store) (source : SourceId) :
    Store -> List Action -> Nat
  | _, [] => 0
  | store, action :: rest =>
      (if filedUnder store action = some source then 1 else 0) +
        match step store action with
        | none => 0
        | some t => writesTo step source t rest

theorem retire_versions (now : Instant) (topic : TopicId) (jobs : IndexJobId × IndexJobId)
    (store : Store) :
    (retireTopic now project topic jobs store).1.sourceVersions = store.sourceVersions := by
  unfold retireTopic
  split
  · rfl
  · rfl

theorem rename_versions (now : Instant) (topic : TopicId) (names locators : String × String)
    (job : IndexJobId) (store : Store) :
    (renameTopic now project topic names locators job store).1.sourceVersions =
      store.sourceVersions := by
  unfold renameTopic
  split
  · rfl
  · rfl

theorem step_evidence {store t : Store} {action : Action}
    (hstep : step segment project store action = some t) :
    match filedUnder store action with
    | none => t.sourceVersions = store.sourceVersions
    | some source => Filed source store t := by
  cases action with
  | write now request kind root drawn =>
      rcases step_write hstep with ⟨_, hwrites⟩
      cases hwrites with
      | held hfiled _ _ => exact hfiled
      | promoted _ _ _ hfiled _ _ _ => exact hfiled
  | deleteState now topic version =>
      cases hstep
      show (softDeleteTopicState now topic version store).1.sourceVersions = _
      unfold softDeleteTopicState
      simp only
      split
      · rfl
      · rfl
  | retire now topic jobs =>
      cases hstep
      exact retire_versions now topic jobs store
  | rename now topic names locators job =>
      cases hstep
      exact rename_versions now topic names locators job store
  | retireSection now topic seen jobs =>
      cases hstep
      show (retireSection now project topic seen jobs store).1.sourceVersions = _
      unfold retireSection
      split
      · rfl
      · split
        · rfl
        · split
          · rfl
          · split
            · rfl
            · exact retire_versions now _ jobs store
  | renameSection now names seen job =>
      cases hstep
      show (renameSection now project names seen job store).1.sourceVersions = _
      unfold renameSection
      split
      · rfl
      · split
        · rfl
        · exact rename_versions now _ names _ job store

theorem contiguous_step {store t : Store} {action : Action} {source : SourceId} {count : Nat}
    (h : Contiguous SourceVersion.version (store.evidenceOf source) count)
    (hstep : step segment project store action = some t) :
    Contiguous SourceVersion.version (t.evidenceOf source)
      (count + if filedUnder store action = some source then 1 else 0) := by
  have hevidence := step_evidence hstep
  cases hfiled : filedUnder store action with
  | none =>
      rw [hfiled] at hevidence
      unfold Store.evidenceOf
      rw [show t.sourceVersions = store.sourceVersions from hevidence]
      exact h
  | some under =>
      rw [hfiled] at hevidence
      rcases hevidence with ⟨version, hunder, hnumber, hversions⟩
      unfold Store.evidenceOf
      rw [hversions, List.filter_append]
      by_cases hsame : under = source
      · rw [hsame] at hunder hnumber
        have hmine : [version].filter (fun version => decide (version.sourceId = source)) =
            [version] := by simp [hunder]
        rw [hsame, hmine, if_pos rfl]
        exact contiguous_append h hnumber
      · have hother : [version].filter (fun version => decide (version.sourceId = source)) =
            [] := by simp [hunder, hsame]
        rw [hother, List.append_nil, if_neg (by simpa using hsame)]
        exact h

theorem contiguous_run {actions : List Action} {store t : Store} {source : SourceId}
    {count : Nat} (h : Contiguous SourceVersion.version (store.evidenceOf source) count)
    (hrun : RunFrom (step segment project) store actions = some t) :
    Contiguous SourceVersion.version (t.evidenceOf source)
      (count + writesTo (step segment project) source store actions) := by
  induction actions generalizing store count with
  | nil =>
      cases hrun
      exact h
  | cons action rest ih =>
      rcases runFrom_cons_some.mp hrun with ⟨between, hstep, hrest⟩
      have hlater := ih (contiguous_step h hstep) hrest
      rw [Nat.add_assoc] at hlater
      rw [writesTo, hstep]
      exact hlater

/-!
## What a state supersedes
-/

def TopicState.record (state : TopicState) : TopicState :=
  { state with deletedAt := none }

theorem record_marked (now : Instant) (topic : TopicId) (picks : TopicState -> Bool)
    (state : TopicState) : (marked now topic picks state).record = state.record := by
  unfold marked
  split
  · rfl
  · rfl

theorem says_of_mem {store : Store} (h : Kept store) {row : Topic}
    (hmem : row ∈ store.topics) : store.says row.id = row.currentStateId := by
  have hdistinct := h.topicsDistinct
  rw [pointer_ids] at hdistinct
  unfold Store.says
  cases hfind : store.topics.find? fun other => other.id = row.id with
  | none =>
      have hnone := List.find?_eq_none.mp hfind row hmem
      simp at hnone
  | some other =>
      have hsame : other.id = row.id := by simpa using List.find?_some hfind
      rw [List.inj_on_of_nodup_map hdistinct (List.mem_of_find?_eq_some hfind) hmem hsame]
      rfl

theorem says_of_not_mem {store : Store} {topic : TopicId}
    (h : topic ∉ store.topics.map Topic.id) : store.says topic = none := by
  unfold Store.says
  rw [List.find?_eq_none.mpr]
  · rfl
  · intro row hmem
    have hne : row.id ≠ topic := by
      intro hsame
      exact h (hsame ▸ List.mem_map_of_mem hmem)
    simpa using hne

def WrittenBy (store : Store) (state : TopicState) : Prop :=
  state.id ∉ store.states.map TopicState.id ∧ state.supersedes = store.says state.topicId

theorem deleteStates_kept {now : Instant} {topic : TopicId} {picks : TopicState -> Bool}
    {store : Store} {state : TopicState}
    (hmem : state ∈ (deleteStates now topic picks store).states) :
    exists old, old ∈ store.states ∧ old.record = state.record := by
  rw [states_deleteStates] at hmem
  rcases List.mem_map.mp hmem with ⟨old, hold, rfl⟩
  exact ⟨old, hold, (record_marked now topic picks old).symm⟩

theorem retire_kept {now : Instant} {topic : TopicId} {jobs : IndexJobId × IndexJobId}
    {store : Store} {state : TopicState}
    (hmem : state ∈ (retireTopic now project topic jobs store).1.states) :
    exists old, old ∈ store.states ∧ old.record = state.record := by
  unfold retireTopic at hmem
  split at hmem
  · exact deleteStates_kept hmem
  · exact ⟨state, hmem, rfl⟩

theorem rename_kept (now : Instant) (topic : TopicId) (names locators : String × String)
    (job : IndexJobId) (store : Store) :
    (renameTopic now project topic names locators job store).1.states = store.states := by
  unfold renameTopic
  split
  · rfl
  · rfl

theorem step_states {store t : Store} {action : Action} (h : Kept store)
    (hstep : step segment project store action = some t) {state : TopicState}
    (hmem : state ∈ t.states) :
    (exists old, old ∈ store.states ∧ old.record = state.record) ∨
      WrittenBy store state := by
  cases action with
  | write now request kind root drawn =>
      rcases step_write hstep with ⟨⟨_, _, _, htopic, hstate⟩, hwrites⟩
      cases hwrites with
      | held _ hstates _ =>
          rw [hstates] at hmem
          exact Or.inl ⟨state, hmem, rfl⟩
      | promoted middle locked written _ hmiddle hobtained happends =>
          rw [happends.states, hmiddle] at hmem
          rcases List.mem_append.mp hmem with hold | hnew
          · exact Or.inl ⟨state, hold, rfl⟩
          · apply Or.inr
            rw [List.mem_singleton.mp hnew]
            constructor
            · rw [happends.drawn]
              exact hstate
            · rw [happends.supersedes, happends.owner]
              cases hobtained with
              | found row hrow hlocked _ =>
                  rw [hlocked]
                  exact (says_of_mem h hrow).symm
              | created hlocked _ =>
                  rw [hlocked]
                  exact (says_of_not_mem htopic).symm
  | deleteState now topic version =>
      cases hstep
      apply Or.inl
      unfold softDeleteTopicState at hmem
      simp only at hmem
      split at hmem
      · exact deleteStates_kept hmem
      · exact ⟨state, hmem, rfl⟩
  | retire now topic jobs =>
      cases hstep
      exact Or.inl (retire_kept hmem)
  | rename now topic names locators job =>
      cases hstep
      rw [rename_kept] at hmem
      exact Or.inl ⟨state, hmem, rfl⟩
  | retireSection now topic seen jobs =>
      cases hstep
      apply Or.inl
      unfold retireSection at hmem
      split at hmem
      · exact ⟨state, hmem, rfl⟩
      · split at hmem
        · exact ⟨state, hmem, rfl⟩
        · split at hmem
          · exact ⟨state, hmem, rfl⟩
          · split at hmem
            · exact ⟨state, hmem, rfl⟩
            · exact retire_kept hmem
  | renameSection now names seen job =>
      cases hstep
      apply Or.inl
      unfold renameSection at hmem
      split at hmem
      · exact ⟨state, hmem, rfl⟩
      · split at hmem
        · exact ⟨state, hmem, rfl⟩
        · simp only [rename_kept] at hmem
          exact ⟨state, hmem, rfl⟩

/-- Some action of the run wrote the state, over what its topic said then. -/
def WrittenAlong (step : Store -> Action -> Option Store) (start : Store)
    (actions : List Action) (state : TopicState) : Prop :=
  exists before action after store t, actions = before ++ action :: after ∧
    RunFrom step start before = some store ∧ step store action = some t ∧
      WrittenBy store state ∧ exists row, row ∈ t.states ∧ row.record = state.record

theorem written_run {actions : List Action} {start t : Store} (h : Kept start)
    (hnone : start.states = []) (hrun : RunFrom (step segment project) start actions = some t)
    {state : TopicState} (hmem : state ∈ t.states) :
    WrittenAlong (step segment project) start actions state := by
  induction actions using List.reverseRecOn generalizing t state with
  | nil =>
      cases hrun
      rw [hnone] at hmem
      cases hmem
  | append_singleton earlier action ih =>
      rcases runFrom_append_some.mp hrun with ⟨store, hbefore, hlast⟩
      rcases runFrom_cons_some.mp hlast with ⟨final, hstep, hend⟩
      cases hend
      have hkept := runFrom_preserved kept_step h hbefore
      rcases step_states hkept hstep hmem with ⟨old, hold, hrecord⟩ | hwritten
      · rcases ih hbefore hold with
          ⟨before, first, after, store', t', hsplit, hrun', hstep', hby, row, hrow, hsame⟩
        refine ⟨before, first, after ++ [action], store', t', ?_, hrun', hstep', ?_, row, hrow,
          hsame.trans hrecord⟩
        · rw [hsplit, List.append_assoc, List.cons_append]
        · rcases hby with ⟨hid, hsupersedes⟩
          have hids : old.record.id = state.record.id := congrArg TopicState.id hrecord
          have howner : old.record.topicId = state.record.topicId :=
            congrArg TopicState.topicId hrecord
          have hover : old.record.supersedes = state.record.supersedes :=
            congrArg TopicState.supersedes hrecord
          simp only [TopicState.record] at hids howner hover
          rw [hids] at hid
          rw [hover, howner] at hsupersedes
          exact ⟨hid, hsupersedes⟩
      · exact ⟨earlier, action, [], store, t, rfl, hbefore, hstep, hwritten, state, hmem, rfl⟩

/-!
## The ledger after any sequence
-/

def PointsAtNewest (store : Store) (topic : Topic) : Prop :=
  match topic.currentStateId with
  | none =>
      topic.currentVersion = none ∧
        forall state, state ∈ store.states -> state.topicId = topic.id ->
          state.deletedAt ≠ none
  | some id =>
      exists state, state ∈ store.states ∧ state.id = id ∧ state.topicId = topic.id ∧
        state.deletedAt = none ∧ topic.currentVersion = some state.version ∧
          forall other, other ∈ store.states -> other.topicId = topic.id ->
            other.deletedAt = none -> other.version <= state.version

/-- What the ledger promises of its rows. -/
structure Sound (store : Store) : Prop where
  identified : (store.states.map TopicState.id).Nodup
  pointed : forall topic, topic ∈ store.topics -> PointsAtNewest store topic
  ascending : forall topic, Ascending TopicState.version (store.statesOf topic)
  repaired : repairCurrentStatePointers store = (store, 0)

theorem mem_survivors {store : Store} {topic : TopicId} {state : TopicState} :
    state ∈ (store.statesOf topic).filter TopicState.survives <->
      state ∈ store.states ∧ state.topicId = topic ∧ state.deletedAt = none := by
  rw [List.mem_filter, Store.statesOf, List.mem_filter, and_assoc]
  simp [TopicState.survives]

theorem pointsAtNewest_of_kept {store : Store} (h : Kept store) {topic : Topic}
    (hmem : topic ∈ store.topics) : PointsAtNewest store topic := by
  have hpointed := h.pointed topic.pointer (List.mem_map_of_mem hmem)
  have hid : topic.currentStateId = (store.newest topic.id).map TopicState.id :=
    congrArg Prod.fst hpointed
  have hversion : topic.currentVersion = (store.newest topic.id).map TopicState.version :=
    congrArg Prod.snd hpointed
  unfold PointsAtNewest
  cases hnewest : store.newest topic.id with
  | none =>
      rw [hid, hversion, hnewest]
      refine ⟨rfl, ?_⟩
      intro state hstate howner hlive
      have hnone := List.argmax_eq_none.mp hnewest
      have hsurvivor := mem_survivors.mpr ⟨hstate, howner, hlive⟩
      rw [hnone] at hsurvivor
      cases hsurvivor
  | some state =>
      rw [hid, hversion, hnewest]
      rcases mem_survivors.mp (List.argmax_mem hnewest) with ⟨hstate, howner, hlive⟩
      refine ⟨state, hstate, rfl, howner, hlive, rfl, ?_⟩
      intro other hother hsame hsurvives
      exact List.le_of_mem_argmax (mem_survivors.mpr ⟨hother, hsame, hsurvives⟩) hnewest

theorem repair_of_kept {store : Store} (h : Kept store) :
    repairCurrentStatePointers store = (store, 0) := by
  have hstill : forall topic, topic ∈ store.topics ->
      (topic.currentStateId, topic.currentVersion) = pointerTo (store.newest topic.id) :=
    fun topic hmem => h.pointed topic.pointer (List.mem_map_of_mem hmem)
  unfold repairCurrentStatePointers
  simp only [Prod.mk.injEq]
  constructor
  · have htopics : store.topics.map (fun topic =>
        if (topic.currentStateId, topic.currentVersion) ≠ pointerTo (store.newest topic.id)
        then topic.pointAt (store.newest topic.id) else topic) = store.topics.map id := by
      apply List.map_congr_left
      intro topic hmem
      exact if_neg fun hmoved => hmoved (hstill topic hmem)
    rw [List.map_id] at htopics
    exact congrArg (fun topics => { store with topics := topics }) htopics
  · rw [List.length_eq_zero_iff, List.filter_eq_nil_iff]
    intro topic hmem
    rw [decide_eq_true_eq]
    exact fun hmoved => hmoved (hstill topic hmem)

theorem sound_of_kept {store : Store} (h : Kept store) : Sound store where
  identified := h.statesDistinct
  pointed := fun _ hmem => pointsAtNewest_of_kept h hmem
  ascending := h.ascending
  repaired := repair_of_kept h

/--
After any sequence of transactions: the pointers, the versions and the repair are as
promised, the evidence of each source is numbered 1, 2, .. with one row a write, and
each state superseded what its topic said when it was written.
-/
theorem topic_ledger_sound {actions : List Action} {store : Store}
    (hrun : RunFrom (step segment project) Store.empty actions = some store) :
    Sound store ∧
      (forall source, Contiguous SourceVersion.version (store.evidenceOf source)
        (writesTo (step segment project) source Store.empty actions)) ∧
        forall state, state ∈ store.states ->
          WrittenAlong (step segment project) Store.empty actions state := by
  refine ⟨sound_of_kept (runFrom_preserved kept_step kept_empty hrun), ?_, ?_⟩
  · intro source
    have hnone : Contiguous SourceVersion.version (Store.empty.evidenceOf source) 0 := rfl
    have hcount := contiguous_run hnone hrun
    rwa [Nat.zero_add] at hcount
  · intro state hmem
    exact written_run kept_empty rfl hrun hmem

end Run

/-!
## One topic's lifetime
-/

def drawnAt (n : Nat) : Drawn :=
  { source := n, version := n, span := n, topic := n, state := n, sync := n, derive := n + 1
    backfill := n + 2 }

def noted (topic content : String) (promoted : Bool) : Write :=
  { topic := topic, content := content, contentHash := content
    verdict := if promoted then FilterDecision.promoted else FilterDecision.filtered
    reason := "", promoted := promoted, language := none, languageConfidence := none
    observedAt := 0, validFrom := none, validTo := none }

/-- Two states, the newer deleted; a held write; a new name; a third state; a retirement. -/
def lifetime : List Action :=
  [Action.write 1 (noted "a" "first" true) SourceKind.file (some "/r") (drawnAt 10),
    Action.write 2 (noted "a" "second" true) SourceKind.file (some "/r") (drawnAt 20),
    Action.deleteState 3 10 2,
    Action.write 4 (noted "a" "held" false) SourceKind.file (some "/r") (drawnAt 30),
    Action.renameSection 5 ("a", "b") 10 40,
    Action.write 6 (noted "b" "third" true) SourceKind.file (some "/r") (drawnAt 50),
    Action.retireSection 7 "b" 50 (60, 61)]

theorem topic_ledger_sound_lifetime :
    exists store, RunFrom (step (fun _ => []) 0) Store.empty lifetime = some store ∧
      Sound store ∧
        (forall source, Contiguous SourceVersion.version (store.evidenceOf source)
          (writesTo (step (fun _ => []) 0) source Store.empty lifetime)) ∧
          forall state, state ∈ store.states ->
            WrittenAlong (step (fun _ => []) 0) Store.empty lifetime state := by
  have hruns : (RunFrom (step (fun _ => []) 0) Store.empty lifetime).isSome = true := by
    decide
  rcases Option.isSome_iff_exists.mp hruns with ⟨store, hrun⟩
  exact ⟨store, hrun, topic_ledger_sound hrun⟩

end Topics
end PaminMemory
