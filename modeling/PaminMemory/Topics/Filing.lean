import PaminMemory.Topics.Naming

/-!
# The evidence under a locator

A write files its evidence under the source at one locator, which is created when there is
none, and leaves the evidence of every other locator as it was.
-/

namespace PaminMemory
namespace Topics

open Foundation

/-- What finds a source. -/
def Source.key (source : Source) : SourceId × String := (source.id, source.locator)

def Store.sourceKeys (store : Store) : List (SourceId × String) := store.sources.map Source.key

/-- The source at a locator. -/
def Store.sourceOf (store : Store) (locator : String) : Option SourceId :=
  (store.sources.find? fun source => source.locator = locator).map Source.id

def Store.filedAt (store : Store) (locator : String) : List SourceVersion :=
  match store.sourceOf locator with
  | none => []
  | some source => store.evidenceOf source

/-- Sources are told apart by their identifiers, and all evidence has its source. -/
structure Sourced (store : Store) : Prop where
  distinct : (store.sources.map Source.id).Nodup
  known : forall version, version ∈ store.sourceVersions ->
    version.sourceId ∈ store.sources.map Source.id

theorem sourced_empty : Sourced Store.empty where
  distinct := List.nodup_nil
  known := by
    intro version hversion
    cases hversion

section Filing

variable {store t : Store}

theorem sourceOf_keys (store : Store) (locator : String) :
    store.sourceOf locator =
      (store.sourceKeys.find? fun key => key.2 = locator).map Prod.fst := by
  unfold Store.sourceOf Store.sourceKeys
  rw [List.find?_map, Option.map_map]
  rfl

theorem ids_keys (store : Store) :
    store.sources.map Source.id = store.sourceKeys.map Prod.fst := by
  unfold Store.sourceKeys
  rw [List.map_map]
  rfl

theorem keys_congr (h : t.sources = store.sources) : t.sourceKeys = store.sourceKeys := by
  unfold Store.sourceKeys
  rw [h]

theorem mem_of_sourceOf {locator : String} {source : SourceId}
    (h : store.sourceOf locator = some source) : (source, locator) ∈ store.sourceKeys := by
  unfold Store.sourceOf at h
  rcases Option.map_eq_some_iff.mp h with ⟨row, hfind, hid⟩
  have hlocator : row.locator = locator := by simpa using List.find?_some hfind
  rw [← hid, ← hlocator]
  exact List.mem_map_of_mem (List.mem_of_find?_eq_some hfind)

theorem keys_setSourceRoot (source : SourceId) (root : String) (store : Store) :
    (setSourceRoot source root store).sourceKeys = store.sourceKeys := by
  unfold Store.sourceKeys setSourceRoot
  rw [List.map_map]
  apply List.map_congr_left
  intro row _
  rw [Function.comp_apply]
  split
  · rfl
  · rfl

theorem sourceFor_keys (kind : SourceKind) (root : Option String) (topic : String)
    (id : SourceId) (store : Store) :
    (store.sourceOf (locator kind topic) = some (sourceFor kind root topic id store).2.1 ∧
        (sourceFor kind root topic id store).1.sourceKeys = store.sourceKeys) ∨
      (store.sourceOf (locator kind topic) = none ∧
        (sourceFor kind root topic id store).2.1 = id ∧
          (sourceFor kind root topic id store).1.sourceKeys =
            store.sourceKeys ++ [(id, locator kind topic)]) := by
  have hroot : (sourceFor kind root topic id store).2.1 =
        (ensureSourceCreated kind (locator kind topic) id store).2.1 ∧
      (sourceFor kind root topic id store).1.sourceKeys =
        (ensureSourceCreated kind (locator kind topic) id store).1.sourceKeys := by
    unfold sourceFor
    cases root with
    | none => exact ⟨rfl, rfl⟩
    | some root => exact ⟨rfl, keys_setSourceRoot _ root _⟩
  rw [hroot.1, hroot.2]
  unfold ensureSourceCreated Store.sourceOf
  cases store.sources.find? fun source => source.locator = locator kind topic with
  | some source => exact Or.inl ⟨rfl, rfl⟩
  | none => exact Or.inr ⟨rfl, rfl, List.map_append⟩

theorem nameFirst_sources (segment : String -> List String) (now : Instant)
    (project : ProjectId) (kind : SourceKind) (name : String) (first created : Bool)
    (job : IndexJobId) (store : Store) :
    (nameFirst segment now project kind name first created job store).sources =
      store.sources := by
  have hnamed : forall key tokens, (nameTopic name key tokens store).1.sources =
      store.sources := by
    intro key tokens
    unfold nameTopic
    split
    · rfl
    · split
      · rfl
      · rfl
  unfold nameFirst
  split
  · split
    · next hresult =>
        have h := hnamed (" ".intercalate (segment name)) (segment name).length
        rw [hresult] at h
        exact h
    · next hresult =>
        have h := hnamed (" ".intercalate (segment name)) (segment name).length
        rw [hresult] at h
        exact h
  · rfl

theorem topicFor_sources (segment : String -> List String) (now : Instant)
    (kind : SourceKind) (name : String) (id : TopicId) (store : Store) :
    (topicFor segment now kind name id store).1.sources = store.sources := by
  unfold topicFor
  cases hlock : lockTopic name store with
  | some locked => rfl
  | none =>
      cases kind with
      | file =>
          unfold createTopicUnnamed createTopic
          rw [hlock]
      | manual =>
          unfold createTopicNamed createTopic
          rw [hlock]

structure RowOf (request : Write) (source : SourceId) (version : SourceVersion) : Prop where
  source : version.sourceId = source
  content : version.content = request.content
  decision : version.filterDecision = request.verdict
  reason : version.filterReason = request.reason

theorem appendEvidence_row {now : Instant} {source : SourceId} {request : Write}
    {drawn : Drawn} {version : SourceVersion}
    (h : appendEvidence now source request.evidence drawn store = some (t, version)) :
    RowOf request source version ∧ t.sources = store.sources ∧
      t.sourceVersions = store.sourceVersions ++ [version] := by
  unfold appendEvidence at h
  simp only at h
  split at h
  · cases h
  · cases h
    exact ⟨⟨rfl, rfl, rfl, rfl⟩, rfl, rfl⟩

theorem appendPromoted_row {now : Instant} {project : ProjectId} {source : SourceId}
    {request : Write} {promotion : Promotion} {drawn : Drawn} {version : SourceVersion}
    {state : TopicState}
    (h : appendPromoted now project source request.evidence promotion drawn store =
      some (t, version, state)) :
    RowOf request source version ∧ t.sources = store.sources ∧
      t.sourceVersions = store.sourceVersions ++ [version] := by
  unfold appendPromoted at h
  cases hevidence : appendEvidence now source request.evidence drawn store with
  | none =>
      rw [hevidence] at h
      cases h
  | some recorded =>
      rcases recorded with ⟨recorded, filed⟩
      rcases appendEvidence_row hevidence with ⟨hrowof, hsources, hversions⟩
      simp only [hevidence] at h
      split at h
      · cases h
      · cases h
        exact ⟨hrowof, hsources, hversions⟩

theorem writeFrom_row {segment : String -> List String} {now : Instant} {project : ProjectId}
    {request : Write} {kind : SourceKind} {root : Option String} {drawn : Drawn}
    {recorded : Recorded}
    (h : writeFrom segment now project request kind root drawn store = some (t, recorded)) :
    exists version,
      RowOf request (sourceFor kind root request.topic drawn.source store).2.1 version ∧
        t.sources = (sourceFor kind root request.topic drawn.source store).1.sources ∧
          t.sourceVersions = store.sourceVersions ++ [version] := by
  rcases sourceFor_same kind root request.topic drawn.source store with ⟨_, _, hversions⟩
  unfold writeFrom at h
  simp only at h
  generalize sourceFor kind root request.topic drawn.source store = sourced at h hversions ⊢
  split at h
  · have hsources := topicFor_sources segment now kind request.topic drawn.topic sourced.1
    rcases topicFor_obtains segment now kind request.topic drawn.topic sourced.1 with
      ⟨_, hobtained, _⟩
    split at h
    · cases h
    · next written version state hpromoted =>
        cases h
        rcases appendPromoted_row hpromoted with ⟨hrowof, hwritten, hrows⟩
        refine ⟨version, hrowof, ?_, ?_⟩
        · rw [nameFirst_sources, hwritten, hsources]
        · rw [(nameFirst_same segment now project kind request.topic _ _ _ written).2.2, hrows,
            hobtained, hversions]
  · split at h
    · cases h
    · next written version hevidence =>
        cases h
        rcases appendEvidence_row hevidence with ⟨hrowof, hwritten, hrows⟩
        refine ⟨version, hrowof, ?_, ?_⟩
        · rw [nameFirst_sources, hwritten]
        · rw [(nameFirst_same segment now project kind request.topic _ _ _ written).2.2, hrows,
            hversions]

theorem evidenceOf_append {version : SourceVersion}
    (h : t.sourceVersions = store.sourceVersions ++ [version]) (source : SourceId) :
    t.evidenceOf source =
      if version.sourceId = source then store.evidenceOf source ++ [version]
      else store.evidenceOf source := by
  unfold Store.evidenceOf
  rw [h, List.filter_append]
  split
  · next hsame => simp [hsame]
  · next hother => simp [hother]

theorem writeFrom_filedAt {segment : String -> List String} {now : Instant}
    {project : ProjectId} {request : Write} {kind : SourceKind} {root : Option String}
    {drawn : Drawn} {recorded : Recorded} (hsourced : Sourced store)
    (hunused : Unused store drawn)
    (h : writeFrom segment now project request kind root drawn store = some (t, recorded)) :
    Sourced t ∧ exists source version, RowOf request source version ∧
      forall at', t.filedAt at' =
        if at' = locator kind request.topic then store.filedAt at' ++ [version]
        else store.filedAt at' := by
  rcases writeFrom_row h with ⟨version, hrowof, hsources, hversions⟩
  have hkeys := keys_congr hsources
  have hnew : drawn.source ∉ store.sourceKeys.map Prod.fst := by
    rw [← ids_keys]
    exact hunused.1
  have hdistinct := hsourced.distinct
  rw [ids_keys] at hdistinct
  rcases sourceFor_keys kind root request.topic drawn.source store with
    ⟨hthere, hsame⟩ | ⟨hnone, hid, hadded⟩
  · rw [hsame] at hkeys
    have hof : forall at', t.sourceOf at' = store.sourceOf at' := by
      intro at'
      rw [sourceOf_keys, sourceOf_keys, hkeys]
    have hmine := mem_of_sourceOf hthere
    refine ⟨⟨?_, ?_⟩, _, version, hrowof, ?_⟩
    · rw [ids_keys, hkeys]
      exact hdistinct
    · intro row hrow
      rw [ids_keys, hkeys]
      rw [hversions] at hrow
      rcases List.mem_append.mp hrow with hold | hlast
      · rw [← ids_keys]
        exact hsourced.known row hold
      · rw [List.mem_singleton.mp hlast, hrowof.source]
        exact List.mem_map_of_mem hmine
    · intro at'
      unfold Store.filedAt
      rw [hof]
      by_cases hat : at' = locator kind request.topic
      · rw [if_pos hat, hat, hthere]
        simp only
        rw [evidenceOf_append hversions, if_pos hrowof.source]
      · rw [if_neg hat]
        cases hother : store.sourceOf at' with
        | none => rfl
        | some other =>
            simp only
            rw [evidenceOf_append hversions, if_neg]
            intro hsource
            rw [hrowof.source] at hsource
            have hpair := List.inj_on_of_nodup_map hdistinct hmine (mem_of_sourceOf hother)
              hsource
            exact hat (congrArg Prod.snd hpair).symm
  · rw [hadded] at hkeys
    rw [hid] at hrowof
    have hfresh : store.evidenceOf drawn.source = [] := by
      apply List.filter_eq_nil_iff.mpr
      intro row hrow hsource
      apply hnew
      have hknown := hsourced.known row hrow
      rw [of_decide_eq_true hsource, ids_keys] at hknown
      exact hknown
    refine ⟨⟨?_, ?_⟩, _, version, hrowof, ?_⟩
    · rw [ids_keys, hkeys, List.map_append]
      exact nodup_append_new hdistinct hnew
    · intro row hrow
      rw [ids_keys, hkeys, List.map_append]
      rw [hversions] at hrow
      rcases List.mem_append.mp hrow with hold | hlast
      · rw [← ids_keys]
        exact List.mem_append_left _ (hsourced.known row hold)
      · rw [List.mem_singleton.mp hlast, hrowof.source]
        exact List.mem_append_right _ (List.mem_singleton_self _)
    · intro at'
      unfold Store.filedAt
      rw [sourceOf_keys, hkeys, List.find?_append, Option.map_or, ← sourceOf_keys]
      by_cases hat : at' = locator kind request.topic
      · rw [if_pos hat, hat, hnone, Option.none_or, List.find?_singleton,
          if_pos (decide_eq_true rfl)]
        simp only [Option.map_some]
        rw [evidenceOf_append hversions, if_pos hrowof.source, hfresh]
      · rw [if_neg hat, List.find?_singleton, if_neg (by simpa using Ne.symm hat),
          Option.map_none, Option.or_none]
        cases hother : store.sourceOf at' with
        | none => rfl
        | some other =>
            simp only
            rw [evidenceOf_append hversions, if_neg]
            intro hsource
            apply hnew
            rw [hrowof.source] at hsource
            rw [hsource]
            exact List.mem_map_of_mem (mem_of_sourceOf hother)

/-!
## Every transaction keeps the sources
-/

theorem sourced_of_rows (h : Sourced store)
    (hids : t.sources.map Source.id = store.sources.map Source.id)
    (hversions : t.sourceVersions = store.sourceVersions) : Sourced t where
  distinct := by
    rw [hids]
    exact h.distinct
  known := by
    rw [hids, hversions]
    exact h.known

theorem retireTopic_sources (now : Instant) (project : ProjectId) (topic : TopicId)
    (jobs : IndexJobId × IndexJobId) (store : Store) :
    (retireTopic now project topic jobs store).1.sources = store.sources := by
  unfold retireTopic
  split
  · rfl
  · rfl

theorem renameTopic_ids (now : Instant) (project : ProjectId) (topic : TopicId)
    (names locators : String × String) (job : IndexJobId) (store : Store) :
    (renameTopic now project topic names locators job store).1.sources.map Source.id =
      store.sources.map Source.id := by
  unfold renameTopic
  split
  · rfl
  · show (store.sources.map _).map Source.id = _
    rw [List.map_map]
    apply List.map_congr_left
    intro row _
    rw [Function.comp_apply]
    split
    · rfl
    · rfl

theorem sourced_retire (now : Instant) (project : ProjectId) (topic : TopicId)
    (jobs : IndexJobId × IndexJobId) (h : Sourced store) :
    Sourced (retireTopic now project topic jobs store).1 :=
  sourced_of_rows h (congrArg (List.map Source.id) (retireTopic_sources now project topic jobs _))
    (retire_versions now topic jobs store)

theorem sourced_rename (now : Instant) (project : ProjectId) (topic : TopicId)
    (names locators : String × String) (job : IndexJobId) (h : Sourced store) :
    Sourced (renameTopic now project topic names locators job store).1 :=
  sourced_of_rows h (renameTopic_ids now project topic names locators job store)
    (rename_versions now topic names locators job store)

theorem sourced_step {segment : String -> List String} {project : ProjectId} :
    Preserved (step segment project) Sourced := by
  intro store action t h hstep
  cases action with
  | write now request kind root drawn =>
      simp only [step] at hstep
      split at hstep
      · next hunused =>
          rcases Option.map_eq_some_iff.mp hstep with ⟨written, hwritten, rfl⟩
          exact (writeFrom_filedAt h hunused hwritten).1
      · cases hstep
  | deleteState now topic version =>
      cases hstep
      unfold softDeleteTopicState
      simp only
      split
      · exact sourced_of_rows h rfl rfl
      · exact h
  | retire now topic jobs =>
      cases hstep
      exact sourced_retire now project topic jobs h
  | rename now topic names locators job =>
      cases hstep
      exact sourced_rename now project topic names locators job h
  | retireSection now topic seen jobs =>
      cases hstep
      unfold retireSection
      split
      · exact h
      · split
        · exact h
        · split
          · exact h
          · split
            · exact h
            · exact sourced_retire now project _ jobs h
  | renameSection now names seen job =>
      cases hstep
      unfold renameSection
      split
      · exact h
      · split
        · exact h
        · exact sourced_rename now project _ names _ job h

end Filing

end Topics
end PaminMemory
