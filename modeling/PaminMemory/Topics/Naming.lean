import PaminMemory.Foundation.Parties
import PaminMemory.Jobs.Holding
import PaminMemory.Topics.History

/-!
# The name index

A topic somebody wrote by hand is filed under its name, one that only files wrote is not.
Writes keep the index as they go, and a rebuild restates it from the topics and their
sources.  A write is one transaction of several statements, each of which reads what is
committed by then.
-/

namespace PaminMemory
namespace Topics

open Foundation

/-!
## A rebuild
-/

/-- The topics that belong in the index: all but the sections of files nobody wrote by hand. -/
def topicsToName (store : Store) : List Topic :=
  store.topics.filter fun topic =>
    !sourceAt (locator SourceKind.file topic.name) store ||
      sourceAt (locator SourceKind.manual topic.name) store

def recordTopicName (names : List TopicName) (new : TopicId × String × Nat) :
    List TopicName :=
  let row : TopicName :=
    { topicId := new.1, nameKey := new.2.1, tokenCount := min new.2.2 32767 }
  if names.any fun filed => filed.topicId = new.1 then
    names.map fun filed => if filed.topicId = new.1 then row else filed
  else
    names ++ [row]

def recordTopicNames (new : List (TopicId × String × Nat)) (store : Store) : Store :=
  { store with names := new.foldl recordTopicName store.names }

def rebuildNameIndex (segment : String -> List String) (store : Store) : Store :=
  recordTopicNames
    ((topicsToName store).map fun topic =>
      (topic.id, " ".intercalate (segment topic.name), (segment topic.name).length))
    store

/-!
## Writes that overlap
-/

def lookFor (name : String) (store : Store) : Option TopicId :=
  (store.topics.find? fun topic => topic.name = name).map Topic.id

structure Opened where
  request : Write
  kind : SourceKind
  root : Option String
  looked : Option TopicId

def createFor (segment : String -> List String) (now : Instant) (kind : SourceKind)
    (name : String) (id : TopicId) (store : Store) : Store × LockedTopic :=
  match kind with
  | SourceKind.file => createTopicUnnamed now id name store
  | SourceKind.manual =>
      createTopicNamed now id name (" ".intercalate (segment name)) (segment name).length store

def nameLooked (segment : String -> List String) (now : Instant) (project : ProjectId)
    (name : String) (looked : Option TopicId) (job : IndexJobId) (store : Store) : Store :=
  match looked with
  | none => store
  | some topic =>
      if store.names.any fun filed => filed.topicId = topic then
        store
      else
        { store with
          names := store.names ++
            [{ topicId := topic, nameKey := " ".intercalate (segment name)
               tokenCount := min (segment name).length 32767 }]
          jobs := Jobs.enqueueAll now project (some topic)
            [(job, Jobs.JobKind.backfillMentions)] store.jobs }

/--
What is left of a write after its look.  A promoted one did not find its topic; one that is
held is the first by hand.
-/
def finishFrom (segment : String -> List String) (now : Instant) (project : ProjectId)
    (opened : Opened) (drawn : Drawn) (store : Store) : Option (Store × Recorded) :=
  let request := opened.request
  let sourced := sourceFor opened.kind opened.root request.topic drawn.source store
  if request.promoted then
    let obtained := createFor segment now opened.kind request.topic drawn.topic sourced.1
    match appendPromoted now project sourced.2.1 request.evidence
        { topic := obtained.2, observedAt := request.observedAt
          validFrom := request.validFrom, validTo := request.validTo
          owed := owedBy opened.kind false drawn } drawn obtained.1 with
    | none => none
    | some (written, version, state) =>
        some (written, { sourceVersion := version.version, state := some state })
  else
    match appendEvidence now sourced.2.1 request.evidence drawn sourced.1 with
    | none => none
    | some (written, version) =>
        some (nameLooked segment now project request.topic opened.looked drawn.backfill
            written, { sourceVersion := version.version, state := none })

structure Writing where
  ledger : Store
  opened : List (Nat × Opened)

/-- A transaction run at once, or a part of one. -/
inductive Statement where
  | write (now : Instant) (request : Write) (kind : SourceKind) (root : Option String)
      (drawn : Drawn)
  | look (id : Nat) (request : Write) (kind : SourceKind) (root : Option String)
  | finish (id : Nat) (now : Instant) (drawn : Drawn)
  | stop (id : Nat)
  | retire (now : Instant) (topic : String) (seen : TopicStateId)
      (jobs : IndexJobId × IndexJobId)
  | rename (now : Instant) (names : String × String) (seen : TopicStateId) (job : IndexJobId)

/-- An open write holds the row of the source its evidence is filed under. -/
def Writing.holds (kind : SourceKind) (topic : String) (s : Writing) : Bool :=
  s.opened.any fun entry => entry.2.kind = kind && entry.2.request.topic = topic

/--
The writes whose look another transaction can outdate: a promoted one that found no topic,
and a held one that is the first by hand.  A promoted write that finds its topic holds it
locked from then on, and every other write looks for nothing.
-/
def opens (request : Write) (kind : SourceKind) (store : Store) : Bool :=
  if request.promoted then
    lookFor request.topic store = none
  else
    kind = SourceKind.manual && !sourceAt (locator kind request.topic) store

/--
Takes one statement, or the whole of a transaction.  A retirement and a rename hold their
topic locked throughout, and are one step.
-/
def proceed (segment : String -> List String) (project : ProjectId) (s : Writing) :
    Statement -> Option Writing
  | Statement.write now request kind root drawn =>
      if Unused s.ledger drawn ∧ s.holds kind request.topic = false then
        (writeFrom segment now project request kind root drawn s.ledger).map fun written =>
          { s with ledger := written.1 }
      else
        none
  | Statement.look id request kind root =>
      if (partyOf s.opened id).isNone && !s.holds kind request.topic &&
          opens request kind s.ledger then
        some { s with
          opened := s.opened ++
            [(id, { request := request, kind := kind, root := root
                    looked := lookFor request.topic s.ledger })] }
      else
        none
  | Statement.finish id now drawn =>
      match partyOf s.opened id with
      | none => none
      | some opened =>
          if Unused s.ledger drawn then
            (finishFrom segment now project opened drawn s.ledger).map fun written =>
              { ledger := written.1, opened := dropParty id s.opened }
          else
            none
  | Statement.stop id => some { s with opened := dropParty id s.opened }
  | Statement.retire now topic seen jobs =>
      some { s with ledger := (retireSection now project topic seen jobs s.ledger).1 }
  | Statement.rename now names seen job =>
      some { s with ledger := (renameSection now project names seen job s.ledger).1 }

/-!
## What a write does to the index
-/

def Topic.title (topic : Topic) : TopicId × String := (topic.id, topic.name)

def Store.titles (store : Store) : List (TopicId × String) := store.topics.map Topic.title

def nameRow (segment : String -> List String) (title : TopicId × String) : TopicName :=
  { topicId := title.1, nameKey := " ".intercalate (segment title.2)
    tokenCount := min (segment title.2).length 32767 }

/-- The two bytes that count a name's tokens hold as many as it has, or as many as they can. -/
def Narrow (segment : String -> List String) (name : String) : Prop :=
  asInt16 (segment name).length = min ((segment name).length : Int) 32767

instance (segment : String -> List String) (name : String) : Decidable (Narrow segment name) := by
  unfold Narrow
  infer_instance

/-- The one source that is there afterwards and may not have been before. -/
def AddsSource (kind : SourceKind) (topic : String) (store t : Store) : Prop :=
  forall at', sourceAt at' t = (sourceAt at' store || decide (locator kind topic = at'))

section Effects

variable {segment : String -> List String} {project : ProjectId} {store t : Store}

theorem sourceAt_congr (h : t.sources = store.sources) (at' : String) :
    sourceAt at' t = sourceAt at' store := by
  unfold sourceAt
  rw [h]

theorem titles_congr (h : t.topics = store.topics) : t.titles = store.titles := by
  unfold Store.titles
  rw [h]

theorem sourceAt_setSourceRoot (source : SourceId) (root : String) (at' : String) :
    sourceAt at' (setSourceRoot source root store) = sourceAt at' store := by
  unfold sourceAt setSourceRoot
  rw [List.any_map]
  congr 1
  funext row
  rw [Function.comp_apply]
  split
  · rfl
  · rfl

theorem ensureSourceCreated_sources (kind : SourceKind) (here : String) (id : SourceId)
    (store : Store) :
    (ensureSourceCreated kind here id store).2.2 = !sourceAt here store ∧
      forall at', sourceAt at' (ensureSourceCreated kind here id store).1 =
        (sourceAt at' store || decide (here = at')) := by
  unfold ensureSourceCreated
  cases hfind : store.sources.find? fun source => source.locator = here with
  | some source =>
      have hthere : sourceAt here store = true := by
        unfold sourceAt
        rw [List.any_eq_true]
        exact ⟨source, List.mem_of_find?_eq_some hfind, by simpa using List.find?_some hfind⟩
      refine ⟨by rw [hthere]; rfl, ?_⟩
      intro at'
      by_cases hsame : here = at'
      · rw [← hsame, hthere, Bool.true_or]
      · rw [decide_eq_false hsame, Bool.or_false]
  | none =>
      have hthere : sourceAt here store = false := by
        unfold sourceAt
        rw [List.any_eq_false]
        exact List.find?_eq_none.mp hfind
      refine ⟨by rw [hthere]; rfl, ?_⟩
      intro at'
      unfold sourceAt
      rw [List.any_append, List.any_cons, List.any_nil, Bool.or_false]

theorem sourceFor_sources (kind : SourceKind) (root : Option String) (topic : String)
    (id : SourceId) (store : Store) :
    (sourceFor kind root topic id store).2.2 = !sourceAt (locator kind topic) store ∧
      AddsSource kind topic store (sourceFor kind root topic id store).1 := by
  have hensured := ensureSourceCreated_sources kind (locator kind topic) id store
  unfold sourceFor
  cases root with
  | none => exact hensured
  | some root =>
      refine ⟨hensured.1, ?_⟩
      intro at'
      rw [sourceAt_setSourceRoot]
      exact hensured.2 at'

theorem sourceFor_others (kind : SourceKind) (root : Option String) (topic : String)
    (id : SourceId) (store : Store) :
    (sourceFor kind root topic id store).1.topics = store.topics ∧
      (sourceFor kind root topic id store).1.names = store.names := by
  unfold sourceFor ensureSourceCreated
  cases store.sources.find? fun source => source.locator = locator kind topic with
  | none =>
      cases root with
      | none => exact ⟨rfl, rfl⟩
      | some root => exact ⟨rfl, rfl⟩
  | some source =>
      cases root with
      | none => exact ⟨rfl, rfl⟩
      | some root => exact ⟨rfl, rfl⟩

theorem titles_pointAt (topic : TopicId) (state : Option TopicState) (store : Store) :
    (pointAt topic state store).titles = store.titles := by
  unfold Store.titles pointAt
  rw [List.map_map]
  apply List.map_congr_left
  intro row _
  rw [Function.comp_apply]
  split
  · rfl
  · rfl

theorem appendEvidence_others {now : Instant} {source : SourceId} {evidence : Evidence}
    {drawn : Drawn} {version : SourceVersion}
    (h : appendEvidence now source evidence drawn store = some (t, version)) :
    t.sources = store.sources ∧ t.titles = store.titles ∧ t.names = store.names ∧
      t.jobs = store.jobs := by
  rcases appendEvidence_some h with ⟨_, _, ht⟩
  rw [ht]
  exact ⟨rfl, rfl, rfl, rfl⟩

theorem appendPromoted_others {now : Instant} {source : SourceId} {evidence : Evidence}
    {promotion : Promotion} {drawn : Drawn} {version : SourceVersion} {state : TopicState}
    (h : appendPromoted now project source evidence promotion drawn store =
      some (t, version, state)) :
    t.sources = store.sources ∧ t.titles = store.titles ∧ t.names = store.names ∧
      t.jobs = Jobs.enqueueAll now project (some promotion.topic.topic) promotion.owed
        store.jobs := by
  unfold appendPromoted at h
  cases hevidence : appendEvidence now source evidence drawn store with
  | none =>
      rw [hevidence] at h
      cases h
  | some recorded =>
      rcases recorded with ⟨recorded, filed⟩
      rcases appendEvidence_others hevidence with ⟨hsources, htitles, hnames, hjobs⟩
      simp only [hevidence] at h
      split at h
      · cases h
      · cases h
        refine ⟨hsources, ?_, hnames, ?_⟩
        · exact (titles_pointAt _ _ _).trans htitles
        · rw [← hjobs]
          rfl

def Owes (project : ProjectId) (topic : TopicId) (store : Store) : Prop :=
  Jobs.Pending store.jobs
    { project := project, kind := Jobs.JobKind.backfillMentions, subject := some topic }

theorem lookFor_congr (h : t.titles = store.titles) (name : String) :
    lookFor name t = lookFor name store := by
  have htitles : forall store : Store, lookFor name store =
      (store.titles.find? fun title => title.2 = name).map Prod.fst := by
    intro store
    unfold lookFor Store.titles
    rw [List.find?_map, Option.map_map]
    rfl
  rw [htitles, htitles, h]

theorem lookFor_some {name : String} {id : TopicId} (h : lookFor name store = some id) :
    (id, name) ∈ store.titles := by
  rcases Option.map_eq_some_iff.mp h with ⟨row, hrow, hid⟩
  have hname : row.name = name := by simpa using List.find?_some hrow
  rw [← hid, ← hname]
  exact List.mem_map_of_mem (List.mem_of_find?_eq_some hrow)

theorem lookFor_none {name : String} :
    lookFor name store = none <-> name ∉ store.titles.map Prod.snd := by
  unfold lookFor
  rw [Option.map_eq_none_iff, List.find?_eq_none, Store.titles, List.map_map]
  constructor
  · intro hnone hmem
    rcases List.mem_map.mp hmem with ⟨row, hrow, hname⟩
    exact hnone row hrow (decide_eq_true hname)
  · intro hnot row hrow hname
    apply hnot
    rw [← of_decide_eq_true hname]
    exact List.mem_map_of_mem (f := Prod.snd ∘ Topic.title) hrow

theorem lockTopic_none {name : String} :
    lockTopic name store = none <-> lookFor name store = none := by
  unfold lockTopic lookFor
  rw [Option.map_eq_none_iff, Option.map_eq_none_iff]

inductive Files (segment : String -> List String) (project : ProjectId) (topic : String)
    (promoted : Bool) (kind : SourceKind) (id : TopicId) (store t : Store) : Prop where
  | still (titles : t.titles = store.titles) (names : t.names = store.names)
      (filed : kind = SourceKind.manual -> sourceAt (locator kind topic) store = false ->
        forall found, lookFor topic store = some found ->
          found ∈ store.names.map TopicName.topicId)
  | named (found : TopicId) (there : lookFor topic store = some found)
      (unfiled : found ∉ store.names.map TopicName.topicId) (hand : kind = SourceKind.manual)
      (titles : t.titles = store.titles)
      (names : t.names = store.names ++ [nameRow segment (found, topic)])
      (owes : Owes project found t)
  | unnamed (promotes : promoted = true) (missing : lookFor topic store = none)
      (file : kind = SourceKind.file)
      (titles : t.titles = store.titles ++ [(id, topic)]) (names : t.names = store.names)
  | created (promotes : promoted = true) (missing : lookFor topic store = none)
      (hand : kind = SourceKind.manual)
      (titles : t.titles = store.titles ++ [(id, topic)])
      (names : t.names = store.names ++
        [{ nameRow segment (id, topic) with tokenCount := asInt16 (segment topic).length }])
      (owes : Owes project id t)

theorem filed_iff {topic : TopicId} :
    (store.names.any fun filed => filed.topicId = topic) = true <->
      topic ∈ store.names.map TopicName.topicId := by
  rw [List.any_eq_true, List.mem_map]
  simp only [decide_eq_true_eq]

theorem nameFirst_files (segment : String -> List String) (now : Instant)
    (project : ProjectId) {kind : SourceKind} {name : String} {first : Bool}
    (promoted : Bool) (job : IndexJobId) (id : TopicId) {before store : Store}
    (hfirst : first = !sourceAt (locator kind name) before)
    (htitles : store.titles = before.titles) (hnames : store.names = before.names) :
    (nameFirst segment now project kind name first false job store).sources = store.sources ∧
      Files segment project name promoted kind id before
        (nameFirst segment now project kind name first false job store) := by
  have hlooks := lookFor_congr htitles name
  unfold nameFirst
  split
  · next hguard =>
      have hkind : kind = SourceKind.manual := by
        simp only [Bool.and_eq_true, decide_eq_true_eq] at hguard
        exact hguard.1.1
      unfold nameTopic
      cases hfind : store.topics.find? fun topic => topic.name = name with
      | none =>
          refine ⟨rfl, Files.still htitles hnames ?_⟩
          intro _ _ found hfound
          rw [← hlooks] at hfound
          unfold lookFor at hfound
          rw [hfind] at hfound
          cases hfound
      | some topic =>
          have hlook : lookFor name before = some topic.id := by
            rw [← hlooks]
            unfold lookFor
            rw [hfind]
            rfl
          simp only
          split
          · next hresult =>
              split at hresult
              · next hfiled =>
                  cases hresult
                  refine ⟨rfl, Files.still htitles hnames ?_⟩
                  intro _ _ found hfound
                  rw [hlook] at hfound
                  cases hfound
                  rw [← hnames]
                  exact filed_iff.mp hfiled
              · cases hresult
          · next hresult =>
              split at hresult
              · cases hresult
              · next hunfiled =>
                  cases hresult
                  refine ⟨rfl, Files.named topic.id hlook ?_ hkind htitles ?_ ?_⟩
                  · rw [← hnames]
                    exact fun hfiled => hunfiled (filed_iff.mpr hfiled)
                  · rw [← hnames]
                    rfl
                  · exact Jobs.pending_requested (List.mem_singleton_self _) _
  · next hguard =>
      refine ⟨rfl, Files.still htitles hnames ?_⟩
      intro hkind hnew found _
      apply absurd _ hguard
      rw [hkind] at hfirst hnew
      rw [hfirst, hkind, hnew]
      rfl

theorem nameFirst_file (segment : String -> List String) (now : Instant)
    (project : ProjectId) (name : String) (first created : Bool) (job : IndexJobId)
    (store : Store) :
    nameFirst segment now project SourceKind.file name first created job store = store := rfl

theorem nameFirst_created (segment : String -> List String) (now : Instant)
    (project : ProjectId) (kind : SourceKind) (name : String) (first : Bool)
    (job : IndexJobId) (store : Store) :
    nameFirst segment now project kind name first true job store = store := by
  unfold nameFirst
  rw [Bool.not_true, Bool.and_false]
  rfl

theorem topicFor_found {now : Instant} {kind : SourceKind} {name : String} {id : TopicId}
    {locked : LockedTopic} (hlock : lockTopic name store = some locked) :
    topicFor segment now kind name id store = (store, locked, true) := by
  unfold topicFor
  rw [hlock]

theorem topicFor_missing {now : Instant} {kind : SourceKind} {name : String} {id : TopicId}
    (hlook : lookFor name store = none) :
    topicFor segment now kind name id store =
      ((createFor segment now kind name id store).1,
        (createFor segment now kind name id store).2, false) := by
  unfold topicFor createFor
  rw [lockTopic_none.mpr hlook]
  cases kind with
  | file => rfl
  | manual => rfl

theorem createFor_new (segment : String -> List String) (now : Instant) (kind : SourceKind)
    {name : String} (id : TopicId)
    (hlook : lookFor name store = none) :
    (createFor segment now kind name id store).1.sources = store.sources ∧
      (createFor segment now kind name id store).2.topic = id ∧
        (createFor segment now kind name id store).1.titles = store.titles ++ [(id, name)] ∧
          (createFor segment now kind name id store).1.names =
            match kind with
            | SourceKind.file => store.names
            | SourceKind.manual => store.names ++
                [{ nameRow segment (id, name) with
                    tokenCount := asInt16 (segment name).length }] := by
  cases kind with
  | file =>
      unfold createFor createTopicUnnamed createTopic
      rw [lockTopic_none.mpr hlook]
      exact ⟨rfl, rfl, List.map_append, List.append_nil _⟩
  | manual =>
      unfold createFor createTopicNamed createTopic
      rw [lockTopic_none.mpr hlook]
      exact ⟨rfl, rfl, List.map_append, rfl⟩

theorem created_files {now observedAt : Instant} {validFrom validTo : Option Instant}
    {source : SourceId} {evidence : Evidence} {kind : SourceKind} {topic : String}
    {drawn : Drawn} {sourced written : Store} {version : SourceVersion} {state : TopicState}
    (hlook : lookFor topic store = none) (hadds : AddsSource kind topic store sourced)
    (htitles : sourced.titles = store.titles) (hnames : sourced.names = store.names)
    (happended : appendPromoted now project source evidence
      { topic := (createFor segment now kind topic drawn.topic sourced).2
        observedAt := observedAt, validFrom := validFrom, validTo := validTo
        owed := owedBy kind false drawn } drawn
      (createFor segment now kind topic drawn.topic sourced).1 =
        some (written, version, state)) :
    AddsSource kind topic store written ∧
      Files segment project topic true kind drawn.topic store written := by
  have hmissing : lookFor topic sourced = none := by rw [lookFor_congr htitles, hlook]
  rcases createFor_new segment now kind drawn.topic hmissing with
    ⟨hsources, hid, hnewtitles, hnewnames⟩
  rcases appendPromoted_others happended with
    ⟨hwrittensources, hwrittentitles, hwrittennames, hjobs⟩
  rw [hnewtitles, htitles] at hwrittentitles
  rw [hnewnames, hnames] at hwrittennames
  constructor
  · intro at'
    rw [sourceAt_congr hwrittensources, sourceAt_congr hsources]
    exact hadds at'
  · cases kind with
    | file => exact Files.unnamed rfl hlook rfl hwrittentitles hwrittennames
    | manual =>
        refine Files.created rfl hlook rfl hwrittentitles hwrittennames ?_
        have howed : (drawn.backfill, Jobs.JobKind.backfillMentions) ∈
            owedBy SourceKind.manual false drawn := by
          simp [owedBy]
        unfold Owes
        rw [hjobs, hid]
        exact Jobs.pending_requested howed _

theorem writeFrom_files {now : Instant} {request : Write} {kind : SourceKind}
    {root : Option String} {drawn : Drawn} {recorded : Recorded}
    (h : writeFrom segment now project request kind root drawn store = some (t, recorded)) :
    AddsSource kind request.topic store t ∧
      Files segment project request.topic request.promoted kind drawn.topic store t := by
  rcases sourceFor_sources kind root request.topic drawn.source store with ⟨hfirst, hsources⟩
  rcases sourceFor_others kind root request.topic drawn.source store with ⟨htopics, hnames⟩
  have htitles := titles_congr htopics
  unfold writeFrom at h
  simp only at h
  generalize sourceFor kind root request.topic drawn.source store = sourced
    at h hfirst hsources htitles hnames
  have hnamed : forall written : Store, written.sources = sourced.1.sources ->
      written.titles = sourced.1.titles -> written.names = sourced.1.names ->
        AddsSource kind request.topic store (nameFirst segment now project kind request.topic
            sourced.2.2 false drawn.backfill written) ∧
          Files segment project request.topic request.promoted kind drawn.topic store
            (nameFirst segment now project kind request.topic sourced.2.2 false drawn.backfill
              written) := by
    intro written hwrittensources hwrittentitles hwrittennames
    rcases nameFirst_files segment now project request.promoted drawn.backfill drawn.topic
      hfirst (hwrittentitles.trans htitles) (hwrittennames.trans hnames) with ⟨hsame, hfiles⟩
    refine ⟨?_, hfiles⟩
    intro at'
    exact (sourceAt_congr hsame at').trans
      ((sourceAt_congr hwrittensources at').trans (hsources at'))
  split at h
  · next hpromoted =>
      cases hlock : lockTopic request.topic sourced.1 with
      | some locked =>
          rw [topicFor_found hlock] at h
          split at h
          · cases h
          · next written version state happended =>
              rcases appendPromoted_others happended with
                ⟨hwrittensources, hwrittentitles, hwrittennames, _⟩
              cases h
              exact hnamed written hwrittensources hwrittentitles hwrittennames
      | none =>
          have hlook := lockTopic_none.mp hlock
          rw [topicFor_missing hlook] at h
          rw [lookFor_congr htitles] at hlook
          split at h
          · cases h
          · next written version state happended =>
              have hcreated := created_files hlook hsources htitles hnames happended
              rw [hpromoted]
              cases kind with
              | file =>
                  rw [nameFirst_file] at h
                  cases h
                  exact hcreated
              | manual =>
                  rw [show (!false && decide (SourceKind.manual = SourceKind.manual)) = true
                    from rfl, nameFirst_created] at h
                  cases h
                  exact hcreated
  · split at h
    · cases h
    · next written version happended =>
        rcases appendEvidence_others happended with
          ⟨hwrittensources, hwrittentitles, hwrittennames, _⟩
        cases h
        exact hnamed written hwrittensources hwrittentitles hwrittennames

def Opened.Right (opened : Opened) : Prop :=
  (opened.request.promoted = true -> opened.looked = none) ∧
    (opened.request.promoted = false -> opened.kind = SourceKind.manual)

def Opened.Fresh (opened : Opened) (store : Store) : Prop :=
  opened.kind = SourceKind.manual -> lookFor opened.request.topic store = opened.looked

instance (opened : Opened) (store : Store) : Decidable (opened.Fresh store) := by
  unfold Opened.Fresh
  infer_instance

theorem finishFrom_files {now : Instant} {opened : Opened} {drawn : Drawn}
    {recorded : Recorded} (hright : opened.Right) (hfresh : opened.Fresh store)
    (h : finishFrom segment now project opened drawn store = some (t, recorded)) :
    AddsSource opened.kind opened.request.topic store t ∧
      Files segment project opened.request.topic opened.request.promoted opened.kind
        drawn.topic store t := by
  rcases sourceFor_sources opened.kind opened.root opened.request.topic drawn.source store with
    ⟨_, hsources⟩
  rcases sourceFor_others opened.kind opened.root opened.request.topic drawn.source store with
    ⟨htopics, hnames⟩
  have htitles := titles_congr htopics
  unfold finishFrom at h
  simp only at h
  generalize sourceFor opened.kind opened.root opened.request.topic drawn.source store = sourced
    at h hsources htitles hnames
  split at h
  · next hpromoted =>
      split at h
      · cases h
      · next written version state happended =>
          cases h
          rw [hpromoted]
          cases hlook : lookFor opened.request.topic store with
          | none => exact created_files hlook hsources htitles hnames happended
          | some found =>
              -- Another write created the topic after the look; only a section comes here.
              have hfile : opened.kind = SourceKind.file := by
                cases hkind : opened.kind with
                | file => rfl
                | manual =>
                    have hsame := hfresh hkind
                    rw [hlook, hright.1 hpromoted] at hsame
                    cases hsame
              have hlocked : exists locked,
                  lockTopic opened.request.topic sourced.1 = some locked := by
                cases hlock : lockTopic opened.request.topic sourced.1 with
                | some locked => exact ⟨locked, rfl⟩
                | none =>
                    have hnone := lockTopic_none.mp hlock
                    rw [lookFor_congr htitles, hlook] at hnone
                    cases hnone
              rcases hlocked with ⟨locked, hlock⟩
              rw [hfile] at happended hsources ⊢
              unfold createFor createTopicUnnamed createTopic at happended
              rw [hlock] at happended
              rcases appendPromoted_others happended with
                ⟨hwrittensources, hwrittentitles, hwrittennames, _⟩
              constructor
              · intro at'
                rw [sourceAt_congr hwrittensources]
                exact hsources at'
              · apply Files.still (hwrittentitles.trans htitles) (hwrittennames.trans hnames)
                intro hhand
                cases hhand
  · next hheld =>
      split at h
      · cases h
      · next written version happended =>
          cases h
          rcases appendEvidence_others happended with
            ⟨hwrittensources, hwrittentitles, hwrittennames, _⟩
          have hhand := hright.2 (by simpa using hheld)
          have hlook := hfresh hhand
          have hadds : AddsSource opened.kind opened.request.topic store written := by
            intro at'
            rw [sourceAt_congr hwrittensources]
            exact hsources at'
          have hwritten := hwrittennames.trans hnames
          unfold nameLooked
          cases hfound : opened.looked with
          | none =>
              refine ⟨hadds, Files.still (hwrittentitles.trans htitles) hwritten ?_⟩
              intro _ _ found hthere
              rw [hlook, hfound] at hthere
              cases hthere
          | some found =>
              rw [hfound] at hlook
              simp only
              split
              · next hfiled =>
                  refine ⟨hadds, Files.still (hwrittentitles.trans htitles) hwritten ?_⟩
                  intro _ _ other hother
                  rw [hlook] at hother
                  cases hother
                  rw [← hwritten]
                  exact filed_iff.mp hfiled
              · next hunfiled =>
                  refine ⟨hadds, Files.named found hlook ?_ hhand
                    (hwrittentitles.trans htitles) ?_ ?_⟩
                  · rw [← hwritten]
                    exact fun hfiled => hunfiled (filed_iff.mpr hfiled)
                  · rw [← hwritten]
                    rfl
                  · exact Jobs.pending_requested (List.mem_singleton_self _) _

end Effects

/-!
## The index in step with the topics
-/

section Invariant

variable {segment : String -> List String} {project : ProjectId} {store t : Store}

structure Named (segment : String -> List String) (store : Store) : Prop where
  idsDistinct : (store.titles.map Prod.fst).Nodup
  namesDistinct : (store.titles.map Prod.snd).Nodup
  sourced : forall title, title ∈ store.titles ->
    sourceAt (locator SourceKind.file title.2) store = true ∨
      sourceAt (locator SourceKind.manual title.2) store = true
  filed : forall row, row ∈ store.names <->
    exists title, title ∈ store.titles ∧
      sourceAt (locator SourceKind.manual title.2) store = true ∧ row = nameRow segment title
  once : (store.names.map TopicName.topicId).Nodup

theorem named_empty (segment : String -> List String) : Named segment Store.empty where
  idsDistinct := List.nodup_nil
  namesDistinct := List.nodup_nil
  sourced := by
    intro title hmem
    cases hmem
  filed := by
    intro row
    constructor
    · intro hmem
      cases hmem
    · intro hmem
      rcases hmem with ⟨title, htitle, _⟩
      cases htitle
  once := List.nodup_nil

theorem locator_inj {kind other : SourceKind} {name name' : String}
    (h : locator kind name = locator other name') : kind = other ∧ name = name' := by
  unfold locator at h
  cases kind with
  | manual =>
      cases other with
      | manual => exact ⟨rfl, by simpa using h⟩
      | file =>
          have hlists := congrArg String.toList h
          simp at hlists
  | file =>
      cases other with
      | manual =>
          have hlists := congrArg String.toList h
          simp at hlists
      | file => exact ⟨rfl, by simpa using h⟩

theorem look_of_mem (h : Named segment store) {title : TopicId × String}
    (hmem : title ∈ store.titles) : lookFor title.2 store = some title.1 := by
  cases hlook : lookFor title.2 store with
  | none => exact absurd (List.mem_map_of_mem hmem) (lookFor_none.mp hlook)
  | some found =>
      have hsame := List.inj_on_of_nodup_map h.namesDistinct (lookFor_some hlook) hmem rfl
      rw [← hsame]

theorem by_hand_of_filed (h : Named segment store) {title : TopicId × String}
    (hmem : title ∈ store.titles) (hfiled : title.1 ∈ store.names.map TopicName.topicId) :
    sourceAt (locator SourceKind.manual title.2) store = true := by
  rcases List.mem_map.mp hfiled with ⟨row, hrow, hid⟩
  rcases (h.filed row).mp hrow with ⟨other, hother, hhand, heq⟩
  have hids : other.1 = title.1 := by
    rw [← hid, heq]
    rfl
  rw [← List.inj_on_of_nodup_map h.idsDistinct hother hmem hids]
  exact hhand

theorem title_of_filed (h : Named segment store) {id : TopicId}
    (hfiled : id ∈ store.names.map TopicName.topicId) : id ∈ store.titles.map Prod.fst := by
  rcases List.mem_map.mp hfiled with ⟨row, hrow, hid⟩
  rcases (h.filed row).mp hrow with ⟨title, htitle, _, heq⟩
  rw [← hid, heq]
  exact List.mem_map_of_mem htitle

theorem named_congr (h : Named segment store) (htitles : t.titles = store.titles)
    (hsources : forall at', sourceAt at' t = sourceAt at' store)
    (hnames : t.names = store.names) : Named segment t where
  idsDistinct := by
    rw [htitles]
    exact h.idsDistinct
  namesDistinct := by
    rw [htitles]
    exact h.namesDistinct
  sourced := by
    intro title hmem
    rw [htitles] at hmem
    rw [hsources, hsources]
    exact h.sourced title hmem
  filed := by
    intro row
    simp only [htitles, hnames, hsources]
    exact h.filed row
  once := by
    rw [hnames]
    exact h.once

def ClearWrite (segment : String -> List String) (request : Write) (kind : SourceKind)
    (store : Store) : Prop :=
  request.promoted = true -> lookFor request.topic store = none ->
    match kind with
    | SourceKind.file => sourceAt (locator SourceKind.manual request.topic) store = false
    | SourceKind.manual => Narrow segment request.topic

instance (segment : String -> List String) (request : Write) (kind : SourceKind)
    (store : Store) : Decidable (ClearWrite segment request kind store) := by
  unfold ClearWrite
  cases kind with
  | file => infer_instance
  | manual => infer_instance

section Sources

variable {topic : String} {kind : SourceKind}

theorem sourceAt_grows (hadds : AddsSource kind topic store t) {at' : String}
    (h : sourceAt at' store = true) : sourceAt at' t = true := by
  rw [hadds, h, Bool.true_or]

theorem sourceAt_written (hadds : AddsSource kind topic store t) :
    sourceAt (locator kind topic) t = true := by
  rw [hadds, decide_eq_true rfl, Bool.or_true]

theorem sourceAt_other (hadds : AddsSource kind topic store t) {other : SourceKind}
    {name : String} (h : kind ≠ other ∨ topic ≠ name) :
    sourceAt (locator other name) t = sourceAt (locator other name) store := by
  have hne : locator kind topic ≠ locator other name := by
    intro hsame
    rcases locator_inj hsame with ⟨hkind, hname⟩
    cases h with
    | inl hdiffers => exact hdiffers hkind
    | inr hdiffers => exact hdiffers hname
  rw [hadds, decide_eq_false hne, Bool.or_false]

theorem sourced_write (h : Named segment store) (hadds : AddsSource kind topic store t)
    (htitles : forall title, title ∈ t.titles -> title ∈ store.titles ∨ title.2 = topic) :
    forall title, title ∈ t.titles ->
      sourceAt (locator SourceKind.file title.2) t = true ∨
        sourceAt (locator SourceKind.manual title.2) t = true := by
  intro title hmem
  cases htitles title hmem with
  | inl hthere =>
      cases h.sourced title hthere with
      | inl hfile => exact Or.inl (sourceAt_grows hadds hfile)
      | inr hmanual => exact Or.inr (sourceAt_grows hadds hmanual)
  | inr hnew =>
      have hwritten := sourceAt_written hadds
      rw [hnew]
      cases kind with
      | file => exact Or.inl hwritten
      | manual => exact Or.inr hwritten

theorem by_hand_of_written (hadds : AddsSource kind topic store t) {title : TopicId × String}
    (hhand : sourceAt (locator SourceKind.manual title.2) t = true) :
    sourceAt (locator SourceKind.manual title.2) store = true ∨
      (kind = SourceKind.manual ∧ topic = title.2 ∧
        sourceAt (locator kind topic) store = false) := by
  cases hbefore : sourceAt (locator SourceKind.manual title.2) store with
  | true => exact Or.inl rfl
  | false =>
      apply Or.inr
      by_cases hkind : kind = SourceKind.manual
      · by_cases htopic : topic = title.2
        · refine ⟨hkind, htopic, ?_⟩
          rw [hkind, htopic]
          exact hbefore
        · rw [sourceAt_other hadds (Or.inr htopic), hbefore] at hhand
          cases hhand
      · rw [sourceAt_other hadds (Or.inl hkind), hbefore] at hhand
        cases hhand

theorem named_still (h : Named segment store) (hadds : AddsSource kind topic store t)
    (htitles : t.titles = store.titles) (hnames : t.names = store.names)
    (hfiled : kind = SourceKind.manual -> sourceAt (locator kind topic) store = false ->
      forall found, lookFor topic store = some found ->
        found ∈ store.names.map TopicName.topicId) : Named segment t where
  idsDistinct := by
    rw [htitles]
    exact h.idsDistinct
  namesDistinct := by
    rw [htitles]
    exact h.namesDistinct
  sourced := sourced_write h hadds fun title hmem => Or.inl (htitles ▸ hmem)
  once := by
    rw [hnames]
    exact h.once
  filed := by
    intro row
    rw [hnames, htitles, h.filed row]
    constructor
    · intro hrow
      rcases hrow with ⟨title, hmem, hhand, heq⟩
      exact ⟨title, hmem, sourceAt_grows hadds hhand, heq⟩
    · intro hrow
      rcases hrow with ⟨title, hmem, hhand, heq⟩
      refine ⟨title, hmem, ?_, heq⟩
      cases by_hand_of_written hadds hhand with
      | inl hbefore => exact hbefore
      | inr hnow =>
          rcases hnow with ⟨hkind, htopic, hnew⟩
          apply by_hand_of_filed h hmem
          apply hfiled hkind hnew
          rw [htopic]
          exact look_of_mem h hmem

theorem named_named (h : Named segment store) (hadds : AddsSource kind topic store t)
    {found : TopicId} (hthere : lookFor topic store = some found)
    (hunfiled : found ∉ store.names.map TopicName.topicId) (hhand : kind = SourceKind.manual)
    (htitles : t.titles = store.titles)
    (hnames : t.names = store.names ++ [nameRow segment (found, topic)]) :
    Named segment t where
  idsDistinct := by
    rw [htitles]
    exact h.idsDistinct
  namesDistinct := by
    rw [htitles]
    exact h.namesDistinct
  sourced := sourced_write h hadds fun title hmem => Or.inl (htitles ▸ hmem)
  once := by
    rw [hnames, List.map_append, List.nodup_append]
    refine ⟨h.once, List.nodup_singleton _, ?_⟩
    intro id hid other hother
    rw [List.mem_singleton.mp hother]
    intro hsame
    apply hunfiled
    rw [show found = id from hsame.symm]
    exact hid
  filed := by
    intro row
    rw [hnames, List.mem_append, List.mem_singleton, htitles, h.filed row]
    constructor
    · intro hrow
      cases hrow with
      | inl hold =>
          rcases hold with ⟨title, hmem, hbefore, heq⟩
          exact ⟨title, hmem, sourceAt_grows hadds hbefore, heq⟩
      | inr hnew =>
          refine ⟨(found, topic), lookFor_some hthere, ?_, hnew⟩
          rw [← hhand]
          exact sourceAt_written hadds
    · intro hrow
      rcases hrow with ⟨title, hmem, hafter, heq⟩
      cases by_hand_of_written hadds hafter with
      | inl hbefore => exact Or.inl ⟨title, hmem, hbefore, heq⟩
      | inr hnow =>
          apply Or.inr
          rw [heq, List.inj_on_of_nodup_map h.namesDistinct hmem (lookFor_some hthere)
            hnow.2.1.symm]

theorem named_created (h : Named segment store) (hadds : AddsSource kind topic store t)
    {id : TopicId} (hid : id ∉ store.titles.map Prod.fst) (hmissing : lookFor topic store = none)
    (htitles : t.titles = store.titles ++ [(id, topic)])
    (hnames : (sourceAt (locator SourceKind.manual topic) t = false ∧ t.names = store.names) ∨
      (sourceAt (locator SourceKind.manual topic) t = true ∧
        t.names = store.names ++ [nameRow segment (id, topic)])) : Named segment t := by
  have hname := lookFor_none.mp hmissing
  have hsame : forall title, title ∈ store.titles ->
      sourceAt (locator SourceKind.manual title.2) t =
        sourceAt (locator SourceKind.manual title.2) store := by
    intro title hmem
    apply sourceAt_other hadds
    apply Or.inr
    intro heq
    apply hname
    rw [heq]
    exact List.mem_map_of_mem hmem
  have hmem : forall title, title ∈ t.titles <-> title ∈ store.titles ∨ title = (id, topic) := by
    intro title
    rw [htitles, List.mem_append, List.mem_singleton]
  constructor
  · rw [htitles, List.map_append, List.nodup_append]
    refine ⟨h.idsDistinct, List.nodup_singleton _, ?_⟩
    intro old hold other hother heq
    apply hid
    rw [show id = old from (List.mem_singleton.mp hother).symm.trans heq.symm]
    exact hold
  · rw [htitles, List.map_append, List.nodup_append]
    refine ⟨h.namesDistinct, List.nodup_singleton _, ?_⟩
    intro old hold other hother heq
    apply hname
    rw [show topic = old from (List.mem_singleton.mp hother).symm.trans heq.symm]
    exact hold
  · apply sourced_write h hadds
    intro title htitle
    cases (hmem title).mp htitle with
    | inl hold => exact Or.inl hold
    | inr hnew => exact Or.inr (congrArg Prod.snd hnew)
  · intro row
    have hold : (exists title, title ∈ store.titles ∧
        sourceAt (locator SourceKind.manual title.2) t = true ∧ row = nameRow segment title) <->
          row ∈ store.names := by
      rw [h.filed row]
      constructor
      · intro hrow
        rcases hrow with ⟨title, htitle, hhand, heq⟩
        exact ⟨title, htitle, (hsame title htitle).symm.trans hhand, heq⟩
      · intro hrow
        rcases hrow with ⟨title, htitle, hhand, heq⟩
        exact ⟨title, htitle, (hsame title htitle).trans hhand, heq⟩
    constructor
    · intro hrow
      cases hnames with
      | inl hunfiled =>
          rw [hunfiled.2] at hrow
          rcases hold.mpr hrow with ⟨title, htitle, hhand, heq⟩
          exact ⟨title, (hmem title).mpr (Or.inl htitle), hhand, heq⟩
      | inr hfiled =>
          rw [hfiled.2] at hrow
          cases List.mem_append.mp hrow with
          | inl hthere =>
              rcases hold.mpr hthere with ⟨title, htitle, hhand, heq⟩
              exact ⟨title, (hmem title).mpr (Or.inl htitle), hhand, heq⟩
          | inr hlast =>
              exact ⟨(id, topic), (hmem _).mpr (Or.inr rfl), hfiled.1,
                List.mem_singleton.mp hlast⟩
    · intro hrow
      rcases hrow with ⟨title, htitle, hhand, heq⟩
      cases (hmem title).mp htitle with
      | inl hthere =>
          have hin := hold.mp ⟨title, hthere, hhand, heq⟩
          cases hnames with
          | inl hunfiled =>
              rw [hunfiled.2]
              exact hin
          | inr hfiled =>
              rw [hfiled.2]
              exact List.mem_append_left _ hin
      | inr hnew =>
          rw [hnew] at hhand heq
          cases hnames with
          | inl hunfiled => cases hunfiled.1.symm.trans hhand
          | inr hfiled =>
              rw [hfiled.2, heq]
              exact List.mem_append_right _ (List.mem_singleton_self _)
  · cases hnames with
    | inl hunfiled =>
        rw [hunfiled.2]
        exact h.once
    | inr hfiled =>
        rw [hfiled.2, List.map_append, List.nodup_append]
        refine ⟨h.once, List.nodup_singleton _, ?_⟩
        intro old hold other hother heq
        apply hid
        rw [show id = old from (List.mem_singleton.mp hother).symm.trans heq.symm]
        exact title_of_filed h hold

end Sources

theorem named_write {request : Write} {kind : SourceKind} {id : TopicId}
    (h : Named segment store) (hid : id ∉ store.titles.map Prod.fst)
    (hclear : ClearWrite segment request kind store)
    (hadds : AddsSource kind request.topic store t)
    (hfiles : Files segment project request.topic request.promoted kind id store t) :
    Named segment t := by
  cases hfiles with
  | still htitles hnames hfiled => exact named_still h hadds htitles hnames hfiled
  | named found hthere hunfiled hhand htitles hnames _ =>
      exact named_named h hadds hthere hunfiled hhand htitles hnames
  | unnamed hpromotes hmissing hfile htitles hnames =>
      have hnever := hclear hpromotes hmissing
      rw [hfile] at hnever hadds
      apply named_created h hadds hid hmissing htitles
      refine Or.inl ⟨?_, hnames⟩
      rw [sourceAt_other hadds (Or.inl (by decide))]
      exact hnever
  | created hpromotes hmissing hhand htitles hnames _ =>
      have hnarrow := hclear hpromotes hmissing
      rw [hhand] at hnarrow hadds
      apply named_created h hadds hid hmissing htitles
      refine Or.inr ⟨sourceAt_written hadds, ?_⟩
      rw [hnames, show asInt16 (segment request.topic).length = _ from hnarrow]
      rfl

theorem retireSection_others (now : Instant) (project : ProjectId) (topic : String)
    (seen : TopicStateId) (jobs : IndexJobId × IndexJobId) (store : Store) :
    (retireSection now project topic seen jobs store).1.titles = store.titles ∧
      (retireSection now project topic seen jobs store).1.sources = store.sources ∧
        (retireSection now project topic seen jobs store).1.names = store.names := by
  have hretire : forall id, (retireTopic now project id jobs store).1.titles = store.titles ∧
      (retireTopic now project id jobs store).1.sources = store.sources ∧
        (retireTopic now project id jobs store).1.names = store.names := by
    intro id
    unfold retireTopic
    split
    · exact ⟨titles_pointAt _ _ _, rfl, rfl⟩
    · exact ⟨rfl, rfl, rfl⟩
  unfold retireSection
  split
  · exact ⟨rfl, rfl, rfl⟩
  · split
    · exact ⟨rfl, rfl, rfl⟩
    · split
      · exact ⟨rfl, rfl, rfl⟩
      · split
        · exact ⟨rfl, rfl, rfl⟩
        · exact hretire _

/-- The section is renamed: it says what was seen, no hand wrote it and its new name is free. -/
def Renames (store : Store) (names : String × String) (seen : TopicStateId) : Prop :=
  (lockTopic names.1 store).bind LockedTopic.current = some seen ∧
    sourceAt (locator SourceKind.manual names.1) store = false ∧
      lookFor names.2 store = none ∧
        sourceAt (locator SourceKind.file names.2) store = false

instance (store : Store) (names : String × String) (seen : TopicStateId) :
    Decidable (Renames store names seen) := by
  unfold Renames
  infer_instance

/-- A rename moves one topic and the source of its file to the new name. -/
structure Moves (names : String × String) (id : TopicId) (store t : Store) : Prop where
  there : (id, names.1) ∈ store.titles
  titles : t.titles = store.titles.map fun title =>
    if title.1 = id then (id, names.2) else title
  filed : t.names = store.names
  hand : forall name, sourceAt (locator SourceKind.manual name) t =
    sourceAt (locator SourceKind.manual name) store
  kept : forall name, name ≠ names.1 ->
    sourceAt (locator SourceKind.file name) store = true ->
      sourceAt (locator SourceKind.file name) t = true
  moved : sourceAt (locator SourceKind.file names.1) store = true ->
    sourceAt (locator SourceKind.file names.2) t = true

theorem sourceAt_moved (first second at' : String) :
    (store.sources.map fun row =>
        if row.locator = first then { row with locator := second } else row).any
      (fun row => decide (row.locator = at')) =
      store.sources.any fun row =>
        if row.locator = first then decide (second = at') else decide (row.locator = at') := by
  rw [List.any_map]
  congr 1
  funext row
  rw [Function.comp_apply]
  split
  · rfl
  · rfl

theorem renameTopic_moves {now : Instant} {names : String × String} {job : IndexJobId}
    {id : TopicId} (hthere : (id, names.1) ∈ store.titles)
    (hfree : lookFor names.2 store = none)
    (hunused : sourceAt (locator SourceKind.file names.2) store = false) :
    Moves names id store
      (renameTopic now project id names
        (locator SourceKind.file names.1, locator SourceKind.file names.2) job store).1 := by
  have htaken : (store.topics.any fun row => row.name = names.2) = false := by
    rw [List.any_eq_false]
    intro row hrow hname
    apply lookFor_none.mp hfree
    rw [← of_decide_eq_true hname]
    exact List.mem_map_of_mem (f := Prod.snd) (List.mem_map_of_mem hrow)
  have hsources : forall at', sourceAt at' (renameTopic now project id names
      (locator SourceKind.file names.1, locator SourceKind.file names.2) job store).1 =
        store.sources.any fun row =>
          if row.locator = locator SourceKind.file names.1 then
            decide (locator SourceKind.file names.2 = at')
          else
            decide (row.locator = at') := by
    intro at'
    unfold renameTopic
    rw [htaken, hunused]
    exact sourceAt_moved _ _ _
  constructor
  · exact hthere
  · unfold renameTopic
    rw [htaken, hunused]
    unfold Store.titles
    simp only [Bool.or_false, Bool.false_eq_true, if_false, List.map_map]
    apply List.map_congr_left
    intro row _
    by_cases hsame : row.id = id
    · simp [Topic.title, hsame]
    · simp [Topic.title, hsame]
  · unfold renameTopic
    rw [htaken, hunused]
    rfl
  · intro name
    rw [hsources]
    unfold sourceAt
    congr 1
    funext row
    split
    · next hmoved =>
        rw [hmoved, decide_eq_false, decide_eq_false]
        · intro heq
          cases (locator_inj heq).1
        · intro heq
          cases (locator_inj heq).1
    · rfl
  · intro name hname hfile
    rw [hsources]
    rcases List.any_eq_true.mp hfile with ⟨row, hrow, hat⟩
    refine List.any_eq_true.mpr ⟨row, hrow, ?_⟩
    rw [if_neg]
    · exact hat
    · intro hfirst
      apply hname
      rw [of_decide_eq_true hat] at hfirst
      exact (locator_inj hfirst).2
  · intro hfile
    rw [hsources]
    rcases List.any_eq_true.mp hfile with ⟨row, hrow, hat⟩
    refine List.any_eq_true.mpr ⟨row, hrow, ?_⟩
    rw [if_pos (of_decide_eq_true hat)]
    exact decide_eq_true rfl

theorem renameSection_cases (now : Instant) (names : String × String) (seen : TopicStateId)
    (job : IndexJobId) (store : Store) :
    (renameSection now project names seen job store).1 = store ∨
      (Renames store names seen ∧
        exists id, Moves names id store (renameSection now project names seen job store).1) := by
  unfold renameSection
  cases hlock : lockTopic names.1 store with
  | none => exact Or.inl rfl
  | some locked =>
      rcases Option.map_eq_some_iff.mp hlock with ⟨row, hrow, hlocked⟩
      have hname : row.name = names.1 := by simpa using List.find?_some hrow
      have hthere : (locked.topic, names.1) ∈ store.titles := by
        rw [← hlocked, ← hname]
        exact List.mem_map_of_mem (List.mem_of_find?_eq_some hrow)
      simp only
      split
      · exact Or.inl rfl
      · next hguard =>
          simp only [ne_eq, Bool.or_eq_true, decide_eq_true_eq, not_or, Decidable.not_not,
            Bool.not_eq_true] at hguard
          by_cases htaken : (store.topics.any fun row => row.name = names.2) = true ∨
              sourceAt (locator SourceKind.file names.2) store = true
          · apply Or.inl
            unfold renameTopic
            rw [if_pos (by simpa using htaken)]
          · rw [not_or, Bool.not_eq_true, Bool.not_eq_true] at htaken
            have hfree : lookFor names.2 store = none := by
              unfold lookFor
              rw [Option.map_eq_none_iff, List.find?_eq_none]
              exact List.any_eq_false.mp htaken.1
            refine Or.inr ⟨⟨?_, hguard.2, hfree, htaken.2⟩, locked.topic, ?_⟩
            · rw [hlock]
              exact hguard.1
            · exact renameTopic_moves hthere hfree htaken.2

theorem named_moves (h : Named segment store) {names : String × String} {id : TopicId}
    {seen : TopicStateId} (hrenames : Renames store names seen)
    (hmoves : Moves names id store t)
    (hclear : sourceAt (locator SourceKind.manual names.2) store = false) :
    Named segment t := by
  rcases hrenames with ⟨_, hunwritten, hfree, _⟩
  have hmem : forall title, title ∈ t.titles ->
      title = (id, names.2) ∨ (title ∈ store.titles ∧ title.1 ≠ id) := by
    intro title htitle
    rw [hmoves.titles] at htitle
    rcases List.mem_map.mp htitle with ⟨old, hold, heq⟩
    by_cases hid : old.1 = id
    · rw [if_pos hid] at heq
      exact Or.inl heq.symm
    · rw [if_neg hid] at heq
      rw [← heq]
      exact Or.inr ⟨hold, hid⟩
  have hids : t.titles.map Prod.fst = store.titles.map Prod.fst := by
    rw [hmoves.titles, List.map_map]
    apply List.map_congr_left
    intro title _
    rw [Function.comp_apply]
    split
    · next hsame => exact hsame.symm
    · rfl
  have hother : forall title, title ∈ store.titles -> title.1 ≠ id -> title.2 ≠ names.1 := by
    intro title htitle hid hname
    apply hid
    have hsame := List.inj_on_of_nodup_map h.namesDistinct htitle hmoves.there hname
    rw [hsame]
  constructor
  · rw [hids]
    exact h.idsDistinct
  · rw [hmoves.titles, List.map_map]
    have hnew : forall title, title ∈ store.titles -> title.2 ≠ names.2 := by
      intro title htitle hname
      apply lookFor_none.mp hfree
      rw [← hname]
      exact List.mem_map_of_mem htitle
    apply List.Nodup.map_on
    · intro first hfirst second hsecond heq
      simp only [Function.comp_apply] at heq
      by_cases hid : first.1 = id
      · by_cases hid' : second.1 = id
        · exact List.inj_on_of_nodup_map h.idsDistinct hfirst hsecond (hid.trans hid'.symm)
        · rw [if_pos hid, if_neg hid'] at heq
          exact absurd heq.symm (hnew second hsecond)
      · by_cases hid' : second.1 = id
        · rw [if_neg hid, if_pos hid'] at heq
          exact absurd heq (hnew first hfirst)
        · rw [if_neg hid, if_neg hid'] at heq
          exact List.inj_on_of_nodup_map h.namesDistinct hfirst hsecond heq
    · exact List.Nodup.of_map _ h.idsDistinct
  · intro title htitle
    rw [hmoves.hand]
    cases hmem title htitle with
    | inl hmoved =>
        apply Or.inl
        rw [hmoved]
        apply hmoves.moved
        cases h.sourced _ hmoves.there with
        | inl hfile => exact hfile
        | inr hhand => cases hunwritten.symm.trans hhand
    | inr hthere =>
        cases h.sourced title hthere.1 with
        | inl hfile => exact Or.inl (hmoves.kept _ (hother title hthere.1 hthere.2) hfile)
        | inr hhand => exact Or.inr hhand
  · intro row
    rw [hmoves.filed, h.filed row]
    constructor
    · intro hrow
      rcases hrow with ⟨title, htitle, hhand, heq⟩
      have hid : title.1 ≠ id := by
        intro hsame
        have hrows := List.inj_on_of_nodup_map h.idsDistinct htitle hmoves.there hsame
        rw [hrows] at hhand
        cases hunwritten.symm.trans hhand
      refine ⟨title, ?_, (hmoves.hand _).trans hhand, heq⟩
      rw [hmoves.titles]
      exact List.mem_map.mpr ⟨title, htitle, if_neg hid⟩
    · intro hrow
      rcases hrow with ⟨title, htitle, hhand, heq⟩
      rw [hmoves.hand] at hhand
      cases hmem title htitle with
      | inl hmoved =>
          rw [hmoved] at hhand
          cases hclear.symm.trans hhand
      | inr hthere => exact ⟨title, hthere.1, hhand, heq⟩
  · rw [hmoves.filed]
    exact h.once

end Invariant

/-!
## What a rebuild leaves
-/

section Rebuilt

variable {segment : String -> List String} {store : Store}

theorem recordTopicNames_new {new : List (TopicId × String × Nat)} {names : List TopicName}
    (hnew : (new.map Prod.fst).Nodup)
    (hnone : forall entry, entry ∈ new -> entry.1 ∉ names.map TopicName.topicId) :
    new.foldl recordTopicName names = names ++ new.map fun entry =>
      { topicId := entry.1, nameKey := entry.2.1, tokenCount := min entry.2.2 32767 } := by
  induction new generalizing names with
  | nil => exact (List.append_nil _).symm
  | cons entry rest ih =>
      rw [List.map_cons, List.nodup_cons] at hnew
      have hthis : recordTopicName names entry = names ++
          [{ topicId := entry.1, nameKey := entry.2.1, tokenCount := min entry.2.2 32767 }] := by
        unfold recordTopicName
        rw [if_neg]
        intro hany
        rcases List.any_eq_true.mp hany with ⟨row, hrow, hid⟩
        apply hnone entry List.mem_cons_self
        rw [← of_decide_eq_true hid]
        exact List.mem_map_of_mem hrow
      rw [List.foldl_cons, hthis, ih hnew.2]
      · rw [List.append_assoc, List.map_cons, List.singleton_append]
      · intro other hother hin
        rw [List.map_append, List.mem_append] at hin
        cases hin with
        | inl hold => exact hnone other (List.mem_cons_of_mem _ hother) hold
        | inr hlast =>
            apply hnew.1
            rw [show entry.1 = other.1 from (List.mem_singleton.mp hlast).symm]
            exact List.mem_map_of_mem hother

theorem rebuilt_names (h : Named segment store) :
    (rebuildNameIndex segment { store with names := [] }).names =
      (topicsToName store).map fun topic => nameRow segment topic.title := by
  have hids := h.idsDistinct
  unfold Store.titles at hids
  rw [List.map_map] at hids
  unfold rebuildNameIndex recordTopicNames
  rw [recordTopicNames_new]
  · rw [List.nil_append, List.map_map]
    rfl
  · rw [List.map_map]
    exact hids.sublist (List.filter_sublist.map _)
  · intro entry _
    exact List.not_mem_nil

theorem mem_topicsToName (h : Named segment store) {topic : Topic} :
    topic ∈ topicsToName store <->
      topic ∈ store.topics ∧ sourceAt (locator SourceKind.manual topic.name) store = true := by
  unfold topicsToName
  rw [List.mem_filter]
  apply and_congr_right
  intro hmem
  rw [Bool.or_eq_true, Bool.not_eq_true']
  constructor
  · intro hbelongs
    cases hbelongs with
    | inl hnofile =>
        cases h.sourced topic.title (List.mem_map_of_mem hmem) with
        | inl hfile => cases hnofile.symm.trans hfile
        | inr hhand => exact hhand
    | inr hhand => exact hhand
  · exact Or.inr

theorem rebuilt_perm (h : Named segment store) :
    store.names.Perm (rebuildNameIndex segment { store with names := [] }).names := by
  rw [rebuilt_names h]
  have hrebuilt : (((topicsToName store).map fun topic =>
      nameRow segment topic.title).map TopicName.topicId).Nodup := by
    have hids := h.idsDistinct
    unfold Store.titles at hids
    rw [List.map_map] at hids ⊢
    exact hids.sublist (List.filter_sublist.map _)
  apply (List.perm_ext_iff_of_nodup (h.once.of_map _) (hrebuilt.of_map _)).mpr
  intro row
  rw [h.filed row, List.mem_map]
  constructor
  · intro hrow
    rcases hrow with ⟨title, htitle, hhand, heq⟩
    rcases List.mem_map.mp htitle with ⟨topic, htopic, hsame⟩
    rw [← hsame] at hhand heq
    exact ⟨topic, (mem_topicsToName h).mpr ⟨htopic, hhand⟩, heq.symm⟩
  · intro hrow
    rcases hrow with ⟨topic, htopic, heq⟩
    rcases (mem_topicsToName h).mp htopic with ⟨hmem, hhand⟩
    exact ⟨topic.title, List.mem_map_of_mem hmem, hhand, heq.symm⟩

end Rebuilt

/-!
## Runs
-/

section Runs

variable {segment : String -> List String} {project : ProjectId} {s t : Writing}

/--
A topic that a file's write creates, or a rename names, has a name nobody wrote by hand; a
write by hand finds its topic as its look did; and a name it files has few enough tokens.
-/
def Clear (segment : String -> List String) (s : Writing) : Statement -> Prop
  | Statement.write _ request kind _ _ => ClearWrite segment request kind s.ledger
  | Statement.finish id _ _ => forall opened, opened ∈ partyOf s.opened id ->
      ClearWrite segment opened.request opened.kind s.ledger ∧ opened.Fresh s.ledger
  | Statement.rename _ names seen _ => Renames s.ledger names seen ->
      sourceAt (locator SourceKind.manual names.2) s.ledger = false
  | _ => True

instance (segment : String -> List String) (s : Writing) (statement : Statement) :
    Decidable (Clear segment s statement) := by
  unfold Clear
  split
  · infer_instance
  · infer_instance
  · infer_instance
  · infer_instance

def OwesBackfill (segment : String -> List String) (project : ProjectId) (s : Writing)
    (statement : Statement) : Prop :=
  forall t, proceed segment project s statement = some t ->
    forall row, row ∈ t.ledger.names -> row ∉ s.ledger.names ->
      Owes project row.topicId t.ledger

structure InStep (segment : String -> List String) (s : Writing) : Prop where
  named : Named segment s.ledger
  right : forall entry, entry ∈ s.opened -> entry.2.Right

structure Steps (segment : String -> List String) (project : ProjectId) (store t : Store) :
    Prop where
  named : Named segment t
  owes : forall row, row ∈ t.names -> row ∉ store.names -> Owes project row.topicId t

theorem steps_write {request : Write} {kind : SourceKind} {drawn : Drawn} {store t : Store}
    (h : Named segment store) (hunused : Unused store drawn)
    (hclear : ClearWrite segment request kind store)
    (hwritten : AddsSource kind request.topic store t ∧
      Files segment project request.topic request.promoted kind drawn.topic store t) :
    Steps segment project store t := by
  have hid : drawn.topic ∉ store.titles.map Prod.fst := by
    have hunusedTopic := hunused.2.2.2.1
    unfold Store.titles
    rw [List.map_map]
    exact hunusedTopic
  refine ⟨named_write h hid hclear hwritten.1 hwritten.2, ?_⟩
  intro row hrow hnew
  cases hwritten.2 with
  | still _ hnames _ =>
      rw [hnames] at hrow
      exact absurd hrow hnew
  | named found _ _ _ _ hnames howes =>
      rw [hnames] at hrow
      cases List.mem_append.mp hrow with
      | inl hold => exact absurd hold hnew
      | inr hlast =>
          rw [List.mem_singleton.mp hlast]
          exact howes
  | unnamed _ _ _ _ hnames =>
      rw [hnames] at hrow
      exact absurd hrow hnew
  | created _ _ _ _ hnames howes =>
      rw [hnames] at hrow
      cases List.mem_append.mp hrow with
      | inl hold => exact absurd hold hnew
      | inr hlast =>
          rw [List.mem_singleton.mp hlast]
          exact howes

theorem steps_same {store t : Store} (h : Named segment t) (hnames : t.names = store.names) :
    Steps segment project store t := by
  refine ⟨h, ?_⟩
  intro row hrow hnew
  rw [hnames] at hrow
  exact absurd hrow hnew

theorem proceed_steps {statement : Statement} (h : InStep segment s)
    (hclear : Clear segment s statement) (hstep : proceed segment project s statement = some t) :
    Steps segment project s.ledger t.ledger ∧ forall entry, entry ∈ t.opened -> entry.2.Right := by
  cases statement with
  | write now request kind root drawn =>
      simp only [proceed] at hstep
      split at hstep
      · next hguard =>
          rcases Option.map_eq_some_iff.mp hstep with ⟨written, hwritten, heq⟩
          subst heq
          exact ⟨steps_write h.named hguard.1 hclear (writeFrom_files hwritten), h.right⟩
      · cases hstep
  | look id request kind root =>
      simp only [proceed] at hstep
      split at hstep
      · next hguard =>
          cases hstep
          refine ⟨steps_same h.named rfl, forall_joined h.right ?_⟩
          simp only [Bool.and_eq_true] at hguard
          have hopens := hguard.2
          unfold opens at hopens
          constructor
          · intro hpromoted
            rw [if_pos hpromoted] at hopens
            exact of_decide_eq_true hopens
          · intro hheld
            rw [if_neg (Bool.eq_false_iff.mp hheld), Bool.and_eq_true] at hopens
            exact of_decide_eq_true hopens.1
      · cases hstep
  | finish id now drawn =>
      simp only [proceed] at hstep
      cases hopened : partyOf s.opened id with
      | none =>
          rw [hopened] at hstep
          cases hstep
      | some opened =>
          rw [hopened] at hstep
          simp only at hstep
          split at hstep
          · next hunused =>
              rcases Option.map_eq_some_iff.mp hstep with ⟨written, hwritten, heq⟩
              subst heq
              rcases hclear opened hopened with ⟨hwrite, hfresh⟩
              have hright := h.right _ (mem_of_partyOf hopened)
              exact ⟨steps_write h.named hunused hwrite
                  (finishFrom_files hright hfresh hwritten),
                fun entry hentry => h.right entry (mem_dropParty hentry)⟩
          · cases hstep
  | stop id =>
      cases hstep
      exact ⟨steps_same h.named rfl, fun entry hentry => h.right entry (mem_dropParty hentry)⟩
  | retire now topic seen jobs =>
      cases hstep
      rcases retireSection_others now project topic seen jobs s.ledger with
        ⟨htitles, hsources, hnames⟩
      exact ⟨steps_same (named_congr h.named htitles (sourceAt_congr hsources) hnames) hnames,
        h.right⟩
  | rename now names seen job =>
      cases hstep
      refine ⟨?_, h.right⟩
      cases renameSection_cases now names seen job s.ledger with
      | inl hsame =>
          rw [hsame]
          exact steps_same h.named rfl
      | inr hmoved =>
          rcases hmoved with ⟨hrenames, id, hmoves⟩
          exact steps_same (named_moves h.named hrenames hmoves (hclear hrenames)) hmoves.filed

theorem inStep_proceed :
    PreservedWhen (proceed segment project) (Clear segment) (InStep segment) := by
  intro s statement t h hclear hstep
  rcases proceed_steps h hclear hstep with ⟨hsteps, hright⟩
  exact ⟨hsteps.named, hright⟩

/--
After any interleaving of clear statements the name index is the one a rebuild makes over
an empty index, and each topic was owed a backfill when it was filed.
-/
theorem name_index_is_the_rebuilt_one {statements : List Statement}
    (hclear : Along (proceed segment project) (Clear segment)
      { ledger := Store.empty, opened := [] } statements)
    (hrun : RunFrom (proceed segment project) { ledger := Store.empty, opened := [] }
      statements = some s) :
    s.ledger.names.Perm (rebuildNameIndex segment { s.ledger with names := [] }).names ∧
      Along (proceed segment project) (OwesBackfill segment project)
        { ledger := Store.empty, opened := [] } statements := by
  have hstart : InStep segment { ledger := Store.empty, opened := [] } := by
    refine ⟨named_empty segment, ?_⟩
    intro entry hentry
    cases hentry
  constructor
  · exact rebuilt_perm (runFrom_preservedWhen inStep_proceed hstart hclear hrun).named
  · apply along_of_preservedWhen inStep_proceed _ hstart hclear
    intro s statement h hallowed t hstep
    exact (proceed_steps h hallowed hstep).1.owes

def letters (name : String) : List String :=
  name.toList.map fun c => String.ofList [c]

def heldThenIngested : List Statement :=
  [Statement.write 1 (noted "ab" "held" false) SourceKind.manual none (drawnAt 10),
    Statement.write 2 (noted "ab" "section" true) SourceKind.file (some "/r") (drawnAt 20)]

theorem held_then_ingested_is_not_filed :
    exists s, RunFrom (proceed letters 0) { ledger := Store.empty, opened := [] }
        heldThenIngested = some s ∧
      s.opened = [] ∧
        ¬s.ledger.names.Perm (rebuildNameIndex letters { s.ledger with names := [] }).names := by
  have hruns : (RunFrom (proceed letters 0) { ledger := Store.empty, opened := [] }
      heldThenIngested).any (fun s => decide (s.opened.length = 0 ∧
        s.ledger.names.length = 0 ∧
          (rebuildNameIndex letters { s.ledger with names := [] }).names.length = 1)) =
        true := by
    decide +kernel
  rcases (Option.any_eq_true _ _).mp hruns with ⟨s, hrun, hlengths⟩
  rcases of_decide_eq_true hlengths with ⟨hopened, hnames, hrebuilt⟩
  refine ⟨s, hrun, List.eq_nil_of_length_eq_zero hopened, ?_⟩
  intro hperm
  have hlength := hperm.length_eq
  rw [hnames, hrebuilt] at hlength
  cases hlength

/--
A section, then a first write by hand that is held and overlaps another section; a topic made
by hand while a section of its name waits; a rename and a retirement.
-/
def overlappingWrites : List Statement :=
  [Statement.write 1 (noted "ab" "section" true) SourceKind.file (some "/r") (drawnAt 10),
    Statement.look 0 (noted "ab" "held" false) SourceKind.manual none,
    Statement.look 1 (noted "cd" "section" true) SourceKind.file (some "/r"),
    Statement.finish 0 2 (drawnAt 20),
    Statement.write 3 (noted "cd" "by hand" true) SourceKind.manual none (drawnAt 30),
    Statement.finish 1 4 (drawnAt 40),
    Statement.write 5 (noted "ef" "section" true) SourceKind.file (some "/r") (drawnAt 50),
    Statement.rename 6 ("ef", "gh") 50 60,
    Statement.retire 7 "gh" 50 (70, 71)]

theorem name_index_is_the_rebuilt_one_overlapping :
    exists s, RunFrom (proceed letters 0) { ledger := Store.empty, opened := [] }
        overlappingWrites = some s ∧
      s.ledger.names.Perm (rebuildNameIndex letters { s.ledger with names := [] }).names ∧
        Along (proceed letters 0) (OwesBackfill letters 0)
          { ledger := Store.empty, opened := [] } overlappingWrites := by
  have hruns : (RunFrom (proceed letters 0) { ledger := Store.empty, opened := [] }
      overlappingWrites).isSome = true := by
    decide +kernel
  rcases Option.isSome_iff_exists.mp hruns with ⟨s, hrun⟩
  have hclear : Along (proceed letters 0) (Clear letters)
      { ledger := Store.empty, opened := [] } overlappingWrites := by
    decide +kernel
  exact ⟨s, hrun, name_index_is_the_rebuilt_one hclear hrun⟩

end Runs

end Topics
end PaminMemory
