import PaminMemory.Cascade.Derive

/-!
# Every order of derive rounds

Whoever holds a topic's claim read what the topic says now, since a write takes
the claim away.  As long as the other rounds keep in order, what the holder found
and wrote stands until it completes, and what it leaves stands after that.
-/

namespace PaminMemory
namespace Cascade

open Foundation PaminMemory.Graph
open Topics (Current)

section Settling

variable {naming : String -> List TopicId} {project : ProjectId}

theorem mem_foundNow {contents : TopicId -> Option Current} {batch : List Jobs.Job}
    {memory : Found} (h : memory ∈ foundNow naming contents batch) :
    memory.named = namedBy naming contents memory.topic := by
  unfold foundNow at h
  rcases List.mem_filterMap.mp h with ⟨job, _, hjob⟩
  rcases Option.bind_eq_some_iff.mp hjob with ⟨topic, _, hfound⟩
  rcases Option.map_eq_some_iff.mp hfound with ⟨current, _, rfl⟩
  rfl

theorem found_of_job {contents : TopicId -> Option Current} {batch : List Jobs.Job}
    {job : Jobs.Job} {topic : TopicId} (hjob : job ∈ batch)
    (hwork : job.work = deriveWork project topic) (hstate : (contents topic).isSome) :
    topic ∈ (foundNow naming contents batch).map Found.topic := by
  rcases Option.isSome_iff_exists.mp hstate with ⟨current, hcurrent⟩
  apply List.mem_map.mpr
  refine ⟨{ topic := topic, state := current.state, named := namedBy naming contents topic },
    List.mem_filterMap.mpr ⟨job, hjob, ?_⟩, rfl⟩
  rw [hwork]
  simp [deriveWork, hcurrent]

/-!
## The round that holds the claim
-/

def Fresh (names : List TopicId) (topic : TopicId) (found : List Found) : Prop :=
  forall memory, memory ∈ found -> memory.topic = topic -> memory.named = names

/-- What the round that will settle a topic can count on, stage by stage. -/
def Standing (names : List TopicId) (ledger : Ledger) (topic : TopicId) : Stage -> Prop
  | Stage.idle => True
  | Stage.read found => Fresh names topic found
  | Stage.looked found read =>
      Fresh names topic found ∧
        (topic ∈ found.map Found.topic -> forall edge, Mentions topic edge ->
          edge.toTopic ∈ names -> read.derives edge = true -> ledger.derives edge = true)
  | Stage.asserted found =>
      Fresh names topic found ∧
        (topic ∈ found.map Found.topic -> forall edge, Mentions topic edge ->
          edge.toTopic ∈ names -> ledger.derives edge = true)
  | Stage.retracting found snapshot =>
      Fresh names topic found ∧
        (topic ∈ found.map Found.topic -> forall edge, Mentions topic edge ->
          (edge.toTopic ∈ names -> ledger.derives edge = true) ∧
            (edge.toTopic ∉ names -> forall version,
              version ∈ derivedIn (ledger.find edge) ->
                version ∈ derivedIn (snapshot.find edge)))

def Keeps (s : System) (drain : Drain) (job : Jobs.Job) (topic : TopicId) : Prop :=
  (job ∈ drain.done -> MentionsCurrent naming s topic) ∧
    Standing (namedBy naming s.contents topic) s.ledger topic drain.stage

variable (naming project)

structure Inv (s : System) : Prop where
  consistent : Jobs.Consistent s.outbox
  handed : Jobs.HandedOut s.outbox.history s.drains
  within : Jobs.Within s.drains
  written : forall topic id,
    Jobs.Event.enqueued (deriveWork project topic) id ∈ s.outbox.history ->
      (s.contents topic).isSome
  covered : forall entry, entry ∈ s.drains -> entry.2.stage ≠ Stage.idle ->
    forall job, job ∈ entry.2.batch -> forall topic, job.work = deriveWork project topic ->
      topic ∈ entry.2.stage.found.map Found.topic
  settled : forall topic, ¬ Jobs.Pending s.outbox.queue (deriveWork project topic) ->
    MentionsCurrent naming s topic
  holder : forall entry, entry ∈ s.drains -> forall job, job ∈ entry.2.jobs ->
    forall topic, job.work = deriveWork project topic ->
      Jobs.Holds s.outbox.queue entry.2.worker job ->
        @Keeps naming s entry.2 job topic

variable {naming project}

theorem inv_empty : Inv naming project System.empty where
  consistent := Jobs.consistent_empty
  handed := by simp [System.empty, Jobs.HandedOut]
  within := by simp [System.empty, Jobs.Within]
  written := by simp [System.empty, Jobs.Outbox.empty]
  covered := by simp [System.empty]
  settled := by
    intro topic _ edge _
    have hnone : namedBy naming System.empty.contents topic = [] := rfl
    rw [hnone]
    simp [System.empty, Ledger.derives, Ledger.find, derivedIn]
  holder := by simp [System.empty]

/-!
## What a ledger step may do to a topic
-/

structure Steady (names : List TopicId) (topic : TopicId) (before after : Ledger) : Prop where
  named : forall edge, Mentions topic edge -> edge.toTopic ∈ names ->
    before.derives edge = true -> after.derives edge = true
  others : forall edge, Mentions topic edge -> edge.toTopic ∉ names -> forall version,
    version ∈ derivedIn (after.find edge) -> version ∈ derivedIn (before.find edge)

theorem standing_steady {names : List TopicId} {topic : TopicId} {before after : Ledger}
    {stage : Stage} (hsteady : Steady names topic before after)
    (h : Standing names before topic stage) : Standing names after topic stage := by
  cases stage with
  | idle => exact h
  | read found => exact h
  | looked found read =>
      refine ⟨h.1, ?_⟩
      intro hfound edge hedge hname hread
      exact hsteady.named edge hedge hname (h.2 hfound edge hedge hname hread)
  | asserted found =>
      refine ⟨h.1, ?_⟩
      intro hfound edge hedge hname
      exact hsteady.named edge hedge hname (h.2 hfound edge hedge hname)
  | retracting found snapshot =>
      refine ⟨h.1, ?_⟩
      intro hfound edge hedge
      constructor
      · intro hname
        exact hsteady.named edge hedge hname ((h.2 hfound edge hedge).1 hname)
      · intro hname version hversion
        exact (h.2 hfound edge hedge).2 hname version
          (hsteady.others edge hedge hname version hversion)

theorem current_steady {s t : System} {topic : TopicId} (hcontents : t.contents = s.contents)
    (hsteady : Steady (namedBy naming s.contents topic) topic s.ledger t.ledger)
    (h : MentionsCurrent naming s topic) : MentionsCurrent naming t topic := by
  intro edge hedge
  rw [hcontents]
  constructor
  · intro hderives
    by_contra hname
    rcases derives_iff.mp hderives with ⟨version, hversion⟩
    have hbefore := hsteady.others edge hedge hname version hversion
    exact hname ((h edge hedge).mp (derives_iff.mpr ⟨version, hbefore⟩))
  · intro hname
    exact hsteady.named edge hedge hname ((h edge hedge).mpr hname)

theorem keeps_steady {s t : System} {drain : Drain} {job : Jobs.Job} {topic : TopicId}
    (hcontents : t.contents = s.contents)
    (hsteady : Steady (namedBy naming s.contents topic) topic s.ledger t.ledger)
    (h : @Keeps naming s drain job topic) : @Keeps naming t drain job topic := by
  refine ⟨fun hdone => current_steady hcontents hsteady (h.1 hdone), ?_⟩
  rw [hcontents]
  exact standing_steady hsteady h.2

theorem steady_asserted {drawn : Nat -> RelationshipId × RelationshipVersionId}
    {found : List Found} {read ledger final : Ledger} {names : List TopicId}
    {topic : TopicId} (h : AssertsDerived (asks drawn (claims found)) read ledger final)
    (hnames : forall memory, memory ∈ found -> memory.topic = topic ->
      memory.named ⊆ names) : Steady names topic ledger final where
  named := fun edge _ _ hderives => h.keeps edge hderives
  others := by
    intro edge hedge hname version hversion
    rw [find_asserted_other h hedge] at hversion
    · exact hversion
    · intro memory hmem hsame hother
      exact hname (hnames memory hmem hsame hother)

theorem steady_retracted {found : List Found} {snapshot ledger : Ledger} {now : Instant}
    {names : List TopicId} {topic : TopicId}
    (hnames : forall memory, memory ∈ found -> memory.topic = topic ->
      names ⊆ memory.named) :
    Steady names topic ledger
      (ledger.map (closeSeen snapshot
        (Closing.derived now EdgeKind.mentions (keeping found)))) where
  named := by
    intro edge hedge hname hderives
    rw [derives_congr (find_retracted hedge _)]
    · exact hderives
    · intro hfound
      rcases List.mem_map.mp hfound with ⟨memory, hmem, hsame⟩
      exact ⟨memory, hmem, hsame, hnames memory hmem hsame hname⟩
  others := by
    intro edge _ _ version hversion
    exact derivedIn_closeSeen hversion

theorem standing_grown {names : List TopicId} {topic : TopicId} {before after : Ledger}
    {drain : Drain} {job : Jobs.Job}
    (hgrown : forall edge, before.derives edge = true -> after.derives edge = true)
    (hnot : ¬ drain.Retracted job topic) (h : Standing names before topic drain.stage) :
    Standing names after topic drain.stage := by
  unfold Drain.Retracted at hnot
  cases hstage : drain.stage with
  | idle => exact True.intro
  | read found =>
      rw [hstage] at h
      exact h
  | looked found read =>
      rw [hstage] at h
      refine ⟨h.1, ?_⟩
      intro hfound edge hedge hname hread
      exact hgrown edge (h.2 hfound edge hedge hname hread)
  | asserted found =>
      rw [hstage] at h
      refine ⟨h.1, ?_⟩
      intro hfound edge hedge hname
      exact hgrown edge (h.2 hfound edge hedge hname)
  | retracting found snapshot =>
      rw [hstage] at h hnot
      refine ⟨h.1, ?_⟩
      intro hfound
      exact absurd (Or.inr hfound) hnot

theorem standing_unlooked {names : List TopicId} {topic : TopicId} {before after : Ledger}
    {drain : Drain} {job : Jobs.Job} (hnot : ¬ drain.Looked job topic)
    (h : Standing names before topic drain.stage) :
    Standing names after topic drain.stage := by
  unfold Drain.Looked at hnot
  cases hstage : drain.stage with
  | idle => exact True.intro
  | read found =>
      rw [hstage] at h
      exact h
  | looked found read =>
      rw [hstage] at h hnot
      exact ⟨h.1, fun hfound => absurd (Or.inr hfound) hnot⟩
  | asserted found =>
      rw [hstage] at h hnot
      exact ⟨h.1, fun hfound => absurd (Or.inr hfound) hnot⟩
  | retracting found snapshot =>
      rw [hstage] at h hnot
      exact ⟨h.1, fun hfound => absurd (Or.inr hfound) hnot⟩

/-!
## Steps of the queue
-/

theorem inv_queue {s : System} {statement : Jobs.Statement} {outbox : Jobs.Outbox}
    {drains : List (Nat × Drain)} (h : Inv naming project s)
    (hstep : Jobs.step s.outbox statement = some outbox) (hdrains : drains ⊆ s.drains)
    (hasks : forall topic, ¬ Jobs.Requests (deriveWork project topic) statement)
    (hdone : forall worker jobs, statement = Jobs.Statement.complete worker jobs ->
      exists entry, entry ∈ s.drains ∧ entry.2.worker = worker ∧ entry.2.done = jobs) :
    Inv naming project { s with outbox := outbox, drains := drains } where
  consistent := Jobs.consistent_step _ _ _ h.consistent hstep
  handed := by
    intro entry hmem job hjob
    exact Jobs.history_step hstep (h.handed entry (hdrains hmem) job hjob)
  within := fun entry hmem => h.within entry (hdrains hmem)
  written := by
    intro topic id hevent
    rcases Jobs.enqueued_step hstep hevent with hold | hnew
    · exact h.written topic id hold
    · exact absurd hnew (hasks topic)
  covered := fun entry hmem => h.covered entry (hdrains hmem)
  settled := by
    intro topic hnot
    by_cases hpending : Jobs.Pending s.outbox.queue (deriveWork project topic)
    · rcases Jobs.pending_step h.consistent hpending hstep with hstill | hcompleted
      · exact absurd hstill hnot
      · rcases hcompleted with ⟨worker, jobs, job, hstatement, hjob, hwork, hholds⟩
        rcases hdone worker jobs hstatement with ⟨entry, hmem, rfl, rfl⟩
        have hmine := (h.within entry hmem).1 hjob
        exact (h.holder entry hmem job hmine topic hwork hholds).1 hjob
    · exact h.settled topic hpending
  holder := by
    intro entry hmem job hjob topic hwork hholds
    have hhanded := h.handed entry (hdrains hmem) job hjob
    have hbefore := (Jobs.holds_step h.consistent hhanded hstep hholds).1
    exact h.holder entry (hdrains hmem) job hjob topic hwork hbefore

theorem inv_join {s : System} {id : Nat} {worker : String} {jobs : List Jobs.Job}
    (h : Inv naming project s)
    (hhanded : forall job, job ∈ jobs ->
      Jobs.Event.claimed worker job ∈ s.outbox.history) :
    Inv naming project
      { s with
        drains := s.drains ++
          [(id, { worker, jobs, batch := [], stage := Stage.idle, done := [] })] } := by
  constructor
  case consistent => exact h.consistent
  case handed => exact forall_joined h.handed hhanded
  case within => exact forall_joined h.within ⟨List.nil_subset _, List.nil_subset _⟩
  case written => exact h.written
  case covered => exact forall_joined h.covered fun hstage => absurd rfl hstage
  case settled => exact h.settled
  case holder =>
    apply forall_joined h.holder
    intro job _ topic _ _
    constructor
    · intro hdone
      cases hdone
    · exact True.intro

theorem inv_claim {s t : System} {id : Nat} {now : Instant} {worker : String} {batch : Nat}
    {kinds : List Jobs.JobKind} {locked : List IndexJobId} (h : Inv naming project s)
    (hstep : s.claim project id now worker batch kinds locked = some t) :
    Inv naming project t := by
  unfold System.claim System.settle at hstep
  split at hstep
  · cases hstep
  · split at hstep
    · cases hstep
    · next outbox hclaim =>
        cases hstep
        have hqueue := inv_queue h hclaim (List.Subset.refl s.drains) (fun _ hasks => hasks)
          (fun _ _ heq => by cases heq)
        apply inv_join hqueue
        intro job hjob
        simp only [Jobs.step, Option.ite_none_right_eq_some, Option.some.injEq] at hclaim
        rcases hclaim with ⟨_, rfl⟩
        exact List.mem_append_right _ (List.mem_map_of_mem hjob)

theorem inv_write {s t : System} {now : Instant} {topic : TopicId} {current : Current}
    {drawn : Topics.Drawn} (h : Inv naming project s)
    (hstep : s.write project now topic current drawn = some t) : Inv naming project t := by
  unfold System.write at hstep
  split at hstep
  · cases hstep
  · next outbox henqueue =>
      cases hstep
      have howed : Jobs.Requests (deriveWork project topic)
          (Jobs.Statement.enqueue now project (some topic)
            (Topics.owedBy Topics.SourceKind.manual (s.contents topic).isSome drawn)) := by
        refine ⟨(drawn.derive, Jobs.JobKind.deriveMentions), ?_, rfl⟩
        unfold Topics.owedBy
        simp only
        split
        · simp
        · simp
      have hother : forall other, other ≠ topic ->
          Function.update s.contents topic (some current) other = s.contents other :=
        fun other hne => Function.update_of_ne hne _ _
      have hnames : forall other, other ≠ topic ->
          namedBy naming (Function.update s.contents topic (some current)) other =
            namedBy naming s.contents other := by
        intro other hne
        unfold namedBy
        rw [hother other hne]
      constructor
      case consistent => exact Jobs.consistent_step _ _ _ h.consistent henqueue
      case handed =>
        intro entry hmem job hjob
        exact Jobs.history_step henqueue (h.handed entry hmem job hjob)
      case within => exact h.within
      case written =>
        intro other id hevent
        show (Function.update s.contents topic (some current) other).isSome
        by_cases hsame : other = topic
        · rw [hsame, Function.update_self]
          rfl
        · rw [hother other hsame]
          rcases Jobs.enqueued_step henqueue hevent with hold | ⟨kind, _, hwork⟩
          · exact h.written other id hold
          · exact absurd (Option.some.inj (congrArg Jobs.Work.subject hwork)) hsame
      case covered => exact h.covered
      case settled =>
        intro other hnot edge hedge
        by_cases hsame : other = topic
        · apply absurd _ hnot
          rw [hsame]
          rcases howed with ⟨kind, hkind, hwork⟩
          simp only [Jobs.step, Option.ite_none_right_eq_some, Option.some.injEq] at henqueue
          rcases henqueue with ⟨_, rfl⟩
          rw [hwork]
          exact Jobs.pending_requested hkind _
        · show s.ledger.derives edge = true <-> _
          rw [hnames other hsame]
          apply h.settled other _ edge hedge
          intro hpending
          rcases Jobs.pending_step h.consistent hpending henqueue with hstill | hcompleted
          · exact hnot hstill
          · rcases hcompleted with ⟨_, _, _, heq, _⟩
            cases heq
      case holder =>
        intro entry hmem job hjob other hwork hholds
        rcases Jobs.holds_step h.consistent (h.handed entry hmem job hjob) henqueue hholds with
          ⟨hbefore, hnot⟩
        have hsame : other ≠ topic := by
          intro heq
          rw [hwork, heq] at hnot
          exact hnot howed
        rcases h.holder entry hmem job hjob other hwork hbefore with ⟨hdone, hstanding⟩
        constructor
        · intro hmine edge hedge
          show s.ledger.derives edge = true <-> _
          rw [hnames other hsame]
          exact hdone hmine edge hedge
        · show Standing (namedBy naming _ other) s.ledger other entry.2.stage
          rw [hnames other hsame]
          exact hstanding

/-!
## Steps of a round
-/

theorem inv_moved {s : System} {id : Nat} {drain : Drain} {batch done : List Jobs.Job}
    {stage : Stage} {ledger : Ledger} (h : Inv naming project s)
    (hdrain : partyOf s.drains id = some drain) (hdone : done ⊆ drain.jobs)
    (hbatch : batch ⊆ drain.jobs)
    (hcovered : stage ≠ Stage.idle -> forall job, job ∈ batch -> forall topic,
      job.work = deriveWork project topic -> topic ∈ stage.found.map Found.topic)
    (hsettled : forall topic, ¬ Jobs.Pending s.outbox.queue (deriveWork project topic) ->
      MentionsCurrent naming s topic ->
        MentionsCurrent naming { s with ledger := ledger } topic)
    (hothers : forall entry, entry ∈ s.drains -> forall job, job ∈ entry.2.jobs ->
      forall topic, job.work = deriveWork project topic ->
        Jobs.Holds s.outbox.queue entry.2.worker job -> @Keeps naming s entry.2 job topic ->
          @Keeps naming { s with ledger := ledger } entry.2 job topic)
    (hmine : forall job, job ∈ drain.jobs -> forall topic,
      job.work = deriveWork project topic -> @Keeps naming s drain job topic ->
        @Keeps naming { s with ledger := ledger }
          { drain with batch := batch, stage := stage, done := done } job topic) :
    Inv naming project
      { s with
        ledger := ledger
        drains := setParty id { drain with batch := batch, stage := stage, done := done }
          s.drains } := by
  have hmem := mem_of_partyOf hdrain
  constructor
  case consistent => exact h.consistent
  case handed => exact forall_moved h.handed (h.handed (id, drain) hmem)
  case within => exact forall_moved h.within ⟨hdone, hbatch⟩
  case written => exact h.written
  case covered => exact forall_moved h.covered hcovered
  case settled =>
    intro topic hnot
    exact hsettled topic hnot (h.settled topic hnot)
  case holder =>
    apply forall_moved
    · intro entry hold job hjob topic hwork hholds
      exact hothers entry hold job hjob topic hwork hholds
        (h.holder entry hold job hjob topic hwork hholds)
    · intro job hjob topic hwork hholds
      exact hmine job hjob topic hwork (h.holder (id, drain) hmem job hjob topic hwork hholds)

theorem inv_stage {s : System} {id : Nat} {drain : Drain} {batch : List Jobs.Job}
    {stage : Stage} (h : Inv naming project s) (hdrain : partyOf s.drains id = some drain)
    (hbatch : batch ⊆ drain.jobs)
    (hcovered : stage ≠ Stage.idle -> forall job, job ∈ batch -> forall topic,
      job.work = deriveWork project topic -> topic ∈ stage.found.map Found.topic)
    (hstanding : forall topic,
      Standing (namedBy naming s.contents topic) s.ledger topic drain.stage ->
        Standing (namedBy naming s.contents topic) s.ledger topic stage) :
    Inv naming project (s.moved id { drain with batch := batch, stage := stage }) := by
  have hdone := (h.within (id, drain) (mem_of_partyOf hdrain)).1
  apply inv_moved h hdrain hdone hbatch hcovered
  · exact fun _ _ hcurrent => hcurrent
  · exact fun _ _ _ _ _ _ _ hkeeps => hkeeps
  · exact fun job _ topic _ hkeeps => ⟨hkeeps.1, hstanding topic hkeeps.2⟩

theorem inv_read {s t : System} {id : Nat} {batch : List Jobs.Job}
    (h : Inv naming project s)
    (hstep : step naming project s (Action.read id batch) = some t) :
    Inv naming project t := by
  simp only [step] at hstep
  split at hstep
  · cases hstep
  · next drain hdrain =>
      split at hstep
      · next hallowed =>
          cases hstep
          apply inv_stage h hdrain hallowed.2.1
          · intro _ job hjob topic hwork
            have hclaimed := h.handed _ (mem_of_partyOf hdrain) job (hallowed.2.1 hjob)
            have hasked := h.consistent.claimsRequested _ job hclaimed
            rw [hwork] at hasked
            exact found_of_job hjob hwork (h.written topic job.id hasked)
          · intro topic _ memory hmemory hsame
            rw [mem_foundNow hmemory, hsame]
      · cases hstep

theorem inv_look {s t : System} {id : Nat} (h : Inv naming project s)
    (hstep : step naming project s (Action.look id) = some t) : Inv naming project t := by
  simp only [step] at hstep
  split at hstep
  · next worker jobs batch found done hdrain =>
      cases hstep
      have hmem := mem_of_partyOf hdrain
      apply inv_stage h hdrain (h.within _ hmem).2
      · exact fun _ => h.covered _ hmem Stage.noConfusion
      · exact fun topic hstanding => ⟨hstanding, fun _ _ _ _ hread => hread⟩
  · cases hstep

theorem inv_retract {s t : System} {id : Nat} (h : Inv naming project s)
    (hstep : step naming project s (Action.retract id) = some t) : Inv naming project t := by
  simp only [step] at hstep
  split at hstep
  · next worker jobs batch found done hdrain =>
      cases hstep
      have hmem := mem_of_partyOf hdrain
      apply inv_stage h hdrain (h.within _ hmem).2
      · exact fun _ => h.covered _ hmem Stage.noConfusion
      · intro topic hstanding
        refine ⟨hstanding.1, ?_⟩
        intro hfound edge hedge
        exact ⟨hstanding.2 hfound edge hedge, fun _ _ hversion => hversion⟩
  · cases hstep

theorem inv_stop {s t : System} {id : Nat} (h : Inv naming project s)
    (hstep : step naming project s (Action.stop id) = some t) : Inv naming project t := by
  simp only [step] at hstep
  split at hstep
  · cases hstep
  · next drain hdrain =>
      cases hstep
      apply inv_stage h hdrain (List.nil_subset _)
      · exact fun hstage => absurd rfl hstage
      · exact fun _ _ => True.intro

theorem inv_assert {s t : System} {id : Nat} {clock : Nat -> Instant}
    {drawn : Nat -> RelationshipId × RelationshipVersionId} (h : Inv naming project s)
    (horder : InOrder naming project s (Action.assert id clock drawn))
    (hstep : step naming project s (Action.assert id clock drawn) = some t) :
    Inv naming project t := by
  simp only [step] at hstep
  split at hstep
  · next worker jobs batch found read done hdrain =>
      have hmem := mem_of_partyOf hdrain
      split at hstep
      · cases hstep
      · next final answers hafter =>
          cases hstep
          have hasserts := assertAfter_derived (allDerived_asks drawn (claims found)) hafter
          have hfound := horder _ hmem rfl
          have hcases : forall topic,
              Steady (namedBy naming s.contents topic) topic s.ledger final ∨
                OwedBefore project Drain.Retracted s topic := by
            intro topic
            by_cases hnames : forall memory, memory ∈ found -> memory.topic = topic ->
                memory.named ⊆ namedBy naming s.contents topic
            · exact Or.inl (steady_asserted hasserts hnames)
            · apply Or.inr
              by_contra hnot
              apply hnames
              intro memory hmemory hsame
              rcases hfound memory hmemory with hwithin | howed
              · rwa [hsame] at hwithin
              · rw [hsame] at howed
                exact absurd howed hnot
          apply inv_moved h hdrain (h.within _ hmem).1 (h.within _ hmem).2
          · exact fun _ => h.covered _ hmem Stage.noConfusion
          · intro topic hnot hcurrent
            rcases hcases topic with hsteady | howed
            · exact @current_steady naming s { s with ledger := final } topic rfl hsteady hcurrent
            · exact absurd howed.1 hnot
          · intro entry hentry job hjob topic hwork hholds hkeeps
            rcases hcases topic with hsteady | howed
            · exact @keeps_steady naming s { s with ledger := final } _ _ _ rfl hsteady hkeeps
            · have hbefore := howed.2 entry hentry job hjob hwork hholds
              refine ⟨fun hdone => absurd (Or.inl hdone) hbefore, ?_⟩
              exact standing_grown hasserts.keeps hbefore hkeeps.2
          · rintro job _ topic _ ⟨hdone, hfresh, hread⟩
            have hsteady : Steady (namedBy naming s.contents topic) topic s.ledger final := by
              apply steady_asserted hasserts
              intro memory hmemory hsame
              rw [hfresh memory hmemory hsame]
              exact List.Subset.refl _
            refine ⟨fun hmine => @current_steady naming s { s with ledger := final } topic rfl
              hsteady (hdone hmine), hfresh, ?_⟩
            intro htopic edge hedge hname
            rcases List.mem_map.mp htopic with ⟨memory, hmemory, rfl⟩
            have hnamed : edge.toTopic ∈ memory.named := by
              rw [hfresh memory hmemory rfl]
              exact hname
            exact derives_asserted hasserts hmemory hedge hnamed
              (hread htopic edge hedge hname)
  · cases hstep

theorem inv_close {s t : System} {id : Nat} {now : Instant} (h : Inv naming project s)
    (horder : InOrder naming project s (Action.close id now))
    (hstep : step naming project s (Action.close id now) = some t) :
    Inv naming project t := by
  simp only [step] at hstep
  split at hstep
  · next worker jobs batch found snapshot done hdrain =>
      have hmem := mem_of_partyOf hdrain
      cases hstep
      let final : Ledger := s.ledger.map (closeSeen snapshot
        (Closing.derived now EdgeKind.mentions (keeping found)))
      have hfound := horder _ hmem rfl
      have hcases : forall topic,
          Steady (namedBy naming s.contents topic) topic s.ledger final ∨
            OwedBefore project Drain.Looked s topic := by
        intro topic
        by_cases hnames : forall memory, memory ∈ found -> memory.topic = topic ->
            namedBy naming s.contents topic ⊆ memory.named
        · exact Or.inl (steady_retracted hnames)
        · apply Or.inr
          by_contra hnot
          apply hnames
          intro memory hmemory hsame
          rcases hfound memory hmemory with hwithin | howed
          · rwa [hsame] at hwithin
          · rw [hsame] at howed
            exact absurd howed hnot
      apply inv_moved h hdrain
      · exact List.append_subset.mpr (h.within _ hmem)
      · exact List.nil_subset _
      · exact fun hstage => absurd rfl hstage
      · intro topic hnot hcurrent
        rcases hcases topic with hsteady | howed
        · exact @current_steady naming s { s with ledger := final } topic rfl hsteady hcurrent
        · exact absurd howed.1 hnot
      · intro entry hentry job hjob topic hwork hholds hkeeps
        rcases hcases topic with hsteady | howed
        · exact @keeps_steady naming s { s with ledger := final } _ _ _ rfl hsteady hkeeps
        · have hbefore := howed.2 entry hentry job hjob hwork hholds
          refine ⟨fun hdone => absurd (Or.inl hdone) hbefore, ?_⟩
          exact standing_unlooked hbefore hkeeps.2
      · rintro job _ topic hwork ⟨hdone, hfresh, hstanding⟩
        refine ⟨?_, True.intro⟩
        intro hmine
        have hsteady : Steady (namedBy naming s.contents topic) topic s.ledger final := by
          apply steady_retracted
          intro memory hmemory hsame
          rw [hfresh memory hmemory hsame]
          exact List.Subset.refl _
        rcases List.mem_append.mp hmine with hearlier | hnow
        · exact @current_steady naming s { s with ledger := final } topic rfl hsteady
            (hdone hearlier)
        · have htopic := h.covered _ hmem Stage.noConfusion job hnow topic hwork
          intro edge hedge
          show final.derives edge = true <-> edge.toTopic ∈ namedBy naming s.contents topic
          by_cases hname : edge.toTopic ∈ namedBy naming s.contents topic
          · have hderives := (hstanding htopic edge hedge).1 hname
            exact ⟨fun _ => hname, fun _ => hsteady.named edge hedge hname hderives⟩
          · have hgone : final.derives edge = false := by
              apply not_derives_closeSeen
              · apply (retracts_keeping hedge).mpr
                refine ⟨htopic, ?_⟩
                intro memory hmemory hsame
                rw [hfresh memory hmemory hsame]
                exact hname
              · intro version hversion
                exact seen_of_snapshot ((hstanding htopic edge hedge).2 hname version hversion)
            rw [hgone]
            exact ⟨fun hfalse => Bool.noConfusion hfalse, fun hin => absurd hin hname⟩
  · cases hstep

theorem inv_step : PreservedWhen (step naming project) (InOrder naming project)
    (Inv naming project) := by
  intro s action t h horder hstep
  cases action with
  | write now topic current drawn => exact inv_write h hstep
  | claim id now worker batch kinds locked => exact inv_claim h hstep
  | read id batch => exact inv_read h hstep
  | look id => exact inv_look h hstep
  | assert id clock drawn => exact inv_assert h horder hstep
  | retract id => exact inv_retract h hstep
  | close id now => exact inv_close h horder hstep
  | complete id =>
      simp only [step, System.settle] at hstep
      split at hstep
      · cases hstep
      · next drain hdrain =>
          split at hstep
          · cases hstep
          · next outbox hcompletes =>
              cases hstep
              apply inv_queue h hcompletes
              · exact fun entry hmem => mem_dropParty hmem
              · exact fun _ hasks => hasks
              · intro worker jobs heq
                cases heq
                exact ⟨(id, drain), mem_of_partyOf hdrain, rfl, rfl⟩
  | fail id now job error =>
      simp only [step, System.settle] at hstep
      split at hstep
      · cases hstep
      · split at hstep
        · split at hstep
          · cases hstep
          · next outbox hfails =>
              cases hstep
              exact inv_queue h hfails (List.Subset.refl _) (fun _ hasks => hasks)
                (fun _ _ heq => by cases heq)
        · cases hstep
  | stop id => exact inv_stop h hstep
  | die id =>
      cases hstep
      exact
        { consistent := h.consistent
          handed := fun entry hmem => h.handed entry (mem_dropParty hmem)
          within := fun entry hmem => h.within entry (mem_dropParty hmem)
          written := h.written
          covered := fun entry hmem => h.covered entry (mem_dropParty hmem)
          settled := h.settled
          holder := fun entry hmem => h.holder entry (mem_dropParty hmem) }
  | replay now =>
      simp only [step, System.settle] at hstep
      split at hstep
      · cases hstep
      · next outbox hreplays =>
          cases hstep
          exact inv_queue h hreplays (List.Subset.refl _) (fun _ hasks => hasks)
            (fun _ _ heq => by cases heq)

/--
Where the rounds keep in order, a topic with nothing owed and no round under way
mentions exactly what its current content names.
-/
theorem mentions_converge {actions : List Action} {s : System}
    (hrun : RunFrom (step naming project) System.empty actions = some s)
    (horder : Along (step naming project) (InOrder naming project) System.empty actions)
    (topic : TopicId) (hquiet : Quiet project s topic) : MentionsCurrent naming s topic :=
  (runFrom_preservedWhen inv_step inv_empty horder hrun).settled topic hquiet.1

end Settling

section Crossing

def namesSix (content : String) : List TopicId := if content = "six" then [6] else []

def drawnAt (n : Nat) : Topics.Drawn :=
  { source := n, version := n, span := n, topic := n, state := n, sync := n, derive := n + 1
    backfill := n + 2 }

def claimOf (id : Nat) (now : Instant) : Action :=
  Action.claim id now "host:1" 8 [Jobs.JobKind.deriveMentions] []

def jobAt (claimed : Instant) : Jobs.Job :=
  { id := 11, work := deriveWork 0 5, attempts := 1, claimedAt := some claimed }

def assertOf (id : Nat) (now : Instant) : Action :=
  Action.assert id (fun _ => now) (fun n => (100 * id + n, 100 * id + n))

def opening : List Action :=
  [Action.write 0 5 { state := 1, content := "six" } (drawnAt 10), claimOf 0 1,
    Action.read 0 [jobAt 1], Action.write 2 5 { state := 2, content := "none" } (drawnAt 20),
    claimOf 1 3, Action.read 1 [jobAt 3]]

def restating (id : Nat) (now : Instant) : List Action :=
  [Action.look id, assertOf id now, Action.retract id, Action.close id now]

def overtaken : List Action :=
  opening ++ restating 0 4 ++ restating 1 6 ++ [Action.complete 1, Action.complete 0]

def late : List Action :=
  opening ++ restating 1 4 ++ [Action.complete 1] ++ restating 0 6 ++ [Action.complete 0]

theorem mentions_converge_overtaken :
    exists s, RunFrom (step namesSix 0) System.empty overtaken = some s ∧
      MentionsCurrent namesSix s 5 := by
  have hquiet : (RunFrom (step namesSix 0) System.empty overtaken).any
      (fun s => decide (Quiet 0 s 5)) = true := by decide
  rcases (Option.any_eq_true _ _).mp hquiet with ⟨s, hrun, hends⟩
  refine ⟨s, hrun, ?_⟩
  exact mentions_converge hrun (by decide) 5 (of_decide_eq_true hends)

theorem late_round_parts :
    exists s, RunFrom (step namesSix 0) System.empty late = some s ∧ Quiet 0 s 5 ∧
      ¬ MentionsCurrent namesSix s 5 := by
  let edge : Edge :=
    { fromTopic := 5, toTopic := 6, kind := EdgeKind.mentions, distinct := by decide }
  have hends : (RunFrom (step namesSix 0) System.empty late).any
      (fun s => decide (Quiet 0 s 5 ∧ s.ledger.derives edge = true ∧
        namedBy namesSix s.contents 5 = [])) = true := by decide
  rcases (Option.any_eq_true _ _).mp hends with ⟨s, hrun, hlast⟩
  rcases of_decide_eq_true hlast with ⟨hquiet, hderives, hnamed⟩
  refine ⟨s, hrun, hquiet, ?_⟩
  intro hcurrent
  have hin := (hcurrent edge ⟨rfl, rfl⟩).mp hderives
  rw [hnamed] at hin
  cases hin

end Crossing

end Cascade
end PaminMemory
