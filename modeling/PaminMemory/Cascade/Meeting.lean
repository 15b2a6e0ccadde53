import PaminMemory.Cascade.Linking
import PaminMemory.Cascade.Settling

/-!
# Every order of rounds that find mentions

A mention that is named now is there, or one of the two rounds that can find it is
still to assert it.  A write starts the memory's own round again, a new topic starts
a backfill, and what a round in order does to a pair leaves one of the three true.
-/

namespace PaminMemory
namespace Linking

open Foundation PaminMemory.Graph
open Topics (Current Memories currentStatesOf)
open Cascade (Found Mentions namedNow mention claims asks keeping deriveWork)

section Meeting

variable {naming : String -> List TopicId} {width : TopicId -> Nat} {project : ProjectId}

/-!
## Names and edges
-/

theorem mem_named {memories : Memories} {memory other : TopicId} :
    other ∈ named naming memories memory <->
      exists current, memories.lookup memory = some current ∧
        other ∈ naming current.content ∧ other ∈ memories ∧ other ≠ memory := by
  unfold named
  cases hlookup : memories.lookup memory with
  | none => simp
  | some current => simp [Cascade.mem_namedNow, and_assoc]

theorem named_insert {memories : Memories} {memory topic : TopicId} {current : Current}
    (h : memory ≠ topic) :
    named naming memories memory ⊆ named naming (memories.insert topic current) memory := by
  intro other hother
  rcases mem_named.mp hother with ⟨said, hlookup, hnames, hthere, hne⟩
  apply mem_named.mpr
  refine ⟨said, ?_, hnames, (AList.mem_insert _).mpr (Or.inr hthere), hne⟩
  rw [AList.lookup_insert_ne h]
  exact hlookup

theorem named_of_insert {memories : Memories} {memory topic other : TopicId}
    {current : Current} (h : memory ≠ topic) (hthere : other ∈ memories)
    (hother : other ∈ named naming (memories.insert topic current) memory) :
    other ∈ named naming memories memory := by
  rcases mem_named.mp hother with ⟨said, hlookup, hnames, _, hne⟩
  rw [AList.lookup_insert_ne h] at hlookup
  exact mem_named.mpr ⟨said, hlookup, hnames, hthere, hne⟩

theorem linked_iff {ledger : Ledger} {memory other : TopicId} :
    Linked ledger memory other = true <->
      exists edge, Mentions memory edge ∧ edge.toTopic = other ∧
        ledger.derives edge = true := by
  unfold Linked
  rw [Option.any_eq_true]
  constructor
  · rintro ⟨edge, hmention, hderives⟩
    rcases Cascade.mention_edge hmention with ⟨hedge, hto⟩
    exact ⟨edge, hedge, hto, hderives⟩
  · rintro ⟨edge, hedge, rfl, hderives⟩
    exact ⟨edge, Cascade.mention_of_edge hedge, hderives⟩

theorem linked_of_find {before after : Ledger} {memory other : TopicId}
    (h : forall edge, Mentions memory edge -> edge.toTopic = other ->
      before.derives edge = true -> after.derives edge = true)
    (hlinked : Linked before memory other = true) : Linked after memory other = true := by
  rcases linked_iff.mp hlinked with ⟨edge, hedge, hto, hderives⟩
  exact linked_iff.mpr ⟨edge, hedge, hto, h edge hedge hto hderives⟩

theorem exists_mention {memory other : TopicId} (h : other ≠ memory) :
    exists edge, Mentions memory edge ∧ edge.toTopic = other :=
  ⟨{ fromTopic := memory, toTopic := other, kind := EdgeKind.mentions, distinct := h.symm },
    ⟨rfl, rfl⟩, rfl⟩

theorem le_foldr_max {topics : List TopicId} {topic : TopicId} (h : topic ∈ topics) :
    width topic <= topics.foldr (fun other widest => max (width other) widest) 0 := by
  induction topics with
  | nil => cases h
  | cons first rest ih =>
      rcases List.mem_cons.mp h with rfl | hrest
      · exact Nat.le_max_left _ _
      · exact Nat.le_trans (ih hrest) (Nat.le_max_right _ _)

theorem width_le_widest {memories : Memories} {topic : TopicId} (h : topic ∈ memories) :
    width topic <= widestTopicName width memories :=
  le_foldr_max (AList.mem_keys.mp h)

/-!
## The round that restates a memory
-/

def FreshStates (memories : Memories) (memory : TopicId) (states : List (TopicId × Current)) :
    Prop :=
  memory ∈ states.map Prod.fst ∧
    forall entry, entry ∈ states -> entry.1 = memory ->
      memories.lookup memory = some entry.2

/-- Nothing was found of a memory but what it names now. -/
def Covers (names : List TopicId) (memory : TopicId) (links : List Found) : Prop :=
  memory ∈ links.map Found.topic ∧
    forall link, link ∈ links -> link.topic = memory -> link.named ⊆ names

variable (naming) in
def Fresh (memories : Memories) (ledger : Ledger) (memory : TopicId) : Stage -> Prop
  | Stage.read states => FreshStates memories memory states
  | Stage.measured states _ => FreshStates memories memory states
  | Stage.found Pass.restate links => Covers (named naming memories memory) memory links
  | Stage.looked Pass.restate links _ => Covers (named naming memories memory) memory links
  | Stage.asserted links => Covers (named naming memories memory) memory links
  | Stage.retracting links snapshot =>
      Covers (named naming memories memory) memory links ∧
        forall edge, Mentions memory edge ->
          edge.toTopic ∉ named naming memories memory ->
            forall version, version ∈ derivedIn (ledger.find edge) ->
              version ∈ derivedIn (snapshot.find edge)
  | _ => True

variable (naming) in
def NoStray (memories : Memories) (ledger : Ledger) (memory : TopicId) : Prop :=
  forall edge, Mentions memory edge -> ledger.derives edge = true ->
    edge.toTopic ∈ named naming memories memory

variable (naming) in
def Restates (memories : Memories) (ledger : Ledger) (drain : Drain) (job : Jobs.Job)
    (memory : TopicId) : Prop :=
  (job ∈ drain.done -> NoStray naming memories ledger memory) ∧
    (job ∈ drain.batch -> Fresh naming memories ledger memory drain.stage)

def Stage.kind : Stage -> Option Jobs.JobKind
  | idle => none
  | syncing _ _ => some Jobs.JobKind.syncTopicIndex
  | probed _ => some Jobs.JobKind.backfillMentions
  | found Pass.link _ => some Jobs.JobKind.backfillMentions
  | looked Pass.link _ _ => some Jobs.JobKind.backfillMentions
  | _ => some Jobs.JobKind.deriveMentions

variable (naming width project)

structure Inv (s : System) : Prop where
  consistent : Jobs.Consistent s.outbox
  handed : Jobs.HandedOut s.outbox.history s.drains
  within : Jobs.Within s.drains
  known : forall kind topic id,
    Jobs.Event.enqueued { project := project, kind := kind, subject := some topic } id ∈
      s.outbox.history -> topic ∈ s.memories
  kinds : forall entry, entry ∈ s.drains -> forall kind, entry.2.stage.kind = some kind ->
    forall job, job ∈ entry.2.batch -> job.work.kind = kind
  faithful : forall memory, ¬ Jobs.Pending s.outbox.queue (deriveWork project memory) ->
    NoStray naming s.memories s.ledger memory
  holder : forall entry, entry ∈ s.drains -> forall job, job ∈ entry.2.jobs ->
    forall memory, job.work = deriveWork project memory ->
      Jobs.Holds s.outbox.queue entry.2.worker job ->
        Restates naming s.memories s.ledger entry.2 job memory
  arriving : forall memory other, other ∈ named naming s.memories memory ->
    Linked s.ledger memory other = true ∨ Coming width project s memory other

variable {naming width project}

theorem inv_empty : Inv naming width project System.empty where
  consistent := Jobs.consistent_empty
  handed := by simp [System.empty, Jobs.HandedOut]
  within := by simp [System.empty, Jobs.Within]
  known := by simp [System.empty, Jobs.Outbox.empty]
  kinds := by simp [System.empty]
  faithful := by
    intro memory _ edge _ hderives
    simp [System.empty, Ledger.derives, Ledger.find, derivedIn] at hderives
  holder := by simp [System.empty]
  arriving := by
    intro memory other hother
    rcases mem_named.mp hother with ⟨_, hlookup, _⟩
    simp [System.empty] at hlookup

/-!
## Work that stays owed
-/

theorem coming_mono {s t : System} {memory other : TopicId}
    (h : forall work, Owed (Stage.Brings width memory other) s work ->
      Owed (Stage.Brings width memory other) t work)
    (hcoming : Coming width project s memory other) : Coming width project t memory other := by
  rcases hcoming with howed | howed
  · exact Or.inl (h _ howed)
  · exact Or.inr (h _ howed)

theorem owed_queue {s : System} {statement : Jobs.Statement} {outbox : Jobs.Outbox}
    {ready : Stage -> Prop} {work : Jobs.Work} (h : Inv naming width project s)
    (hstep : Jobs.step s.outbox statement = some outbox)
    (hdone : forall worker jobs, statement = Jobs.Statement.complete worker jobs ->
      exists entry, entry ∈ s.drains ∧ entry.2.worker = worker ∧ jobs ⊆ entry.2.done)
    (howed : Owed ready s work) : Owed ready { s with outbox := outbox } work := by
  apply Jobs.owed_step h.consistent h.handed hstep _ howed
  intro worker jobs hstatement
  rcases hdone worker jobs hstatement with ⟨entry, hmem, hworker, hsub⟩
  refine ⟨entry, hmem, hworker, ?_⟩
  intro job hjob
  exact ⟨(h.within entry hmem).1 (hsub hjob), fun hbefore => hbefore.1 (hsub hjob)⟩

theorem owed_moved {s : System} {id : Nat} {drain moved : Drain} {ready : Stage -> Prop}
    {work : Jobs.Work} (hdrain : partyOf s.drains id = some drain)
    (howed : Owed ready s work) (hworker : moved.worker = drain.worker)
    (hjobs : moved.jobs = drain.jobs)
    (hmine : forall job, job ∈ drain.jobs -> job.work = work ->
      Jobs.Holds s.outbox.queue drain.worker job -> job ∉ drain.done ->
        (job ∈ drain.batch -> ready drain.stage) ->
          job ∉ moved.done ∧ (job ∈ moved.batch -> ready moved.stage)) :
    Owed ready { s with drains := setParty id moved s.drains } work :=
  Jobs.owed_moved hdrain howed hworker hjobs fun job hjob hwork hholds hbefore =>
    hmine job hjob hwork hholds hbefore.1 hbefore.2

/-!
## Steps of the queue
-/

theorem inv_queue {s : System} {statement : Jobs.Statement} {outbox : Jobs.Outbox}
    (h : Inv naming width project s) (hstep : Jobs.step s.outbox statement = some outbox)
    (hasks : forall work, ¬ Jobs.Requests work statement)
    (hdone : forall worker jobs, statement = Jobs.Statement.complete worker jobs ->
      exists entry, entry ∈ s.drains ∧ entry.2.worker = worker ∧ jobs ⊆ entry.2.done) :
    Inv naming width project { s with outbox := outbox } where
  consistent := Jobs.consistent_step _ _ _ h.consistent hstep
  handed := fun entry hmem job hjob => Jobs.history_step hstep (h.handed entry hmem job hjob)
  within := h.within
  known := by
    intro kind topic id hevent
    rcases Jobs.enqueued_step hstep hevent with hold | hnew
    · exact h.known kind topic id hold
    · exact absurd hnew (hasks _)
  kinds := h.kinds
  faithful := by
    intro memory hnot
    by_cases hpending : Jobs.Pending s.outbox.queue (deriveWork project memory)
    · rcases Jobs.pending_step h.consistent hpending hstep with hstill | hcompleted
      · exact absurd hstill hnot
      · rcases hcompleted with ⟨worker, jobs, job, hstatement, hjob, hwork, hholds⟩
        rcases hdone worker jobs hstatement with ⟨entry, hmem, rfl, hsub⟩
        have hmine := (h.within entry hmem).1 (hsub hjob)
        exact (h.holder entry hmem job hmine memory hwork hholds).1 (hsub hjob)
    · exact h.faithful memory hpending
  holder := by
    intro entry hmem job hjob memory hwork hholds
    have hbefore := (Jobs.holds_step h.consistent (h.handed entry hmem job hjob) hstep hholds).1
    exact h.holder entry hmem job hjob memory hwork hbefore
  arriving := by
    intro memory other hother
    rcases h.arriving memory other hother with hlinked | hcoming
    · exact Or.inl hlinked
    · exact Or.inr (coming_mono (fun _ => owed_queue h hstep hdone) hcoming)

theorem inv_settle {s t : System} {statement : Jobs.Statement}
    (h : Inv naming width project s) (hstep : s.settle statement = some t)
    (hasks : forall work, ¬ Jobs.Requests work statement)
    (hdone : forall worker jobs, statement = Jobs.Statement.complete worker jobs ->
      exists entry, entry ∈ s.drains ∧ entry.2.worker = worker ∧ jobs ⊆ entry.2.done) :
    Inv naming width project t := by
  rcases Option.map_eq_some_iff.mp hstep with ⟨outbox, houtbox, rfl⟩
  exact inv_queue h houtbox hasks hdone

theorem fresh_insert {memories : Memories} {ledger : Ledger} {memory topic : TopicId}
    {current : Current} {stage : Stage} (hne : memory ≠ topic)
    (h : Fresh naming memories ledger memory stage) :
    Fresh naming (memories.insert topic current) ledger memory stage := by
  have hstates : forall {states}, FreshStates memories memory states ->
      FreshStates (memories.insert topic current) memory states := by
    intro states hstates
    refine ⟨hstates.1, ?_⟩
    intro entry hentry hsame
    rw [AList.lookup_insert_ne hne]
    exact hstates.2 entry hentry hsame
  have hcovers : forall {links}, Covers (named naming memories memory) memory links ->
      Covers (named naming (memories.insert topic current) memory) memory links := by
    intro links hlinks
    refine ⟨hlinks.1, ?_⟩
    intro link hlink hsame
    exact List.Subset.trans (hlinks.2 link hlink hsame) (named_insert hne)
  cases stage with
  | idle => exact True.intro
  | syncing read stored => exact True.intro
  | read states => exact hstates h
  | measured states widest => exact hstates h
  | probed candidates => exact True.intro
  | found pass links =>
      cases pass with
      | restate => exact hcovers h
      | link => exact True.intro
  | looked pass links seen =>
      cases pass with
      | restate => exact hcovers h
      | link => exact True.intro
  | asserted links => exact hcovers h
  | retracting links snapshot =>
      refine ⟨hcovers h.1, ?_⟩
      intro edge hedge hname
      exact h.2 edge hedge fun hin => hname (named_insert hne hin)

theorem noStray_insert {memories : Memories} {ledger : Ledger} {memory topic : TopicId}
    {current : Current} (hne : memory ≠ topic) (h : NoStray naming memories ledger memory) :
    NoStray naming (memories.insert topic current) ledger memory := by
  intro edge hedge hderives
  exact named_insert hne (h edge hedge hderives)

theorem inv_write {s t : System} {now : Instant} {topic : TopicId} {current : Current}
    {drawn : Topics.Drawn} (h : Inv naming width project s)
    (hstep : s.write project now topic current drawn = some t) :
    Inv naming width project t := by
  unfold System.write System.settle at hstep
  rw [Option.map_map] at hstep
  rcases Option.map_eq_some_iff.mp hstep with ⟨outbox, henqueue, rfl⟩
  clear hstep
  have hderive : (drawn.derive, Jobs.JobKind.deriveMentions) ∈
      Topics.owedBy Topics.SourceKind.manual (decide (topic ∈ s.memories)) drawn := by
    unfold Topics.owedBy
    split
    · exact List.mem_append_left _ (by simp)
    · simp
  have hbackfill : topic ∉ s.memories -> (drawn.backfill, Jobs.JobKind.backfillMentions) ∈
      Topics.owedBy Topics.SourceKind.manual (decide (topic ∈ s.memories)) drawn := by
    intro hnew
    simp [Topics.owedBy, hnew]
  have hrequested : forall {kind : IndexJobId × Jobs.JobKind},
      kind ∈ Topics.owedBy Topics.SourceKind.manual (decide (topic ∈ s.memories)) drawn ->
        forall ready, Owed ready { s with outbox := outbox }
          { project := project, kind := kind.2, subject := some topic } :=
    fun hkind ready => Jobs.owed_requested h.consistent h.handed hkind henqueue
  have hnone : forall worker jobs, Jobs.Statement.enqueue now project (some topic)
      (Topics.owedBy Topics.SourceKind.manual (decide (topic ∈ s.memories)) drawn) =
        Jobs.Statement.complete worker jobs ->
      exists entry, entry ∈ s.drains ∧ entry.2.worker = worker ∧ jobs ⊆ entry.2.done := by
    intro worker jobs heq
    cases heq
  constructor
  case consistent => exact Jobs.consistent_step _ _ _ h.consistent henqueue
  case handed =>
    exact fun entry hmem job hjob => Jobs.history_step henqueue (h.handed entry hmem job hjob)
  case within => exact h.within
  case known =>
    intro kind subject id hevent
    apply (AList.mem_insert _).mpr
    rcases Jobs.enqueued_step henqueue hevent with hold | ⟨asked, _, hwork⟩
    · exact Or.inr (h.known kind subject id hold)
    · exact Or.inl (Option.some.inj (congrArg Jobs.Work.subject hwork))
  case kinds => exact h.kinds
  case faithful =>
    intro memory hnot
    have hne : memory ≠ topic := by
      rintro rfl
      exact hnot (hrequested hderive (fun _ => True)).1
    apply noStray_insert hne
    apply h.faithful memory
    intro hpending
    rcases Jobs.pending_step h.consistent hpending henqueue with hstill | hcompleted
    · exact hnot hstill
    · rcases hcompleted with ⟨worker, jobs, job, hstatement, _⟩
      cases hstatement
  case holder =>
    intro entry hmem job hjob memory hwork hholds
    rcases Jobs.holds_step h.consistent (h.handed entry hmem job hjob) henqueue hholds with
      ⟨hbefore, hnot⟩
    have hne : memory ≠ topic := by
      rintro rfl
      rw [hwork] at hnot
      exact hnot ⟨_, hderive, rfl⟩
    rcases h.holder entry hmem job hjob memory hwork hbefore with ⟨hdone, hfresh⟩
    exact ⟨fun hin => noStray_insert hne (hdone hin), fun hin => fresh_insert hne (hfresh hin)⟩
  case arriving =>
    intro memory other hother
    by_cases hself : memory = topic
    · cases hself
      exact Or.inr (Or.inl (hrequested hderive _))
    · by_cases hthere : other ∈ s.memories
      · rcases h.arriving memory other (named_of_insert hself hthere hother) with
          hlinked | hcoming
        · exact Or.inl hlinked
        · have hstill : Coming width project { s with outbox := outbox } memory other :=
            coming_mono (fun _ => owed_queue h henqueue hnone) hcoming
          exact Or.inr hstill
      · rcases mem_named.mp hother with ⟨_, _, _, hin, _⟩
        rcases (AList.mem_insert _).mp hin with rfl | hold
        · exact Or.inr (Or.inr (hrequested (hbackfill hthere) _))
        · exact absurd hold hthere

theorem inv_claim {s t : System} {id : Nat} {now : Instant} {worker : String} {batch : Nat}
    {kinds : List Jobs.JobKind} {locked : List IndexJobId} (h : Inv naming width project s)
    (hstep : s.claim project id now worker batch kinds locked = some t) :
    Inv naming width project t := by
  unfold System.claim System.settle at hstep
  split at hstep
  · cases hstep
  · rw [Option.map_map] at hstep
    rcases Option.map_eq_some_iff.mp hstep with ⟨outbox, hclaim, rfl⟩
    clear hstep
    have hqueue := inv_queue h hclaim (fun _ hasks => hasks) (fun _ _ heq => by cases heq)
    have hhanded : forall job,
        job ∈ (Jobs.claim now project worker batch kinds locked s.outbox.queue).2 ->
          Jobs.Event.claimed worker job ∈ outbox.history := by
      intro job hjob
      simp only [Jobs.step, Option.ite_none_right_eq_some, Option.some.injEq] at hclaim
      rcases hclaim with ⟨_, rfl⟩
      exact List.mem_append_right _ (List.mem_map.mpr ⟨job, hjob, rfl⟩)
    have hidle : forall ready : Stage -> Prop, forall job,
        job ∈ (Jobs.claim now project worker batch kinds locked s.outbox.queue).2 ->
          Jobs.Round.Before ready
            { worker := worker
              jobs := (Jobs.claim now project worker batch kinds locked s.outbox.queue).2
              batch := [], stage := Stage.idle, done := [] } job :=
      fun ready job _ => ⟨List.not_mem_nil, fun hin => absurd hin List.not_mem_nil⟩
    constructor
    case consistent => exact hqueue.consistent
    case handed => exact forall_joined hqueue.handed hhanded
    case within => exact forall_joined hqueue.within ⟨List.nil_subset _, List.nil_subset _⟩
    case known => exact hqueue.known
    case kinds =>
      exact forall_joined hqueue.kinds fun _ _ job hjob => absurd hjob List.not_mem_nil
    case faithful => exact hqueue.faithful
    case holder =>
      apply forall_joined hqueue.holder
      intro job _ memory _ _
      exact ⟨fun hin => absurd hin List.not_mem_nil, fun hin => absurd hin List.not_mem_nil⟩
    case arriving =>
      intro memory other hother
      rcases hqueue.arriving memory other hother with hlinked | hcoming
      · exact Or.inl hlinked
      · apply Or.inr
        apply coming_mono _ hcoming
        exact fun work howed => Jobs.owed_joined howed (hidle _)

/-!
## Rounds that move on
-/

theorem inv_moved {s : System} {id : Nat} {drain moved : Drain} {ledger : Ledger}
    {documents : Memories} {syncing : Option Nat} (h : Inv naming width project s)
    (hdrain : partyOf s.drains id = some drain) (hworker : moved.worker = drain.worker)
    (hjobs : moved.jobs = drain.jobs) (hdone : moved.done ⊆ drain.jobs)
    (hbatch : moved.batch ⊆ drain.jobs)
    (hkinds : forall kind, moved.stage.kind = some kind ->
      forall job, job ∈ moved.batch -> job.work.kind = kind)
    (hstray : forall memory, ¬ Jobs.Pending s.outbox.queue (deriveWork project memory) ->
      NoStray naming s.memories s.ledger memory -> NoStray naming s.memories ledger memory)
    (hothers : forall entry, entry ∈ s.drains -> forall job, job ∈ entry.2.jobs ->
      forall memory, job.work = deriveWork project memory ->
        Jobs.Holds s.outbox.queue entry.2.worker job ->
          Restates naming s.memories s.ledger entry.2 job memory ->
            Restates naming s.memories ledger entry.2 job memory)
    (hmine : forall job, job ∈ drain.jobs -> forall memory,
      job.work = deriveWork project memory ->
        Restates naming s.memories s.ledger drain job memory ->
          Restates naming s.memories ledger drain job memory ->
            Restates naming s.memories ledger moved job memory)
    (harriving : forall memory other, other ∈ named naming s.memories memory ->
      Linked s.ledger memory other = true ∨ Coming width project s memory other ->
        Linked ledger memory other = true ∨
          Coming width project { s with drains := setParty id moved s.drains } memory other) :
    Inv naming width project
      { s with
        documents := documents, ledger := ledger, syncing := syncing
        drains := setParty id moved s.drains } := by
  have hmem := mem_of_partyOf hdrain
  constructor
  case consistent => exact h.consistent
  case handed =>
    apply forall_moved h.handed
    intro job hjob
    rw [hjobs] at hjob
    rw [hworker]
    exact h.handed (id, drain) hmem job hjob
  case within =>
    apply forall_moved h.within
    rw [hjobs]
    exact ⟨hdone, hbatch⟩
  case known => exact h.known
  case kinds => exact forall_moved h.kinds hkinds
  case faithful =>
    intro memory hnot
    exact hstray memory hnot (h.faithful memory hnot)
  case holder =>
    apply forall_moved
    · intro entry hentry job hjob memory hwork hholds
      exact hothers entry hentry job hjob memory hwork hholds
        (h.holder entry hentry job hjob memory hwork hholds)
    · intro job hjob memory hwork hholds
      rw [hjobs] at hjob
      rw [hworker] at hholds
      have hbefore := h.holder (id, drain) hmem job hjob memory hwork hholds
      exact hmine job hjob memory hwork hbefore
        (hothers (id, drain) hmem job hjob memory hwork hholds hbefore)
  case arriving =>
    intro memory other hother
    exact harriving memory other hother (h.arriving memory other hother)

theorem inv_stage {s : System} {id : Nat} {drain : Drain} {stage : Stage}
    (h : Inv naming width project s) (hdrain : partyOf s.drains id = some drain)
    (hkind : stage.kind = drain.stage.kind)
    (hfresh : forall memory, Fresh naming s.memories s.ledger memory drain.stage ->
      Fresh naming s.memories s.ledger memory stage)
    (hbrings : forall memory other, other ∈ named naming s.memories memory ->
      Linked s.ledger memory other = false ->
        (drain.stage.kind = some Jobs.JobKind.deriveMentions ->
          Fresh naming s.memories s.ledger memory drain.stage) ->
          drain.stage.Brings width memory other -> stage.Brings width memory other) :
    Inv naming width project
      { s with drains := setParty id { drain with stage := stage } s.drains } := by
  have hmem := mem_of_partyOf hdrain
  apply inv_moved h hdrain
  · rfl
  · rfl
  · exact (h.within _ hmem).1
  · exact (h.within _ hmem).2
  · intro kind hsome
    exact h.kinds (id, drain) hmem kind (hkind.symm.trans hsome)
  · exact fun _ _ hstray => hstray
  · exact fun _ _ _ _ _ _ _ hrestates => hrestates
  · intro job _ memory _ hrestates _
    exact ⟨hrestates.1, fun hin => hfresh memory (hrestates.2 hin)⟩
  · intro memory other hother harriving
    cases hlinked : Linked s.ledger memory other with
    | true => exact Or.inl rfl
    | false =>
        rcases harriving with htrue | hcoming
        · rw [hlinked] at htrue
          cases htrue
        · apply Or.inr
          rcases hcoming with howed | howed
          · apply Or.inl
            apply owed_moved hdrain howed
            · rfl
            · rfl
            · intro job hjob hwork hholds hnot hready
              refine ⟨hnot, fun hin => hbrings memory other hother hlinked ?_ (hready hin)⟩
              intro _
              exact (h.holder _ hmem job hjob memory hwork hholds).2 hin
          · apply Or.inr
            apply owed_moved hdrain howed
            · rfl
            · rfl
            · intro job _ hwork _ hnot hready
              refine ⟨hnot, fun hin => hbrings memory other hother hlinked ?_ (hready hin)⟩
              intro hderives
              have hsame := h.kinds (id, drain) hmem _ hderives job hin
              rw [hwork] at hsame
              cases hsame

theorem inv_start {s : System} {id : Nat} {drain : Drain} {kind : Jobs.JobKind}
    {batch : List Jobs.Job} {stage : Stage} {syncing : Option Nat}
    (h : Inv naming width project s) (hdrain : partyOf s.drains id = some drain)
    (hbatch : batch ⊆ drain.jobs)
    (hkinds : forall job, job ∈ batch -> job.work.kind = kind)
    (hkind : stage.kind = some kind)
    (hfresh : forall job, job ∈ batch -> forall memory, job.work = deriveWork project memory ->
      Fresh naming s.memories s.ledger memory stage)
    (harriving : forall memory other, other ∈ named naming s.memories memory ->
      Linked s.ledger memory other = true ∨ Coming width project s memory other ->
        Linked s.ledger memory other = true ∨
          Coming width project
            { s with drains := setParty id { drain with batch := batch, stage := stage } s.drains }
            memory other) :
    Inv naming width project
      { s with
        syncing := syncing
        drains := setParty id { drain with batch := batch, stage := stage } s.drains } := by
  have hmem := mem_of_partyOf hdrain
  apply inv_moved h hdrain
  · rfl
  · rfl
  · exact (h.within _ hmem).1
  · exact hbatch
  · intro other hother job hjob
    rw [hkind] at hother
    cases hother
    exact hkinds job hjob
  · exact fun _ _ hstray => hstray
  · exact fun _ _ _ _ _ _ _ hrestates => hrestates
  · intro job _ memory hwork hrestates _
    exact ⟨hrestates.1, fun hin => hfresh job hin memory hwork⟩
  · exact harriving

theorem arriving_started {s : System} {id : Nat} {drain : Drain} {batch : List Jobs.Job}
    {stage : Stage} (hdrain : partyOf s.drains id = some drain)
    (hready : forall memory other, stage.Brings width memory other) (memory other : TopicId)
    (h : Linked s.ledger memory other = true ∨ Coming width project s memory other) :
    Linked s.ledger memory other = true ∨
      Coming width project
        { s with drains := setParty id { drain with batch := batch, stage := stage } s.drains }
        memory other := by
  rcases h with hlinked | hcoming
  · exact Or.inl hlinked
  · apply Or.inr
    apply coming_mono _ hcoming
    intro work howed
    apply owed_moved hdrain howed
    · rfl
    · rfl
    · exact fun job _ _ _ hnot _ => ⟨hnot, fun _ => hready memory other⟩

theorem inv_settled {s : System} {id : Nat} {drain : Drain} {finished : List Jobs.Job}
    {syncing : Option Nat} (h : Inv naming width project s)
    (hdrain : partyOf s.drains id = some drain) (hfinished : finished ⊆ drain.batch)
    (hkinds : forall job, job ∈ finished -> job.work.kind = Jobs.JobKind.syncTopicIndex) :
    Inv naming width project
      { s with
        syncing := syncing, drains := setParty id (drain.settled finished) s.drains } := by
  have hmem := mem_of_partyOf hdrain
  have hwithin := h.within _ hmem
  apply inv_moved h hdrain
  · rfl
  · rfl
  · exact List.append_subset.mpr ⟨hwithin.1, List.Subset.trans hfinished hwithin.2⟩
  · exact List.nil_subset _
  · intro kind hkind
    cases hkind
  · exact fun _ _ hstray => hstray
  · exact fun _ _ _ _ _ _ _ hrestates => hrestates
  · intro job _ memory hwork hrestates _
    refine ⟨?_, fun hin => absurd hin List.not_mem_nil⟩
    intro hin
    rcases List.mem_append.mp hin with hdone | hnew
    · exact hrestates.1 hdone
    · have hkind := hkinds job hnew
      rw [hwork] at hkind
      cases hkind
  · intro memory other _ harriving
    rcases harriving with hlinked | hcoming
    · exact Or.inl hlinked
    · apply Or.inr
      have hkept : forall {work}, work.kind ≠ Jobs.JobKind.syncTopicIndex ->
          Owed (Stage.Brings width memory other) s work ->
            Owed (Stage.Brings width memory other)
              { s with drains := setParty id (drain.settled finished) s.drains } work := by
        intro work hne howed
        apply owed_moved hdrain howed
        · rfl
        · rfl
        · intro job _ hwork _ hnot _
          refine ⟨?_, fun hin => absurd hin List.not_mem_nil⟩
          intro hin
          rcases List.mem_append.mp hin with hdone | hnew
          · exact hnot hdone
          · exact hne (hwork ▸ hkinds job hnew)
      rcases hcoming with howed | howed
      · exact Or.inl (hkept (fun hkind => by cases hkind) howed)
      · exact Or.inr (hkept (fun hkind => by cases hkind) howed)

/-!
## What each step of a round finds
-/

theorem advance_cases {s t : System} {id : Nat} {next : Drain -> Option Drain}
    (h : s.advance id next = some t) :
    exists drain moved, partyOf s.drains id = some drain ∧ next drain = some moved ∧
      t = { s with drains := setParty id moved s.drains } := by
  rcases Option.bind_eq_some_iff.mp h with ⟨drain, hdrain, hnext⟩
  rcases Option.map_eq_some_iff.mp hnext with ⟨moved, hmoved, rfl⟩
  exact ⟨drain, moved, hdrain, hmoved, rfl⟩

theorem start_cases {drain moved : Drain} {kind : Jobs.JobKind} {batch : List Jobs.Job}
    {stage : Stage} (h : drain.start kind batch stage = some moved) :
    batch ⊆ drain.jobs ∧ (forall job, job ∈ batch -> job.work.kind = kind) ∧
      moved = { drain with batch := batch, stage := stage } := by
  unfold Drain.start at h
  split at h
  · next hallowed => exact ⟨hallowed.2.1, hallowed.2.2, (Option.some.inj h).symm⟩
  · cases h

theorem move_cases {drain moved : Drain} {next : Stage -> Option Stage}
    (h : drain.move next = some moved) :
    exists stage, next drain.stage = some stage ∧ moved = { drain with stage := stage } := by
  rcases Option.map_eq_some_iff.mp h with ⟨stage, hnext, rfl⟩
  exact ⟨stage, hnext, rfl⟩

theorem mem_subjects {batch : List Jobs.Job} {job : Jobs.Job} {topic : TopicId}
    (hjob : job ∈ batch) (hsubject : job.work.subject = some topic) :
    topic ∈ subjects batch :=
  List.mem_filterMap.mpr ⟨job, hjob, hsubject⟩

theorem freshStates_read {memories : Memories} {topics : List TopicId} {memory : TopicId}
    (hmem : memory ∈ topics) (hthere : memory ∈ memories) :
    FreshStates memories memory (currentStatesOf memories topics) := by
  rcases Option.isSome_iff_exists.mp (AList.lookup_isSome.mpr hthere) with ⟨current, hlookup⟩
  constructor
  · apply List.mem_map.mpr
    refine ⟨(memory, current), List.mem_filterMap.mpr ⟨memory, hmem, ?_⟩, rfl⟩
    rw [hlookup]
    rfl
  · intro entry hentry hsame
    rcases List.mem_filterMap.mp hentry with ⟨topic, _, hsome⟩
    rcases Option.map_eq_some_iff.mp hsome with ⟨said, hsaid, rfl⟩
    cases hsame
    exact hsaid

theorem covers_found {memories : Memories} {widest : Nat} {memory : TopicId}
    {states : List (TopicId × Current)} (h : FreshStates memories memory states) :
    Covers (named naming memories memory) memory
      (namesMatching naming width memories widest states) := by
  constructor
  · unfold namesMatching
    rw [List.map_map]
    exact h.1
  · intro link hlink hsame other hother
    rcases List.mem_map.mp hlink with ⟨entry, hentry, rfl⟩
    rcases Cascade.mem_namedNow.mp hother with ⟨hfilter, hne⟩
    rcases List.mem_filter.mp hfilter with ⟨hnames, hthere⟩
    have hlookup := h.2 entry hentry hsame
    cases hsame
    exact mem_named.mpr ⟨entry.2, hlookup, hnames, (of_decide_eq_true hthere).1, hne⟩

theorem pairs_found {memories : Memories} {widest : Nat} {memory other : TopicId}
    {states : List (TopicId × Current)} (h : FreshStates memories memory states)
    (hwidth : width other <= widest) (hother : other ∈ named naming memories memory) :
    Pairs (namesMatching naming width memories widest states) memory other := by
  rcases List.mem_map.mp h.1 with ⟨entry, hentry, rfl⟩
  rcases mem_named.mp hother with ⟨current, hlookup, hnames, hthere, hne⟩
  rw [h.2 entry hentry rfl] at hlookup
  cases hlookup
  refine ⟨_, List.mem_map.mpr ⟨entry, hentry, rfl⟩, rfl, ?_⟩
  apply Cascade.mem_namedNow.mpr
  exact ⟨List.mem_filter.mpr ⟨hnames, decide_eq_true ⟨hthere, hwidth⟩⟩, hne⟩

theorem pairs_candidates {memories : Memories} {candidates : List (TopicId × List TopicId)}
    {memory other : TopicId}
    (h : exists entry, entry ∈ candidates ∧ entry.1 = other ∧ memory ∈ entry.2)
    (hother : other ∈ named naming memories memory) :
    Pairs (namingCandidates naming memories candidates) memory other := by
  rcases h with ⟨entry, hentry, rfl, hmem⟩
  rcases mem_named.mp hother with ⟨current, hlookup, hnames, _, hne⟩
  refine ⟨{ topic := memory, state := current.state, named := [entry.1] }, ?_, rfl,
    List.mem_singleton.mpr rfl⟩
  apply List.mem_flatMap.mpr
  refine ⟨entry, hentry, List.mem_filterMap.mpr ⟨memory, List.mem_eraseDups.mpr hmem, ?_⟩⟩
  rw [hlookup]
  exact if_pos ⟨hne.symm, hnames⟩

theorem inv_sync {s t : System} {id : Nat} {batch : List Jobs.Job}
    (h : Inv naming width project s) (hstep : s.sync id batch = some t) :
    Inv naming width project t := by
  unfold System.sync at hstep
  split at hstep
  · rcases Option.map_eq_some_iff.mp hstep with ⟨u, hadvance, rfl⟩
    rcases advance_cases hadvance with ⟨drain, moved, hdrain, hstart, rfl⟩
    rcases start_cases hstart with ⟨hbatch, hkinds, rfl⟩
    apply inv_start h hdrain hbatch hkinds rfl
    · exact fun _ _ _ _ => True.intro
    · intro memory other _ harriving
      apply arriving_started hdrain _ memory other harriving
      exact fun _ _ => True.intro
  · cases hstep

theorem inv_store {s t : System} {id : Nat} {topic : TopicId}
    (h : Inv naming width project s) (hstep : s.store id topic = some t) :
    Inv naming width project t := by
  unfold System.store at hstep
  split at hstep
  · next worker jobs batch read stored done hdrain =>
      rcases Option.map_eq_some_iff.mp hstep with ⟨current, _, rfl⟩
      have hstage := @inv_stage naming width project s id _
        (Stage.syncing read (topic :: stored)) h hdrain rfl
        (fun _ _ => True.intro) (fun _ _ _ _ _ _ => True.intro)
      exact
        { consistent := hstage.consistent
          handed := hstage.handed
          within := hstage.within
          known := hstage.known
          kinds := hstage.kinds
          faithful := hstage.faithful
          holder := hstage.holder
          arriving := hstage.arriving }
  · cases hstep

theorem inv_synced {s t : System} {id : Nat} (h : Inv naming width project s)
    (hstep : s.synced id = some t) : Inv naming width project t := by
  unfold System.synced at hstep
  rcases Option.map_eq_some_iff.mp hstep with ⟨u, hadvance, rfl⟩
  rcases advance_cases hadvance with ⟨drain, moved, hdrain, hnext, rfl⟩
  split at hnext
  · next read stored hstage =>
      cases hnext
      apply inv_settled h hdrain (List.filter_subset_self _)
      intro job hjob
      have hkind : drain.stage.kind = some Jobs.JobKind.syncTopicIndex := by
        rw [hstage]
        rfl
      exact h.kinds _ (mem_of_partyOf hdrain) _ hkind job (List.mem_filter.mp hjob).1
  · cases hnext

theorem inv_read {s t : System} {id : Nat} {batch : List Jobs.Job}
    (h : Inv naming width project s)
    (hstep : step naming width project s (Action.read id batch) = some t) :
    Inv naming width project t := by
  rcases advance_cases hstep with ⟨drain, moved, hdrain, hstart, rfl⟩
  rcases start_cases hstart with ⟨hbatch, hkinds, rfl⟩
  apply inv_start h hdrain hbatch hkinds rfl
  · intro job hjob memory hwork
    have hclaimed := h.handed _ (mem_of_partyOf hdrain) job (hbatch hjob)
    have hasked := h.consistent.claimsRequested _ job hclaimed
    rw [hwork] at hasked
    exact freshStates_read (mem_subjects hjob (by rw [hwork]; rfl)) (h.known _ _ _ hasked)
  · intro memory other _ harriving
    apply arriving_started hdrain _ memory other harriving
    exact fun _ _ => True.intro

theorem inv_measure {s t : System} {id : Nat} (h : Inv naming width project s)
    (hstep : step naming width project s (Action.measure id) = some t) :
    Inv naming width project t := by
  rcases advance_cases hstep with ⟨drain, moved, hdrain, hmove, rfl⟩
  rcases move_cases hmove with ⟨stage, hnext, rfl⟩
  split at hnext
  · next states hstage =>
      cases hnext
      apply inv_stage h hdrain
      · rw [hstage]
        rfl
      · intro memory hfresh
        rw [hstage] at hfresh
        exact hfresh
      · intro memory other hother _ _ _
        rcases mem_named.mp hother with ⟨_, _, _, hthere, _⟩
        exact width_le_widest hthere
  · cases hnext

theorem inv_lookup {s t : System} {id : Nat} (h : Inv naming width project s)
    (hstep : step naming width project s (Action.lookup id) = some t) :
    Inv naming width project t := by
  rcases advance_cases hstep with ⟨drain, moved, hdrain, hmove, rfl⟩
  rcases move_cases hmove with ⟨stage, hnext, rfl⟩
  split at hnext
  · next states widest hstage =>
      cases hnext
      apply inv_stage h hdrain
      · rw [hstage]
        rfl
      · intro memory hfresh
        rw [hstage] at hfresh
        exact covers_found hfresh
      · intro memory other hother _ hfresh hbrings
        rw [hstage] at hfresh hbrings
        exact pairs_found (hfresh rfl) hbrings hother
  · cases hnext

theorem inv_weigh {s t : System} {id : Nat} (h : Inv naming width project s)
    (hstep : step naming width project s (Action.weigh id) = some t) :
    Inv naming width project t := by
  rcases advance_cases hstep with ⟨drain, moved, hdrain, hmove, rfl⟩
  rcases move_cases hmove with ⟨stage, hnext, rfl⟩
  split at hnext
  · next candidates hstage =>
      cases hnext
      apply inv_stage h hdrain
      · rw [hstage]
        rfl
      · exact fun _ _ => True.intro
      · intro memory other hother _ _ hbrings
        rw [hstage] at hbrings
        exact pairs_candidates hbrings hother
  · cases hnext

theorem inv_look {s t : System} {id : Nat} (h : Inv naming width project s)
    (hstep : step naming width project s (Action.look id) = some t) :
    Inv naming width project t := by
  rcases advance_cases hstep with ⟨drain, moved, hdrain, hmove, rfl⟩
  rcases move_cases hmove with ⟨stage, hnext, rfl⟩
  split at hnext
  · next pass links hstage =>
      cases hnext
      apply inv_stage h hdrain
      · rw [hstage]
        cases pass with
        | restate => rfl
        | link => rfl
      · intro memory hfresh
        rw [hstage] at hfresh
        cases pass with
        | restate => exact hfresh
        | link => exact True.intro
      · intro memory other _ hlinked _ hbrings
        rw [hstage] at hbrings
        exact ⟨hbrings, hlinked⟩
  · cases hnext

theorem inv_retract {s t : System} {id : Nat} (h : Inv naming width project s)
    (hstep : step naming width project s (Action.retract id) = some t) :
    Inv naming width project t := by
  rcases advance_cases hstep with ⟨drain, moved, hdrain, hmove, rfl⟩
  rcases move_cases hmove with ⟨stage, hnext, rfl⟩
  split at hnext
  · next links hstage =>
      cases hnext
      apply inv_stage h hdrain
      · rw [hstage]
        rfl
      · intro memory hfresh
        rw [hstage] at hfresh
        exact ⟨hfresh, fun _ _ _ _ hversion => hversion⟩
      · intro memory other _ _ _ hbrings
        rw [hstage] at hbrings
        exact hbrings
  · cases hnext

theorem inv_probe {s t : System} {id : Nat} {batch : List Jobs.Job}
    {returned : TopicId -> List TopicId} (h : Inv naming width project s)
    (horder : InOrder naming width project s (Action.probe id batch returned))
    (hstep : step naming width project s (Action.probe id batch returned) = some t) :
    Inv naming width project t := by
  simp only [step] at hstep
  split at hstep
  · rcases advance_cases hstep with ⟨drain, moved, hdrain, hstart, rfl⟩
    rcases start_cases hstart with ⟨hbatch, hkinds, rfl⟩
    have hmem := mem_of_partyOf hdrain
    apply inv_start h hdrain hbatch hkinds rfl
    · exact fun _ _ _ _ => True.intro
    · intro memory other hother harriving
      rcases mem_named.mp hother with ⟨current, hlookup, _, hthere, _⟩
      have hkeys : memory ∈ s.memories.keys :=
        AList.mem_keys.mp (AList.lookup_isSome.mp (Option.isSome_iff_exists.mpr ⟨current, hlookup⟩))
      have hnot : forall job, job ∈ batch -> job.work ≠ deriveWork project memory := by
        intro job hjob hwork
        have hkind := hkinds job hjob
        rw [hwork] at hkind
        cases hkind
      have hderive : Owed (Stage.Brings width memory other) s (deriveWork project memory) ->
          Owed (Stage.Brings width memory other)
            { s with
              drains := setParty id
                { drain with
                  batch := batch
                  stage := Stage.probed (((subjects batch).filter fun topic =>
                    topic ∈ s.memories).map fun topic => (topic, returned topic)) }
                s.drains } (deriveWork project memory) := by
        intro howed
        apply owed_moved hdrain howed
        · rfl
        · rfl
        · exact fun job _ hwork _ hdone _ => ⟨hdone, fun hin => absurd hwork (hnot job hin)⟩
      rcases harriving with hlinked | howed | howed
      · exact Or.inl hlinked
      · exact Or.inr (Or.inl (hderive howed))
      · by_cases hasks : exists job, job ∈ batch ∧ job.work = backfillWork project other ∧
            Jobs.Holds s.outbox.queue drain.worker job
        · rcases hasks with ⟨job, hjob, hwork, hholds⟩
          have hsubject : job.work.subject = some other := by
            rw [hwork]
            rfl
          have hasked := mem_subjects (List.mem_singleton.mpr rfl) hsubject
          rcases horder _ hmem rfl job hjob hholds memory hkeys other hasked hother with
            hreturned | hlinked | hcoming
          · apply Or.inr
            apply Or.inr
            apply owed_moved hdrain howed
            · rfl
            · rfl
            · intro job' _ _ _ hdone _
              refine ⟨hdone, fun _ => ⟨(other, returned other), ?_, rfl, hreturned⟩⟩
              apply List.mem_map.mpr
              refine ⟨other, List.mem_filter.mpr ⟨?_, decide_eq_true hthere⟩, rfl⟩
              exact mem_subjects hjob hsubject
          · exact Or.inl hlinked
          · exact Or.inr (Or.inl (hderive hcoming))
        · apply Or.inr
          apply Or.inr
          apply owed_moved hdrain howed
          · rfl
          · rfl
          · intro job _ hwork hholds hdone _
            exact ⟨hdone, fun hin => absurd ⟨job, hin, hwork, hholds⟩ hasks⟩
  · cases hstep

theorem stray_asserted {s : System} {links : List Found}
    {drawn : Nat -> RelationshipId × RelationshipVersionId} {read final : Ledger}
    (hasserts : AssertsDerived (asks drawn (claims links)) read s.ledger final)
    (horder : forall link, link ∈ links -> forall other, other ∈ link.named ->
      other ∈ named naming s.memories link.topic ∨
        Owed Stage.Retracts s (deriveWork project link.topic))
    (memory : TopicId) :
    (forall edge, Mentions memory edge -> edge.toTopic ∉ named naming s.memories memory ->
      final.find edge = s.ledger.find edge) ∨
        Owed Stage.Retracts s (deriveWork project memory) := by
  by_cases howed : Owed Stage.Retracts s (deriveWork project memory)
  · exact Or.inr howed
  · apply Or.inl
    intro edge hedge hname
    apply Cascade.find_asserted_other hasserts hedge
    intro link hlink hsame hin
    rcases horder link hlink edge.toTopic hin with hnamed | hretracts
    · rw [hsame] at hnamed
      exact hname hnamed
    · rw [hsame] at hretracts
      exact howed hretracts

theorem noStray_of_find {memories : Memories} {before after : Ledger} {memory : TopicId}
    (hfind : forall edge, Mentions memory edge -> edge.toTopic ∉ named naming memories memory ->
      after.find edge = before.find edge)
    (h : NoStray naming memories before memory) : NoStray naming memories after memory := by
  intro edge hedge hderives
  by_contra hname
  rw [derives_congr (hfind edge hedge hname)] at hderives
  exact hname (h edge hedge hderives)

theorem fresh_of_derivedIn {memories : Memories} {before after : Ledger} {memory : TopicId}
    {stage : Stage}
    (hfind : ¬ stage.Retracts -> forall edge, Mentions memory edge ->
      edge.toTopic ∉ named naming memories memory ->
        forall version, version ∈ derivedIn (after.find edge) ->
          version ∈ derivedIn (before.find edge))
    (h : Fresh naming memories before memory stage) :
    Fresh naming memories after memory stage := by
  cases stage with
  | retracting links snapshot =>
      refine ⟨h.1, ?_⟩
      intro edge hedge hname version hversion
      exact h.2 edge hedge hname version (hfind id edge hedge hname version hversion)
  | found pass links =>
      cases pass with
      | restate => exact h
      | link => exact h
  | looked pass links seen =>
      cases pass with
      | restate => exact h
      | link => exact h
  | idle => exact h
  | syncing read stored => exact h
  | read states => exact h
  | measured states widest => exact h
  | probed candidates => exact h
  | asserted links => exact h

theorem linked_asserted {drawn : Nat -> RelationshipId × RelationshipVersionId}
    {links : List Found} {read ledger final : Ledger} {memory other : TopicId}
    (hasserts : AssertsDerived (asks drawn (claims links)) read ledger final)
    (hpairs : Pairs links memory other) (hne : other ≠ memory)
    (hread : Linked read memory other = false) : Linked final memory other = true := by
  rcases hpairs with ⟨link, hlink, rfl, hnamed⟩
  rcases exists_mention hne with ⟨edge, hedge, rfl⟩
  apply linked_iff.mpr
  refine ⟨edge, hedge, rfl, Cascade.derives_asserted hasserts hlink hedge hnamed ?_⟩
  intro hderives
  rw [linked_iff.mpr ⟨edge, hedge, rfl, hderives⟩] at hread
  cases hread

theorem inv_assert {s t : System} {id : Nat} {clock : Nat -> Instant}
    {drawn : Nat -> RelationshipId × RelationshipVersionId} (h : Inv naming width project s)
    (horder : InOrder naming width project s (Action.assert id clock drawn))
    (hstep : step naming width project s (Action.assert id clock drawn) = some t) :
    Inv naming width project t := by
  simp only [step, System.assert] at hstep
  split at hstep
  · next worker jobs batch pass links read done hdrain =>
      rcases Option.map_eq_some_iff.mp hstep with ⟨⟨final, answers⟩, hafter, rfl⟩
      have hmem := mem_of_partyOf hdrain
      have hwithin := h.within _ hmem
      have hasserts :=
        assertAfter_derived (Cascade.allDerived_asks drawn (claims links)) hafter
      have hstrays := fun memory => stray_asserted hasserts (horder _ hmem rfl) memory
      have hkind := h.kinds _ hmem
      apply inv_moved h hdrain
      · cases pass with
        | restate => rfl
        | link => rfl
      · cases pass with
        | restate => rfl
        | link => rfl
      · cases pass with
        | restate => exact hwithin.1
        | link => exact List.append_subset.mpr hwithin
      · cases pass with
        | restate => exact hwithin.2
        | link => exact List.nil_subset _
      · cases pass with
        | restate => exact hkind
        | link =>
            intro kind hnone
            cases hnone
      · intro memory hnot hstray
        rcases hstrays memory with hfind | howed
        · exact noStray_of_find hfind hstray
        · exact absurd howed.1 hnot
      · intro entry hentry job hjob memory hwork hholds hrestates
        rcases hstrays memory with hfind | howed
        · refine ⟨fun hin => noStray_of_find hfind (hrestates.1 hin), ?_⟩
          intro hin
          apply fresh_of_derivedIn _ (hrestates.2 hin)
          intro _ edge hedge hname version hversion
          rwa [hfind edge hedge hname] at hversion
        · rcases howed.2 entry hentry job hjob hwork hholds with ⟨hnot, hready⟩
          refine ⟨fun hin => absurd hin hnot, ?_⟩
          intro hin
          apply fresh_of_derivedIn _ (hrestates.2 hin)
          exact fun hretracting => absurd (hready hin) hretracting
      · intro job _ memory hwork _ hrestates
        cases pass with
        | restate => exact hrestates
        | link =>
            refine ⟨?_, fun hin => absurd hin List.not_mem_nil⟩
            intro hin
            rcases List.mem_append.mp hin with hdone | hbatch
            · exact hrestates.1 hdone
            · have hsame := hkind _ rfl job hbatch
              rw [hwork] at hsame
              cases hsame
      · intro memory other hother harriving
        rcases mem_named.mp hother with ⟨_, _, _, _, hne⟩
        cases hlinked : Linked final memory other with
        | true => exact Or.inl rfl
        | false =>
            have hnew : forall {job : Jobs.Job}, job ∈ batch ->
                ¬ (Stage.looked pass links read).Brings width memory other := by
              rintro job _ ⟨hpairs, hread⟩
              have hthere := linked_asserted hasserts hpairs hne hread
              rw [hlinked] at hthere
              cases hthere
            rcases harriving with hthere | hcoming
            · have hkept : Linked final memory other = true :=
                linked_of_find (fun edge _ _ hderives => hasserts.keeps edge hderives) hthere
              rw [hlinked] at hkept
              cases hkept
            · apply Or.inr
              apply coming_mono _ hcoming
              intro work howed
              apply owed_moved hdrain howed
              · cases pass with
                | restate => rfl
                | link => rfl
              · cases pass with
                | restate => rfl
                | link => rfl
              · intro job _ _ _ hnot hready
                have houtside : job ∉ batch := fun hin => hnew hin (hready hin)
                cases pass with
                | restate => exact ⟨hnot, fun hin => absurd hin houtside⟩
                | link =>
                    refine ⟨?_, fun hin => absurd hin List.not_mem_nil⟩
                    intro hin
                    rcases List.mem_append.mp hin with hdone | hbatch
                    · exact hnot hdone
                    · exact houtside hbatch
  · cases hstep

theorem inv_close {s t : System} {id : Nat} {now : Instant} (h : Inv naming width project s)
    (horder : InOrder naming width project s (Action.close id now))
    (hstep : step naming width project s (Action.close id now) = some t) :
    Inv naming width project t := by
  simp only [step, System.close] at hstep
  split at hstep
  · next worker jobs batch links snapshot done hdrain =>
      cases hstep
      have hmem := mem_of_partyOf hdrain
      have hwithin := h.within _ hmem
      have hstray : forall memory, NoStray naming s.memories s.ledger memory ->
          NoStray naming s.memories (s.ledger.map (closeSeen snapshot
            (Closing.derived now EdgeKind.mentions (keeping links)))) memory := by
        intro memory hbefore edge hedge hderives
        rcases derives_iff.mp hderives with ⟨version, hversion⟩
        exact hbefore edge hedge (derives_iff.mpr ⟨version, derivedIn_closeSeen hversion⟩)
      apply inv_moved h hdrain
      · rfl
      · rfl
      · exact List.append_subset.mpr hwithin
      · exact List.nil_subset _
      · intro kind hnone
        cases hnone
      · exact fun memory _ hbefore => hstray memory hbefore
      · intro entry _ job _ memory _ _ hrestates
        refine ⟨fun hin => hstray memory (hrestates.1 hin), ?_⟩
        intro hin
        apply fresh_of_derivedIn _ (hrestates.2 hin)
        exact fun _ edge _ _ version hversion => derivedIn_closeSeen hversion
      · intro job _ memory _ hbefore hrestates
        refine ⟨?_, fun hin => absurd hin List.not_mem_nil⟩
        intro hin
        rcases List.mem_append.mp hin with hdone | hbatch
        · exact hrestates.1 hdone
        · rcases hbefore.2 hbatch with ⟨⟨htopic, hnames⟩, hseen⟩
          intro edge hedge hderives
          by_contra hname
          rw [not_derives_closeSeen] at hderives
          · cases hderives
          · apply (Cascade.retracts_keeping hedge).mpr
            refine ⟨htopic, ?_⟩
            intro link hlink hsame hother
            exact hname (hnames link hlink hsame hother)
          · intro version hversion
            exact seen_of_snapshot (hseen edge hedge hname version hversion)
      · intro memory other hother harriving
        have hkept : Coming width project s memory other ->
            Coming width project
              { s with
                drains := setParty id
                  { worker, jobs, batch := [], stage := Stage.idle, done := done ++ batch }
                  s.drains } memory other := by
          intro hcoming
          apply coming_mono _ hcoming
          intro work howed
          apply owed_moved hdrain howed
          · rfl
          · rfl
          · intro job _ _ _ hnot hready
            refine ⟨?_, fun hin => absurd hin List.not_mem_nil⟩
            intro hin
            rcases List.mem_append.mp hin with hdone | hbatch
            · exact hnot hdone
            · exact hready hbatch
        rcases harriving with hlinked | hcoming
        · by_cases hnames : memory ∈ links.map Found.topic ->
              exists link, link ∈ links ∧ link.topic = memory ∧ other ∈ link.named
          · apply Or.inl
            apply linked_of_find _ hlinked
            rintro edge hedge rfl hderives
            rw [derives_congr (Cascade.find_retracted hedge hnames)]
            exact hderives
          · apply Or.inr
            apply hkept
            rw [Classical.not_imp] at hnames
            rcases List.mem_map.mp hnames.1 with ⟨link, hlink, rfl⟩
            rcases horder _ hmem rfl link hlink other hother with hin | hcoming
            · exact absurd ⟨link, hlink, rfl, hin⟩ hnames.2
            · exact hcoming
        · exact Or.inr (hkept hcoming)
  · cases hstep

theorem inv_step : PreservedWhen (step naming width project) (InOrder naming width project)
    (Inv naming width project) := by
  intro s action t h horder hstep
  cases action with
  | write now topic current drawn => exact inv_write h hstep
  | claim id now worker batch kinds locked => exact inv_claim h hstep
  | sync id batch => exact inv_sync h hstep
  | store id topic => exact inv_store h hstep
  | synced id => exact inv_synced h hstep
  | read id batch => exact inv_read h hstep
  | measure id => exact inv_measure h hstep
  | lookup id => exact inv_lookup h hstep
  | probe id batch returned => exact inv_probe h horder hstep
  | weigh id => exact inv_weigh h hstep
  | look id => exact inv_look h hstep
  | assert id clock drawn => exact inv_assert h horder hstep
  | retract id => exact inv_retract h hstep
  | close id now => exact inv_close h horder hstep
  | complete id jobs =>
      rcases Option.bind_eq_some_iff.mp hstep with ⟨drain, hdrain, hsettle⟩
      split at hsettle
      · next hdone =>
          apply inv_settle h hsettle
          · exact fun _ hasks => hasks
          · intro worker finished heq
            cases heq
            exact ⟨(id, drain), mem_of_partyOf hdrain, rfl, hdone⟩
      · cases hsettle
  | fail id now job error =>
      rcases Option.bind_eq_some_iff.mp hstep with ⟨drain, hdrain, hsettle⟩
      split at hsettle
      · apply inv_settle h hsettle
        · exact fun _ hasks => hasks
        · intro worker finished heq
          cases heq
      · cases hsettle
  | stop id =>
      rcases Option.map_eq_some_iff.mp hstep with ⟨u, hadvance, rfl⟩
      rcases advance_cases hadvance with ⟨drain, moved, hdrain, hmoved, rfl⟩
      cases hmoved
      exact inv_settled h hdrain (List.nil_subset _) (fun _ hin => absurd hin List.not_mem_nil)
  | die id =>
      cases hstep
      constructor
      case consistent => exact h.consistent
      case handed => exact fun entry hmem => h.handed entry (mem_dropParty hmem)
      case within => exact fun entry hmem => h.within entry (mem_dropParty hmem)
      case known => exact h.known
      case kinds => exact fun entry hmem => h.kinds entry (mem_dropParty hmem)
      case faithful => exact h.faithful
      case holder => exact fun entry hmem => h.holder entry (mem_dropParty hmem)
      case arriving =>
        intro memory other hother
        rcases h.arriving memory other hother with hlinked | hcoming
        · exact Or.inl hlinked
        · apply Or.inr
          apply coming_mono _ hcoming
          exact fun work howed => Jobs.owed_dropped howed
  | replay now =>
      apply inv_settle h hstep
      · exact fun _ hasks => hasks
      · intro worker finished heq
        cases heq

theorem not_pending_of_quiet {s : System} {work : Jobs.Work} (hquiet : Quiet project s)
    (hproject : work.project = project) (hkind : work.kind ∈ Jobs.JobKind.urgent) :
    ¬ Jobs.Pending s.outbox.queue work := by
  rintro ⟨row, hrow, rfl⟩
  exact hquiet.1 row hrow hproject hkind

/--
Where the rounds keep in order, once nothing is owed a topic mentions another exactly
when its current content names it.
-/
theorem mentions_meet {actions : List Action} {s : System}
    (hrun : RunFrom (step naming width project) System.empty actions = some s)
    (horder : Along (step naming width project) (InOrder naming width project) System.empty
      actions)
    (hquiet : Quiet project s) : MentionsNamed naming s := by
  have hinv := runFrom_preservedWhen inv_step inv_empty horder hrun
  have hderive : forall memory,
      ¬ Jobs.Pending s.outbox.queue (deriveWork project memory) :=
    fun memory => not_pending_of_quiet hquiet rfl (by simp [deriveWork, Jobs.JobKind.urgent])
  intro memory other
  constructor
  · intro hlinked
    rcases linked_iff.mp hlinked with ⟨edge, hedge, rfl, hderives⟩
    exact hinv.faithful memory (hderive memory) edge hedge hderives
  · intro hother
    rcases hinv.arriving memory other hother with hlinked | howed | howed
    · exact hlinked
    · exact absurd howed.1 (hderive memory)
    · exact absurd howed.1
        (not_pending_of_quiet hquiet rfl (by simp [backfillWork, Jobs.JobKind.urgent]))

end Meeting

section Probes

open Cascade (namesSix drawnAt)

def oneWide (_ : TopicId) : Nat := 1

def written (now : Instant) (topic : TopicId) (content : String) (drawn : Nat) : Action :=
  Action.write now topic { state := drawn, content := content } (drawnAt drawn)

def claimOf (id : Nat) (now : Instant) : Action :=
  Action.claim id now "host:1" 8 Jobs.JobKind.urgent []

def jobFor (id : IndexJobId) (kind : Jobs.JobKind) (topic : TopicId) (attempts : Int)
    (claimed : Instant) : Jobs.Job :=
  { id := id, work := { project := 0, kind := kind, subject := some topic }
    attempts := attempts, claimedAt := some claimed }

def indexing (id : Nat) (job : Jobs.Job) (topic : TopicId) : List Action :=
  [Action.sync id [job], Action.store id topic, Action.synced id]

def assertOf (id : Nat) (now : Instant) : Action :=
  Action.assert id (fun _ => now) (fun n => (100 * id + n, 100 * id + n))

def restating (id : Nat) (now : Instant) (job : Jobs.Job) : List Action :=
  [Action.read id [job], Action.measure id, Action.lookup id, Action.look id, assertOf id now,
    Action.retract id, Action.close id now]

def backfilling (id : Nat) (now : Instant) (job : Jobs.Job) (returned : List TopicId) :
    List Action :=
  [Action.probe id [job] (fun _ => returned), Action.weigh id, Action.look id, assertOf id now]

def deriveFor (topic : TopicId) (drawn : Nat) (claimed : Instant) : Jobs.Job :=
  jobFor (drawn + 1) Jobs.JobKind.deriveMentions topic 1 claimed

def backfillFor (topic : TopicId) (drawn : Nat) (claimed : Instant) : Jobs.Job :=
  jobFor (drawn + 2) Jobs.JobKind.backfillMentions topic 1 claimed

def mentioning (id : Nat) (topic : TopicId) (drawn : Nat) (now : Instant)
    (returned : List TopicId) : List Action :=
  restating id now (deriveFor topic drawn now) ++
    backfilling id now (backfillFor topic drawn now) returned

def creating (id : Nat) (topic : TopicId) (content : String) (drawn : Nat) (now : Instant)
    (returned : List TopicId) : List Action :=
  let sync := jobFor drawn Jobs.JobKind.syncTopicIndex topic 1 (now + 1)
  [written now topic content drawn, claimOf id (now + 1)] ++ indexing id sync topic ++
    mentioning id topic drawn (now + 1) returned ++
      [Action.complete id
        [sync, deriveFor topic drawn (now + 1), backfillFor topic drawn (now + 1)],
        Action.die id]

def indexedFirst : List Action :=
  creating 0 5 "six" 10 0 [] ++ creating 1 6 "none" 20 2 [5]

def indexedLate : List Action :=
  let failing := jobFor 10 Jobs.JobKind.syncTopicIndex 5 1 1
  let retried := jobFor 10 Jobs.JobKind.syncTopicIndex 5 2 (seconds 4000)
  [written 0 5 "six" 10, claimOf 0 1, Action.sync 0 [failing], Action.stop 0] ++
    mentioning 0 5 10 1 [] ++
      [Action.fail 0 1 failing "the model is not there",
        Action.complete 0 [deriveFor 5 10 1, backfillFor 5 10 1], Action.die 0] ++
        creating 1 6 "none" 20 2 [] ++ [claimOf 2 (seconds 4000)] ++
          indexing 2 retried 5 ++ [Action.complete 2 [retried], Action.die 2]

theorem mentions_meet_indexed_first :
    exists s, RunFrom (step namesSix oneWide 0) System.empty indexedFirst = some s ∧
      MentionsNamed namesSix s := by
  have hends : (RunFrom (step namesSix oneWide 0) System.empty indexedFirst).any
      (fun s => decide (Quiet 0 s)) = true := by decide
  rcases (Option.any_eq_true _ _).mp hends with ⟨s, hrun, hquiet⟩
  refine ⟨s, hrun, ?_⟩
  exact mentions_meet hrun (by decide) (of_decide_eq_true hquiet)

theorem late_index_misses :
    exists s, RunFrom (step namesSix oneWide 0) System.empty indexedLate = some s ∧
      Quiet 0 s ∧ ¬ MentionsNamed namesSix s := by
  have hends : (RunFrom (step namesSix oneWide 0) System.empty indexedLate).any
      (fun s => decide (Quiet 0 s ∧ Linked s.ledger 5 6 = false ∧
        6 ∈ named namesSix s.memories 5)) = true := by decide
  rcases (Option.any_eq_true _ _).mp hends with ⟨s, hrun, hlast⟩
  rcases of_decide_eq_true hlast with ⟨hquiet, hlinked, hnamed⟩
  refine ⟨s, hrun, hquiet, ?_⟩
  intro hmeet
  rw [(hmeet 5 6).mpr hnamed] at hlinked
  cases hlinked

end Probes

end Linking
end PaminMemory
