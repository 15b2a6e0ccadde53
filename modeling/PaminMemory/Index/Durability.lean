import PaminMemory.Foundation.Memo
import PaminMemory.Index.Syncing

/-!
# Every order of index syncs and flushes

What the index holds of a topic is what the topic says, or the topic is owed and nobody who
has settled it still holds its claim; and the same of what is durable and those whose writes
a flush has covered.
-/

namespace PaminMemory
namespace Syncing

open Foundation
open Topics (Current Memories)
open Rebuild (syncWork subjects)

def Drain.settledJobs (drain : Drain) : List Jobs.Job :=
  match drain.stage with
  | Stage.claimed => []
  | Stage.syncing _ _ settled => drain.settling settled
  | Stage.written applied => applied
  | Stage.flushed done => done

def Drain.coveredJobs (drain : Drain) : List Jobs.Job :=
  match drain.stage with
  | Stage.flushed done => done
  | _ => []

def Flusher.coveredJobs (flusher : Flusher) : List Jobs.Job :=
  if flusher.covered then flusher.waiting else []

def System.settledJobs (s : System) : List Jobs.Job :=
  s.drains.flatMap (fun entry => entry.2.settledJobs) ++
    (s.unflushed ++ s.flushers.flatMap fun entry => entry.2.waiting)

def System.coveredJobs (s : System) : List Jobs.Job :=
  s.drains.flatMap (fun entry => entry.2.coveredJobs) ++
    s.flushers.flatMap fun entry => entry.2.coveredJobs

section Model

variable (project : ProjectId)

def Unheld (s : System) (jobs : List Jobs.Job) (topic : TopicId) : Prop :=
  Jobs.Unheld s.outbox.queue s.worker jobs (syncWork project topic)

structure Fresh (s : System) (jobs : List Jobs.Job) (states : List (TopicId × Option Current))
    (names : List (TopicId × String)) : Prop where
  states : forall topic current, states.lookup topic = some current ->
    current = s.memories.lookup topic ∨ Unheld project s jobs topic
  names : forall topic name, names.lookup topic = some name ->
    name = s.names topic ∨ Unheld project s jobs topic

/-- A round that is syncing holds the lock. -/
def Reads (s : System) (entry : Nat × Drain) : Prop :=
  forall states names settled, entry.2.stage = Stage.syncing states names settled ->
    s.lock = some entry.1 ∧ Fresh project s (s.settledJobs ++ entry.2.jobs) states names

structure Inv (s : System) : Prop where
  consistent : Jobs.Consistent s.outbox
  handed : forall entry, entry ∈ s.drains ->
    Jobs.Handed s.outbox.history s.worker entry.2.jobs
  settled : Jobs.Handed s.outbox.history s.worker s.settledJobs
  reads : forall entry, entry ∈ s.drains -> Reads project s entry
  buffered : forall topic, s.buffered topic = s.said topic ∨ Unheld project s s.settledJobs topic
  durable : forall topic, s.durable topic = s.said topic ∨ Unheld project s s.coveredJobs topic

end Model

section Claims

variable {s : System} {job : Jobs.Job}

theorem mem_settledJobs : job ∈ s.settledJobs <->
    (exists entry, entry ∈ s.drains ∧ job ∈ entry.2.settledJobs) ∨ job ∈ s.unflushed ∨
      exists entry, entry ∈ s.flushers ∧ job ∈ entry.2.waiting := by
  unfold System.settledJobs
  simp only [List.mem_append, List.mem_flatMap]

theorem mem_coveredJobs : job ∈ s.coveredJobs <->
    (exists entry, entry ∈ s.drains ∧ job ∈ entry.2.coveredJobs) ∨
      exists entry, entry ∈ s.flushers ∧ job ∈ entry.2.coveredJobs := by
  unfold System.coveredJobs
  simp only [List.mem_append, List.mem_flatMap]

theorem Drain.covered_subset (drain : Drain) : drain.coveredJobs ⊆ drain.settledJobs := by
  unfold Drain.coveredJobs Drain.settledJobs
  cases drain.stage with
  | claimed => exact List.nil_subset _
  | syncing states names settled => exact List.nil_subset _
  | written applied => exact List.nil_subset _
  | flushed done => exact List.Subset.refl _

theorem Flusher.covered_subset (flusher : Flusher) : flusher.coveredJobs ⊆ flusher.waiting := by
  unfold Flusher.coveredJobs
  split
  · exact List.Subset.refl _
  · exact List.nil_subset _

theorem covered_subset (s : System) : s.coveredJobs ⊆ s.settledJobs := by
  intro job hjob
  apply mem_settledJobs.mpr
  rcases mem_coveredJobs.mp hjob with ⟨entry, hmem, hcovered⟩ | ⟨entry, hmem, hcovered⟩
  · exact Or.inl ⟨entry, hmem, entry.2.covered_subset hcovered⟩
  · exact Or.inr (Or.inr ⟨entry, hmem, entry.2.covered_subset hcovered⟩)

theorem mem_settling {drain : Drain} {settled : List TopicId} :
    job ∈ drain.settling settled <-> job ∈ drain.syncs ∧
      exists topic, job.work.subject = some topic ∧ topic ∈ settled := by
  unfold Drain.settling
  rw [List.mem_filter, Option.any_eq_true]
  simp only [decide_eq_true_eq]

theorem mem_syncs {drain : Drain} (h : job ∈ drain.syncs) : job ∈ drain.jobs :=
  (List.mem_filter.mp h).1

end Claims

/-!
## What a statement of the queue does
-/

section Queue

variable {project : ProjectId} {s t : System} {statement : Jobs.Statement} {topic : TopicId}
  {jobs others : List Jobs.Job} {outbox : Jobs.Outbox}

theorem Unheld.mono (h : Unheld project s jobs topic) (hsub : others ⊆ jobs) :
    Unheld project s others topic :=
  Jobs.Unheld.mono h hsub

theorem settle_eq (h : s.settle statement = some t) :
    exists outbox, Jobs.step s.outbox statement = some outbox ∧ t = { s with outbox := outbox } := by
  rcases Option.map_eq_some_iff.mp h with ⟨outbox, hstep, hsame⟩
  exact ⟨outbox, hstep, hsame.symm⟩

def Completes (s : System) (statement : Jobs.Statement) : Prop :=
  forall worker done, statement = Jobs.Statement.complete worker done -> worker = s.worker ∧
    forall job, job ∈ done -> job.work.kind = Jobs.JobKind.syncTopicIndex ->
      job ∈ s.coveredJobs

theorem Unheld.settle (h : Unheld project s jobs topic) (hinv : Inv project s)
    (hhanded : Jobs.Handed s.outbox.history s.worker jobs)
    (hstep : Jobs.step s.outbox statement = some outbox) (hcompletes : Completes s statement)
    (hcovered : s.coveredJobs ⊆ jobs) :
    Unheld project { s with outbox := outbox } jobs topic := by
  apply Jobs.Unheld.step h hinv.consistent hhanded hstep
  intro worker done hstatement
  rcases hcompletes worker done hstatement with ⟨hworker, hamong⟩
  refine ⟨hworker, ?_⟩
  intro job hjob hwork
  apply hcovered
  apply hamong job hjob
  rw [hwork]
  rfl

theorem Fresh.mono {states : List (TopicId × Option Current)} {names : List (TopicId × String)}
    (h : Fresh project s jobs states names) (hsub : others ⊆ jobs) :
    Fresh project s others states names where
  states := fun topic current hread => (h.states topic current hread).imp_right (·.mono hsub)
  names := fun topic name hread => (h.names topic name hread).imp_right (·.mono hsub)

theorem handed_reads (hinv : Inv project s) {entry : Nat × Drain} (hmem : entry ∈ s.drains) :
    Jobs.Handed s.outbox.history s.worker (s.settledJobs ++ entry.2.jobs) := by
  intro job hjob
  rcases List.mem_append.mp hjob with hjob | hjob
  · exact hinv.settled job hjob
  · exact hinv.handed entry hmem job hjob

theorem inv_settle (hinv : Inv project s) (hsettle : s.settle statement = some t)
    (hcompletes : Completes s statement) : Inv project t := by
  rcases settle_eq hsettle with ⟨outbox, hstep, rfl⟩
  have hcovered := covered_subset s
  constructor
  · exact Jobs.consistent_step s.outbox statement outbox hinv.consistent hstep
  · exact fun entry hmem => Jobs.handed_step (hinv.handed entry hmem) hstep
  · exact Jobs.handed_step hinv.settled hstep
  · intro entry hmem states names settled hstage
    rcases hinv.reads entry hmem states names settled hstage with ⟨hlock, hfresh⟩
    have hhanded := handed_reads hinv hmem
    have hamong : s.coveredJobs ⊆ s.settledJobs ++ entry.2.jobs :=
      fun job hjob => List.mem_append_left _ (hcovered hjob)
    refine ⟨hlock, ?_, ?_⟩
    · intro topic current hread
      exact (hfresh.states topic current hread).imp_right
        (·.settle hinv hhanded hstep hcompletes hamong)
    · intro topic name hread
      exact (hfresh.names topic name hread).imp_right
        (·.settle hinv hhanded hstep hcompletes hamong)
  · intro topic
    exact (hinv.buffered topic).imp_right
      (·.settle hinv hinv.settled hstep hcompletes hcovered)
  · intro topic
    have hhanded : Jobs.Handed s.outbox.history s.worker s.coveredJobs :=
      fun job hjob => hinv.settled job (hcovered hjob)
    exact (hinv.durable topic).imp_right
      (·.settle hinv hhanded hstep hcompletes (List.Subset.refl _))

theorem inv_request (hinv : Inv project s) {now : Instant}
    {kinds : List (IndexJobId × Jobs.JobKind)} {id : IndexJobId}
    (hkind : (id, Jobs.JobKind.syncTopicIndex) ∈ kinds)
    (hsettle : s.settle (Jobs.Statement.enqueue now project (some topic) kinds) = some t)
    {memories : Memories} {names : TopicId -> String}
    (hmemories : forall other, other ≠ topic ->
      memories.lookup other = s.memories.lookup other)
    (hnames : forall other, other ≠ topic -> names other = s.names other) :
    Inv project { t with memories := memories, names := names } := by
  have hkept : Inv project t := by
    apply inv_settle hinv hsettle
    intro worker done hstatement
    cases hstatement
  rcases settle_eq hsettle with ⟨outbox, hstep, rfl⟩
  have hunheld : forall {jobs}, Jobs.Handed s.outbox.history s.worker jobs ->
      Unheld project { s with outbox := outbox } jobs topic :=
    fun hhanded => Jobs.unheld_requested hinv.consistent hhanded hkind hstep
  have hsaid : forall other, other ≠ topic ->
      ({ s with outbox := outbox, memories := memories, names := names } : System).said other =
        s.said other := by
    intro other hne
    exact congrArg₂ entryOf (hmemories other hne) (hnames other hne)
  constructor
  · exact hkept.consistent
  · exact hkept.handed
  · exact hkept.settled
  · intro entry hmem states read settled hstage
    rcases hkept.reads entry hmem states read settled hstage with ⟨hlock, hfresh⟩
    refine ⟨hlock, ?_, ?_⟩
    · intro other current hread
      by_cases hsame : other = topic
      · rw [hsame]
        exact Or.inr (hunheld (handed_reads hinv hmem))
      · have hstated := hfresh.states other current hread
        rw [← hmemories other hsame] at hstated
        exact hstated
    · intro other name hread
      by_cases hsame : other = topic
      · rw [hsame]
        exact Or.inr (hunheld (handed_reads hinv hmem))
      · have hnamed : name = s.names other ∨ _ := hfresh.names other name hread
        rw [← hnames other hsame] at hnamed
        exact hnamed
  · intro other
    by_cases hsame : other = topic
    · rw [hsame]
      exact Or.inr (hunheld hinv.settled)
    · rw [hsaid other hsame]
      exact hkept.buffered other
  · intro other
    by_cases hsame : other = topic
    · rw [hsame]
      exact Or.inr (hunheld fun job hjob => hinv.settled job (covered_subset s hjob))
    · rw [hsaid other hsame]
      exact hkept.durable other

end Queue

/-!
## What a round or a flusher does
-/

section Moves

variable {project : ProjectId} {s t : System} {topic : TopicId} {jobs : List Jobs.Job}
  {id : Nat} {drain moved : Drain}

structure SameLedger (s t : System) : Prop where
  outbox : t.outbox = s.outbox
  worker : t.worker = s.worker
  memories : t.memories = s.memories
  names : t.names = s.names

theorem SameLedger.unheld (h : SameLedger s t) :
    Unheld project t jobs topic <-> Unheld project s jobs topic := by
  unfold Unheld
  rw [h.outbox, h.worker]

theorem SameLedger.said (h : SameLedger s t) : t.said topic = s.said topic := by
  unfold System.said
  rw [h.memories, h.names]

theorem SameLedger.fresh (h : SameLedger s t) {states : List (TopicId × Option Current)}
    {names : List (TopicId × String)} (hfresh : Fresh project s jobs states names) :
    Fresh project t jobs states names := by
  constructor
  · intro topic current hread
    rw [h.memories, h.unheld]
    exact hfresh.states topic current hread
  · intro topic name hread
    rw [h.names, h.unheld]
    exact hfresh.names topic name hread

theorem SameLedger.inv (h : SameLedger s t) (hinv : Inv project s)
    (hhanded : forall entry, entry ∈ t.drains ->
      Jobs.Handed s.outbox.history s.worker entry.2.jobs)
    (hsettled : Jobs.Handed s.outbox.history s.worker t.settledJobs)
    (hreads : forall entry, entry ∈ t.drains -> Reads project t entry)
    (hbuffered : forall topic,
      t.buffered topic = s.said topic ∨ Unheld project s t.settledJobs topic)
    (hdurable : forall topic,
      t.durable topic = s.said topic ∨ Unheld project s t.coveredJobs topic) :
    Inv project t := by
  constructor
  · rw [h.outbox]
    exact hinv.consistent
  · rw [h.outbox, h.worker]
    exact hhanded
  · rw [h.outbox, h.worker]
    exact hsettled
  · exact hreads
  · intro topic
    rw [h.said, h.unheld]
    exact hbuffered topic
  · intro topic
    rw [h.said, h.unheld]
    exact hdurable topic

theorem Reads.other (h : SameLedger s t) {entry : Nat × Drain} (hreads : Reads project s entry)
    (hlock : s.lock = some entry.1 ->
      t.lock = some entry.1 ∧ t.settledJobs ⊆ s.settledJobs) : Reads project t entry := by
  intro states names settled hstage
  rcases hreads states names settled hstage with ⟨hheld, hfresh⟩
  rcases hlock hheld with ⟨hstill, hsub⟩
  have hamong : t.settledJobs ++ entry.2.jobs ⊆ s.settledJobs ++ entry.2.jobs :=
    List.append_subset.mpr ⟨fun job hjob => List.mem_append_left _ (hsub hjob),
      List.subset_append_right _ _⟩
  exact ⟨hstill, h.fresh (hfresh.mono hamong)⟩

theorem reads_idle {entry : Nat × Drain}
    (hstage : forall states names settled, entry.2.stage ≠ Stage.syncing states names settled) :
    Reads project t entry :=
  fun states names settled hsyncing => absurd hsyncing (hstage states names settled)

theorem SameLedger.inv_shrunk (h : SameLedger s t) (hinv : Inv project s)
    (hhanded : forall entry, entry ∈ t.drains ->
      Jobs.Handed s.outbox.history s.worker entry.2.jobs)
    (hsettled : t.settledJobs ⊆ s.settledJobs)
    (hreads : forall entry, entry ∈ t.drains -> Reads project t entry)
    (hbuffered : t.buffered = s.buffered)
    (hdurable : forall topic,
      t.durable topic = s.said topic ∨ Unheld project s t.coveredJobs topic) :
    Inv project t := by
  apply h.inv hinv hhanded (fun job hjob => hinv.settled job (hsettled hjob)) hreads _ hdurable
  intro topic
  rw [hbuffered]
  exact (hinv.buffered topic).imp_right (·.mono hsettled)

theorem durable_kept (hinv : Inv project s) (hdurable : t.durable = s.durable)
    (hcovered : t.coveredJobs ⊆ s.coveredJobs) (topic : TopicId) :
    t.durable topic = s.said topic ∨ Unheld project s t.coveredJobs topic := by
  rw [hdurable]
  exact (hinv.durable topic).imp_right (·.mono hcovered)

theorem durable_flushed (hinv : Inv project s) (hdurable : t.durable = s.buffered)
    (hcovered : t.coveredJobs ⊆ s.settledJobs) (topic : TopicId) :
    t.durable topic = s.said topic ∨ Unheld project s t.coveredJobs topic := by
  rw [hdurable]
  exact (hinv.buffered topic).imp_right (·.mono hcovered)

/-!
### One round moves on
-/

theorem settled_moved (hparty : partyOf s.drains id = some drain)
    (hdrains : t.drains = setParty id moved s.drains)
    (hmoved : forall job, job ∈ moved.settledJobs -> job ∈ drain.settledJobs ∨ job ∈ jobs)
    (hunflushed : forall job, job ∈ t.unflushed -> job ∈ s.settledJobs)
    (hflushers : t.flushers = s.flushers) {job : Jobs.Job} (hjob : job ∈ t.settledJobs) :
    job ∈ s.settledJobs ∨ job ∈ jobs := by
  rcases mem_settledJobs.mp hjob with ⟨entry, hmem, hsettled⟩ | hwaiting | ⟨entry, hmem, hwaiting⟩
  · rw [hdrains] at hmem
    rcases mem_setParty hmem with hnew | ⟨hold, _⟩
    · rw [hnew] at hsettled
      rcases hmoved job hsettled with hbefore | hmore
      · exact Or.inl (mem_settledJobs.mpr (Or.inl ⟨_, mem_of_partyOf hparty, hbefore⟩))
      · exact Or.inr hmore
    · exact Or.inl (mem_settledJobs.mpr (Or.inl ⟨entry, hold, hsettled⟩))
  · exact Or.inl (hunflushed job hwaiting)
  · rw [hflushers] at hmem
    exact Or.inl (mem_settledJobs.mpr (Or.inr (Or.inr ⟨entry, hmem, hwaiting⟩)))

theorem covered_moved (hdrains : t.drains = setParty id moved s.drains)
    (hflushers : t.flushers = s.flushers) {job : Jobs.Job} (hjob : job ∈ t.coveredJobs) :
    job ∈ s.coveredJobs ∨ job ∈ moved.coveredJobs := by
  rcases mem_coveredJobs.mp hjob with ⟨entry, hmem, hcovered⟩ | ⟨entry, hmem, hcovered⟩
  · rw [hdrains] at hmem
    rcases mem_setParty hmem with hnew | ⟨hold, _⟩
    · rw [hnew] at hcovered
      exact Or.inr hcovered
    · exact Or.inl (mem_coveredJobs.mpr (Or.inl ⟨entry, hold, hcovered⟩))
  · rw [hflushers] at hmem
    exact Or.inl (mem_coveredJobs.mpr (Or.inr ⟨entry, hmem, hcovered⟩))

theorem handed_moved (hinv : Inv project s) (hparty : partyOf s.drains id = some drain)
    (hdrains : t.drains = setParty id moved s.drains) (hjobs : moved.jobs = drain.jobs) :
    forall entry, entry ∈ t.drains -> Jobs.Handed s.outbox.history s.worker entry.2.jobs := by
  rw [hdrains]
  apply forall_moved hinv.handed
  rw [hjobs]
  exact hinv.handed _ (mem_of_partyOf hparty)

theorem reads_moved (h : SameLedger s t) (hinv : Inv project s)
    (hdrains : t.drains = setParty id moved s.drains) (hnew : Reads project t (id, moved))
    (hothers : forall other, other ≠ id -> s.lock = some other ->
      t.lock = some other ∧ t.settledJobs ⊆ s.settledJobs) :
    forall entry, entry ∈ t.drains -> Reads project t entry := by
  intro entry hmem
  rw [hdrains] at hmem
  rcases mem_setParty hmem with hentry | ⟨hold, hne⟩
  · rw [hentry]
    exact hnew
  · exact (hinv.reads entry hold).other h (hothers entry.1 hne)

theorem released_other {other : Nat} (hne : other ≠ id) (hlock : s.lock = some other) :
    s.released id = some other := by
  unfold System.released
  rw [if_neg, hlock]
  intro hsame
  rw [hlock] at hsame
  exact hne (Option.some.inj hsame)

theorem moveDrain_eq {next : Drain -> Option (System × Stage)}
    (h : s.moveDrain id next = some t) :
    exists drain u stage, partyOf s.drains id = some drain ∧ next drain = some (u, stage) ∧
      t = { u with drains := setParty id { drain with stage := stage } s.drains } := by
  rcases Option.bind_eq_some_iff.mp h with ⟨drain, hparty, hnext⟩
  rcases Option.map_eq_some_iff.mp hnext with ⟨⟨u, stage⟩, hnext, hsame⟩
  exact ⟨drain, u, stage, hparty, hnext, hsame.symm⟩

theorem inv_moved {u : System} {stage : Stage} (hinv : Inv project s)
    (hparty : partyOf s.drains id = some drain) (h : SameLedger s u)
    (hflushers : u.flushers = s.flushers)
    (hunflushed : forall job, job ∈ u.unflushed -> job ∈ s.settledJobs)
    (hmoved : Drain.settledJobs { drain with stage := stage } ⊆ drain.settledJobs)
    (hsyncing : forall states names settled, stage = Stage.syncing states names settled ->
      u.lock = some id ∧ Fresh project s (s.settledJobs ++ drain.jobs) states names)
    (hothers : forall other, other ≠ id -> s.lock = some other -> u.lock = some other)
    (hbuffered : u.buffered = s.buffered)
    (hdurable : u.durable = s.durable ∧ Drain.coveredJobs { drain with stage := stage } = [] ∨
      u.durable = s.buffered) :
    Inv project { u with drains := setParty id { drain with stage := stage } s.drains } := by
  generalize ht : { u with drains := setParty id { drain with stage := stage } s.drains } = t
  have hledger : SameLedger s t := by
    rw [← ht]
    exact ⟨h.outbox, h.worker, h.memories, h.names⟩
  have hdrains : t.drains = setParty id { drain with stage := stage } s.drains := by rw [← ht]
  have hflushers : t.flushers = s.flushers := by
    rw [← ht]
    exact hflushers
  have hsettled : t.settledJobs ⊆ s.settledJobs := by
    intro job hjob
    have hwaiting : forall job, job ∈ t.unflushed -> job ∈ s.settledJobs := by
      rw [← ht]
      exact hunflushed
    have hfrom : job ∈ s.settledJobs ∨ job ∈ ([] : List Jobs.Job) :=
      settled_moved hparty hdrains (fun job hjob => Or.inl (hmoved hjob)) hwaiting hflushers hjob
    rcases hfrom with hold | hnone
    · exact hold
    · cases hnone
  apply hledger.inv_shrunk hinv (handed_moved hinv hparty hdrains rfl) hsettled
  · apply reads_moved hledger hinv hdrains
    · intro states names settled hstage
      rcases hsyncing states names settled hstage with ⟨hlock, hfresh⟩
      have hamong : t.settledJobs ++ drain.jobs ⊆ s.settledJobs ++ drain.jobs :=
        List.append_subset.mpr ⟨fun job hjob => List.mem_append_left _ (hsettled hjob),
          List.subset_append_right _ _⟩
      rw [← ht] at hledger hamong ⊢
      exact ⟨hlock, hledger.fresh (hfresh.mono hamong)⟩
    · intro other hne hlock
      refine ⟨?_, hsettled⟩
      rw [← ht]
      exact hothers other hne hlock
  · rw [← ht]
    exact hbuffered
  · rcases hdurable with ⟨hsame, hnone⟩ | hflushed
    · apply durable_kept hinv
      · rw [← ht]
        exact hsame
      · intro job hjob
        rcases covered_moved hdrains hflushers hjob with hold | hcovered
        · exact hold
        · rw [hnone] at hcovered
          cases hcovered
    · apply durable_flushed hinv
      · rw [← ht]
        exact hflushed
      · exact fun job hjob => hsettled (covered_subset t hjob)

theorem mem_unflushed {job : Jobs.Job} (hjob : job ∈ s.unflushed) : job ∈ s.settledJobs :=
  mem_settledJobs.mpr (Or.inr (Or.inl hjob))

theorem inv_unread (hinv : Inv project s) (hstep : s.unread id = some t) : Inv project t := by
  rcases moveDrain_eq hstep with ⟨drain, u, stage, hparty, hnext, rfl⟩
  split at hnext
  · cases hnext
    apply inv_moved hinv hparty
    · exact ⟨rfl, rfl, rfl, rfl⟩
    · rfl
    · exact fun job => mem_unflushed
    · exact List.nil_subset _
    · exact fun _ _ _ hsyncing => nomatch hsyncing
    · exact fun _ _ hlock => hlock
    · rfl
    · exact Or.inl ⟨rfl, rfl⟩
  · cases hnext

theorem inv_read (hinv : Inv project s) (hstep : s.read id = some t) : Inv project t := by
  rcases moveDrain_eq hstep with ⟨drain, u, stage, hparty, hnext, rfl⟩
  split at hnext
  · next hfree _ =>
    cases hnext
    apply inv_moved hinv hparty
    · exact ⟨rfl, rfl, rfl, rfl⟩
    · rfl
    · exact fun job => mem_unflushed
    · intro job hjob
      rcases mem_settling.mp hjob with ⟨_, topic, _, hnone⟩
      cases hnone
    · intro states names settled hsyncing
      cases hsyncing
      refine ⟨rfl, ?_, ?_⟩
      · intro topic current hread
        exact Or.inl (lookup_asked (fun topic => s.memories.lookup topic) hread)
      · intro topic name hread
        cases hread
    · intro other _ hlock
      rw [hfree] at hlock
      cases hlock
    · rfl
    · exact Or.inl ⟨rfl, rfl⟩
  · cases hnext

theorem inv_readNames {topics : List TopicId} (hinv : Inv project s)
    (hstep : s.readNames id topics = some t) : Inv project t := by
  rcases moveDrain_eq hstep with ⟨drain, u, stage, hparty, hnext, rfl⟩
  split at hnext
  · next states names settled hstage =>
    cases hnext
    rcases hinv.reads _ (mem_of_partyOf hparty) states names settled hstage with ⟨hlock, hfresh⟩
    apply inv_moved hinv hparty
    · exact ⟨rfl, rfl, rfl, rfl⟩
    · rfl
    · exact fun job => mem_unflushed
    · unfold Drain.settledJobs
      rw [hstage]
      exact List.Subset.refl _
    · intro _ _ _ hsyncing
      cases hsyncing
      refine ⟨hlock, ?_, ?_⟩
      · exact hfresh.states
      · intro topic name hread
        rw [List.lookup_append] at hread
        rcases Option.or_eq_some_iff.mp hread with hnow | ⟨_, hbefore⟩
        · exact Or.inl (lookup_asked s.names hnow)
        · exact hfresh.names topic name hbefore
    · exact fun _ _ hlock => hlock
    · rfl
    · exact Or.inl ⟨rfl, rfl⟩
  · cases hnext

theorem inv_release (hinv : Inv project s) (hstep : s.release id = some t) : Inv project t := by
  rcases moveDrain_eq hstep with ⟨drain, u, stage, hparty, hnext, rfl⟩
  split at hnext
  · next states names settled hstage _ =>
    cases hnext
    apply inv_moved hinv hparty
    · exact ⟨rfl, rfl, rfl, rfl⟩
    · rfl
    · exact fun job => mem_unflushed
    · unfold Drain.settledJobs
      rw [hstage]
      exact List.Subset.refl _
    · exact fun _ _ _ hsyncing => nomatch hsyncing
    · exact fun other => released_other
    · rfl
    · exact Or.inl ⟨rfl, rfl⟩
  · next states names settled hstage _ =>
    cases hnext
    apply inv_moved hinv hparty
    · exact ⟨rfl, rfl, rfl, rfl⟩
    · rfl
    · intro job hjob
      rcases List.mem_append.mp hjob with hbefore | hnew
      · exact mem_unflushed hbefore
      · apply mem_settledJobs.mpr
        refine Or.inl ⟨_, mem_of_partyOf hparty, ?_⟩
        unfold Drain.settledJobs
        rw [hstage]
        exact hnew
    · exact List.nil_subset _
    · exact fun _ _ _ hsyncing => nomatch hsyncing
    · exact fun other => released_other
    · rfl
    · exact Or.inl ⟨rfl, rfl⟩
  · cases hnext

theorem inv_flush (hinv : Inv project s) (hstep : s.flush id = some t) : Inv project t := by
  rcases moveDrain_eq hstep with ⟨drain, u, stage, hparty, hnext, rfl⟩
  split at hnext
  · cases hnext
    apply inv_moved hinv hparty
    · exact ⟨rfl, rfl, rfl, rfl⟩
    · rfl
    · exact fun job => mem_unflushed
    · exact List.nil_subset _
    · exact fun _ _ _ hsyncing => nomatch hsyncing
    · exact fun _ _ hlock => hlock
    · rfl
    · exact Or.inl ⟨rfl, rfl⟩
  · next applied hstage =>
    cases hnext
    apply inv_moved hinv hparty
    · exact ⟨rfl, rfl, rfl, rfl⟩
    · rfl
    · exact fun job => mem_unflushed
    · unfold Drain.settledJobs
      rw [hstage]
      exact List.Subset.refl _
    · exact fun _ _ _ hsyncing => nomatch hsyncing
    · exact fun _ _ hlock => hlock
    · rfl
    · exact Or.inr rfl
  · cases hnext

/-!
### One topic is settled
-/

theorem Fresh.wanted {states : List (TopicId × Option Current)}
    {names : List (TopicId × String)} (h : Fresh project s jobs states names) {entry : Entry}
    (hwanted : wanted states names topic = some entry) :
    entry = s.said topic ∨ Unheld project s jobs topic := by
  unfold Syncing.wanted at hwanted
  unfold System.said
  split at hwanted
  · cases hwanted
  · next hread =>
    cases hwanted
    rcases h.states topic none hread with hsame | hunheld
    · rw [← hsame]
      exact Or.inl rfl
    · exact Or.inr hunheld
  · next current hread =>
    rcases Option.map_eq_some_iff.mp hwanted with ⟨name, hname, rfl⟩
    rcases h.states topic (some current) hread with hsame | hunheld
    · rcases h.names topic name hname with hnamed | hunheld
      · rw [← hsame, ← hnamed]
        exact Or.inl rfl
      · exact Or.inr hunheld
    · exact Or.inr hunheld

def Settles (before entry : Entry) (written : Entry × Bool) : Prop :=
  written = (entry, true) ∨ written = (before, false) ∨
    written = (Entry.part, false) ∧ before ≠ entry

theorem settleTopic_eq {write : Entry -> Option (Entry × Bool)}
    (h : s.settleTopic id topic write = some t) :
    exists drain states names settled entry written, partyOf s.drains id = some drain ∧
      drain.stage = Stage.syncing states names settled ∧
        wanted states names topic = some entry ∧ write entry = some written ∧
          t = { s with
            buffered := Function.update s.buffered topic written.1
            drains := setParty id
              { drain with stage := Stage.syncing states names (resettle topic written.2 settled) }
              s.drains } := by
  rcases moveDrain_eq h with ⟨drain, u, stage, hparty, hnext, ht⟩
  split at hnext
  · next states names settled hstage =>
    rcases Option.bind_eq_some_iff.mp hnext with ⟨entry, hwanted, hnext⟩
    rcases Option.map_eq_some_iff.mp hnext with ⟨written, hwritten, hsame⟩
    cases hsame
    exact ⟨drain, states, names, settled, entry, written, hparty, hstage, hwanted, hwritten, ht⟩
  · cases hnext

theorem mem_resettled {job : Jobs.Job} {done : Bool} {settled : List TopicId}
    (h : job ∈ drain.settling (resettle topic done settled)) :
    job ∈ drain.settling settled ∨
      job ∈ drain.jobs.filter fun job => done ∧ job.work.subject = some topic := by
  rcases mem_settling.mp h with ⟨hsync, other, hsubject, hmem⟩
  unfold resettle at hmem
  split at hmem
  · next hdone =>
    rcases List.mem_cons.mp hmem with hsame | hbefore
    · apply Or.inr
      rw [hsame] at hsubject
      simp [mem_syncs hsync, hdone, hsubject]
    · exact Or.inl (mem_settling.mpr ⟨hsync, other, hsubject, hbefore⟩)
  · exact Or.inl (mem_settling.mpr ⟨hsync, other, hsubject, (List.mem_filter.mp hmem).1⟩)

theorem Unheld.among {others : List Jobs.Job} (h : Unheld project s jobs topic)
    (hsub : forall job, job ∈ others -> job.work.subject = some topic -> job ∈ jobs) :
    Unheld project s others topic := by
  refine ⟨h.1, ?_⟩
  intro job hjob hwork
  apply h.2 job (hsub job hjob _) hwork
  rw [hwork]
  rfl

theorem settled_said (hinv : Inv project s) {entry : Entry} {written : Entry × Bool}
    (hsettled : forall job, job ∈ t.settledJobs -> job ∈ s.settledJobs ∨
      job ∈ drain.jobs.filter fun job => written.2 ∧ job.work.subject = some topic)
    (hall : t.settledJobs ⊆ s.settledJobs ++ drain.jobs)
    (hentry : entry = s.said topic ∨ Unheld project s (s.settledJobs ++ drain.jobs) topic)
    (hwritten : Settles (s.buffered topic) entry written) :
    written.1 = s.said topic ∨ Unheld project s t.settledJobs topic := by
  rcases hwritten with hsame | hsame | ⟨hsame, hne⟩
  · rw [hsame]
    exact hentry.imp_right (·.mono hall)
  · have hsub : t.settledJobs ⊆ s.settledJobs := by
      intro job hjob
      rcases hsettled job hjob with hold | hnew
      · exact hold
      · simp [hsame] at hnew
    rw [hsame]
    exact (hinv.buffered topic).imp_right (·.mono hsub)
  · have hsub : t.settledJobs ⊆ s.settledJobs := by
      intro job hjob
      rcases hsettled job hjob with hold | hnew
      · exact hold
      · simp [hsame] at hnew
    apply Or.inr
    rcases hinv.buffered topic with hcurrent | hunheld
    · rcases hentry with hsaid | hunheld
      · exact absurd (hcurrent.trans hsaid.symm) hne
      · exact hunheld.mono hall
    · exact hunheld.mono hsub

theorem inv_settleTopic {write : Entry -> Option (Entry × Bool)} (hinv : Inv project s)
    (hwrite : forall entry written, write entry = some written ->
      Settles (s.buffered topic) entry written)
    (hstep : s.settleTopic id topic write = some t) : Inv project t := by
  rcases settleTopic_eq hstep with
    ⟨drain, states, names, settled, entry, written, hparty, hstage, hwanted, hwritten, ht⟩
  rcases hinv.reads _ (mem_of_partyOf hparty) states names settled hstage with ⟨hlock, hfresh⟩
  have hledger : SameLedger s t := by
    constructor <;> rw [ht]
  have hlocked : t.lock = s.lock := by rw [ht]
  have hdurable : t.durable = s.durable := by rw [ht]
  have hflushers : t.flushers = s.flushers := by rw [ht]
  have hunflushed : t.unflushed = s.unflushed := by rw [ht]
  have hbuffered : t.buffered = Function.update s.buffered topic written.1 := by rw [ht]
  have hdrains := congrArg System.drains ht
  have hdrain : drain.settledJobs = drain.settling settled := by
    unfold Drain.settledJobs
    rw [hstage]
  have hsettled : forall job, job ∈ t.settledJobs -> job ∈ s.settledJobs ∨
      job ∈ drain.jobs.filter fun job => written.2 ∧ job.work.subject = some topic := by
    intro job
    apply settled_moved hparty hdrains _ _ hflushers
    · intro job hjob
      rw [hdrain]
      exact mem_resettled hjob
    · intro job hjob
      rw [hunflushed] at hjob
      exact mem_unflushed hjob
  have hall : t.settledJobs ⊆ s.settledJobs ++ drain.jobs := by
    intro job hjob
    rcases hsettled job hjob with hold | hnew
    · exact List.mem_append_left _ hold
    · exact List.mem_append_right _ (List.mem_filter.mp hnew).1
  apply hledger.inv hinv (handed_moved hinv hparty hdrains rfl)
  · exact fun job hjob => handed_reads hinv (mem_of_partyOf hparty) job (hall hjob)
  · apply reads_moved hledger hinv hdrains
    · intro _ _ _ hsyncing
      cases hsyncing
      have hamong : t.settledJobs ++ drain.jobs ⊆ s.settledJobs ++ drain.jobs :=
        List.append_subset.mpr ⟨hall, List.subset_append_right _ _⟩
      exact ⟨hlocked.trans hlock, hledger.fresh (hfresh.mono hamong)⟩
    · intro other hne hother
      rw [hlock] at hother
      exact absurd (Option.some.inj hother).symm hne
  · intro other
    rw [hbuffered]
    by_cases hother : other = topic
    · rw [hother, Function.update_self]
      exact settled_said hinv hsettled hall (hfresh.wanted hwanted) (hwrite entry written hwritten)
    · rw [Function.update_of_ne hother]
      apply (hinv.buffered other).imp_right
      intro hunheld
      apply hunheld.among
      intro job hjob hsubject
      rcases hsettled job hjob with hold | hnew
      · exact hold
      · have hnew : written.2 = true ∧ job.work.subject = some topic :=
          of_decide_eq_true (List.mem_filter.mp hnew).2
        have hsame := hnew.2
        rw [hsubject] at hsame
        exact absurd (Option.some.inj hsame) hother
  · apply durable_kept hinv hdurable
    intro job hjob
    rcases covered_moved hdrains hflushers hjob with hold | hnone
    · exact hold
    · cases hnone

theorem inv_skip (hinv : Inv project s) (hstep : s.skip id topic = some t) : Inv project t := by
  apply inv_settleTopic hinv _ hstep
  intro entry written hwrite
  rcases Option.ite_none_right_eq_some.mp hwrite with ⟨_, hsame⟩
  exact Or.inl (Option.some.inj hsame).symm

theorem inv_store (hinv : Inv project s) (hstep : s.store id topic = some t) :
    Inv project t := by
  apply inv_settleTopic hinv _ hstep
  intro entry written hwrite
  exact Or.inl (Option.some.inj hwrite).symm

theorem inv_storePart {touched : Bool} (hinv : Inv project s)
    (hstep : s.storePart id topic touched = some t) : Inv project t := by
  apply inv_settleTopic hinv _ hstep
  intro entry written hwrite
  split at hwrite
  · next hpart => exact Or.inr (Or.inr ⟨(Option.some.inj hwrite).symm, hpart.2⟩)
  · exact Or.inr (Or.inl (Option.some.inj hwrite).symm)

/-!
### Joining and leaving
-/

theorem inv_left (hinv : Inv project s) (h : SameLedger s t)
    (hdrains : forall entry, entry ∈ t.drains -> entry ∈ s.drains)
    (hsettled : t.settledJobs ⊆ s.settledJobs)
    (hlock : forall entry, entry ∈ t.drains -> s.lock = some entry.1 ->
      t.lock = some entry.1)
    (hbuffered : t.buffered = s.buffered)
    (hdurable : t.durable = s.durable ∧ t.coveredJobs ⊆ s.coveredJobs ∨
      t.durable = s.buffered) : Inv project t := by
  apply h.inv_shrunk hinv (fun entry hmem => hinv.handed entry (hdrains entry hmem)) hsettled
  · intro entry hmem
    exact (hinv.reads entry (hdrains entry hmem)).other h fun hheld =>
      ⟨hlock entry hmem hheld, hsettled⟩
  · exact hbuffered
  · rcases hdurable with ⟨hsame, hcovered⟩ | hflushed
    · exact durable_kept hinv hsame hcovered
    · exact durable_flushed hinv hflushed fun job hjob => hsettled (covered_subset t hjob)

theorem inv_dropped (hinv : Inv project s) (lock : Option Nat)
    (hlock : forall other, other ≠ id -> s.lock = some other -> lock = some other) :
    Inv project { s with lock := lock, drains := dropParty id s.drains } := by
  apply inv_left hinv
  · exact ⟨rfl, rfl, rfl, rfl⟩
  · exact fun entry => mem_dropParty
  · intro job hjob
    rcases mem_settledJobs.mp hjob with ⟨entry, hmem, hsettled⟩ | hrest
    · exact mem_settledJobs.mpr (Or.inl ⟨entry, mem_dropParty hmem, hsettled⟩)
    · exact mem_settledJobs.mpr (Or.inr hrest)
  · exact fun entry hmem => hlock entry.1 (ne_of_mem_dropParty hmem)
  · rfl
  · refine Or.inl ⟨rfl, ?_⟩
    intro job hjob
    rcases mem_coveredJobs.mp hjob with ⟨entry, hmem, hcovered⟩ | hrest
    · exact mem_coveredJobs.mpr (Or.inl ⟨entry, mem_dropParty hmem, hcovered⟩)
    · exact mem_coveredJobs.mpr (Or.inr hrest)

theorem inv_flushersDropped (hinv : Inv project s) :
    Inv project { s with flushers := dropParty id s.flushers } := by
  apply inv_left hinv
  · exact ⟨rfl, rfl, rfl, rfl⟩
  · exact fun entry hmem => hmem
  · intro job hjob
    rcases mem_settledJobs.mp hjob with hdrain | hwaiting | ⟨entry, hmem, hwaiting⟩
    · exact mem_settledJobs.mpr (Or.inl hdrain)
    · exact mem_settledJobs.mpr (Or.inr (Or.inl hwaiting))
    · exact mem_settledJobs.mpr (Or.inr (Or.inr ⟨entry, mem_dropParty hmem, hwaiting⟩))
  · exact fun entry _ hheld => hheld
  · rfl
  · refine Or.inl ⟨rfl, ?_⟩
    intro job hjob
    rcases mem_coveredJobs.mp hjob with hdrain | ⟨entry, hmem, hcovered⟩
    · exact mem_coveredJobs.mpr (Or.inl hdrain)
    · exact mem_coveredJobs.mpr (Or.inr ⟨entry, mem_dropParty hmem, hcovered⟩)

theorem inv_complete {reads : List Jobs.Job} (hinv : Inv project s)
    (hstep : s.complete id reads = some t) : Inv project t := by
  rcases Option.bind_eq_some_iff.mp hstep with ⟨drain, hparty, hnext⟩
  split at hnext
  · next done hstage =>
    rcases Option.ite_none_right_eq_some.mp hnext with ⟨⟨_, hreads⟩, hnext⟩
    rcases Option.map_eq_some_iff.mp hnext with ⟨u, hsettle, rfl⟩
    have hkept : Inv project u := by
      apply inv_settle hinv hsettle
      intro worker completed hstatement
      cases hstatement
      refine ⟨rfl, ?_⟩
      intro job hjob hkind
      rcases List.mem_append.mp hjob with hdone | hread
      · apply mem_coveredJobs.mpr
        refine Or.inl ⟨_, mem_of_partyOf hparty, ?_⟩
        unfold Drain.coveredJobs
        rw [hstage]
        exact hdone
      · exact absurd hkind (hreads job hread)
    rcases settle_eq hsettle with ⟨outbox, _, rfl⟩
    exact inv_dropped hkept s.lock fun _ _ hheld => hheld
  · cases hnext

theorem inv_completeTaken (hinv : Inv project s) (hstep : s.completeTaken id = some t) :
    Inv project t := by
  rcases Option.bind_eq_some_iff.mp hstep with ⟨flusher, hparty, hnext⟩
  rcases Option.ite_none_right_eq_some.mp hnext with ⟨hcovered, hnext⟩
  rcases Option.map_eq_some_iff.mp hnext with ⟨u, hsettle, rfl⟩
  have hkept : Inv project u := by
    apply inv_settle hinv hsettle
    intro worker completed hstatement
    cases hstatement
    refine ⟨rfl, ?_⟩
    intro job hjob _
    apply mem_coveredJobs.mpr
    refine Or.inr ⟨_, mem_of_partyOf hparty, ?_⟩
    unfold Flusher.coveredJobs
    rw [if_pos hcovered]
    exact hjob
  rcases settle_eq hsettle with ⟨outbox, _, rfl⟩
  exact inv_flushersDropped hkept

theorem inv_take (hinv : Inv project s) (hstep : s.take id = some t) : Inv project t := by
  rcases Option.ite_none_left_eq_some.mp hstep with ⟨_, hsame⟩
  cases hsame
  apply inv_left hinv
  · exact ⟨rfl, rfl, rfl, rfl⟩
  · exact fun entry hmem => hmem
  · intro job hjob
    rcases mem_settledJobs.mp hjob with hdrain | hnone | ⟨entry, hmem, hwaiting⟩
    · exact mem_settledJobs.mpr (Or.inl hdrain)
    · cases hnone
    · rcases List.mem_append.mp hmem with hold | hnew
      · exact mem_settledJobs.mpr (Or.inr (Or.inr ⟨entry, hold, hwaiting⟩))
      · rw [List.mem_singleton.mp hnew] at hwaiting
        exact mem_unflushed hwaiting
  · exact fun entry _ hheld => hheld
  · rfl
  · refine Or.inl ⟨rfl, ?_⟩
    intro job hjob
    rcases mem_coveredJobs.mp hjob with hdrain | ⟨entry, hmem, hcovered⟩
    · exact mem_coveredJobs.mpr (Or.inl hdrain)
    · rcases List.mem_append.mp hmem with hold | hnew
      · exact mem_coveredJobs.mpr (Or.inr ⟨entry, hold, hcovered⟩)
      · rw [List.mem_singleton.mp hnew] at hcovered
        cases hcovered

theorem inv_flushTaken (hinv : Inv project s) (hstep : s.flushTaken id = some t) :
    Inv project t := by
  rcases Option.map_eq_some_iff.mp hstep with ⟨flusher, hparty, rfl⟩
  apply inv_left hinv
  · exact ⟨rfl, rfl, rfl, rfl⟩
  · exact fun entry hmem => hmem
  · intro job hjob
    rcases mem_settledJobs.mp hjob with hdrain | hwaiting | ⟨entry, hmem, hwaiting⟩
    · exact mem_settledJobs.mpr (Or.inl hdrain)
    · exact mem_unflushed hwaiting
    · rcases mem_setParty hmem with hnew | ⟨hold, _⟩
      · rw [hnew] at hwaiting
        exact mem_settledJobs.mpr (Or.inr (Or.inr ⟨_, mem_of_partyOf hparty, hwaiting⟩))
      · exact mem_settledJobs.mpr (Or.inr (Or.inr ⟨entry, hold, hwaiting⟩))
  · exact fun entry _ hheld => hheld
  · rfl
  · exact Or.inr rfl

theorem inv_claim {now : Instant} {owed : Owed} {batch : Nat} {locked : List IndexJobId}
    (hinv : Inv project s) (hstep : s.claim project id now owed batch locked = some t) :
    Inv project t := by
  rcases Option.ite_none_left_eq_some.mp hstep with ⟨_, hnext⟩
  rcases Option.map_eq_some_iff.mp hnext with ⟨u, hsettle, ht⟩
  have hkept : Inv project u := by
    apply inv_settle hinv hsettle
    intro worker done hstatement
    cases hstatement
  rcases settle_eq hsettle with ⟨outbox, hclaim, rfl⟩
  have hledger : SameLedger { s with outbox := outbox } t := by
    constructor <;> rw [← ht]
  have hdrains := (congrArg System.drains ht).symm
  have hunflushed : t.unflushed = s.unflushed := by rw [← ht]
  have hflushers : t.flushers = s.flushers := by rw [← ht]
  have hlock : t.lock = s.lock := by rw [← ht]
  have hsettled : t.settledJobs ⊆ s.settledJobs := by
    intro job hjob
    rcases mem_settledJobs.mp hjob with ⟨entry, hmem, hsettled⟩ | hrest
    · rw [hdrains] at hmem
      rcases List.mem_append.mp hmem with hold | hnew
      · exact mem_settledJobs.mpr (Or.inl ⟨entry, hold, hsettled⟩)
      · rw [List.mem_singleton.mp hnew] at hsettled
        cases hsettled
    · rw [hunflushed, hflushers] at hrest
      exact mem_settledJobs.mpr (Or.inr hrest)
  apply hledger.inv_shrunk hkept
  · rw [hdrains]
    apply forall_joined hkept.handed
    intro job hjob
    rcases Option.ite_none_right_eq_some.mp hclaim with ⟨_, hsame⟩
    rw [← Option.some.inj hsame]
    exact List.mem_append_right _ (List.mem_map_of_mem hjob)
  · exact hsettled
  · rw [hdrains]
    apply forall_joined
    · intro entry hmem
      apply (hkept.reads entry hmem).other hledger
      exact fun hheld => ⟨hlock.trans hheld, hsettled⟩
    · exact reads_idle fun _ _ _ hsyncing => nomatch hsyncing
  · rw [← ht]
  · apply durable_kept hkept
    · rw [← ht]
    · intro job hjob
      rcases mem_coveredJobs.mp hjob with ⟨entry, hmem, hcovered⟩ | hrest
      · rw [hdrains] at hmem
        rcases List.mem_append.mp hmem with hold | hnew
        · exact mem_coveredJobs.mpr (Or.inl ⟨entry, hold, hcovered⟩)
        · rw [List.mem_singleton.mp hnew] at hcovered
          cases hcovered
      · rw [hflushers] at hrest
        exact mem_coveredJobs.mpr (Or.inr hrest)

theorem inv_write {now : Instant} {kind : Topics.SourceKind} {found : Bool} {current : Current}
    {name : String} {drawn : Topics.Drawn} (hinv : Inv project s)
    (hstep : s.write project now kind found topic current name drawn = some t) :
    Inv project t := by
  rcases Option.map_eq_some_iff.mp hstep with ⟨u, hsettle, rfl⟩
  have howed : (drawn.sync, Jobs.JobKind.syncTopicIndex) ∈ Topics.owedBy kind found drawn := by
    unfold Topics.owedBy
    split
    · simp
    · simp
  apply inv_request hinv howed hsettle
  · intro other hne
    exact AList.lookup_insert_ne hne
  · intro other hne
    cases found with
    | true => rfl
    | false => exact Function.update_of_ne hne name s.names

theorem inv_retire {now : Instant} {jobs : IndexJobId × IndexJobId} (hinv : Inv project s)
    (hstep : s.retire project now topic jobs = some t) : Inv project t := by
  rcases Option.ite_none_right_eq_some.mp hstep with ⟨_, hnext⟩
  rcases Option.map_eq_some_iff.mp hnext with ⟨u, hsettle, rfl⟩
  have hmemories : forall other, other ≠ topic ->
      (s.memories.erase topic).lookup other = s.memories.lookup other :=
    fun other hne => AList.lookup_erase_ne hne
  have hnames : forall other, other ≠ topic -> s.names other = s.names other := fun _ _ => rfl
  have hkept := inv_request hinv List.mem_cons_self hsettle hmemories hnames
  rcases settle_eq hsettle with ⟨outbox, _, rfl⟩
  exact hkept

theorem inv_rename {now : Instant} {name : String} {job : IndexJobId} (hinv : Inv project s)
    (hstep : s.rename project now topic name job = some t) : Inv project t := by
  rcases Option.map_eq_some_iff.mp hstep with ⟨u, hsettle, rfl⟩
  have hmemories : forall other, other ≠ topic ->
      s.memories.lookup other = s.memories.lookup other := fun _ _ => rfl
  have hnames : forall other, other ≠ topic ->
      Function.update s.names topic name other = s.names other :=
    fun other hne => Function.update_of_ne hne name s.names
  have hkept := inv_request hinv List.mem_cons_self hsettle hmemories hnames
  rcases settle_eq hsettle with ⟨outbox, _, rfl⟩
  exact hkept

theorem inv_persist (hinv : Inv project s) (topics : List TopicId) :
    Inv project
      { s with
        durable := fun topic =>
          if topic ∈ topics then s.buffered topic else s.durable topic } := by
  have hledger : SameLedger s
      { s with
        durable := fun topic =>
          if topic ∈ topics then s.buffered topic else s.durable topic } :=
    ⟨rfl, rfl, rfl, rfl⟩
  apply hledger.inv_shrunk hinv hinv.handed
  · exact List.Subset.refl _
  · intro entry hmem
    exact (hinv.reads entry hmem).other hledger fun hheld => ⟨hheld, List.Subset.refl _⟩
  · rfl
  · intro topic
    show (if topic ∈ topics then s.buffered topic else s.durable topic) = s.said topic ∨
      Unheld project s s.coveredJobs topic
    split
    · exact (hinv.buffered topic).imp_right (·.mono (covered_subset s))
    · exact hinv.durable topic

theorem pending_of_ne (hinv : Inv project s) (hne : s.buffered topic ≠ s.durable topic) :
    Jobs.Pending s.outbox.queue (syncWork project topic) := by
  rcases hinv.buffered topic with hbuffered | hunheld
  · rcases hinv.durable topic with hdurable | hunheld
    · exact absurd (hbuffered.trans hdurable.symm) hne
    · exact hunheld.1
  · exact hunheld.1

theorem inv_restart (hinv : Inv project s) (worker : String) (kept torn : List TopicId) :
    Inv project (s.restart worker kept torn) := by
  have hnone : forall {topic}, Jobs.Pending s.outbox.queue (syncWork project topic) ->
      Unheld project (s.restart worker kept torn) [] topic :=
    fun hpending => ⟨hpending, fun job hjob => nomatch hjob⟩
  constructor
  · exact hinv.consistent
  · exact fun entry hmem => nomatch hmem
  · exact fun job hjob => nomatch hjob
  · exact fun entry hmem => nomatch hmem
  · intro topic
    show (if topic ∈ torn ∧ s.buffered topic ≠ s.durable topic then Entry.part
      else if topic ∈ kept then s.buffered topic else s.durable topic) = s.said topic ∨ _
    split
    · next hpart => exact Or.inr (hnone (pending_of_ne hinv hpart.2))
    · split
      · exact (hinv.buffered topic).imp_right fun hunheld => hnone hunheld.1
      · exact (hinv.durable topic).imp_right fun hunheld => hnone hunheld.1
  · intro topic
    exact (hinv.durable topic).imp_right fun hunheld => hnone hunheld.1

theorem inv_opened (worker : String) : Inv project (System.opened worker) where
  consistent := Jobs.consistent_empty
  handed := fun _ hmem => nomatch hmem
  settled := fun _ hjob => nomatch hjob
  reads := fun _ hmem => nomatch hmem
  buffered := fun _ => Or.inl rfl
  durable := fun _ => Or.inl rfl

theorem inv_step : Preserved (step project) (Inv project) := by
  intro s action t hinv hstep
  have hplain : forall {statement : Jobs.Statement}, s.settle statement = some t ->
      (forall worker done, statement ≠ Jobs.Statement.complete worker done) -> Inv project t :=
    fun hsettle hnot => inv_settle hinv hsettle fun worker done hsame =>
      absurd hsame (hnot worker done)
  cases action with
  | write now kind found topic current name drawn => exact inv_write hinv hstep
  | retire now topic jobs => exact inv_retire hinv hstep
  | rename now topic name job => exact inv_rename hinv hstep
  | replay now => exact hplain hstep fun _ _ hsame => nomatch hsame
  | claim id now owed batch locked => exact inv_claim hinv hstep
  | unread id => exact inv_unread hinv hstep
  | read id => exact inv_read hinv hstep
  | readNames id topics => exact inv_readNames hinv hstep
  | skip id topic => exact inv_skip hinv hstep
  | store id topic => exact inv_store hinv hstep
  | storePart id topic touched => exact inv_storePart hinv hstep
  | release id => exact inv_release hinv hstep
  | flush id => exact inv_flush hinv hstep
  | fail id now job error =>
      rcases Option.bind_eq_some_iff.mp hstep with ⟨drain, _, hnext⟩
      split at hnext
      · rcases Option.ite_none_right_eq_some.mp hnext with ⟨_, hsettle⟩
        exact hplain hsettle fun _ _ hsame => nomatch hsame
      · cases hnext
  | complete id reads => exact inv_complete hinv hstep
  | leave id =>
      cases hstep
      exact inv_dropped hinv (s.released id) fun other => released_other
  | take id => exact inv_take hinv hstep
  | flushTaken id => exact inv_flushTaken hinv hstep
  | completeTaken id => exact inv_completeTaken hinv hstep
  | leaveTaken id =>
      cases hstep
      exact inv_flushersDropped hinv
  | persist topics =>
      cases hstep
      exact inv_persist hinv topics
  | restart worker kept torn =>
      cases hstep
      exact inv_restart hinv worker kept torn

end Moves

/--
In every order of writes, retirements and renames with drains, flushes and restarts, a topic
whose index sync is not owed is durable in the index as what it says now, or as nothing if
it says nothing.
-/
theorem index_sync_converges {project : ProjectId} {worker : String} {actions : List Action}
    {s : System} (hrun : RunFrom (step project) (System.opened worker) actions = some s)
    (topic : TopicId) (hsynced : Synced project s topic) :
    s.durable topic = entryOf (s.memories.lookup topic) (s.names topic) := by
  rcases (runFrom_preserved inv_step (inv_opened worker) hrun).durable topic with
    hsaid | hunheld
  · exact hsaid
  · exact absurd hunheld.1 hsynced

section Overtaken

def drawnAt (n : Nat) : Topics.Drawn :=
  { source := n, version := n, span := n, topic := n, state := n, sync := n, derive := n + 1
    backfill := n + 2 }

def written (now : Instant) (state : TopicStateId) (content : String) (found : Bool) : Action :=
  Action.write now Topics.SourceKind.file found 5 { state := state, content := content } "five"
    (drawnAt (10 * state))

def synced (id : Nat) : List Action :=
  [Action.read id, Action.readNames id [5], Action.store id 5, Action.release id]

def overtaken : List Action :=
  [written 0 1 "old" false, Action.claim 0 1 Owed.everything 8 [], written 2 2 "new" true,
    Action.claim 1 3 Owed.whatAMemoryNeeds 8 []] ++
      synced 1 ++ [Action.complete 1 [], Action.take 0, Action.flushTaken 0] ++
        synced 0 ++ [Action.completeTaken 0, Action.flush 0, Action.complete 0 []]

theorem index_sync_converges_overtaken :
    exists s, RunFrom (step 0) (System.opened "host:1") overtaken = some s ∧
      s.durable 5 = entryOf (s.memories.lookup 5) (s.names 5) := by
  have hends : (RunFrom (step 0) (System.opened "host:1") overtaken).any
      (fun s => decide (Synced 0 s 5)) = true := by decide
  rcases (Option.any_eq_true _ _).mp hends with ⟨s, hrun, hsynced⟩
  exact ⟨s, hrun, index_sync_converges hrun 5 (of_decide_eq_true hsynced)⟩

end Overtaken

end Syncing
end PaminMemory
