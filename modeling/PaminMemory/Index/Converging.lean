import PaminMemory.Foundation.Memo
import PaminMemory.Index.Rebuild

/-!
# Every order of a rebuild and its drains

A topic whose sync is not owed is indexed as what it says, or was not touched since
the engine opened and is the rebuild's to write.  One sync runs at a time, and what
it read is what the topic says or is owed again to somebody who has not settled it.
-/

namespace PaminMemory
namespace Rebuild

open Foundation Index
open Topics (Current Memories)

section Converging

variable {cut : TopicId -> String -> Cut} {project : ProjectId}

/-!
## What a rebuild writes
-/

theorem writeAll_entries {entries : List (Sigma fun _ : TopicId => Current)}
    (hnodup : entries.NodupKeys) (documents : Documents) (topic : TopicId) :
    entries.foldl
        (fun documents entry => documents.writeSpans entry.1 (cut entry.1 entry.2.content).val)
        documents topic =
      match entries.dlookup topic with
      | none => documents topic
      | some current => documents.writeSpans topic (cut topic current.content).val topic := by
  induction entries generalizing documents with
  | nil => rfl
  | cons first rest ih =>
      rcases first with ⟨written, current⟩
      rw [List.nodupKeys_cons] at hnodup
      rw [List.foldl_cons, ih hnodup.2]
      cases hsame : decide (topic = written) with
      | true =>
          rcases of_decide_eq_true hsame with rfl
          rw [List.dlookup_cons_eq, List.dlookup_eq_none.mpr hnodup.1]
      | false =>
          have hne := of_decide_eq_false hsame
          have hother : forall spans, documents.writeSpans written spans topic = documents topic :=
            fun spans => Documents.writeSpans_of_ne hne
          rw [List.dlookup_cons_ne _ _ hne]
          cases rest.dlookup topic with
          | none => exact hother _
          | some said => exact Documents.writeSpans_congr (hother _)

theorem writeSpans_exact {documents : Documents} {topic : TopicId} {spans : List Span}
    (h : documents topic = spans ∨ documents topic = []) :
    documents.writeSpans topic spans topic = spans := by
  unfold Documents.writeSpans
  rw [Function.update_self]
  rcases h with hsame | hnone
  · rw [hsame, List.drop_length, List.append_nil]
  · rw [hnone, List.drop_nil, List.append_nil]

/-!
## What every step keeps
-/

variable (cut project)

def Untaken (s : System) (topic : TopicId) : Prop :=
  Jobs.Owed (Jobs.Round.Before fun stage => stage = Stage.idle) s.outbox.queue s.drains
    (syncWork project topic)

/-- Nothing was written of the topic since the engine opened, and the rebuild has it to write. -/
def Untouched (s : System) (topic : TopicId) : Prop :=
  s.documents topic = [] ∧
    match s.phase with
    | Phase.opened => True
    | Phase.gathered states => states.lookup topic = s.memories.lookup topic
    | Phase.returned => False

/-- What a round read of a topic is what the topic says, or the topic is owed to others. -/
def Fresh (s : System) (read : List (TopicId × Option Current)) : Prop :=
  forall topic current, read.lookup topic = some current ->
    current = s.memories.lookup topic ∨ Untaken project s topic

structure Inv (s : System) : Prop where
  consistent : Jobs.Consistent s.outbox
  handed : Jobs.HandedOut s.outbox.history s.drains
  within : Jobs.Within s.drains
  alone : (s.drains.map Prod.fst).Nodup
  reads : forall entry, entry ∈ s.drains -> forall read stored,
    entry.2.stage = Stage.syncing read stored ->
      s.syncing = some entry.1 ∧ Fresh project s read
  topics : forall topic, Exact cut s topic ∨ Resync project s topic ∨ Untouched s topic

variable {cut project}

theorem inv_empty : Inv cut project System.empty where
  consistent := Jobs.consistent_empty
  handed := fun _ hmem => nomatch hmem
  within := fun _ hmem => nomatch hmem
  alone := List.nodup_nil
  reads := fun _ hmem => nomatch hmem
  topics := fun _ => Or.inl rfl

/-!
## Statements of the queue
-/

section Queue

variable {s t : System} {statement : Jobs.Statement} {outbox : Jobs.Outbox}

def CompletesDone (s : System) (statement : Jobs.Statement) : Prop :=
  forall worker jobs, statement = Jobs.Statement.complete worker jobs ->
    exists entry, entry ∈ s.drains ∧ entry.2.worker = worker ∧ jobs ⊆ entry.2.done

theorem owed_settled {ready : Stage -> Prop} {work : Jobs.Work} (hinv : Inv cut project s)
    (hstep : Jobs.step s.outbox statement = some outbox) (hdone : CompletesDone s statement)
    (howed : Jobs.Owed (Jobs.Round.Before ready) s.outbox.queue s.drains work) :
    Jobs.Owed (Jobs.Round.Before ready) outbox.queue s.drains work := by
  apply Jobs.owed_step hinv.consistent hinv.handed hstep _ howed
  intro worker jobs hstatement
  rcases hdone worker jobs hstatement with ⟨entry, hmem, hworker, hjobs⟩
  refine ⟨entry, hmem, hworker, ?_⟩
  intro job hjob
  exact ⟨(hinv.within entry hmem).1 (hjobs hjob), fun hbefore => hbefore.1 (hjobs hjob)⟩

theorem inv_settled (hinv : Inv cut project s)
    (hstep : Jobs.step s.outbox statement = some outbox) (hdone : CompletesDone s statement) :
    Inv cut project { s with outbox := outbox } := by
  have hkept : forall {ready : Stage -> Prop} {work : Jobs.Work},
      Jobs.Owed (Jobs.Round.Before ready) s.outbox.queue s.drains work ->
        Jobs.Owed (Jobs.Round.Before ready) outbox.queue s.drains work :=
    fun howed => owed_settled hinv hstep hdone howed
  constructor
  · exact Jobs.consistent_step _ _ _ hinv.consistent hstep
  · exact fun entry hmem job hjob => Jobs.history_step hstep (hinv.handed entry hmem job hjob)
  · exact hinv.within
  · exact hinv.alone
  · intro entry hmem read stored hstage
    have hreads := hinv.reads entry hmem read stored hstage
    refine ⟨hreads.1, ?_⟩
    intro topic current hread
    exact (hreads.2 topic current hread).imp_right fun howed => hkept howed
  · intro topic
    rcases hinv.topics topic with hexact | howed | huntouched
    · exact Or.inl hexact
    · exact Or.inr (Or.inl (hkept howed))
    · exact Or.inr (Or.inr huntouched)

theorem inv_settle (hinv : Inv cut project s) (hstep : s.settle statement = some t)
    (hdone : CompletesDone s statement) : Inv cut project t := by
  rcases Option.map_eq_some_iff.mp hstep with ⟨outbox, hsettled, rfl⟩
  exact inv_settled hinv hsettled hdone

theorem inv_asked {now : Instant} {topic : TopicId} {kinds : List (IndexJobId × Jobs.JobKind)}
    {id : IndexJobId} {memories : Memories} (hinv : Inv cut project s)
    (hkind : (id, Jobs.JobKind.syncTopicIndex) ∈ kinds)
    (hstep : Jobs.step s.outbox (Jobs.Statement.enqueue now project (some topic) kinds) =
      some outbox)
    (hothers : forall other, other ≠ topic ->
      memories.lookup other = s.memories.lookup other) :
    Inv cut project { s with outbox := outbox, memories := memories } := by
  have hdone : CompletesDone s (Jobs.Statement.enqueue now project (some topic) kinds) :=
    fun _ _ hsame => nomatch hsame
  have hsettled := inv_settled hinv hstep hdone
  have hasked : forall ready : Stage -> Prop, Jobs.Owed (Jobs.Round.Before ready) outbox.queue
      s.drains (syncWork project topic) :=
    fun _ => Jobs.owed_requested hinv.consistent hinv.handed hkind hstep
  constructor
  · exact hsettled.consistent
  · exact hsettled.handed
  · exact hsettled.within
  · exact hsettled.alone
  · intro entry hmem read stored hstage
    have hreads := hsettled.reads entry hmem read stored hstage
    refine ⟨hreads.1, ?_⟩
    intro other current hread
    rcases Decidable.em (other = topic) with rfl | hne
    · exact Or.inr (hasked _)
    · show current = memories.lookup other ∨ _
      rw [hothers other hne]
      exact hreads.2 other current hread
  · intro other
    rcases Decidable.em (other = topic) with rfl | hne
    · exact Or.inr (Or.inl (hasked _))
    · rcases hsettled.topics other with hexact | howed | huntouched
      · refine Or.inl ?_
        unfold Exact spansOf at hexact ⊢
        rw [hothers other hne]
        exact hexact
      · exact Or.inr (Or.inl howed)
      · refine Or.inr (Or.inr ⟨huntouched.1, ?_⟩)
        have hphase := huntouched.2
        dsimp only at hphase ⊢
        rw [hothers other hne]
        exact hphase

end Queue

/-!
## A round's own steps
-/

section Moves

variable {s t : System} {id : Nat} {round moved : Drain} {topic : TopicId}

theorem idle_of_held (hinv : Inv cut project s) (hheld : s.syncing = some id)
    {entry : Nat × Drain} (hmem : entry ∈ s.drains) (hne : entry.1 ≠ id)
    {read : List (TopicId × Option Current)} {stored : List TopicId} :
    entry.2.stage ≠ Stage.syncing read stored := by
  intro hstage
  have hlock := (hinv.reads entry hmem read stored hstage).1
  rw [hheld] at hlock
  exact hne (Option.some.inj hlock).symm

structure Moved (s t : System) (id : Nat) (round moved : Drain) : Prop where
  worker : moved.worker = round.worker
  jobs : moved.jobs = round.jobs
  within : moved.done ⊆ moved.jobs ∧ moved.batch ⊆ moved.jobs
  outbox : t.outbox = s.outbox
  memories : t.memories = s.memories
  phase : t.phase = s.phase
  drains : t.drains = setParty id moved s.drains

theorem owed_kept {ready : Stage -> Prop} {work : Jobs.Work} (h : Moved s t id round moved)
    (hround : partyOf s.drains id = some round)
    (hready : forall job, job ∈ round.jobs -> job.work = work -> round.Before ready job ->
      moved.Before ready job)
    (howed : Jobs.Owed (Jobs.Round.Before ready) s.outbox.queue s.drains work) :
    Jobs.Owed (Jobs.Round.Before ready) t.outbox.queue t.drains work := by
  rw [h.outbox, h.drains]
  exact Jobs.owed_moved hround howed h.worker h.jobs fun job hjob hwork _ => hready job hjob hwork

theorem inv_moved (hinv : Inv cut project s) (hround : partyOf s.drains id = some round)
    (h : Moved s t id round moved)
    (hmine : forall read stored, moved.stage = Stage.syncing read stored ->
      t.syncing = some id ∧ Fresh project t read)
    (hothers : forall entry, entry ∈ s.drains -> entry.1 ≠ id -> forall read stored,
      entry.2.stage = Stage.syncing read stored ->
        t.syncing = some entry.1 ∧ Fresh project t read)
    (htopics : forall topic, Exact cut t topic ∨ Resync project t topic ∨ Untouched t topic) :
    Inv cut project t where
  consistent := by
    rw [h.outbox]
    exact hinv.consistent
  handed := by
    unfold Jobs.HandedOut
    rw [h.outbox, h.drains]
    apply forall_moved hinv.handed
    rw [h.jobs, h.worker]
    exact hinv.handed (id, round) (mem_of_partyOf hround)
  within := by
    unfold Jobs.Within
    rw [h.drains]
    exact forall_moved hinv.within h.within
  alone := by
    rw [h.drains, ids_setParty]
    exact hinv.alone
  reads := by
    rw [h.drains]
    intro entry hmem read stored hstage
    rcases mem_setParty hmem with rfl | ⟨hold, hne⟩
    · exact hmine read stored hstage
    · exact hothers entry hold hne read stored hstage
  topics := htopics

theorem before_of_stopped {ready : Stage -> Prop} {job : Jobs.Job}
    (hstage : moved.batch = []) (hdone : job ∉ moved.done) : moved.Before ready job := by
  refine ⟨hdone, ?_⟩
  rw [hstage]
  intro hjob
  cases hjob

theorem inv_stop (hinv : Inv cut project s)
    (hstep : step cut project s (Action.stop id) = some t) : Inv cut project t := by
  rcases Option.map_eq_some_iff.mp hstep with ⟨round, hround, rfl⟩
  have hmoved : Moved s { s with
        syncing := s.released id
        drains := setParty id { round with batch := [], stage := Stage.idle } s.drains }
      id round { round with batch := [], stage := Stage.idle } :=
    { worker := rfl, jobs := rfl
      within := ⟨(hinv.within _ (mem_of_partyOf hround)).1, List.nil_subset _⟩
      outbox := rfl, memories := rfl, phase := rfl, drains := rfl }
  apply inv_moved hinv hround hmoved
  · exact fun read stored hstage => nomatch hstage
  · intro entry hmem hne read stored hstage
    have hreads := hinv.reads entry hmem read stored hstage
    constructor
    · show s.released id = some entry.1
      unfold System.released
      rw [if_neg]
      · exact hreads.1
      · intro hheld
        exact idle_of_held hinv hheld hmem hne hstage
    · intro topic current hread
      refine (hreads.2 topic current hread).imp_right fun howed => ?_
      exact owed_kept hmoved hround (fun _ _ _ hbefore => before_of_stopped rfl hbefore.1) howed
  · intro topic
    rcases hinv.topics topic with hexact | howed | huntouched
    · exact Or.inl hexact
    · refine Or.inr (Or.inl ?_)
      exact owed_kept hmoved hround (fun _ _ _ hbefore => before_of_stopped rfl hbefore.1) howed
    · exact Or.inr (Or.inr huntouched)

theorem inv_synced (hinv : Inv cut project s)
    (hstep : step cut project s (Action.synced id) = some t) : Inv cut project t := by
  simp only [step, System.synced] at hstep
  split at hstep
  · next worker jobs batch read stored done hround =>
      cases hstep
      have hmem := mem_of_partyOf hround
      have hwithin := hinv.within _ hmem
      have hheld := (hinv.reads _ hmem read stored rfl).1
      let finished := batch.filter fun job =>
        job.work.subject.any fun topic => decide (topic ∈ stored)
      have hmoved : Moved s { s with
            syncing := s.released id
            unflushed := s.unflushed ++ finished
            drains := setParty id
              { worker, jobs, batch := [], stage := Stage.idle, done := done ++ finished }
              s.drains }
          id { worker, jobs, batch, stage := Stage.syncing read stored, done }
          { worker, jobs, batch := [], stage := Stage.idle, done := done ++ finished } :=
        { worker := rfl, jobs := rfl
          within := ⟨List.append_subset.mpr
            ⟨hwithin.1, fun job hjob => hwithin.2 (List.mem_filter.mp hjob).1⟩, List.nil_subset _⟩
          outbox := rfl, memories := rfl, phase := rfl, drains := rfl }
      apply inv_moved hinv hround hmoved
      · exact fun read stored hstage => nomatch hstage
      · intro entry hentry hne read stored hstage
        exact absurd hstage (idle_of_held hinv hheld hentry hne)
      · intro topic
        rcases hinv.topics topic with hexact | howed | huntouched
        · exact Or.inl hexact
        · refine Or.inr (Or.inl (owed_kept hmoved hround ?_ howed))
          intro job _ hwork hbefore
          apply before_of_stopped rfl
          -- a job is done only with its topic stored, which whoever owes it has not
          intro hdone
          rcases List.mem_append.mp hdone with hearlier | hnow
          · exact hbefore.1 hearlier
          · rcases List.mem_filter.mp hnow with ⟨hbatch, hstored⟩
            rw [hwork] at hstored
            exact hbefore.2 hbatch (of_decide_eq_true hstored)
        · exact Or.inr (Or.inr huntouched)
  · cases hstep

theorem inv_sync {batch : List Jobs.Job} (hinv : Inv cut project s)
    (hstep : step cut project s (Action.sync id batch) = some t) : Inv cut project t := by
  simp only [step, System.sync] at hstep
  split at hstep
  · cases hstep
  · next round hround =>
      rcases Option.ite_none_right_eq_some.mp hstep with ⟨⟨hfree, hidle, hbatch, _⟩, hnext⟩
      cases hnext
      have hmem := mem_of_partyOf hround
      let read := (subjects batch).map fun topic => (topic, s.memories.lookup topic)
      have hmoved : Moved s { s with
            syncing := some id
            drains := setParty id
              { round with batch := batch, stage := Stage.syncing read [] } s.drains }
          id round { round with batch := batch, stage := Stage.syncing read [] } :=
        { worker := rfl, jobs := rfl, within := ⟨(hinv.within _ hmem).1, hbatch⟩
          outbox := rfl, memories := rfl, phase := rfl, drains := rfl }
      apply inv_moved hinv hround hmoved
      · intro read' stored hstage
        cases hstage
        refine ⟨rfl, ?_⟩
        intro topic current hread
        exact Or.inl (lookup_asked (fun topic => s.memories.lookup topic) hread)
      · intro entry hentry _ read' stored hstage
        have hlock := (hinv.reads entry hentry read' stored hstage).1
        rw [hfree] at hlock
        cases hlock
      · intro topic
        rcases hinv.topics topic with hexact | howed | huntouched
        · exact Or.inl hexact
        · refine Or.inr (Or.inl (owed_kept hmoved hround ?_ howed))
          exact fun _ _ _ hbefore => ⟨hbefore.1, fun _ => List.not_mem_nil⟩
        · exact Or.inr (Or.inr huntouched)

theorem inv_settleTopic {write : Option Current -> Option Documents} (hinv : Inv cut project s)
    (hwrite : forall current documents, write current = some documents ->
      documents = Function.update s.documents topic (spansFor cut topic current))
    (hstep : s.settleTopic id topic write = some t) : Inv cut project t := by
  unfold System.settleTopic at hstep
  split at hstep
  · next worker jobs batch read stored done hround =>
      rcases Option.bind_eq_some_iff.mp hstep with ⟨current, hread, hnext⟩
      rcases Option.map_eq_some_iff.mp hnext with ⟨documents, hdocuments, rfl⟩
      have hmem := mem_of_partyOf hround
      have hreads := hinv.reads _ hmem read stored rfl
      have hmoved : Moved s { s with
            documents := documents
            drains := setParty id
              { worker, jobs, batch, stage := Stage.syncing read (topic :: stored), done }
              s.drains }
          id { worker, jobs, batch, stage := Stage.syncing read stored, done }
          { worker, jobs, batch, stage := Stage.syncing read (topic :: stored), done } :=
        { worker := rfl, jobs := rfl, within := hinv.within _ hmem
          outbox := rfl, memories := rfl, phase := rfl, drains := rfl }
      have hwritten := hwrite current documents hdocuments
      have huntaken : forall other, Untaken project s other -> Untaken project { s with
            documents := documents
            drains := setParty id
              { worker, jobs, batch, stage := Stage.syncing read (topic :: stored), done }
              s.drains } other := by
        intro other howed
        refine owed_kept hmoved hround ?_ howed
        exact fun _ _ _ hbefore => ⟨hbefore.1, fun hjob => nomatch hbefore.2 hjob⟩
      apply inv_moved hinv hround hmoved
      · intro read' stored' hstage
        cases hstage
        refine ⟨hreads.1, ?_⟩
        intro other said hsaid
        exact (hreads.2 other said hsaid).imp_right (huntaken other)
      · intro entry hentry hne read' stored' hstage
        exact absurd hstage (idle_of_held hinv hreads.1 hentry hne)
      · intro other
        rcases Decidable.em (other = topic) with rfl | hne
        · rcases hreads.2 other current hread with hsame | howed
          · refine Or.inl ?_
            show documents other = spansOf cut s.memories other
            rw [hwritten, Function.update_self, hsame]
            rfl
          · refine Or.inr (Or.inl ⟨(huntaken other howed).1, ?_⟩)
            intro entry hentry job hjob hwork hholds
            have hbefore := (huntaken other howed).2 entry hentry job hjob hwork hholds
            refine ⟨hbefore.1, fun hbatch => ?_⟩
            rw [hbefore.2 hbatch]
            exact True.intro
        · rcases hinv.topics other with hexact | howed | huntouched
          · refine Or.inl ?_
            show documents other = spansOf cut s.memories other
            rw [hwritten, Function.update_of_ne hne]
            exact hexact
          · refine Or.inr (Or.inl (owed_kept hmoved hround ?_ howed))
            intro job _ _ hbefore
            refine ⟨hbefore.1, fun hbatch hstored => ?_⟩
            rcases List.mem_cons.mp hstored with hsame | hearlier
            · exact hne hsame
            · exact hbefore.2 hbatch hearlier
          · refine Or.inr (Or.inr ⟨?_, huntouched.2⟩)
            show documents other = []
            rw [hwritten, Function.update_of_ne hne]
            exact huntouched.1
  · cases hstep

theorem inv_skip (hinv : Inv cut project s)
    (hstep : step cut project s (Action.skip id topic) = some t) : Inv cut project t := by
  apply inv_settleTopic hinv _ hstep
  intro current documents hwrite
  cases current with
  | none => cases hwrite
  | some current =>
      rcases Option.ite_none_right_eq_some.mp hwrite with ⟨hheld, hsame⟩
      cases hsame
      exact (Function.update_eq_self_iff.mpr hheld.symm).symm

theorem inv_store (hinv : Inv cut project s)
    (hstep : step cut project s (Action.store id topic) = some t) : Inv cut project t := by
  apply inv_settleTopic hinv _ hstep
  intro current documents hwrite
  cases current with
  | none =>
      cases hwrite
      exact Documents.delete_eq
  | some current =>
      cases hwrite
      exact Documents.replace_eq _

theorem inv_claim {now : Instant} {worker : String} {batch : Nat} {kinds : List Jobs.JobKind}
    {locked : List IndexJobId} (hinv : Inv cut project s)
    (hstep : s.claim project id now worker batch kinds locked = some t) :
    Inv cut project t := by
  rcases Option.ite_none_left_eq_some.mp hstep with ⟨hnew, hnext⟩
  rcases Option.map_eq_some_iff.mp hnext with ⟨_, hsettle, rfl⟩
  rcases Option.map_eq_some_iff.mp hsettle with ⟨outbox, hclaim, rfl⟩
  have hcompletes :
      CompletesDone s (Jobs.Statement.claim now project worker batch kinds locked) := by
    intro _ _ hsame
    cases hsame
  have hclaimed := inv_settled hinv hclaim hcompletes
  constructor
  · exact hclaimed.consistent
  · apply forall_joined hclaimed.handed
    intro job hjob
    simp only [Jobs.step, Option.ite_none_right_eq_some, Option.some.injEq] at hclaim
    rcases hclaim with ⟨_, rfl⟩
    exact List.mem_append_right _ (List.mem_map_of_mem hjob)
  · exact forall_joined hclaimed.within ⟨List.nil_subset _, List.nil_subset _⟩
  · show ((s.drains ++ [(id, _)]).map Prod.fst).Nodup
    rw [List.map_append]
    exact nodup_append_new hinv.alone hnew
  · apply forall_joined
    · intro entry hmem read stored hstage
      have hreads := hclaimed.reads entry hmem read stored hstage
      refine ⟨hreads.1, ?_⟩
      intro topic current hread
      refine (hreads.2 topic current hread).imp_right fun howed => ?_
      exact Jobs.owed_joined howed fun _ _ => before_of_stopped rfl List.not_mem_nil
    · intro read stored hstage
      cases hstage
  · intro topic
    rcases hclaimed.topics topic with hexact | howed | huntouched
    · exact Or.inl hexact
    · refine Or.inr (Or.inl ?_)
      exact Jobs.owed_joined howed fun _ _ => before_of_stopped rfl List.not_mem_nil
    · exact Or.inr (Or.inr huntouched)

theorem inv_die (hinv : Inv cut project s)
    (hstep : step cut project s (Action.die id) = some t) : Inv cut project t := by
  cases hstep
  constructor
  · exact hinv.consistent
  · exact fun entry hmem => hinv.handed entry (mem_dropParty hmem)
  · exact fun entry hmem => hinv.within entry (mem_dropParty hmem)
  · exact (List.filter_sublist.map Prod.fst).nodup hinv.alone
  · intro entry hmem read stored hstage
    have hold := mem_dropParty hmem
    have hreads := hinv.reads entry hold read stored hstage
    constructor
    · show s.released id = some entry.1
      unfold System.released
      rw [if_neg]
      · exact hreads.1
      · intro hheld
        exact idle_of_held hinv hheld hold (ne_of_mem_dropParty hmem) hstage
    · intro topic current hread
      exact (hreads.2 topic current hread).imp_right fun howed => Jobs.owed_dropped howed
  · intro topic
    rcases hinv.topics topic with hexact | howed | huntouched
    · exact Or.inl hexact
    · exact Or.inr (Or.inl (Jobs.owed_dropped howed))
    · exact Or.inr (Or.inr huntouched)

end Moves

/-!
## The rebuild's own steps
-/

section Rebuilding

variable {s t : System}

theorem inv_reopen (hinv : Inv cut project s)
    (hstep : step cut project s Action.reopen = some t) : Inv cut project t := by
  cases hstep
  constructor
  · exact hinv.consistent
  · exact fun _ hmem => nomatch hmem
  · exact fun _ hmem => nomatch hmem
  · exact List.nodup_nil
  · exact fun _ hmem => nomatch hmem
  · exact fun topic => Or.inr (Or.inr ⟨rfl, True.intro⟩)

theorem inv_gather (hinv : Inv cut project s)
    (hstep : step cut project s Action.gather = some t) : Inv cut project t := by
  simp only [step] at hstep
  split at hstep
  · cases hstep
    constructor
    · exact hinv.consistent
    · exact hinv.handed
    · exact hinv.within
    · exact hinv.alone
    · exact hinv.reads
    · intro topic
      rcases hinv.topics topic with hexact | howed | huntouched
      · exact Or.inl hexact
      · exact Or.inr (Or.inl howed)
      · exact Or.inr (Or.inr ⟨huntouched.1, rfl⟩)
  · cases hstep

theorem mem_entries_of_lookup {states : Memories} {topic : TopicId} {current : Current}
    (h : states.lookup topic = some current) :
    (⟨topic, current⟩ : Sigma fun _ : TopicId => Current) ∈ states.entries :=
  AList.mem_lookup_iff.mp h

theorem inv_rebuild (hinv : Inv cut project s) (horder : InOrder cut project s Action.rebuild)
    (hstep : step cut project s Action.rebuild = some t) : Inv cut project t := by
  simp only [step] at hstep
  split at hstep
  · next states hphase =>
      cases hstep
      constructor
      · exact hinv.consistent
      · exact hinv.handed
      · exact hinv.within
      · exact hinv.alone
      · exact hinv.reads
      · intro topic
        have hwritten : writeAll cut states s.documents topic = _ :=
          writeAll_entries states.nodupKeys s.documents topic
        have hlookup : states.entries.dlookup topic = states.lookup topic := rfl
        unfold Exact
        show writeAll cut states s.documents topic = spansOf cut s.memories topic ∨ _
        rw [hwritten, hlookup]
        unfold InOrder at horder
        simp only [hphase] at horder
        cases hread : states.lookup topic with
        | none =>
            rcases hinv.topics topic with hexact | howed | ⟨hnone, hsays⟩
            · exact Or.inl hexact
            · exact Or.inr (Or.inl howed)
            · refine Or.inl ?_
              simp only [hphase] at hsays
              unfold spansOf
              rw [← hsays, hread]
              exact hnone
        | some current =>
            rcases horder ⟨topic, current⟩ (mem_entries_of_lookup hread) with hsays | howed
            · rcases hinv.topics topic with hexact | howed | ⟨hnone, _⟩
              · refine Or.inl ?_
                rw [← hsays]
                exact writeSpans_exact (Or.inl (hexact.trans hsays.symm))
              · exact Or.inr (Or.inl howed)
              · refine Or.inl ?_
                rw [← hsays]
                exact writeSpans_exact (Or.inr hnone)
            · exact Or.inr (Or.inl howed)
  · cases hstep

end Rebuilding

theorem inv_step : PreservedWhen (step cut project) (InOrder cut project) (Inv cut project) := by
  intro s action t hinv horder hstep
  cases action with
  | write now kind found topic current drawn =>
      rcases Option.map_eq_some_iff.mp hstep with ⟨_, hsettle, rfl⟩
      rcases Option.map_eq_some_iff.mp hsettle with ⟨outbox, hasked, rfl⟩
      have howed : (drawn.sync, Jobs.JobKind.syncTopicIndex) ∈
          Topics.owedBy kind found drawn := by
        unfold Topics.owedBy
        split
        · simp
        · simp
      have hmemories : forall other, other ≠ topic ->
          (s.memories.insert topic current).lookup other = s.memories.lookup other :=
        fun _ hne => AList.lookup_insert_ne hne
      have hkept := inv_asked hinv howed hasked hmemories
      exact hkept
  | retire now topic jobs =>
      rcases Option.ite_none_right_eq_some.mp hstep with ⟨_, hnext⟩
      rcases Option.map_eq_some_iff.mp hnext with ⟨_, hsettle, rfl⟩
      rcases Option.map_eq_some_iff.mp hsettle with ⟨outbox, hasked, rfl⟩
      have hmemories : forall other, other ≠ topic ->
          (s.memories.erase topic).lookup other = s.memories.lookup other :=
        fun _ hne => AList.lookup_erase_ne hne
      have hkept := inv_asked hinv List.mem_cons_self hasked hmemories
      exact hkept
  | claim id now worker batch kinds locked => exact inv_claim hinv hstep
  | sync id batch => exact inv_sync hinv hstep
  | skip id topic => exact inv_skip hinv hstep
  | store id topic => exact inv_store hinv hstep
  | synced id => exact inv_synced hinv hstep
  | flush =>
      cases hstep
      exact
        { consistent := hinv.consistent, handed := hinv.handed, within := hinv.within
          alone := hinv.alone, reads := hinv.reads, topics := hinv.topics }
  | complete id jobs =>
      rcases Option.bind_eq_some_iff.mp hstep with ⟨round, hround, hnext⟩
      rcases Option.ite_none_right_eq_some.mp hnext with ⟨hdone, hsettle⟩
      apply inv_settle hinv hsettle
      intro worker finished hsame
      cases hsame
      exact ⟨(id, round), mem_of_partyOf hround, rfl, hdone.1⟩
  | fail id now job error =>
      rcases Option.bind_eq_some_iff.mp hstep with ⟨round, _, hnext⟩
      rcases Option.ite_none_right_eq_some.mp hnext with ⟨_, hsettle⟩
      exact inv_settle hinv hsettle fun _ _ hsame => nomatch hsame
  | stop id => exact inv_stop hinv hstep
  | die id => exact inv_die hinv hstep
  | replay now => exact inv_settle hinv hstep fun _ _ hsame => nomatch hsame
  | reopen => exact inv_reopen hinv hstep
  | gather => exact inv_gather hinv hstep
  | rebuild => exact inv_rebuild hinv horder hstep

/--
Where whatever a rebuild writes over is what the topic says now or is owed again, every topic
whose sync is not owed is indexed as it says, in every state after the rebuild returned.
-/
theorem rebuild_converges {actions : List Action} {s : System}
    (hrun : RunFrom (step cut project) System.empty actions = some s)
    (horder : Along (step cut project) (InOrder cut project) System.empty actions)
    (hreturned : s.phase = Phase.returned) (hquiet : Quiet project s) (topic : TopicId) :
    Exact cut s topic := by
  rcases (runFrom_preservedWhen inv_step inv_empty horder hrun).topics topic with
    hexact | howed | huntouched
  · exact hexact
  · rcases howed.1 with ⟨row, hrow, hwork⟩
    exact absurd (congrArg Jobs.Work.kind hwork)
      (hquiet.1 row hrow (congrArg Jobs.Work.project hwork))
  · have hphase := huntouched.2
    rw [hreturned] at hphase
    exact absurd hphase id

end Converging

section Crossing

def oneSpan (_ : TopicId) (content : String) : Cut :=
  ⟨[{ text := content, header := "" }], List.cons_ne_nil _ _⟩

def drawnAt (n : Nat) : Topics.Drawn :=
  { source := n, version := n, span := n, topic := n, state := n, sync := n, derive := n + 1
    backfill := n + 2 }

def written (now : Instant) (state : TopicStateId) (content : String) (found : Bool) : Action :=
  Action.write now Topics.SourceKind.file found 5 { state := state, content := content }
    (drawnAt (10 * state))

def jobAt (attempts : Nat) (claimed : Instant) : Jobs.Job :=
  { id := 10, work := syncWork 0 5, attempts := attempts, claimedAt := some claimed }

def drained (id attempts : Nat) (claimed : Instant) : List Action :=
  [Action.claim id claimed "host:1" 8 [Jobs.JobKind.syncTopicIndex] [],
    Action.sync id [jobAt attempts claimed], Action.store id 5, Action.synced id, Action.flush,
    Action.complete id [jobAt attempts claimed]]

def drainedFirst : List Action :=
  [written 0 1 "old" false, Action.reopen, written 1 2 "new" true] ++ drained 0 1 2 ++
    [Action.gather, Action.rebuild]

def drainedBetween : List Action :=
  [written 0 1 "old" false, Action.reopen, Action.gather, written 1 2 "new" true] ++
    drained 0 1 2 ++ [Action.rebuild]

def Phase.isReturned : Phase -> Bool
  | opened => false
  | gathered _ => false
  | returned => true

theorem returned_of_isReturned {phase : Phase} (h : phase.isReturned = true) :
    phase = Phase.returned := by
  cases phase with
  | opened => cases h
  | gathered states => cases h
  | returned => rfl

theorem rebuild_converges_drained_first :
    exists s, RunFrom (step oneSpan 0) System.empty drainedFirst = some s ∧
      Exact oneSpan s 5 := by
  have hends : (RunFrom (step oneSpan 0) System.empty drainedFirst).any
      (fun s => s.phase.isReturned && decide (Quiet 0 s)) = true := by decide
  rcases (Option.any_eq_true _ _).mp hends with ⟨s, hrun, hlast⟩
  rcases (Bool.and_eq_true _ _).mp hlast with ⟨hreturned, hquiet⟩
  refine ⟨s, hrun, ?_⟩
  exact rebuild_converges hrun (by decide) (returned_of_isReturned hreturned)
    (of_decide_eq_true hquiet) 5

/-- Nothing is owed once the rebuild returned, and the topic is indexed as it was. -/
theorem drained_between_is_overwritten :
    exists s, RunFrom (step oneSpan 0) System.empty drainedBetween = some s ∧
      s.phase = Phase.returned ∧ Quiet 0 s ∧ ¬Exact oneSpan s 5 := by
  have hends : (RunFrom (step oneSpan 0) System.empty drainedBetween).any
      (fun s => s.phase.isReturned && decide (Quiet 0 s ∧
        s.documents 5 ≠ spansOf oneSpan s.memories 5)) = true := by decide
  rcases (Option.any_eq_true _ _).mp hends with ⟨s, hrun, hlast⟩
  rcases (Bool.and_eq_true _ _).mp hlast with ⟨hreturned, hparted⟩
  rcases of_decide_eq_true hparted with ⟨hquiet, hother⟩
  exact ⟨s, hrun, returned_of_isReturned hreturned, hquiet, hother⟩

end Crossing

end Rebuild
end PaminMemory
