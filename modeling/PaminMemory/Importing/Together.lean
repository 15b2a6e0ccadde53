import PaminMemory.Importing.OneByOne

/-!
# Groups recorded together

The groups of a file are those recorded, those awaited and those to come.  Every step moves
one of them on and leaves the topics of the others still.
-/

namespace PaminMemory
namespace Importing

open Foundation Topics

structure Underway (begun ledger : Store) (recording : Recording) : Prop where
  came : exists recorded, recording.group = recorded ++ recording.left ∧
    forall memory, memory ∈ recording.group ->
      Came begun ledger memory.topic recorded ∧
        recording.promoted = promotedOf begun memory.topic recorded
  current : forall verdict memory rest, recording.judged = some verdict ->
    recording.left = memory :: rest ->
      verdict = judge memory.content (ledger.currentContent memory.topic)

def tally (begun : Store) (group : List Memory) : Nat :=
  match group with
  | [] => 0
  | memory :: _ => promotedOf begun memory.topic group

def Import.underway (s : Import) : List (List Memory) :=
  s.awaited.map fun entry => entry.2.group

/-- Where an import stands: the groups of its file are `past`, awaited or still to come. -/
structure Stands (begun : Store) (s : Import) (past : List (List Memory)) : Prop where
  grounded : Grounded s.ledger
  sourced : Sourced s.ledger
  numbered : (s.awaited.map Prod.fst).Nodup
  shares : byTopic s.memories = past ++ s.underway ++ s.chunks.flatten
  recorded : forall group, group ∈ past -> forall memory, memory ∈ group ->
    Came begun s.ledger memory.topic group
  recording : forall entry, entry ∈ s.awaited -> Underway begun s.ledger entry.2
  waiting : forall group, group ∈ s.chunks.flatten -> forall memory, memory ∈ group ->
    Came begun s.ledger memory.topic []
  promoted : s.promoted = (past.map (tally begun)).sum

/-- An import that is done has nothing left to record, and reports what it counted. -/
def Settled (s : Import) : Prop :=
  forall result, s.ended = some (Ended.imported result) ->
    s.awaited = [] ∧ s.chunks = [] ∧ result.memories = s.memories.length ∧
      result.promoted = s.promoted ∧ result.held = s.memories.length - s.promoted

structure Standing (begun : Store) (memories : List Memory) (s : Import) : Prop where
  file : s.memories = memories
  stands : exists past, Stands begun s past
  settled : Settled s

section Steps

variable {engine : Engine} {begun ledger after : Store} {recording : Recording} {id : Nat}
  {s t : Import} {past : List (List Memory)} {memories : List Memory}

theorem ne_nil_of_byTopic {group : List Memory} (h : group ∈ byTopic memories) : group ≠ [] := by
  rcases List.mem_map.mp h with ⟨⟨topic, members⟩, hpair, rfl⟩
  rcases mem_grouped.mp hpair with ⟨htopic, hmembers⟩
  rcases List.mem_map.mp htopic with ⟨memory, hmemory, hsame⟩
  apply List.ne_nil_of_mem (a := memory)
  rw [show (topic, members).2 = members from rfl, hmembers]
  exact List.mem_filter.mpr ⟨hmemory, decide_eq_true hsame⟩

theorem apart_of_split {before later : List (List Memory)} {group other : List Memory}
    (h : byTopic memories = before ++ group :: later) (hother : other ∈ before ++ later)
    {memory member : Memory} (hmemory : memory ∈ group) (hmember : member ∈ other) :
    member.topic ≠ memory.topic := by
  have hapart : (byTopic memories).Pairwise TopicsApart := topicsApart_byTopic
  rw [h, List.pairwise_append] at hapart
  rcases List.mem_append.mp hother with hbefore | hlater
  · exact hapart.2.2 other hbefore group (List.mem_cons_self ..) member hmember memory hmemory
  · exact ((List.pairwise_cons.mp hapart.2.1).1 other hlater memory hmemory member
      hmember).symm

theorem Underway.still (h : Underway begun ledger recording)
    (hstill : forall memory, memory ∈ recording.group -> Still memory.topic ledger after) :
    Underway begun after recording := by
  rcases h.came with ⟨recorded, hgroup, hcame⟩
  constructor
  · refine ⟨recorded, hgroup, ?_⟩
    intro memory hmemory
    exact ⟨(hcame memory hmemory).1.still (hstill memory hmemory), (hcame memory hmemory).2⟩
  · intro verdict memory rest hjudged hleft
    have hmemory : memory ∈ recording.group := by
      rw [hgroup, hleft]
      exact List.mem_append_right _ (List.mem_cons_self ..)
    rw [(hstill memory hmemory).told]
    exact h.current verdict memory rest hjudged hleft

/-!
## What a step of a group does
-/

theorem look_some (h : s.look id = some t) :
    exists recording memory rest, partyOf s.awaited id = some recording ∧
      recording.left = memory :: rest ∧
        t = { s with
          awaited := setParty id { recording with
            judged := some (judge memory.content (s.ledger.currentContent memory.topic)) }
              s.awaited } := by
  unfold Import.look at h
  rcases Option.bind_eq_some_iff.mp h with ⟨recording, hparty, hrest⟩
  cases hleft : recording.left with
  | nil =>
      rw [hleft] at hrest
      cases hrest
  | cons memory rest =>
      cases hjudged : recording.judged with
      | some verdict =>
          rw [hleft, hjudged] at hrest
          cases hrest
      | none =>
          rw [hleft, hjudged] at hrest
          refine ⟨recording, memory, rest, hparty, hleft, ?_⟩
          rw [hleft]
          exact (Option.some.inj hrest).symm

structure Writes (engine : Engine) (s t : Import) (id : Nat) (observedAt now : Instant)
    (drawn : Drawn) (recording : Recording) (memory : Memory) (rest : List Memory)
    (verdict : Option Rejection) : Prop where
  party : partyOf s.awaited id = some recording
  left : recording.left = memory :: rest
  judged : recording.judged = some verdict
  unused : Unused s.ledger drawn
  written : exists written, writeFrom engine.segment now engine.project
    (Topics.record engine observedAt (s.asked memory) verdict) SourceKind.manual none drawn
      s.ledger = some written ∧
        t = { s with
          ledger := written.1
          awaited := setParty id { recording with
            left := rest, judged := none
            promoted := recording.promoted + if verdict.isNone then 1 else 0 } s.awaited }

theorem record_some {observedAt now : Instant} {drawn : Drawn}
    (h : s.record engine id observedAt now drawn = some t) :
    exists recording memory rest verdict,
      Writes engine s t id observedAt now drawn recording memory rest verdict := by
  unfold Import.record at h
  rcases Option.bind_eq_some_iff.mp h with ⟨recording, hparty, hrest⟩
  cases hleft : recording.left with
  | nil =>
      rw [hleft] at hrest
      cases hrest
  | cons memory rest =>
      cases hjudged : recording.judged with
      | none =>
          rw [hleft, hjudged] at hrest
          cases hrest
      | some verdict =>
          rw [hleft, hjudged] at hrest
          simp only at hrest
          split at hrest
          · next hunused =>
              rcases Option.bind_eq_some_iff.mp hrest with ⟨written, hwritten, heq⟩
              exact ⟨recording, memory, rest, verdict, hparty, hleft, hjudged, hunused, written,
                hwritten, (Option.some.inj heq).symm⟩
          · cases hrest

theorem underway_set {new : Recording} (hnumbered : (s.awaited.map Prod.fst).Nodup)
    (hparty : partyOf s.awaited id = some recording) (hgroup : new.group = recording.group) :
    (setParty id new s.awaited).map (fun entry => entry.2.group) = s.underway := by
  unfold setParty Import.underway
  rw [List.map_map]
  apply List.map_congr_left
  intro entry hentry
  rw [Function.comp_apply]
  split
  · next hid => rw [eq_of_partyOf hnumbered hparty hentry hid, hgroup]
  · rfl

theorem stands_moved {new : Recording} (h : Stands begun s past)
    (hparty : partyOf s.awaited id = some recording) (hgroup : new.group = recording.group)
    (hnew : Underway begun s.ledger new) :
    Stands begun { s with awaited := setParty id new s.awaited } past where
  grounded := h.grounded
  sourced := h.sourced
  numbered := by
    rw [ids_setParty]
    exact h.numbered
  shares := by
    show byTopic s.memories = past ++ (setParty id new s.awaited).map _ ++ s.chunks.flatten
    rw [underway_set h.numbered hparty hgroup]
    exact h.shares
  recorded := h.recorded
  recording := forall_moved h.recording hnew
  waiting := h.waiting
  promoted := h.promoted

theorem stands_look (h : Stands begun s past) (hlook : s.look id = some t) :
    Stands begun t past := by
  rcases look_some hlook with ⟨recording, memory, rest, hparty, hleft, rfl⟩
  have hunder := h.recording _ (mem_of_partyOf hparty)
  refine stands_moved h hparty ?_ ?_
  · rfl
  constructor
  · exact hunder.came
  · intro verdict other later hjudged hother
    have hsame : memory = other := (List.cons.inj (hleft.symm.trans hother)).1
    rw [← hsame]
    exact (Option.some.inj hjudged).symm

theorem stands_still (h : Stands begun s past) (hgrounded : Grounded after)
    (hsourced : Sourced after)
    (hstill : forall memory, memory ∈ s.memories -> Still memory.topic s.ledger after) :
    Stands begun { s with ledger := after } past := by
  have hmembers : forall group, group ∈ past ++ s.underway ++ s.chunks.flatten ->
      forall memory, memory ∈ group -> Still memory.topic s.ledger after := by
    intro group hgroup memory hmemory
    rw [← h.shares] at hgroup
    exact hstill memory (mem_of_group hgroup hmemory)
  constructor
  · exact hgrounded
  · exact hsourced
  · exact h.numbered
  · exact h.shares
  · intro group hgroup memory hmemory
    apply (h.recorded group hgroup memory hmemory).still
    exact hmembers group (List.mem_append_left _ (List.mem_append_left _ hgroup)) memory hmemory
  · intro entry hentry
    apply (h.recording entry hentry).still
    exact hmembers entry.2.group
      (List.mem_append_left _ (List.mem_append_right _ (List.mem_map_of_mem hentry)))
  · intro group hgroup memory hmemory
    apply (h.waiting group hgroup memory hmemory).still
    exact hmembers group (List.mem_append_right _ hgroup) memory hmemory
  · exact h.promoted

theorem stands_record {observedAt now : Instant} {drawn : Drawn} (h : Stands begun s past)
    (hrecord : s.record engine id observedAt now drawn = some t) : Stands begun t past := by
  rcases record_some hrecord with ⟨recording, memory, rest, verdict, hwrites⟩
  rcases hwrites.written with ⟨written, hwritten, rfl⟩
  have hrecords := records_of_write h.grounded h.sourced hwrites.unused hwritten
  have hunder := h.recording _ (mem_of_partyOf hwrites.party)
  rcases hunder.came with ⟨recorded, hgroup, hcame⟩
  rw [hwrites.left] at hgroup
  have hmemory : memory ∈ recording.group := by
    rw [hgroup]
    exact List.mem_append_right _ (List.mem_cons_self ..)
  -- the other groups have other topics
  rcases split_of_partyOf h.numbered hwrites.party with ⟨before, later, hawaited, _⟩
  have hshares := h.shares
  rw [Import.underway, hawaited, List.map_append, List.map_cons, List.append_assoc,
    List.append_assoc, ← List.append_assoc past, List.cons_append] at hshares
  have hstill : forall group,
      group ∈ past ++ before.map (fun entry => entry.2.group) ++
        (later.map (fun entry => entry.2.group) ++ s.chunks.flatten) ->
        forall member, member ∈ group -> Still member.topic s.ledger written.1 := by
    intro group hother member hmember
    exact hrecords.still (apart_of_split hshares hother hmemory hmember)
  have hverdict := hunder.current verdict memory rest hwrites.judged hwrites.left
  constructor
  · exact hrecords.grounded
  · exact hrecords.sourced
  · show ((setParty id _ s.awaited).map Prod.fst).Nodup
    rw [ids_setParty]
    exact h.numbered
  · apply h.shares.trans
    congr 2
    exact (underway_set h.numbered hwrites.party (by rfl)).symm
  · intro group hpast member hmember
    apply (h.recorded group hpast member hmember).still
    exact hstill group (List.mem_append_left _ (List.mem_append_left _ hpast)) member hmember
  · intro entry hentry
    rcases mem_setParty hentry with rfl | ⟨hthere, hid⟩
    · constructor
      · refine ⟨recorded ++ [memory], ?_, ?_⟩
        · rw [List.append_assoc]
          exact hgroup
        · intro member hmember
          have hsame : member.topic = memory.topic := by
            have hbyTopic : recording.group ∈ byTopic s.memories := by
              rw [hshares]
              exact List.mem_append_right _ (List.mem_cons_self ..)
            rw [group_of_mem hbyTopic hmemory] at hmember
            exact of_decide_eq_true (List.mem_filter.mp hmember).2
          rcases hcame memory hmemory with ⟨hthere, hcount⟩
          rw [hsame]
          refine ⟨hrecords.came hthere hverdict, ?_⟩
          show recording.promoted + _ = _
          rw [promotedOf_snoc, hcount, ← hthere.told, ← hverdict]
      · intro judged other more hjudged
        cases hjudged
    · apply (h.recording entry hthere).still
      apply hstill
      rw [hawaited] at hthere
      rcases List.mem_append.mp hthere with hbefore | hafter
      · exact List.mem_append_left _ (List.mem_append_right _ (List.mem_map_of_mem hbefore))
      · rcases List.mem_cons.mp hafter with rfl | hlater
        · exact absurd rfl hid
        · exact List.mem_append_right _ (List.mem_append_left _ (List.mem_map_of_mem hlater))
  · intro group hwaiting member hmember
    apply (h.waiting group hwaiting member hmember).still
    exact hstill group (List.mem_append_right _ (List.mem_append_right _ hwaiting)) member hmember
  · exact h.promoted

/-!
## Chunks
-/

theorem stands_await {chunk : List (List Memory)} {rest : List (List (List Memory))}
    (h : Stands begun s past) (hnone : s.awaited = []) (hchunks : s.chunks = chunk :: rest) :
    Stands begun { s with awaited := recordings chunk, chunks := rest } past := by
  have hshares := h.shares
  rw [Import.underway, hnone, hchunks, List.map_nil, List.append_nil, List.flatten_cons] at hshares
  have hgroups : (recordings chunk).map (fun entry => entry.2.group) = chunk := by
    unfold recordings
    rw [List.map_map]
    exact List.zipIdx_map_fst 0 chunk
  constructor
  · exact h.grounded
  · exact h.sourced
  · show ((recordings chunk).map Prod.fst).Nodup
    unfold recordings
    rw [List.map_map]
    have hnumbers := List.zipIdx_map_snd 0 chunk
    rw [show (Prod.fst ∘ fun group : List Memory × Nat => (group.2, Recording.start group.1)) =
      Prod.snd from rfl, hnumbers]
    exact List.nodup_range'
  · show byTopic s.memories = past ++ (recordings chunk).map _ ++ rest.flatten
    rw [hgroups, hshares, List.append_assoc]
  · exact h.recorded
  · intro entry hentry
    rcases List.mem_map.mp hentry with ⟨⟨group, index⟩, hgroup, rfl⟩
    have hmem : group ∈ chunk := List.fst_mem_of_mem_zipIdx hgroup
    constructor
    · refine ⟨[], rfl, ?_⟩
      intro memory hmemory
      refine ⟨h.waiting group ?_ memory hmemory, rfl⟩
      rw [hchunks, List.flatten_cons]
      exact List.mem_append_left _ hmem
    · intro verdict memory later hjudged
      cases hjudged
  · intro group hgroup
    apply h.waiting
    rw [hchunks, List.flatten_cons]
    exact List.mem_append_right _ hgroup
  · exact h.promoted

theorem stands_join (h : Stands begun s past)
    (hall : forall entry, entry ∈ s.awaited -> entry.2.left = []) :
    Stands begun (s.join engine) (past ++ s.underway) := by
  have hwhole : forall entry, entry ∈ s.awaited -> forall memory, memory ∈ entry.2.group ->
      Came begun s.ledger memory.topic entry.2.group ∧
        entry.2.promoted = promotedOf begun memory.topic entry.2.group := by
    intro entry hentry memory hmemory
    rcases (h.recording entry hentry).came with ⟨recorded, hgroup, hcame⟩
    rw [hall entry hentry, List.append_nil] at hgroup
    rw [← hgroup] at hcame
    exact hcame memory hmemory
  constructor
  · exact h.grounded
  · exact h.sourced
  · exact List.nodup_nil
  · apply h.shares.trans
    show _ = (past ++ s.underway) ++ [] ++ s.chunks.flatten
    rw [List.append_nil]
  · intro group hgroup memory hmemory
    rcases List.mem_append.mp hgroup with hpast | hunder
    · exact h.recorded group hpast memory hmemory
    · rcases List.mem_map.mp hunder with ⟨entry, hentry, rfl⟩
      exact (hwhole entry hentry memory hmemory).1
  · intro entry hentry
    cases hentry
  · exact h.waiting
  · show s.promoted + _ = _
    rw [h.promoted, List.map_append, List.sum_append, Import.underway, List.map_map]
    congr 2
    apply List.map_congr_left
    intro entry hentry
    rw [Function.comp_apply]
    have hgroup : entry.2.group ∈ byTopic s.memories := by
      rw [h.shares]
      exact List.mem_append_left _ (List.mem_append_right _ (List.mem_map_of_mem hentry))
    unfold tally
    split
    · next hnil => exact absurd hnil (ne_nil_of_byTopic hgroup)
    · next memory rest hcons =>
        apply (hwhole entry hentry memory _).2.trans
        · rw [hcons]
        · rw [hcons]
          exact List.mem_cons_self ..

/-!
## Every step
-/

theorem settled_running (h : s.ended = none) : Settled s := by
  intro result hresult
  rw [h] at hresult
  cases hresult

theorem settled_failed (h : s.ended = some Ended.failed) : Settled s := by
  intro result hresult
  rw [h] at hresult
  cases hresult

theorem running_look (h : s.look id = some t) :
    t.ended = s.ended ∧ t.memories = s.memories := by
  rcases look_some h with ⟨recording, memory, rest, _, _, rfl⟩
  exact ⟨rfl, rfl⟩

theorem running_record {observedAt now : Instant} {drawn : Drawn}
    (h : s.record engine id observedAt now drawn = some t) :
    t.ended = s.ended ∧ t.memories = s.memories := by
  rcases record_some h with ⟨recording, memory, rest, verdict, hwrites⟩
  rcases hwrites.written with ⟨written, _, rfl⟩
  exact ⟨rfl, rfl⟩

theorem standing_step : PreservedWhen (step engine) Assumed (Standing begun memories) := by
  intro s action t h hassumed hstep
  rcases h with ⟨hfile, ⟨past, hstands⟩, hsettled⟩
  cases action with
  | await =>
      simp only [step] at hstep
      split at hstep
      · next chunk rest hrunning hnone hchunks =>
          cases hstep
          exact ⟨hfile, ⟨past, stands_await hstands hnone hchunks⟩, settled_running hrunning⟩
      · cases hstep
  | look id =>
      simp only [step] at hstep
      split at hstep
      · next hrunning =>
          rcases running_look hstep with ⟨hended, hmemories⟩
          exact ⟨hmemories.trans hfile, ⟨past, stands_look hstands hstep⟩,
            settled_running (hended.trans (Option.isNone_iff_eq_none.mp hrunning))⟩
      · cases hstep
  | record id observedAt now drawn =>
      simp only [step] at hstep
      split at hstep
      · next hrunning =>
          rcases running_record hstep with ⟨hended, hmemories⟩
          exact ⟨hmemories.trans hfile, ⟨past, stands_record hstands hstep⟩,
            settled_running (hended.trans (Option.isNone_iff_eq_none.mp hrunning))⟩
      · cases hstep
  | join =>
      simp only [step] at hstep
      split at hstep
      · next hguard =>
          cases hstep
          simp only [Bool.and_eq_true, Option.isNone_iff_eq_none, List.all_eq_true,
            decide_eq_true_eq] at hguard
          exact ⟨hfile, ⟨_, stands_join hstands hguard.2⟩, settled_running hguard.1.1⟩
      · cases hstep
  | finish =>
      simp only [step] at hstep
      split at hstep
      · next hguard =>
          cases hstep
          simp only [Bool.and_eq_true, List.isEmpty_iff] at hguard
          refine ⟨hfile, ⟨past, { hstands with }⟩, ?_⟩
          intro result hresult
          cases hresult
          exact ⟨hguard.1.2, hguard.2, rfl, rfl, rfl⟩
      · cases hstep
  | fail =>
      simp only [step] at hstep
      split at hstep
      · cases hstep
        exact ⟨hfile, ⟨past, { hstands with }⟩, settled_failed rfl⟩
      · cases hstep
  | elsewhere after =>
      cases hstep
      exact ⟨hfile, ⟨past, stands_still hstands hassumed.grounded hassumed.sourced
        hassumed.still⟩, hsettled⟩

theorem standing_execute {parse : String -> Option Memory} {args : Args} {first : Import}
    (hgrounded : Grounded begun) (hsourced : Sourced begun)
    (h : execute parse args begun = Except.ok first) :
    Standing begun first.memories first := by
  unfold execute at h
  cases hread : readMemories parse args.text with
  | error line =>
      rw [hread] at h
      cases h
  | ok memories =>
      rw [hread] at h
      cases h
      refine ⟨rfl, ⟨[], ?_⟩, settled_running rfl⟩
      constructor
      · exact hgrounded
      · exact hsourced
      · exact List.nodup_nil
      · show byTopic memories = [] ++ [] ++ (Index.chunks _ (byTopic memories)).flatten
        have hsize : 0 < max args.maxConnections LEAST_AT_ONCE :=
          Nat.lt_of_lt_of_le (show 0 < LEAST_AT_ONCE from Nat.two_pos) (Nat.le_max_right ..)
        rw [Index.chunks_flatten hsize]
        rfl
      · intro group hgroup
        cases hgroup
      · intro entry hentry
        cases hentry
      · intro group _ memory _
        exact came_nothing begun memory.topic
      · rfl

/-!
## What an import leaves
-/

theorem Stands.came (h : Stands begun s past) {memory : Memory} (hmemory : memory ∈ s.memories) :
    exists recorded,
      recorded <+: s.memories.filter (fun other => other.topic = memory.topic) ∧
        Came begun s.ledger memory.topic recorded := by
  rcases exists_group hmemory with ⟨group, hgroup, hmem⟩
  have hwhole := group_of_mem hgroup hmem
  rw [h.shares] at hgroup
  rw [← hwhole]
  rcases List.mem_append.mp hgroup with hgroup | hwaiting
  · rcases List.mem_append.mp hgroup with hpast | hunder
    · exact ⟨group, List.prefix_rfl, h.recorded group hpast memory hmem⟩
    · rcases List.mem_map.mp hunder with ⟨entry, hentry, rfl⟩
      rcases (h.recording entry hentry).came with ⟨recorded, hparts, hcame⟩
      exact ⟨recorded, ⟨_, hparts.symm⟩, (hcame memory hmem).1⟩
  · exact ⟨[], List.nil_prefix, h.waiting group hwaiting memory hmem⟩

theorem sum_tally (begun : Store) (memories : List Memory) :
    ((byTopic memories).map (tally begun)).sum =
      (oneByOne begun.currentContent memories).2.countP fun given => given.2.isPromoted := by
  rw [← sum_byTopic, byTopic, List.map_map]
  congr 1
  apply List.map_congr_left
  intro pair hpair
  rw [Function.comp_apply]
  have hgroup : pair.2 ∈ byTopic memories := List.mem_map_of_mem hpair
  unfold tally
  split
  · next hnil => exact absurd hnil (ne_nil_of_byTopic hgroup)
  · next memory rest hcons =>
      have hmem : memory ∈ pair.2 := by
        rw [hcons]
        exact List.mem_cons_self ..
      rw [(mem_grouped.mp hpair).2] at hmem
      rw [of_decide_eq_true (List.mem_filter.mp hmem).2]
      rfl

/-- What an import reports, and the topics of its file, are those of one memory after another. -/
structure AsOneByOne (begun : Store) (memories : List Memory) (ledger : Store)
    (result : Imported) : Prop where
  told : forall memory, memory ∈ memories -> ledger.currentContent memory.topic =
    (oneByOne begun.currentContent memories).1 memory.topic
  filed : forall memory, memory ∈ memories -> judgedOf ledger memory.topic =
    judgedOf begun memory.topic ++ ((oneByOne begun.currentContent memories).2.filter
      fun given => given.1 = memory.topic).map Prod.snd
  counted : result.memories = memories.length
  promoted : result.promoted =
    (oneByOne begun.currentContent memories).2.countP fun given => given.2.isPromoted
  held : result.held =
    (oneByOne begun.currentContent memories).2.countP fun given => !given.2.isPromoted

theorem Standing.asOneByOne {result : Imported} (h : Standing begun memories s)
    (hended : s.ended = some (Ended.imported result)) :
    AsOneByOne begun memories s.ledger result := by
  rcases h with ⟨rfl, ⟨past, hstands⟩, hsettled⟩
  rcases hsettled result hended with ⟨hnone, hchunks, hmemories, hpromoted, hheld⟩
  have hshares := hstands.shares
  rw [Import.underway, hnone, hchunks, List.map_nil, List.append_nil, List.flatten_nil,
    List.append_nil] at hshares
  have hcame : forall memory, memory ∈ s.memories -> Came begun s.ledger memory.topic
      (s.memories.filter fun other => other.topic = memory.topic) := by
    intro memory hmemory
    rcases exists_group hmemory with ⟨group, hgroup, hmem⟩
    rw [← group_of_mem hgroup hmem]
    rw [hshares] at hgroup
    exact hstands.recorded group hgroup memory hmem
  have hcount : s.promoted =
      (oneByOne begun.currentContent s.memories).2.countP fun given => given.2.isPromoted := by
    rw [hstands.promoted, ← hshares, sum_tally]
  have hlength : (oneByOne begun.currentContent s.memories).2.length = s.memories.length := by
    have hkeys : (oneByOne begun.currentContent s.memories).2.map Prod.fst =
        s.memories.map Memory.topic := eachApart_keys begun.currentContent s.memories
    have hlength := congrArg List.length hkeys
    rw [List.length_map, List.length_map] at hlength
    exact hlength
  constructor
  · intro memory hmemory
    rw [(hcame memory hmemory).told]
    exact (eachApart_state _ _ _).symm
  · intro memory hmemory
    rw [(hcame memory hmemory).filed]
    congr 1
    exact (eachApart_given _ _ _).symm
  · exact hmemories
  · rw [hpromoted, hcount]
  · rw [hheld, hcount, ← hlength, List.length_eq_countP_add_countP fun given =>
      given.2.isPromoted, Nat.add_sub_cancel_left]
    simp only [Bool.not_eq_true, Bool.decide_eq_false]

end Steps

/--
However an import's groups are interleaved and wherever it fails, a topic of its file is what
a first part of its memories makes of it; and an import that is done leaves what recording
the file one memory after another would.
-/
theorem import_as_one_by_one {engine : Engine} {parse : String -> Option Memory} {args : Args}
    {begun : Store} {earlier : List Topics.Action} {first s : Import} {actions : List Action}
    (hreached : RunFrom (Topics.step engine.segment engine.project) Store.empty earlier =
      some begun)
    (hread : execute parse args begun = Except.ok first)
    (hrun : RunFrom (step engine) first actions = some s)
    (hassumed : Along (step engine) Assumed first actions) :
    (forall memory, memory ∈ first.memories -> exists recorded,
        recorded <+: first.memories.filter (fun other => other.topic = memory.topic) ∧
          Came begun s.ledger memory.topic recorded) ∧
      forall result, s.ended = some (Ended.imported result) ->
        AsOneByOne begun first.memories s.ledger result := by
  have hgrounded := runFrom_preserved grounded_step grounded_empty hreached
  have hsourced := runFrom_preserved sourced_step sourced_empty hreached
  have hstanding := runFrom_preservedWhen standing_step
    (standing_execute hgrounded hsourced hread) hassumed hrun
  constructor
  · intro memory hmemory
    rcases hstanding.stands with ⟨past, hstands⟩
    rw [← hstanding.file] at hmemory ⊢
    exact hstands.came hmemory
  · intro result hended
    exact hstanding.asOneByOne hended

/-!
## A file of three memories
-/

def lampMemories : List Memory :=
  [{ topic := "lamp", content := "the lamp  is red" },
    { topic := "door", content := "the door is shut" },
    { topic := "lamp", content := "the lamp is off" }]

def asLine (memory : Memory) : String :=
  "\x7b\"topic\":\"" ++ memory.topic ++ "\",\"content\":\"" ++ memory.content ++ "\"\x7d"

def lampLine (line : String) : Option Memory :=
  lampMemories.find? fun memory => asLine memory = line

def lampArgs : Args :=
  { text := "\n".intercalate (lampMemories.map asLine), validFrom := none, validTo := none
    maxConnections := 4 }

def lampRun : List Action :=
  [Action.await, Action.look 0, Action.look 1, Action.record 1 1 1 (drawnAt 20),
    Action.record 0 2 2 (drawnAt 30), Action.look 1, Action.record 1 3 3 (drawnAt 40),
    Action.join, Action.finish]

def Action.inside : Action -> Bool
  | Action.elsewhere _ => false
  | _ => true

theorem assumed_of_inside {s : Import} {action : Action} (h : action.inside = true) :
    Assumed s action := by
  cases action with
  | elsewhere after => cases h
  | await => trivial
  | look id => trivial
  | record id observedAt now drawn => trivial
  | join => trivial
  | finish => trivial
  | fail => trivial

def Ended.promoted : Ended -> Option Nat
  | imported result => some result.promoted
  | failed => none

theorem promoted_of_ended {ended : Option Ended} {count : Nat}
    (h : ended.bind Ended.promoted = some count) :
    exists result, ended = some (Ended.imported result) ∧ result.promoted = count := by
  rcases Option.bind_eq_some_iff.mp h with ⟨outcome, hended, hpromoted⟩
  cases outcome with
  | failed => cases hpromoted
  | imported result => exact ⟨result, hended, Option.some.inj hpromoted⟩

theorem ok_of_toOption {ε α : Type} {x : Except ε α} {value : α}
    (h : x.toOption = some value) : x = Except.ok value := by
  cases x with
  | error _ => cases h
  | ok found => exact congrArg Except.ok (Option.some.inj h)

theorem import_as_one_by_one_of_lamp :
    exists first s, execute lampLine lampArgs litLedger = Except.ok first ∧
      RunFrom (step plainEngine) first lampRun = some s ∧
        first.memories = lampMemories ∧
          exists result, s.ended = some (Ended.imported result) ∧ result.promoted = 2 ∧
            AsOneByOne litLedger lampMemories s.ledger result := by
  have hreached : RunFrom (Topics.step plainEngine.segment plainEngine.project) Store.empty
      lit = some litLedger := by
    decide +kernel
  have hruns : (execute lampLine lampArgs litLedger).toOption.any (fun first =>
      decide (first.memories = lampMemories) &&
        decide (Along (step plainEngine) (fun _ action => action.inside = true) first lampRun) &&
        (RunFrom (step plainEngine) first lampRun).any fun s =>
          decide (s.ended.bind Ended.promoted = some 2)) = true := by
    decide +kernel
  rcases (Option.any_eq_true _ _).mp hruns with ⟨first, hread, hfirst⟩
  simp only [Bool.and_eq_true, decide_eq_true_eq] at hfirst
  rcases hfirst with ⟨⟨hmemories, hinside⟩, hends⟩
  rcases (Option.any_eq_true _ _).mp hends with ⟨s, hrun, hended⟩
  rcases promoted_of_ended (of_decide_eq_true hended) with ⟨result, hresult, hpromoted⟩
  have hexecute := ok_of_toOption hread
  have hall := import_as_one_by_one hreached hexecute hrun
    (along_mono (fun _ _ => assumed_of_inside) hinside)
  refine ⟨first, s, hexecute, hrun, hmemories, result, hresult, hpromoted, ?_⟩
  rw [← hmemories]
  exact hall.2 result hresult

end Importing
end PaminMemory
