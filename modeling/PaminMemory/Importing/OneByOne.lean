import PaminMemory.Importing.Import
import PaminMemory.Topics.Filing

/-!
# An import records what one memory after another would

However the groups of a chunk are interleaved, each topic ends at what its own memories, in
the file's order, make of it.  A topic is read and written by one group alone, so a verdict
is still the filter's over what the topic says when it is written.
-/

namespace PaminMemory
namespace Importing

open Foundation Topics

structure Judged where
  content : String
  decision : FilterDecision
  reason : String
deriving DecidableEq, Repr

def judgedAs (content : String) (verdict : Option Rejection) : Judged :=
  { content := content, decision := decisionOf verdict, reason := reasonOf verdict }

def judgedRow (version : SourceVersion) : Judged :=
  { content := version.content, decision := version.filterDecision
    reason := version.filterReason }

def judgedOf (ledger : Store) (topic : String) : List Judged :=
  (ledger.filedAt (locator SourceKind.manual topic)).map judgedRow

def Judged.isPromoted (judged : Judged) : Bool := judged.decision = FilterDecision.promoted

def rememberOne (said : Option String) (memory : Memory) : Option String × Judged :=
  let verdict := judge memory.content said
  (if verdict.isNone then some memory.content else said, judgedAs memory.content verdict)

def oneByOne (told : String -> Option String) (memories : List Memory) :
    (String -> Option String) × List (String × Judged) :=
  eachApart Memory.topic rememberOne told memories

def remembered (begun : Store) (topic : String) (memories : List Memory) :
    Option String × List Judged :=
  inTurn rememberOne (begun.currentContent topic) memories

def promotedOf (begun : Store) (topic : String) (memories : List Memory) : Nat :=
  (remembered begun topic memories).2.countP Judged.isPromoted

/-- The ledger has come to where some memories of a topic take it. -/
structure Came (begun ledger : Store) (topic : String) (recorded : List Memory) : Prop where
  told : ledger.currentContent topic = (remembered begun topic recorded).1
  filed : judgedOf ledger topic = judgedOf begun topic ++ (remembered begun topic recorded).2

structure Still (topic : String) (ledger after : Store) : Prop where
  told : after.currentContent topic = ledger.currentContent topic
  filed : judgedOf after topic = judgedOf ledger topic

structure Elsewhere (s : Import) (after : Store) : Prop where
  grounded : Grounded after
  sourced : Sourced after
  still : forall memory, memory ∈ s.memories -> Still memory.topic s.ledger after

def Assumed (s : Import) : Action -> Prop
  | Action.elsewhere after => Elsewhere s after
  | _ => True

/-!
## The groups of a file
-/

section Groups

variable {memories group : List Memory} {memory : Memory}

theorem group_of_mem (h : group ∈ byTopic memories) (hmem : memory ∈ group) :
    group = memories.filter fun other => other.topic = memory.topic := by
  rcases List.mem_map.mp h with ⟨⟨topic, members⟩, hpair, rfl⟩
  rcases mem_grouped.mp hpair with ⟨_, hmembers⟩
  have htopic : memory.topic = topic := by
    rw [show (topic, members).2 = members from rfl, hmembers] at hmem
    exact of_decide_eq_true (List.mem_filter.mp hmem).2
  rw [htopic]
  exact hmembers

theorem mem_of_group (h : group ∈ byTopic memories) (hmem : memory ∈ group) :
    memory ∈ memories := by
  rw [group_of_mem h hmem] at hmem
  exact (List.mem_filter.mp hmem).1

theorem exists_group (h : memory ∈ memories) :
    exists group, group ∈ byTopic memories ∧ memory ∈ group := by
  refine ⟨memories.filter fun other => other.topic = memory.topic, ?_, ?_⟩
  · exact List.mem_map.mpr ⟨(memory.topic, _),
      mem_grouped.mpr ⟨List.mem_map_of_mem h, rfl⟩, rfl⟩
  · exact List.mem_filter.mpr ⟨h, decide_eq_true rfl⟩

def TopicsApart (group other : List Memory) : Prop :=
  forall first, first ∈ group -> forall second, second ∈ other -> first.topic ≠ second.topic

theorem topicsApart_byTopic : (byTopic memories).Pairwise TopicsApart := by
  unfold byTopic
  rw [List.pairwise_map]
  have hnodup : (grouped Memory.topic memories).Pairwise fun first second =>
      first.1 ≠ second.1 := List.pairwise_map.mp nodup_grouped
  apply hnodup.imp_of_mem
  intro first second hfirst hsecond hne member hmember other hother hsame
  rw [(mem_grouped.mp hfirst).2] at hmember
  rw [(mem_grouped.mp hsecond).2] at hother
  apply hne
  rw [← of_decide_eq_true (List.mem_filter.mp hmember).2, hsame,
    of_decide_eq_true (List.mem_filter.mp hother).2]

theorem sum_byTopic (counts : Judged -> Bool) (told : String -> Option String) :
    ((grouped Memory.topic memories).map fun pair =>
      (inTurn rememberOne (told pair.1) pair.2).2.countP counts).sum =
        (oneByOne told memories).2.countP fun given => counts given.2 := by
  unfold oneByOne
  rw [countP_eachApart counts told memories nodup_grouped]
  · rw [List.map_map]
    congr 1
    apply List.map_congr_left
    intro pair hpair
    rw [Function.comp_apply, (mem_grouped.mp hpair).2]
  · intro memory hmemory
    exact List.mem_map.mpr ⟨(memory.topic, _),
      mem_grouped.mpr ⟨List.mem_map_of_mem hmemory, rfl⟩, rfl⟩

end Groups

/-!
## One memory recorded
-/

section Steps

variable {engine : Engine} {begun ledger after : Store} {topic : String}
  {recorded : List Memory} {memory : Memory} {s t : Import}

theorem Came.still (h : Came begun ledger topic recorded) (hstill : Still topic ledger after) :
    Came begun after topic recorded where
  told := hstill.told.trans h.told
  filed := hstill.filed.trans h.filed

theorem came_nothing (begun : Store) (topic : String) : Came begun begun topic [] where
  told := rfl
  filed := (List.append_nil _).symm

theorem remembered_snoc (begun : Store) (topic : String) (recorded : List Memory)
    (memory : Memory) :
    remembered begun topic (recorded ++ [memory]) =
      ((rememberOne (remembered begun topic recorded).1 memory).1,
        (remembered begun topic recorded).2 ++
          [(rememberOne (remembered begun topic recorded).1 memory).2]) :=
  inTurn_snoc _ _ _

structure Records (memory : Memory) (verdict : Option Rejection) (ledger after : Store) :
    Prop where
  grounded : Grounded after
  sourced : Sourced after
  told : forall topic, after.currentContent topic =
    if verdict = none ∧ topic = memory.topic then some memory.content
    else ledger.currentContent topic
  filed : forall topic, judgedOf after topic =
    if topic = memory.topic then judgedOf ledger topic ++ [judgedAs memory.content verdict]
    else judgedOf ledger topic

theorem records_of_write {verdict : Option Rejection} {observedAt now : Instant}
    {drawn : Drawn} {written : Store × Recorded} (hgrounded : Grounded s.ledger)
    (hsourced : Sourced s.ledger) (hunused : Unused s.ledger drawn)
    (h : writeFrom engine.segment now engine.project
      (Topics.record engine observedAt (s.asked memory) verdict) SourceKind.manual none drawn
        s.ledger = some written) : Records memory verdict s.ledger written.1 := by
  have hkept : Kept written.1 := kept_writes hgrounded.kept hunused (writeFrom_writes h)
  rcases writeFrom_leaves hgrounded.kept hunused h with ⟨hextends, hleaves⟩
  rcases writeFrom_filedAt hsourced hunused h with ⟨hsources, source, version, hrow, hfiled⟩
  have htopic : (Topics.record engine observedAt (s.asked memory) verdict).topic =
      memory.topic := rfl
  simp only [htopic] at hfiled
  constructor
  · exact grounded_write hgrounded hkept hunused h
  · exact hsources
  · intro topic
    rcases hleaves with ⟨hpromoted, state, hstate⟩ | ⟨hheld, hstates, hpointers⟩
    · have hnone : verdict = none := Option.isNone_iff_eq_none.mp hpromoted
      rw [currentContent_leaves hgrounded hextends hkept hstate topic]
      simp only [hnone, true_and]
      rfl
    · have hsome : ¬(verdict = none ∧ topic = memory.topic) := by
        intro hboth
        have hnot : verdict.isNone = false := hheld
        rw [hboth.1] at hnot
        cases hnot
      rw [if_neg hsome]
      exact currentContent_same hgrounded hextends (by rw [hstates, List.append_nil])
        (hpointers topic)
  · intro topic
    have hjudged : judgedRow version = judgedAs memory.content verdict := by
      unfold judgedRow judgedAs
      rw [hrow.content, hrow.decision, hrow.reason]
      rfl
    unfold judgedOf
    by_cases hsame : topic = memory.topic
    · have hrows := hfiled (locator SourceKind.manual memory.topic)
      rw [if_pos rfl] at hrows
      rw [if_pos hsame, hsame, hrows, List.map_append, List.map_singleton, hjudged]
    · rw [if_neg hsame, hfiled, if_neg fun heq => hsame (locator_inj heq).2]

theorem Records.still {verdict : Option Rejection} (h : Records memory verdict ledger after)
    (hother : topic ≠ memory.topic) : Still topic ledger after where
  told := by rw [h.told, if_neg fun hboth => hother hboth.2]
  filed := by rw [h.filed, if_neg hother]

theorem Records.came {verdict : Option Rejection} (h : Records memory verdict ledger after)
    (hcame : Came begun ledger memory.topic recorded)
    (hverdict : verdict = judge memory.content (ledger.currentContent memory.topic)) :
    Came begun after memory.topic (recorded ++ [memory]) := by
  rw [hcame.told] at hverdict
  constructor
  · rw [remembered_snoc, h.told, hcame.told, hverdict]
    simp only [rememberOne, and_true, Option.isNone_iff_eq_none]
  · rw [remembered_snoc, h.filed, if_pos rfl, hcame.filed, hverdict, List.append_assoc]
    rfl

theorem promotedOf_snoc (begun : Store) (topic : String) (recorded : List Memory)
    (memory : Memory) :
    promotedOf begun topic (recorded ++ [memory]) = promotedOf begun topic recorded +
      if (judge memory.content (remembered begun topic recorded).1).isNone then 1 else 0 := by
  unfold promotedOf
  rw [remembered_snoc, List.countP_append, List.countP_singleton]
  unfold rememberOne judgedAs
  generalize judge memory.content (remembered begun topic recorded).1 = verdict
  cases verdict with
  | none => rfl
  | some rejection => rfl

end Steps

end Importing
end PaminMemory
