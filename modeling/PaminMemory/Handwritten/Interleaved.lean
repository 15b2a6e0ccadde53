import PaminMemory.Handwritten.Storing
import PaminMemory.Ingest.Mirror

/-!
# Ingests and writes by hand, interleaved

Over every run, whenever no ingest is under way, each section of a recorded file is held by the
filter or said by its topic, as long as every step meets its condition.
-/

namespace PaminMemory
namespace Handwritten

open Foundation Foundation.Program
open Ingest

/-- With no ingest under way every record stands; one under way will leave it so. -/
def Standing (cutter : Cutter) (files : Set String) (s : System) : Prop :=
  match s.running with
  | none => Settled cutter files s.world ∧ s.world.progress.off = []
  | some program =>
      program.Promises (beside cutter files) (fun _ => Settled cutter files) s.world

section Running

variable {cutter : Cutter} {files : Set String}

theorem standing_empty : Standing cutter files System.empty :=
  ⟨⟨⟨fun _ hrecord => absurd hrecord List.not_mem_nil,
    fun _ hrecord => absurd hrecord List.not_mem_nil⟩, rfl⟩, rfl⟩

theorem settled_rest {world : World} (h : Settled cutter files world)
    (hoff : world.progress.off = []) : Settled cutter files world.rest := by
  refine ⟨sound_rest h.sound ⟨?_, ?_⟩, rfl⟩
  · intro record _ topic hmem
    rw [hoff] at hmem
    cases hmem
  · intro record _ hmem
    rw [h.fresh] at hmem
    cases hmem

theorem standing_step (hfiles : NamedApart cutter files) :
    PreservedWhen (step cutter) (Assumed cutter files) (Standing cutter files) := by
  rintro ⟨world, running⟩ action after h hassumed hstep
  cases action with
  | start request =>
      cases running with
      | some program => cases hstep
      | none =>
          cases hstep
          exact ingest_settled hfiles hassumed _ (settled_rest h.1 h.2)
  | call =>
      cases running with
      | none => cases hstep
      | some program =>
          cases program with
          | done value => cases hstep
          | ask call next =>
              rcases Option.ite_none_left_eq_some.mp hstep with ⟨_, hafter⟩
              cases hafter
              exact promises_answered h (hassumed call next rfl)
  | finish =>
      cases running with
      | none => cases hstep
      | some program =>
          cases program with
          | ask call next => cases hstep
          | done value =>
              cases hstep
              have hsettled : Settled cutter files world := promises_after h
              exact ⟨⟨sound_rest hsettled.sound hassumed, rfl⟩, rfl⟩
  | die =>
      rcases Option.map_eq_some_iff.mp hstep with ⟨program, hrunning, rfl⟩
      cases hrunning
      exact ⟨⟨promises_dies h hassumed, rfl⟩, rfl⟩
  | hand stroke =>
      rcases Option.map_eq_some_iff.mp hstep with ⟨struck, hstroke, rfl⟩
      cases running with
      | none =>
          refine ⟨(steady_settled hfiles).struck h.1 ⟨stroke, hassumed, hstroke⟩, ?_⟩
          exact (progress_stroke hstroke).1.trans h.2
      | some program =>
          exact promises_others h (Relation.ReflTransGen.single ⟨stroke, hassumed, hstroke⟩)

theorem namedApart_of_readBack (hback : ReadBack cutter files) : NamedApart cutter files where
  belongs hfile hnames := hback.belongs hfile hnames
  alone hfile hnames hother hbelongs := hback.alone hfile hnames hother hbelongs

end Running

/--
In every interleaving of ingests, each of which may die between two statements, with writes by
hand, where every step meets its condition: whenever no ingest is under way, each section of the
text a stored record is of is held by the filter or said by its topic.
-/
theorem record_vouches {cutter : Cutter} {files : Set String} (hfiles : NamedApart cutter files)
    {actions : List Action} {s : System}
    (hrun : RunFrom (step cutter) System.empty actions = some s)
    (hassumed : Along (step cutter) (Assumed cutter files) System.empty actions)
    (hidle : s.running = none) :
    forall record, record ∈ s.world.ledger.records -> Vouched cutter s.world.ledger record := by
  have hstanding := runFrom_preservedWhen (standing_step hfiles) standing_empty hassumed hrun
  unfold Standing at hstanding
  rw [hidle] at hstanding
  intro record hrecord
  exact vouched_of_sound (settled_rest hstanding.1 hstanding.2).sound hrecord

def ingestAt (time : Int) : Action :=
  Action.start (treeAt time [(memo, "The deploy runs on Monday.")] none).request

def memoRun : List Action :=
  ingestAt 1 :: List.replicate 10 Action.call ++
    [Action.finish, Action.hand (Stroke.write 0
      { topic := "w/a.md", content := "The deploy runs on Tuesday.", contentHash := "h"
        promoted := true, recordedAt := 2 }), Action.hand (Stroke.commit 0),
      ingestAt (seconds 120)] ++ List.replicate 10 Action.call ++ [Action.finish]

/-- What meets its condition whatever is recorded: no write by hand that commits having missed a
record, no ingest that stops with anything off the surface or to be looked at again. -/
def calm (s : System) : Action -> Bool
  | Action.start request =>
      decide (request.found.map (fun seen => seen.file.name) = ["w/a.md"]) &&
        request.deleted.isEmpty
  | Action.call =>
      match s.running with
      | some (Program.ask (Call.putFileRecords records) _) =>
          records.all fun record => record.file ∈ s.world.progress.forgot
      | some (Program.ask (Call.forgetFileRecordsWrittenSince _ _) _) =>
          s.world.progress.overwritten.isEmpty
      | _ => true
  | Action.finish => s.world.progress.off.isEmpty && s.world.progress.fresh.isEmpty
  | Action.die => false
  | Action.hand stroke =>
      match stroke with
      | Stroke.commit id =>
          (partyOf s.world.hands id).all fun hand => hand.sourced && hand.missed.isEmpty
      | _ => true

theorem assumed_of_calm {s : System} {action : Action} (h : calm s action = true) :
    Assumed oneSection memoFiles s action := by
  cases action with
  | start request =>
      rcases Bool.and_eq_true_iff.mp h with ⟨hfound, hdeleted⟩
      have hnames := of_decide_eq_true hfound
      rw [List.isEmpty_iff] at hdeleted
      constructor
      · intro seen hseen
        have hname : seen.file.name ∈ request.found.map fun seen => seen.file.name :=
          List.mem_map.mpr ⟨seen, hseen, rfl⟩
        rw [hnames, List.mem_singleton] at hname
        exact Or.inr hname
      · rw [hnames]
        exact List.nodup_singleton _
      · intro file seen hfile
        rw [hdeleted] at hfile
        cases hfile
  | call =>
      intro call next hrunning
      cases call with
      | putFileRecords records =>
          rw [calm, hrunning] at h
          intro record hrecord
          exact Or.inl (of_decide_eq_true (List.all_eq_true.mp h record hrecord))
      | forgetFileRecordsWrittenSince settled since =>
          rw [calm, hrunning] at h
          have hover := List.isEmpty_iff.mp h
          intro entry _ hmem
          rw [hover] at hmem
          cases hmem
      | _ => exact True.intro
  | finish =>
      rcases Bool.and_eq_true_iff.mp h with ⟨hoff, hfresh⟩
      rw [List.isEmpty_iff] at hoff hfresh
      constructor
      · intro record _ topic hmem
        rw [hoff] at hmem
        cases hmem
      · intro record _ hmem
        rw [hfresh] at hmem
        cases hmem
  | die => cases h
  | hand stroke =>
      cases stroke with
      | commit id =>
          intro hand hhand _ record _ _
          rw [calm, hhand] at h
          rcases Bool.and_eq_true_iff.mp h with ⟨hsourced, hmissed⟩
          refine Or.inr ⟨hsourced, ?_⟩
          rw [List.isEmpty_iff.mp hmissed]
          exact List.not_mem_nil
      | write id write => exact True.intro
      | rollBack id => exact True.intro

theorem record_vouches_for_the_memo :
    exists s, RunFrom (step oneSection) System.empty memoRun = some s ∧
      s.world.ledger.records.map FileRecord.file = ["w/a.md"] ∧
        forall record, record ∈ s.world.ledger.records ->
          Vouched oneSection s.world.ledger record := by
  have hends : ((RunFrom (step oneSection) System.empty memoRun).any fun s =>
      s.running.isNone &&
        decide (s.world.ledger.records.map FileRecord.file = ["w/a.md"])) = true := by decide
  have hcalm : Along (step oneSection) (fun s action => calm s action = true) System.empty
      memoRun := by decide
  rcases (Option.any_eq_true _ _).mp hends with ⟨s, hrun, hs⟩
  rcases Bool.and_eq_true_iff.mp hs with ⟨hidle, hrecords⟩
  refine ⟨s, hrun, of_decide_eq_true hrecords, ?_⟩
  exact record_vouches (namedApart_of_readBack readBack_oneSection) hrun
    (along_mono (fun _ _ => assumed_of_calm) hcalm) (Option.isNone_iff_eq_none.mp hidle)

end Handwritten
end PaminMemory
