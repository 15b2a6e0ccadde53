import PaminMemory.Handwritten.Backing
import PaminMemory.Ingest.Recording

/-!
# What the statements of an ingest leave

From when it forgets the records of the files it cut until it stores their new ones, what an
ingest writes is of those files or takes a section of a recorded file off the surface.
-/

namespace PaminMemory
namespace Handwritten

open Foundation Foundation.Program
open Ingest
open Topics (Current Rejection Restates Retired SourceKind Worthless judge)

/-!
## Rules
-/

def Struck (cutter : Cutter) (world after : World) : Prop :=
  exists stroke, MayStroke cutter world stroke ∧ world.stroke stroke = some after

/-- What an ingest may count on beside writes by hand: wherever it may stop, every record stands. -/
def beside (cutter : Cutter) (files : Set String) : Setting Call Call.reply World where
  answer := respond
  others := Relation.ReflTransGen (Struck cutter)
  allowed := fun call world => MayCall cutter world call
  dies := fun world => MayStop cutter world -> Sound cutter files world.rest
  others_refl := fun _ => Relation.ReflTransGen.refl
  others_trans := Relation.ReflTransGen.trans

structure Steady (cutter : Cutter) (files : Set String) (P : World -> Prop) : Prop where
  struck : forall {world after}, P world -> Struck cutter world after -> P after
  sound : forall {world}, P world -> Sound cutter files world

section Rules

variable {cutter : Cutter} {files : Set String} {P : World -> Prop}

theorem Steady.others (h : Steady cutter files P) {world after : World} (hworld : P world)
    (hothers : (beside cutter files).others world after) : P after := by
  have hstrokes : Relation.ReflTransGen (Struck cutter) world after := hothers
  induction hstrokes with
  | refl => exact hworld
  | tail hbefore hstruck ih => exact h.struck (ih hbefore) hstruck

theorem Steady.dies (h : Steady cutter files P) {world : World} (hworld : P world) :
    (beside cutter files).dies world := fun hstop => sound_rest (h.sound hworld) hstop

theorem Steady.and {Q : World -> Prop} (h : Steady cutter files P)
    (hstroke : forall {world after stroke}, Q world -> world.stroke stroke = some after ->
      Q after) : Steady cutter files fun world => P world ∧ Q world where
  struck := by
    rintro world after ⟨hP, hQ⟩ ⟨stroke, hmay, hafter⟩
    exact ⟨h.struck hP ⟨stroke, hmay, hafter⟩, hstroke hQ hafter⟩
  sound hworld := h.sound hworld.1

theorem steady_make {call : Call} {after : call.reply -> World -> Prop}
    (hbefore : Steady cutter files P) (hafter : forall value, Steady cutter files (after value))
    (hcall : forall world, P world -> MayCall cutter world call ->
      after (respond call world).1 (respond call world).2) :
    (make call : Calls call.reply).Ensures (beside cutter files) P after := by
  apply ensures_make
  · exact fun world other hworld hothers => hbefore.others hworld hothers
  · exact fun world hworld => hbefore.dies hworld
  · exact hcall
  · exact fun value world hworld => (hafter value).dies hworld
  · exact fun value world other hworld hothers => (hafter value).others hworld hothers

theorem steady_pure {α : Type} {after : α -> World -> Prop} (value : α)
    (hbefore : Steady cutter files P) (h : forall world, P world -> after value world) :
    (pure value : Calls α).Ensures (beside cutter files) P after := by
  apply ensures_pure
  intro world other hworld hothers
  have hother := hbefore.others hworld hothers
  exact ⟨hbefore.dies hother, h other hother⟩

theorem steady_read {call : Call} (h : Steady cutter files P)
    (hread : forall world, (respond call world).2 = world) :
    (make call : Calls call.reply).Ensures (beside cutter files) P fun _ => P := by
  apply steady_make h (fun _ => h)
  intro world hworld _
  rw [hread]
  exact hworld

theorem steady_forEach {α β : Type} {body : α -> Calls β}
    {Done : List (α × β) -> World -> Prop} (h : forall done, Steady cutter files (Done done))
    (entries : List α)
    (hbody : forall earlier entry later, earlier.map Prod.fst ++ entry :: later = entries ->
      (body entry).Ensures (beside cutter files) (Done earlier)
        fun value => Done (earlier ++ [(entry, value)])) :
    (forEach body entries).Ensures (beside cutter files) (Done [])
      fun values world => values.length = entries.length ∧ Done (entries.zip values) world :=
  ensures_forEach_split (fun done _ _ hworld hothers => (h done).others hworld hothers)
    (fun done _ hworld => (h done).dies hworld) [] entries hbody

theorem steady_each {α β : Type} {body : α -> Calls β} (h : Steady cutter files P)
    (entries : List α)
    (hbody : forall entry, entry ∈ entries ->
      (body entry).Ensures (beside cutter files) P fun _ => P) :
    (forEach body entries).Ensures (beside cutter files) P fun _ => P := by
  apply ensures_mono
    (ensures_forEach (fun _ _ _ hworld hothers => h.others hworld hothers)
      (fun _ _ hworld => h.dies hworld) [] entries fun _ entry hentry => hbody entry hentry)
    (fun _ hworld => hworld)
  exact fun _ _ hworld => hworld.2

end Rules

/-!
## While nothing it cut is recorded
-/

structure Begun (cutter : Cutter) (files : Set String) (names : List String) (world : World) :
    Prop where
  sound : Sound cutter files world
  forgot : world.progress.forgot = names
  fresh : world.progress.fresh = []
  uncut : forall record, record ∈ world.ledger.records -> record.file ∉ names

section Cutting

variable {cutter : Cutter} {files : Set String} {names : List String} {world after : World}

theorem steady_begun (hfiles : NamedApart cutter files) :
    Steady cutter files (Begun cutter files names) where
  struck := by
    rintro world after h ⟨stroke, hmay, hstroke⟩
    rcases progress_stroke hstroke with ⟨_, hfresh, hforgot⟩
    constructor
    · exact sound_stroke hfiles h.sound hmay hstroke
    · exact hforgot.trans h.forgot
    · exact hfresh.trans h.fresh
    · exact fun record hrecord => h.uncut record (mem_records_stroke hstroke hrecord)
  sound h := h.sound

structure Spares (cutter : Cutter) (world after : World) : Prop where
  hands : after.hands = world.hands
  forgot : after.progress.forgot = world.progress.forgot
  fresh : after.progress.fresh = world.progress.fresh
  off : forall entry, entry ∈ world.progress.off -> entry ∈ after.progress.off
  records : forall record, record ∈ after.ledger.records -> record ∈ world.ledger.records
  agree : forall record, record ∈ after.ledger.records -> Lost cutter after record ∨
    forall name, SectionOf cutter record name -> Agree world.ledger after.ledger name

theorem Begun.spared (h : Begun cutter files names world) (hspares : Spares cutter world after) :
    Begun cutter files names after := by
  constructor
  · constructor
    · exact fun record hrecord => h.sound.placed record (hspares.records record hrecord)
    · intro record hrecord
      rcases hspares.agree record hrecord with hoff | hagree
      · exact Or.inl hoff
      · refine (h.sound.stands record (hspares.records record hrecord)).imp ?_ ?_
        · rintro ⟨topic, hoff, hsection⟩
          exact ⟨topic, hspares.off _ hoff, hsection⟩
        rintro ⟨sections, hcut, hguarded⟩
        refine ⟨sections, hcut, fun named hnamed hworthy => ?_⟩
        have hhere := hguarded named hnamed hworthy
        have hsame := hagree named.name ⟨sections, hcut, named, hnamed, rfl, hworthy⟩
        have hsaid : Said world.ledger named := by
          apply hhere.says
          rw [h.fresh]
          exact List.not_mem_nil
        apply hhere.stays hsaid hsame ?_ rfl
        rw [hspares.hands]
        exact Carried.refl _
  · exact hspares.forgot.trans h.forgot
  · exact hspares.fresh.trans h.fresh
  · exact fun record hrecord => h.uncut record (hspares.records record hrecord)

theorem Begun.ne_of_names (hfiles : NamedApart cutter files) (h : Begun cutter files names world)
    {record : FileRecord} (hrecord : record ∈ world.ledger.records) {name topic file : String}
    (hname : cutter.Names record.file name) (hfile : file ∈ files) (hin : file ∈ names)
    (htopic : cutter.Names file topic) : name ≠ topic := by
  rintro rfl
  have hplaced := h.sound.placed record hrecord
  have hsame := hfiles.alone hfile htopic hplaced (hfiles.belongs hplaced hname)
  exact h.uncut record hrecord (hsame ▸ hin)

theorem spares_written (hfiles : NamedApart cutter files) (h : Begun cutter files names world)
    {write : Write} {root : Option String} {file : String} (hfile : file ∈ files)
    (hin : file ∈ names) (hnames : cutter.Names file write.topic) :
    Spares cutter world (respond (Call.writeFrom write SourceKind.file root) world).2 := by
  have hrecords : forall record,
      record ∈ (respond (Call.writeFrom write SourceKind.file root) world).2.ledger.records ->
        record ∈ world.ledger.records := by
    intro record hrecord
    rw [← Ledger.records_writeFrom world.ledger write SourceKind.file root]
    exact hrecord
  refine ⟨rfl, rfl, rfl, fun _ hoff => hoff, hrecords, ?_⟩
  intro record hrecord
  apply Or.inr
  intro name hname
  exact agree_writeFrom write SourceKind.file root
    (h.ne_of_names hfiles (hrecords record hrecord) hname.names hfile hin hnames)

theorem spares_looked (world : World) (topic : String) :
    Spares cutter world (respond (Call.currentContent topic) world).2 :=
  ⟨rfl, rfl, rfl, fun _ hoff => hoff, fun _ hrecord => hrecord,
    fun _ _ => Or.inr fun name _ => Agree.refl world.ledger name⟩

theorem spares_rooted (hfiles : NamedApart cutter files) (h : Begun cutter files names world)
    {topics : List String} {root : String}
    (htopics : forall topic, topic ∈ topics ->
      exists file, file ∈ files ∧ file ∈ names ∧ cutter.Names file topic) :
    Spares cutter world (respond (Call.setRootsAt topics root) world).2 := by
  have hrecords : forall record,
      record ∈ (respond (Call.setRootsAt topics root) world).2.ledger.records ->
        record ∈ world.ledger.records := by
    intro record hrecord
    rw [← (world.ledger.tables_setRootsAt topics root).2]
    exact hrecord
  refine ⟨rfl, rfl, rfl, fun _ hoff => hoff, hrecords, ?_⟩
  intro record hrecord
  apply Or.inr
  intro name hname
  apply agree_setRootsAt
  intro hmem
  rcases htopics name hmem with ⟨file, hfile, hin, hnames⟩
  exact h.ne_of_names hfiles (hrecords record hrecord) hname.names hfile hin hnames rfl

theorem mem_storedWith {record : FileRecord} (hrecord : record ∈ world.ledger.records)
    (topic : String) : (record.key, topic) ∈ world.storedWith topic :=
  List.mem_map.mpr ⟨record, hrecord, rfl⟩

theorem spares_retired (world : World) (topic : String) (seen : TopicStateId) :
    Spares cutter world (respond (Call.retireSection topic seen) world).2 ∧
      forall name, name ≠ topic -> Agree world.ledger
        (respond (Call.retireSection topic seen) world).2.ledger name := by
  have hledger : (respond (Call.retireSection topic seen) world).2.ledger =
      (world.ledger.retireSection topic seen).2 := rfl
  have hprogress : (respond (Call.retireSection topic seen) world).2.progress =
      if (world.ledger.retireSection topic seen).1 = Retired.retired then
        { world.progress with off := world.storedWith topic ++ world.progress.off }
      else
        world.progress := rfl
  have hsame : forall outcome, world.ledger.retireSection topic seen = (outcome, world.ledger) ->
      outcome ≠ Retired.retired ->
        Spares cutter world (respond (Call.retireSection topic seen) world).2 ∧
          forall name, name ≠ topic -> Agree world.ledger
            (respond (Call.retireSection topic seen) world).2.ledger name := by
    intro outcome hretire hkept
    rw [hretire] at hledger
    rw [hretire, if_neg hkept] at hprogress
    constructor
    · constructor
      · rfl
      · rw [hprogress]
      · rw [hprogress]
      · rw [hprogress]
        exact fun _ hoff => hoff
      · rw [hledger]
        exact fun _ hrecord => hrecord
      · rw [hledger]
        exact fun _ _ => Or.inr fun name _ => Agree.refl _ name
    · rw [hledger]
      exact fun name _ => Agree.refl _ name
  rcases world.ledger.retireSection_cases topic seen with
    ⟨habsent, _⟩ | ⟨_, _, _, hchanged⟩ | ⟨_, hkept⟩ | hretired
  · exact hsame _ habsent (by decide)
  · exact hsame _ hchanged (by decide)
  · exact hsame _ hkept (by decide)
  · rw [hretired] at hledger
    rw [hretired, if_pos rfl] at hprogress
    constructor
    · constructor
      · rfl
      · rw [hprogress]
      · rw [hprogress]
      · rw [hprogress]
        exact fun _ hoff => List.mem_append_right _ hoff
      · rw [hledger]
        exact fun _ hrecord => hrecord
      · rw [hledger]
        intro record hrecord
        by_cases hsection : SectionOf cutter record topic
        · exact Or.inl ⟨topic, hprogress ▸ List.mem_append_left _ (mem_storedWith hrecord topic),
            hsection⟩
        · apply Or.inr
          intro name hother
          apply agree_retired
          rintro rfl
          exact hsection hother
    · rw [hledger]
      exact fun name hne => agree_retired hne

theorem spares_renamed (hfiles : NamedApart cutter files) (h : Begun cutter files names world)
    (old : String) {new file : String} (seen : TopicStateId) (hfile : file ∈ files)
    (hin : file ∈ names) (hnames : cutter.Names file new) :
    Spares cutter world (respond (Call.renameSection old new seen) world).2 := by
  have hledger : (respond (Call.renameSection old new seen) world).2.ledger =
      (world.ledger.renameSection old new seen).2 := rfl
  have hprogress : (respond (Call.renameSection old new seen) world).2.progress =
      if (world.ledger.renameSection old new seen).1 then
        { world.progress with off := world.storedWith old ++ world.progress.off }
      else
        world.progress := rfl
  rcases world.ledger.renameSection_cases old new seen with
    hrefused | ⟨moving, _, _, _, _, hmoved⟩
  · rw [hrefused] at hledger
    rw [hrefused, if_neg Bool.false_ne_true] at hprogress
    constructor
    · rfl
    · rw [hprogress]
    · rw [hprogress]
    · rw [hprogress]
      exact fun _ hoff => hoff
    · rw [hledger]
      exact fun _ hrecord => hrecord
    · rw [hledger]
      exact fun _ _ => Or.inr fun name _ => Agree.refl _ name
  · rw [hmoved] at hledger
    rw [hmoved, if_pos rfl] at hprogress
    constructor
    · rfl
    · rw [hprogress]
    · rw [hprogress]
    · rw [hprogress]
      exact fun _ hoff => List.mem_append_right _ hoff
    · rw [hledger]
      exact fun _ hrecord => hrecord
    · rw [hledger]
      intro record hrecord
      by_cases hsection : SectionOf cutter record old
      · exact Or.inl ⟨old, hprogress ▸ List.mem_append_left _ (mem_storedWith hrecord old),
          hsection⟩
      · apply Or.inr
        intro name hother
        apply agree_moved
        · rintro rfl
          exact hsection hother
        · exact h.ne_of_names hfiles hrecord hother.names hfile hin hnames

end Cutting

end Handwritten
end PaminMemory
