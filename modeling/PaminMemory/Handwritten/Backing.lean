import PaminMemory.Handwritten.Writing

/-!
# What stands behind a record

A section of a recorded file is said by its topic, which is filed as of the record's root, so
that a write by hand finds the record and takes it along.  A section written by hand since an
ingest recorded it is known to be so until that ingest looks a second time.
-/

namespace PaminMemory
namespace Handwritten

open Foundation Foundation.Program
open Ingest
open Topics (Current Restates Retired SourceKind Worthless)

/-!
## Sections
-/

structure Told (world : World) (named : Section) : Prop where
  there : (world.ledger.topics.lookup named.name).isSome = true
  said : Said world.ledger named ∨ named.name ∈ world.progress.overwritten

/-- A file source of this name, if there is one, is of this root. -/
def RootedAt (ledger : Ledger) (root name : String) : Prop :=
  forall source, ledger.sources.lookup (SourceKind.file, name) = some source ->
    source.root = some root

structure Backed (world : World) (root : String) (named : Section) : Prop
    extends Told world named where
  rooted : RootedAt world.ledger root named.name

/-- A section of a stored record, and the writes by hand under way to it. -/
structure Guarded (world : World) (record : FileRecord) (named : Section) : Prop
    extends Backed world record.root named where
  fresh : ¬Said world.ledger named -> record.key ∈ world.progress.fresh
  watched : forall entry, entry ∈ world.hands -> entry.2.write.promoted = true ->
    entry.2.write.topic = named.name -> entry.2.sourced = true ->
      record.key ∈ entry.2.taken ∨ record.key ∈ entry.2.missed

/-- The record's text is cut into sections that are all guarded, less those the filter holds. -/
def Stands (cutter : Cutter) (world : World) (record : FileRecord) : Prop :=
  exists sections, CutInto cutter record sections ∧ forall named, named ∈ sections ->
    ¬Worthless named.content -> Guarded world record named

def Lost (cutter : Cutter) (world : World) (record : FileRecord) : Prop :=
  exists topic, (record.key, topic) ∈ world.progress.off ∧ SectionOf cutter record topic

theorem SectionOf.names {cutter : Cutter} {record : FileRecord} {topic : String}
    (h : SectionOf cutter record topic) : cutter.Names record.file topic := by
  rcases h with ⟨sections, hcut, named, hnamed, rfl, _⟩
  exact hcut.names named hnamed

/-- Every stored record stands, or is one whose file lost a section to the ingest under way. -/
structure Sound (cutter : Cutter) (files : Set String) (world : World) : Prop where
  placed : forall record, record ∈ world.ledger.records -> record.file ∈ files
  stands : forall record, record ∈ world.ledger.records ->
    Lost cutter world record ∨ Stands cutter world record

/-!
## Topics that stay as they are
-/

structure Agree (ledger other : Ledger) (name : String) : Prop where
  topic : other.topics.lookup name = ledger.topics.lookup name
  source : other.sources.lookup (SourceKind.file, name) =
    ledger.sources.lookup (SourceKind.file, name)

section Agreeing

variable {ledger other : Ledger} {name : String}

theorem Agree.refl (ledger : Ledger) (name : String) : Agree ledger ledger name := ⟨rfl, rfl⟩

theorem said_of_topic (htopic : other.topics.lookup name = ledger.topics.lookup name)
    {named : Section} (hname : named.name = name) (h : Said ledger named) : Said other named := by
  rcases h with ⟨current, hcurrent, hrestates⟩
  refine ⟨current, ?_, hrestates⟩
  rw [← hcurrent]
  unfold Ledger.current
  rw [hname, htopic]

theorem topics_writeFrom (ledger : Ledger) (write : Write) (kind : SourceKind)
    (root : Option String) :
    (ledger.writeFrom write kind root).topics =
      if write.promoted = true then
        ledger.topics.insert write.topic
          (some { state := ledger.states, content := write.content })
      else
        ledger.topics := by
  unfold Ledger.writeFrom
  cases hpromoted : write.promoted with
  | true => rfl
  | false => rfl

theorem agree_writeFrom (write : Write) (kind : SourceKind) (root : Option String)
    (hname : name ≠ write.topic) : Agree ledger (ledger.writeFrom write kind root) name := by
  constructor
  · rw [topics_writeFrom]
    split
    · exact AList.lookup_insert_ne hname
    · rfl
  · rw [Ledger.sources_writeFrom]
    apply AList.lookup_insert_ne
    intro heq
    exact hname (Prod.mk.inj heq).2

theorem agree_setRootAt {root topic : String} (hname : name ≠ topic) :
    Agree ledger (Ledger.setRootAt root ledger topic) name := by
  unfold Ledger.setRootAt
  split
  · exact Agree.refl ledger name
  · refine ⟨rfl, AList.lookup_insert_ne ?_⟩
    intro heq
    exact hname (Prod.mk.inj heq).2

theorem Agree.trans {third : Ledger} (h : Agree ledger other name)
    (h' : Agree other third name) : Agree ledger third name :=
  ⟨h'.topic.trans h.topic, h'.source.trans h.source⟩

theorem agree_setRootsAt {topics : List String} {root : String} (hname : name ∉ topics) :
    Agree ledger (ledger.setRootsAt topics root) name := by
  unfold Ledger.setRootsAt
  induction topics generalizing ledger with
  | nil => exact Agree.refl ledger name
  | cons topic rest ih =>
      rw [List.mem_cons, not_or] at hname
      exact (agree_setRootAt hname.1).trans (ih hname.2)

theorem agree_retired {topic : String} (hname : name ≠ topic) :
    Agree ledger { ledger with topics := ledger.topics.insert topic none } name :=
  ⟨AList.lookup_insert_ne hname, rfl⟩

theorem agree_moved {old new : String} {moving : Current} (hold : name ≠ old)
    (hnew : name ≠ new) : Agree ledger (ledger.moved old new moving) name := by
  constructor
  · show ((ledger.topics.erase old).insert new (some moving)).lookup name = _
    rw [AList.lookup_insert_ne hnew, AList.lookup_erase_ne hold]
  · unfold Ledger.moved
    cases hsource : ledger.sources.lookup (SourceKind.file, old) with
    | none => rfl
    | some source =>
        show ((ledger.sources.erase (SourceKind.file, old)).insert _ source).lookup _ = _
        rw [AList.lookup_insert_ne fun heq => hnew (Prod.mk.inj heq).2,
          AList.lookup_erase_ne fun heq => hold (Prod.mk.inj heq).2]

end Agreeing

/-!
## A write by hand finds the record
-/

theorem namedFrom_of_belongs {name file : String} (h : belongs name file = true) :
    Ledger.namedFrom name file = true := by
  unfold belongs at h
  unfold Ledger.namedFrom
  cases hdrop : name.toList.dropPrefix? file.toList with
  | none =>
      rw [hdrop] at h
      cases h
  | some rest =>
      rw [hdrop] at h
      have hname := dropPrefix?_chars.mp hdrop
      cases rest with
      | nil =>
          rw [List.append_nil] at hname
          have hsame : name = file := String.toList_injective hname
          rw [decide_eq_true hsame]
          rfl
      | cons c rest =>
          have hends : endsSection (rest.length + 1) (c :: rest) = true := h
          rw [endsSection, List.isEmpty_cons, Bool.false_or, Bool.or_eq_true] at hends
          rw [hname]
          rcases hends with hseparator | hnumber
          · rw [List.isPrefixOf_iff_prefix] at hseparator
            have hprefix := (List.prefix_append_right_inj file.toList).mpr hseparator
            rw [List.isPrefixOf_iff_prefix.mpr hprefix, Bool.or_true, Bool.true_or]
          · cases hafter : (c :: rest).dropPrefix? NUMBER with
            | none =>
                rw [hafter] at hnumber
                cases hnumber
            | some after =>
                have hprefix : file.toList ++ NUMBER <+: file.toList ++ c :: rest := by
                  rw [dropPrefix?_chars.mp hafter]
                  exact (List.prefix_append_right_inj _).mpr (List.prefix_append _ _)
                rw [List.isPrefixOf_iff_prefix.mpr hprefix, Bool.or_true]

section Strokes

variable {cutter : Cutter} {files : Set String} {world after : World} {record : FileRecord}
  {named : Section} {root : String} {hand : Hand} {id : Nat}

theorem takes_section (hbacked : Backed world record.root named)
    (hrecord : record ∈ world.ledger.records) (hbelongs : belongs named.name record.file = true)
    {write : Write} (htopic : write.topic = named.name) (hpromoted : write.promoted = true)
    (hsourced : world.ledger.sourceAt SourceKind.file write.topic = true) :
    record.key ∈ world.takes write := by
  unfold World.takes
  rw [htopic] at hsourced ⊢
  rw [hpromoted, hbacked.there]
  rcases Option.isSome_iff_exists.mp hsourced with ⟨source, hsource⟩
  have hroot : world.ledger.rootOf named.name = some record.root := by
    unfold Ledger.rootOf
    rw [hsource]
    exact hbacked.rooted source hsource
  apply List.mem_map_of_mem
  apply List.mem_filter.mpr
  refine ⟨hrecord, ?_⟩
  rw [hroot, namedFrom_of_belongs hbelongs, Bool.and_true]
  exact decide_eq_true rfl

/-!
## What a write by hand leaves
-/

theorem told_congr (h : Told world named)
    (htopic : after.ledger.topics.lookup named.name = world.ledger.topics.lookup named.name)
    (hover : named.name ∈ world.progress.overwritten -> named.name ∈ after.progress.overwritten) :
    Told after named where
  there := by
    rw [htopic]
    exact h.there
  said := h.said.imp (said_of_topic htopic rfl) hover

theorem rootedAt_congr {ledger other : Ledger} {name : String} (h : RootedAt ledger root name)
    (hsource : other.sources.lookup (SourceKind.file, name) =
      ledger.sources.lookup (SourceKind.file, name)) : RootedAt other root name := by
  intro source hfound
  rw [hsource] at hfound
  exact h source hfound

theorem backed_congr (h : Backed world root named)
    (hagree : Agree world.ledger after.ledger named.name)
    (hover : named.name ∈ world.progress.overwritten -> named.name ∈ after.progress.overwritten) :
    Backed after root named where
  toTold := told_congr h.toTold hagree.topic hover
  rooted := rootedAt_congr h.rooted hagree.source

theorem told_committed (h : Told world named) (hand : Hand) :
    Told (world.committed hand) named := by
  have htopics : (world.committed hand).ledger.topics =
      (world.ledger.writeFrom hand.write SourceKind.manual none).topics := rfl
  rw [topics_writeFrom] at htopics
  by_cases hname : hand.write.promoted = true ∧ named.name = hand.write.topic
  · rw [if_pos hname.1, ← hname.2] at htopics
    constructor
    · rw [htopics, AList.lookup_insert]
      rfl
    · apply Or.inr
      unfold World.committed
      rw [if_pos hname.1, ← hname.2]
      exact List.mem_cons_self
  · apply told_congr h
    · rw [htopics]
      split
      · next hpromoted => exact AList.lookup_insert_ne fun heq => hname ⟨hpromoted, heq⟩
      · rfl
    · intro hmem
      unfold World.committed
      dsimp only
      split
      · exact List.mem_cons_of_mem _ hmem
      · exact hmem

theorem source_committed (world : World) (hand : Hand) (name : String) :
    (world.committed hand).ledger.sources.lookup (SourceKind.file, name) =
      world.ledger.sources.lookup (SourceKind.file, name) := by
  show (world.ledger.writeFrom hand.write SourceKind.manual none).sources.lookup _ = _
  rw [Ledger.sources_writeFrom]
  apply AList.lookup_insert_ne
  intro heq
  cases (Prod.mk.inj heq).1

theorem backed_committed (h : Backed world root named) (hand : Hand) :
    Backed (world.committed hand) root named where
  toTold := told_committed h.toTold hand
  rooted := rootedAt_congr h.rooted (source_committed world hand named.name)

theorem Guarded.left (h : Guarded world record named) (hledger : after.ledger = world.ledger)
    (hprogress : after.progress = world.progress)
    (hhands : forall entry, entry ∈ after.hands -> entry ∈ world.hands) :
    Guarded after record named where
  toBacked := by
    apply backed_congr h.toBacked
    · rw [hledger]
      exact Agree.refl _ _
    · rw [hprogress]
      exact id
  fresh := by
    rw [hledger, hprogress]
    exact h.fresh
  watched entry hentry := h.watched entry (hhands entry hentry)

theorem Guarded.says (h : Guarded world record named)
    (hfresh : record.key ∉ world.progress.fresh) : Said world.ledger named := by
  by_contra hunsaid
  exact hfresh (h.fresh hunsaid)

/-- The writes by hand under way are those there were, and no record they missed is left out. -/
def Carried (hands after : List (Nat × Hand)) : Prop :=
  forall entry, entry ∈ after -> exists hand : Hand,
    hand ∈ hands.map Prod.snd ∧ entry.2.write = hand.write ∧ entry.2.sourced = hand.sourced ∧
      entry.2.taken = hand.taken ∧ forall key, key ∈ hand.missed -> key ∈ entry.2.missed

theorem Carried.refl (hands : List (Nat × Hand)) : Carried hands hands :=
  fun entry hentry => ⟨entry.2, List.mem_map_of_mem hentry, rfl, rfl, rfl, fun _ hkey => hkey⟩

theorem Guarded.stays {other : FileRecord} (h : Guarded world record named)
    (hsaid : Said world.ledger named) (hagree : Agree world.ledger after.ledger named.name)
    (hhands : Carried world.hands after.hands) (hkey : record.key = other.key) :
    Guarded after other named where
  there := by
    rw [hagree.topic]
    exact h.there
  said := Or.inl (said_of_topic hagree.topic rfl hsaid)
  rooted := by
    rw [← (Prod.mk.inj hkey).1]
    exact rootedAt_congr h.rooted hagree.source
  fresh hunsaid := absurd (said_of_topic hagree.topic rfl hsaid) hunsaid
  watched entry hentry hpromoted htopic hsourced := by
    rcases hhands entry hentry with ⟨hand, hhand, hwrite, hsource, htaken, hmissed⟩
    rcases List.mem_map.mp hhand with ⟨before, hbefore, rfl⟩
    rw [hwrite] at hpromoted htopic
    rw [hsource] at hsourced
    rw [← hkey, htaken]
    exact (h.watched before hbefore hpromoted htopic hsourced).imp_right (hmissed record.key)

theorem Guarded.begun (h : Guarded world record named)
    (hrecord : record ∈ world.ledger.records) (hbelongs : belongs named.name record.file = true)
    (id : Nat) (write : Write) :
    Guarded
      { world with
        hands := world.hands ++ [(id,
          { write := write, taken := world.takes write
            sourced := world.ledger.sourceAt SourceKind.file write.topic, missed := [] })] }
      record named where
  toBacked := backed_congr h.toBacked (Agree.refl _ _) fun hover => hover
  fresh := h.fresh
  watched entry hentry hpromoted htopic hsourced := by
    rcases List.mem_append.mp hentry with hbefore | hnew
    · exact h.watched entry hbefore hpromoted htopic hsourced
    · cases List.mem_singleton.mp hnew
      exact Or.inl (takes_section h.toBacked hrecord hbelongs htopic hpromoted hsourced)

/-- One that commits to a section takes the record along, or is told apart by the ingest that
stored it. -/
theorem Guarded.committed (h : Guarded world record named)
    (hpartyOf : hand ∈ world.hands.map Prod.snd) (hworthy : ¬Worthless named.content)
    {sections : List Section}
    (hcut : CutInto cutter record sections) (hnamed : named ∈ sections)
    (hrecord : record ∈ world.ledger.records) (htaken : record.key ∉ hand.taken)
    (hmay : MayCommit cutter world hand) : Guarded (world.committed hand) record named where
  toBacked := backed_committed h.toBacked hand
  fresh := by
    intro hunsaid
    by_cases hname : hand.write.promoted = true ∧ hand.write.topic = named.name
    · rcases hname with ⟨hpromoted, htopic⟩
      rcases List.mem_map.mp hpartyOf with ⟨entry, hentry, rfl⟩
      have hsection : SectionOf cutter record entry.2.write.topic :=
        ⟨sections, hcut, named, hnamed, htopic.symm, hworthy⟩
      have hfresh : record.key ∈ world.progress.fresh := by
        rcases hmay hpromoted record hrecord hsection with hfresh | ⟨hsourced, hmissed⟩
        · exact hfresh
        · rcases h.watched entry hentry hpromoted htopic hsourced with hin | hin
          · exact absurd hin htaken
          · exact absurd hin hmissed
      unfold World.committed
      rw [if_pos hpromoted]
      exact hfresh
    · have htopics : (world.committed hand).ledger.topics.lookup named.name =
          world.ledger.topics.lookup named.name := by
        show (world.ledger.writeFrom hand.write SourceKind.manual none).topics.lookup _ = _
        rw [topics_writeFrom]
        split
        · next hpromoted =>
            apply AList.lookup_insert_ne
            intro heq
            exact hname ⟨hpromoted, heq.symm⟩
        · rfl
      have hstill := h.fresh fun hsaid => hunsaid (said_of_topic htopics rfl hsaid)
      unfold World.committed
      dsimp only
      split
      · exact hstill
      · exact hstill
  watched := h.watched

theorem mem_records_committed (h : record ∈ (world.committed hand).ledger.records) :
    record ∈ world.ledger.records ∧ record.key ∉ hand.taken := by
  have hfilter : record ∈ (world.ledger.writeFrom hand.write SourceKind.manual none).records.filter
      fun record => decide (record.key ∉ hand.taken) := h
  rw [Ledger.records_writeFrom, List.mem_filter, decide_eq_true_eq] at hfilter
  exact hfilter

theorem progress_committed (world : World) (hand : Hand) :
    (world.committed hand).progress.off = world.progress.off ∧
      (world.committed hand).progress.fresh = world.progress.fresh ∧
        (world.committed hand).progress.forgot = world.progress.forgot := by
  unfold World.committed
  dsimp only
  split
  · exact ⟨rfl, rfl, rfl⟩
  · exact ⟨rfl, rfl, rfl⟩

theorem mem_dropHand {entry : Nat × Hand} (h : entry ∈ (world.dropHand id).hands) :
    entry ∈ world.hands := mem_dropParty h

theorem Guarded.stroke (hfiles : NamedApart cutter files) (h : Guarded world record named)
    (hworthy : ¬Worthless named.content) {sections : List Section}
    (hcut : CutInto cutter record sections) (hnamed : named ∈ sections)
    (hplaced : record.file ∈ files) (hrecord : record ∈ world.ledger.records) {stroke : Stroke}
    (hmay : MayStroke cutter world stroke) (hstroke : world.stroke stroke = some after)
    (hkept : record ∈ after.ledger.records) : Guarded after record named := by
  cases stroke with
  | write id write =>
      rcases Option.ite_none_left_eq_some.mp hstroke with ⟨_, hafter⟩
      cases hafter
      exact h.begun hrecord (hfiles.belongs hplaced (hcut.names named hnamed)) id write
  | commit id =>
      rcases Option.map_eq_some_iff.mp hstroke with ⟨hand, hhand, rfl⟩
      have hmem : hand ∈ world.hands.map Prod.snd :=
        List.mem_map.mpr ⟨(id, hand), mem_of_partyOf hhand, rfl⟩
      have htaken := (mem_records_committed hkept).2
      have hcommitted :=
        h.committed hmem hworthy hcut hnamed hrecord htaken (hmay hand hhand)
      exact hcommitted.left rfl rfl fun entry hentry => mem_dropHand hentry
  | rollBack id =>
      rcases Option.map_eq_some_iff.mp hstroke with ⟨hand, _, rfl⟩
      exact h.left rfl rfl fun entry hentry => mem_dropHand hentry

theorem stroke_cases {stroke : Stroke} (hstroke : world.stroke stroke = some after) :
    (after.ledger = world.ledger ∧ after.progress = world.progress) ∨
      exists hand id, after = (world.committed hand).dropHand id := by
  cases stroke with
  | write id write =>
      rcases Option.ite_none_left_eq_some.mp hstroke with ⟨_, hafter⟩
      cases hafter
      exact Or.inl ⟨rfl, rfl⟩
  | commit id =>
      rcases Option.map_eq_some_iff.mp hstroke with ⟨hand, _, rfl⟩
      exact Or.inr ⟨hand, id, rfl⟩
  | rollBack id =>
      rcases Option.map_eq_some_iff.mp hstroke with ⟨_, _, rfl⟩
      exact Or.inl ⟨rfl, rfl⟩

theorem told_stroke (h : Told world named) {stroke : Stroke}
    (hstroke : world.stroke stroke = some after) : Told after named := by
  rcases stroke_cases hstroke with ⟨hledger, hprogress⟩ | ⟨hand, id, rfl⟩
  · apply told_congr h
    · rw [hledger]
    · rw [hprogress]
      exact fun hover => hover
  · exact told_congr (told_committed h hand) rfl fun hover => hover

theorem rootedAt_stroke {name : String} (h : RootedAt world.ledger root name) {stroke : Stroke}
    (hstroke : world.stroke stroke = some after) : RootedAt after.ledger root name := by
  rcases stroke_cases hstroke with ⟨hledger, _⟩ | ⟨hand, id, rfl⟩
  · rw [hledger]
    exact h
  · exact rootedAt_congr h (source_committed world hand name)

theorem mem_records_stroke {stroke : Stroke} (hstroke : world.stroke stroke = some after)
    (h : record ∈ after.ledger.records) : record ∈ world.ledger.records := by
  rcases stroke_cases hstroke with ⟨hledger, _⟩ | ⟨hand, id, rfl⟩
  · rw [hledger] at h
    exact h
  · exact (mem_records_committed h).1

theorem progress_stroke {stroke : Stroke} (hstroke : world.stroke stroke = some after) :
    after.progress.off = world.progress.off ∧ after.progress.fresh = world.progress.fresh ∧
      after.progress.forgot = world.progress.forgot := by
  rcases stroke_cases hstroke with ⟨_, hprogress⟩ | ⟨hand, id, rfl⟩
  · rw [hprogress]
    exact ⟨rfl, rfl, rfl⟩
  · exact progress_committed world hand

theorem sound_stroke (hfiles : NamedApart cutter files) (h : Sound cutter files world)
    {stroke : Stroke} (hmay : MayStroke cutter world stroke)
    (hstroke : world.stroke stroke = some after) : Sound cutter files after := by
  constructor
  · intro record hrecord
    exact h.placed record (mem_records_stroke hstroke hrecord)
  · intro record hrecord
    have hbefore := mem_records_stroke hstroke hrecord
    unfold Lost
    rw [(progress_stroke hstroke).1]
    refine (h.stands record hbefore).imp_right ?_
    rintro ⟨sections, hcut, hguarded⟩
    refine ⟨sections, hcut, fun named hnamed hworthy => ?_⟩
    exact (hguarded named hnamed hworthy).stroke hfiles hworthy hcut hnamed
      (h.placed record hbefore) hbefore hmay hstroke hrecord

end Strokes

/-!
## When nothing is under way
-/

theorem sound_rest {cutter : Cutter} {files : Set String} {world : World}
    (h : Sound cutter files world) (hstop : MayStop cutter world) :
    Sound cutter files world.rest := by
  refine ⟨h.placed, ?_⟩
  intro record hrecord
  rcases h.stands record hrecord with ⟨topic, hoff, hsection⟩ | ⟨sections, hcut, hguarded⟩
  · exact absurd hsection (hstop.off record hrecord topic hoff)
  · refine Or.inr ⟨sections, hcut, ?_⟩
    intro named hnamed hworthy
    have hhere := hguarded named hnamed hworthy
    have hsaid : Said world.ledger named := by
      by_contra hunsaid
      have hover := hhere.said.resolve_left hunsaid
      exact hstop.fresh record hrecord (hhere.fresh hunsaid) named.name hover
        ⟨sections, hcut, named, hnamed, rfl, hworthy⟩
    exact hhere.stays hsaid (Agree.refl _ _) (Carried.refl _) rfl

theorem vouched_of_sound {cutter : Cutter} {files : Set String} {world : World}
    (h : Sound cutter files world.rest) {record : FileRecord}
    (hrecord : record ∈ world.ledger.records) : Vouched cutter world.ledger record := by
  rcases h.stands record hrecord with ⟨_, hoff, _⟩ | ⟨sections, hcut, hguarded⟩
  · exact absurd hoff List.not_mem_nil
  · refine ⟨sections, hcut, ?_⟩
    intro named hnamed
    by_cases hworthless : Worthless named.content
    · exact Or.inl hworthless
    · have hsaid := (hguarded named hnamed hworthless).said
      exact Or.inr (hsaid.resolve_right List.not_mem_nil)

end Handwritten
end PaminMemory
