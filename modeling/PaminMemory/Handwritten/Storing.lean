import PaminMemory.Handwritten.Following
import PaminMemory.Ingest.Histories

/-!
# Storing the records

An ingest forgets the records of the files it cut, records their sections and stores their new
records.  Then it looks a second time, for sections written by hand meanwhile, and each record
it leaves stands.
-/

namespace PaminMemory
namespace Handwritten

open Foundation Foundation.Program
open Ingest
open Topics (Current Restates Retired SourceKind Worthless)

/-!
## Before anything is cut
-/

/-- Every record stands, and none is to be looked at a second time. -/
structure Settled (cutter : Cutter) (files : Set String) (world : World) : Prop where
  sound : Sound cutter files world
  fresh : world.progress.fresh = []

section Before

variable {cutter : Cutter} {files : Set String} {request : Request}

theorem steady_settled (hfiles : NamedApart cutter files) :
    Steady cutter files (Settled cutter files) where
  struck := by
    rintro world after h ⟨stroke, hmay, hstroke⟩
    constructor
    · exact sound_stroke hfiles h.sound hmay hstroke
    · exact (progress_stroke hstroke).2.1.trans h.fresh
  sound h := h.sound

theorem forgotten_begun {world : World} (h : Settled cutter files world) (names : List String) :
    Begun cutter files names (respond (Call.forgetRecordsOfFiles names) world).2 := by
  have hrecords : forall record,
      record ∈ (respond (Call.forgetRecordsOfFiles names) world).2.ledger.records ->
        record ∈ world.ledger.records ∧ record.file ∉ names := by
    intro record hrecord
    rcases List.mem_filter.mp hrecord with ⟨hmem, hfile⟩
    exact ⟨hmem, of_decide_eq_true hfile⟩
  constructor
  · constructor
    · exact fun record hrecord => h.sound.placed record (hrecords record hrecord).1
    · intro record hrecord
      refine (h.sound.stands record (hrecords record hrecord).1).imp_right ?_
      rintro ⟨sections, hcut, hguarded⟩
      refine ⟨sections, hcut, fun named hnamed hworthy => ?_⟩
      have hhere := hguarded named hnamed hworthy
      have hsaid : Said world.ledger named := by
        apply hhere.says
        rw [h.fresh]
        exact List.not_mem_nil
      exact hhere.stays hsaid ⟨rfl, rfl⟩ (Carried.refl _) rfl
  · rfl
  · exact h.fresh
  · exact fun record hrecord => (hrecords record hrecord).2

def cutNames (looking : Looking) (request : Request) : List String :=
  (looking.cut request.deleted).map fun cut => cut.file.name

def LookedAt (cutter : Cutter) (request : Request) (looking : Looking) : Prop :=
  exists records, looking = look cutter request.build records request.found

theorem begin_begun (hfiles : NamedApart cutter files) :
    (begin cutter request).Ensures (beside cutter files) (Settled cutter files)
      fun looking world => LookedAt cutter request looking ∧
        Begun cutter files (cutNames looking request) world := by
  apply ensures_bind (steady_read (steady_settled hfiles) fun _ => rfl)
  intro records
  apply ensures_bind
  · apply steady_make (steady_settled hfiles) fun _ => steady_begun hfiles
    intro world h _
    exact forgotten_begun h _
  · intro _
    apply steady_pure _ (steady_begun hfiles)
    exact fun world h => ⟨⟨records, rfl⟩, h⟩

/-!
## What is cut
-/

def ReadAs (cutter : Cutter) (request : Request) (looking : Looking) (read : List Read) : Prop :=
  exists recorded said, read = (looking.cut request.deleted).map (namedRead cutter recorded said)

structure ReadOf (cutter : Cutter) (request : Request) (seen : Seen) (stat : Stat)
    (text : String) (read : Read) : Prop where
  found : seen ∈ request.found
  ofFile : read.file = seen.file
  recorded :
    read.record = some (stat.recorded seen.file (cutter.contentHash text) request.build)
  sections : exists previous, read.sections =
    cutter.named (cutter.unnamed request.build seen.file.name text) previous

theorem ReadOf.names {seen : Seen} {stat : Stat} {text : String} {read : Read}
    (h : ReadOf cutter request seen stat text read) {named : Section}
    (hnamed : named ∈ read.sections) : cutter.Names read.file.name named.name := by
  rcases h.sections with ⟨previous, hsections⟩
  rw [hsections] at hnamed
  rw [h.ofFile]
  exact ⟨request.build, text, previous, List.mem_map_of_mem hnamed⟩

variable {looking : Looking} {read : List Read}

theorem readOf (hlooked : LookedAt cutter request looking)
    (hread : ReadAs cutter request looking read) {given : Read} (hgiven : given ∈ read) :
    given.file.name ∈ cutNames looking request ∧
      ((exists seen stat text, ReadOf cutter request seen stat text given) ∨
        (given.record = none ∧ given.sections = [])) := by
  rcases hlooked with ⟨records, rfl⟩
  rcases hread with ⟨recorded, said, rfl⟩
  rcases List.mem_map.mp hgiven with ⟨cut, hcut, rfl⟩
  refine ⟨List.mem_map.mpr ⟨cut, hcut, rfl⟩, ?_⟩
  cases cutOf_look hcut with
  | read seen stat text hseen _ hfile hrecord hsections =>
      refine Or.inl ⟨seen, stat, text, hseen, hfile, hrecord, ?_⟩
      unfold namedRead
      rw [hsections]
      exact ⟨_, rfl⟩
  | deleted _ hrecord hsections =>
      refine Or.inr ⟨hrecord, ?_⟩
      unfold namedRead
      rw [hsections]
      exact cutter.named_nil _

theorem nodup_read (hgiven : GivenApart files request) (build : String) (records : Records) :
    ((look cutter build records request.found).read.map fun cut => cut.file.name).Nodup := by
  apply List.Nodup.sublist ?_ hgiven.once
  unfold look
  dsimp only
  induction request.found with
  | nil => exact List.Sublist.slnil
  | cons seen rest ih =>
      rw [List.map_cons, List.map_cons, List.filterMap_cons]
      cases sight cutter build (recordOf records seen.file) seen with
      | cut unrecorded record sections => exact List.Sublist.cons_cons _ ih
      | unread why => exact List.Sublist.cons _ ih
      | trusted count => exact List.Sublist.cons _ ih
      | same record => exact List.Sublist.cons _ ih

theorem sectioned_rooted (hfiles : NamedApart cutter files) (hgiven : GivenApart files request)
    (hlooked : LookedAt cutter request looking) (hread : ReadAs cutter request looking read) :
    Sectioned cutter files (cutNames looking request) (rooted read) := by
  have hplaced : forall {given named}, given ∈ read -> named ∈ given.sections ->
      given.file.name ∈ files ∧ cutter.Names given.file.name named.name := by
    intro given named hmem hnamed
    rcases (readOf hlooked hread hmem).2 with ⟨seen, stat, text, hof⟩ | ⟨_, hnone⟩
    · refine ⟨?_, hof.names hnamed⟩
      rw [hof.ofFile]
      exact hgiven.found seen hof.found
    · rw [hnone] at hnamed
      cases hnamed
  constructor
  · intro entry hentry
    rcases List.mem_flatMap.mp hentry with ⟨given, hmem, hsection⟩
    rcases List.mem_map.mp hsection with ⟨named, hnamed, rfl⟩
    rcases hplaced hmem hnamed with ⟨hfile, hnames⟩
    exact ⟨given.file.name, hfile, (readOf hlooked hread hmem).1, hnames⟩
  · have hnames : (rooted read).map (fun entry => entry.1.name) =
        read.flatMap fun given => given.sections.map Section.name := by
      unfold rooted
      rw [List.map_flatMap]
      apply List.flatMap_congr
      intro given _
      rw [List.map_map]
      rfl
    rw [hnames, List.nodup_flatMap]
    constructor
    · intro given hmem
      rcases (readOf hlooked hread hmem).2 with ⟨seen, stat, text, hof⟩ | ⟨_, hnone⟩
      · rcases hof.sections with ⟨previous, hsections⟩
        rw [hsections]
        exact (cutter.named_numbered _ _ _ previous).apart
      · rw [hnone]
        exact List.nodup_nil
    · have happart : read.Pairwise fun given other =>
          given.file.name ≠ other.file.name ∨ other.sections = [] := by
        rcases hlooked with ⟨records, rfl⟩
        rcases hread with ⟨recorded, said, rfl⟩
        rw [List.pairwise_map]
        unfold Looking.cut
        rw [List.pairwise_append]
        have hnone : forall file : File, (namedRead cutter recorded said
            { file := file, record := none, sections := [] }).sections = [] :=
          fun _ => cutter.named_nil _
        refine ⟨?_, ?_, ?_⟩
        · have hnodup := @nodup_read cutter files request hgiven request.build records
          exact (List.pairwise_map.mp hnodup).imp Or.inl
        · apply List.pairwise_of_forall_mem_list
          rintro _ _ other hother
          rcases List.mem_map.mp hother with ⟨file, _, rfl⟩
          exact Or.inr (hnone file)
        · rintro _ _ other hother
          rcases List.mem_map.mp hother with ⟨file, _, rfl⟩
          exact Or.inr (hnone file)
      apply happart.imp_of_mem
      intro given other hmem hother hcase name hhere hthere
      rcases List.mem_map.mp hhere with ⟨named, hnamed, rfl⟩
      rcases List.mem_map.mp hthere with ⟨again, hagain, hname⟩
      rcases hplaced hmem hnamed with ⟨hfile, hnames⟩
      rcases hplaced hother hagain with ⟨hotherFile, hotherNames⟩
      rcases hcase with hne | hempty
      · rw [hname] at hotherNames
        exact hne (hfiles.alone hotherFile hotherNames hfile (hfiles.belongs hfile hnames))
      · rw [hempty] at hagain
        cases hagain

theorem refreshed_uncut (hgiven : GivenApart files request)
    (hlooked : LookedAt cutter request looking) {fresh : FileRecord}
    (h : fresh ∈ looking.refreshed) : fresh.file ∉ cutNames looking request := by
  rcases hlooked with ⟨records, rfl⟩
  rcases unchanged_of_refreshed h with ⟨entry, hentry, hkey⟩
  have hfile : fresh.file = entry.1.name := (Prod.mk.inj hkey).2
  intro hmem
  rcases List.mem_map.mp hmem with ⟨cut, hcut, hname⟩
  rcases List.mem_append.mp hcut with hread | hdeleted
  · apply read_ne_unchanged ?_ hread hentry (hname.trans hfile)
    intro seen other hseen hother
    exact List.inj_on_of_nodup_map hgiven.once hseen hother
  · rcases List.mem_map.mp hdeleted with ⟨file, hgone, rfl⟩
    rcases mem_unchanged hentry with ⟨seen, _, hseen, hof, _⟩
    apply hgiven.gone file seen hgone hseen
    rw [← hof]
    exact hname.trans hfile

end Before

/-!
## The new records
-/

/-- A record stands by these sections, and those of a file that was cut are among the ones an
ingest looks at a second time. -/
structure StandsBy (cutter : Cutter) (settled : List ((String × String) × String))
    (world : World) (record : FileRecord) (sections : List Section) : Prop where
  cut : CutInto cutter record sections
  guarded : forall named, named ∈ sections -> ¬Worthless named.content ->
    Guarded world record named
  listed : record.key ∈ world.progress.fresh -> forall named, named ∈ sections ->
    (record.key, named.name) ∈ settled

structure Listed (cutter : Cutter) (files : Set String)
    (settled : List ((String × String) × String)) (world : World) : Prop where
  placed : forall record, record ∈ world.ledger.records -> record.file ∈ files
  stands : forall record, record ∈ world.ledger.records -> Lost cutter world record ∨
    exists sections, StandsBy cutter settled world record sections

section After

variable {cutter : Cutter} {files : Set String} {request : Request} {names : List String}
  {settled : List ((String × String) × String)} {sections : List Rooted} {world : World}

theorem Listed.sound (h : Listed cutter files settled world) : Sound cutter files world where
  placed := h.placed
  stands record hrecord := by
    refine (h.stands record hrecord).imp_right ?_
    rintro ⟨sections, hstands⟩
    exact ⟨sections, hstands.cut, hstands.guarded⟩

theorem steady_listed (hfiles : NamedApart cutter files) :
    Steady cutter files (Listed cutter files settled) where
  struck := by
    rintro world after h ⟨stroke, hmay, hstroke⟩
    rcases progress_stroke hstroke with ⟨hoff, hfresh, _⟩
    constructor
    · exact fun record hrecord => h.placed record (mem_records_stroke hstroke hrecord)
    · intro record hrecord
      have hbefore := mem_records_stroke hstroke hrecord
      unfold Lost
      rw [hoff]
      refine (h.stands record hbefore).imp_right ?_
      rintro ⟨sections, hstands⟩
      refine ⟨sections, hstands.cut, ?_, ?_⟩
      · intro named hnamed hworthy
        exact (hstands.guarded named hnamed hworthy).stroke hfiles hworthy hstands.cut hnamed
          (h.placed record hbefore) hbefore hmay hstroke hrecord
      · rw [hfresh]
        exact hstands.listed
  sound h := h.sound

theorem forgotten_surfaced {world : World} (h : Surfaced cutter files names sections world)
    (keys : List (String × String)) :
    Surfaced cutter files names sections (respond (Call.forgetFileRecords keys) world).2 := by
  have hspares : Spares cutter world (respond (Call.forgetFileRecords keys) world).2 :=
    ⟨rfl, rfl, rfl, fun _ hoff => hoff, fun _ hrecord => (List.mem_filter.mp hrecord).1,
      fun _ _ => Or.inr fun _ _ => ⟨rfl, rfl⟩⟩
  refine ⟨h.toBegun.spared hspares, fun entry hentry hworthy => ?_⟩
  exact backed_congr (h.backed entry hentry hworthy) ⟨rfl, rfl⟩ fun hover => hover

theorem mem_freshOf {progress : Progress} {records : Records} {key : String × String}
    (h : key ∈ progress.freshOf records) : key.2 ∈ progress.forgot := by
  rcases List.mem_map.mp h with ⟨record, hrecord, rfl⟩
  exact of_decide_eq_true (List.mem_filter.mp hrecord).2

theorem CutInto.like {record other : FileRecord} {cut : List Section}
    (h : CutInto cutter record cut) (hlike : record.Like other) : CutInto cutter other cut := by
  rcases hlike with ⟨hkey, hhash, hbuild⟩
  have hfile : record.file = other.file := (Prod.mk.inj hkey).2
  rcases h.text with ⟨text, htext, hnumbered⟩
  constructor
  · rw [hhash] at htext
    rw [hbuild, hfile] at hnumbered
    exact ⟨text, htext, hnumbered⟩
  · rw [← hfile]
    exact h.names

theorem SectionOf.like {record other : FileRecord} {topic : String}
    (h : SectionOf cutter record topic) (hlike : record.Like other) :
    SectionOf cutter other topic := by
  rcases h with ⟨sections, hcut, hnamed⟩
  exact ⟨sections, hcut.like hlike, hnamed⟩

theorem carried_put (world : World) (records : Records) :
    Carried world.hands (world.handsAfter (Call.putFileRecords records)) := by
  intro entry hentry
  rcases List.mem_map.mp hentry with ⟨before, hbefore, rfl⟩
  refine ⟨before.2, List.mem_map_of_mem hbefore, rfl, rfl, rfl, ?_⟩
  exact fun _ hkey => List.mem_append_left _ hkey

theorem standsBy_put (h : Begun cutter files names world) {records : Records}
    {record other : FileRecord} (hrecord : record ∈ world.ledger.records)
    (hlike : record.Like other) :
    Lost cutter (respond (Call.putFileRecords records) world).2 other ∨ exists sections,
      StandsBy cutter settled (respond (Call.putFileRecords records) world).2 other sections := by
  refine (h.sound.stands record hrecord).imp ?_ ?_
  · rintro ⟨topic, hoff, hsection⟩
    rw [hlike.1] at hoff
    exact ⟨topic, hoff, hsection.like hlike⟩
  · rintro ⟨sections, hcut, hguarded⟩
    refine ⟨sections, hcut.like hlike, ?_, ?_⟩
    · intro named hnamed hworthy
      have hhere := hguarded named hnamed hworthy
      have hsaid : Said world.ledger named := by
        apply hhere.says
        rw [h.fresh]
        exact List.not_mem_nil
      exact hhere.stays hsaid ⟨rfl, rfl⟩ (carried_put world records) hlike.1
    · intro hfresh
      have hforgot := mem_freshOf hfresh
      rw [h.forgot, ← (hlike.1 : record.key = other.key)] at hforgot
      exact absurd hforgot (h.uncut record hrecord)

theorem mem_stillAsRead {later : String -> Option Stat} {read : List Read}
    {record : FileRecord} (h : record ∈ stillAsRead later read) :
    exists given kept, given ∈ read ∧ given.record = some kept ∧ kept.Like record := by
  rcases List.mem_filterMap.mp h with ⟨given, hgiven, hrecord⟩
  refine ⟨given, ?_⟩
  cases hkept : given.record with
  | none =>
      rw [hkept] at hrecord
      cases hrecord
  | some kept =>
      rw [hkept] at hrecord
      refine ⟨kept, hgiven, rfl, ?_⟩
      cases hlater : later given.file.path with
      | none =>
          rw [hlater] at hrecord
          cases hrecord
      | some now =>
          rw [hlater] at hrecord
          rcases Option.ite_none_right_eq_some.mp hrecord with ⟨_, hsame⟩
          cases hsame
          exact ⟨rfl, rfl, rfl⟩

theorem like_stored (record : FileRecord) : record.Like record.stored := ⟨rfl, rfl, rfl⟩

theorem standsBy_cut {looking : Looking} {read : List Read}
    (h : Surfaced cutter files (cutNames looking request) (rooted read) world)
    (hlooked : LookedAt cutter request looking) (hread : ReadAs cutter request looking read)
    {given : Read} (hgiven : given ∈ read) {kept record : FileRecord}
    (hkept : given.record = some kept) (hlike : kept.Like record) {records : Records}
    (hin : record ∈ records) (hlisted : forall topic, topic ∈ given.topics -> topic ∈ settled) :
    StandsBy cutter settled (respond (Call.putFileRecords records) world).2 record.stored
      given.sections := by
  rcases readOf hlooked hread hgiven with ⟨hcutName, hof⟩
  rcases hof with ⟨seen, stat, text, hof⟩ | ⟨hnone, _⟩
  · rw [hof.recorded] at hkept
    cases hkept
    have hall := hlike.trans (like_stored record)
    have hkey : given.file.key = record.stored.key := by
      rw [hof.ofFile]
      exact hall.1
    have hroot : given.file.root = record.root := (Prod.mk.inj hkey).1
    have hfile : given.file.name = record.file := (Prod.mk.inj hkey).2
    have hfresh : record.stored.key ∈ world.progress.freshOf records := by
      apply List.mem_map.mpr
      refine ⟨record, List.mem_filter.mpr ⟨hin, decide_eq_true ?_⟩, rfl⟩
      rw [h.forgot, ← hfile]
      exact hcutName
    constructor
    · rcases hof.sections with ⟨previous, hsections⟩
      have hcut : CutInto cutter (stat.recorded seen.file (cutter.contentHash text)
          request.build) given.sections := by
        refine ⟨⟨text, rfl, ?_⟩, ?_⟩
        · rw [hsections]
          exact cutter.named_numbered _ _ _ previous
        · intro named hnamed
          have hnames := hof.names hnamed
          rw [hof.ofFile] at hnames
          exact hnames
      exact hcut.like hall
    · intro named hnamed hworthy
      have hentry : (named, given.file.root) ∈ rooted read :=
        List.mem_flatMap.mpr ⟨given, hgiven, List.mem_map.mpr ⟨named, hnamed, rfl⟩⟩
      have hbacked : Backed world given.file.root named := h.backed _ hentry hworthy
      rw [hroot] at hbacked
      refine ⟨backed_congr hbacked ⟨rfl, rfl⟩ fun hover => hover, fun _ => hfresh, ?_⟩
      intro entry hhand _ _ _
      rcases List.mem_map.mp hhand with ⟨before, _, rfl⟩
      exact Or.inr (List.mem_append_right _ hfresh)
    · intro _ named hnamed
      apply hlisted
      rw [← hkey]
      exact List.mem_map.mpr ⟨named, hnamed, rfl⟩
  · rw [hnone] at hkept
    cases hkept

theorem put_listed (hgiven : GivenApart files request) {looking : Looking} {read : List Read}
    (hlooked : LookedAt cutter request looking) (hread : ReadAs cutter request looking read)
    (h : Surfaced cutter files (cutNames looking request) (rooted read) world)
    {kept : List Read} (hkept : forall given, given ∈ kept -> given ∈ read)
    (hmay : MayCall cutter world
      (Call.putFileRecords (stillAsRead request.later kept ++ looking.refreshed))) :
    Listed cutter files (kept.flatMap Read.topics)
      (respond (Call.putFileRecords (stillAsRead request.later kept ++ looking.refreshed))
        world).2 := by
  have hall : forall record, record ∈ (respond (Call.putFileRecords
      (stillAsRead request.later kept ++ looking.refreshed)) world).2.ledger.records ->
        (exists before, before ∈ world.ledger.records ∧ before.Like record) ∨
          exists given made new, given ∈ kept ∧ given.record = some made ∧ made.Like new ∧
            new ∈ stillAsRead request.later kept ++ looking.refreshed ∧
              new.stored = record := by
    intro record hrecord
    rcases List.mem_append.mp hrecord with hbefore | hnew
    · exact Or.inl ⟨record, (List.mem_filter.mp hbefore).1, rfl, rfl, rfl⟩
    · rcases List.mem_map.mp hnew with ⟨new, hin, rfl⟩
      rcases List.mem_append.mp hin with hcut | hrefreshed
      · rcases mem_stillAsRead hcut with ⟨given, made, hmem, hmade, hlike⟩
        exact Or.inr ⟨given, made, new, hmem, hmade, hlike, hin, rfl⟩
      · rcases hmay new hin with hforgot | ⟨before, hmem, hlike⟩
        · rw [h.forgot] at hforgot
          exact absurd hforgot (refreshed_uncut hgiven hlooked hrefreshed)
        · exact Or.inl ⟨before, hmem, hlike.trans (like_stored new)⟩
  constructor
  · intro record hrecord
    rcases hall record hrecord with
      ⟨before, hmem, hlike⟩ | ⟨given, made, new, hmem, hmade, hlike, _, rfl⟩
    · have hfile : before.file = record.file := (Prod.mk.inj hlike.1).2
      exact hfile ▸ h.sound.placed before hmem
    · rcases (readOf hlooked hread (hkept given hmem)).2 with ⟨seen, stat, text, hof⟩ | ⟨hnone, _⟩
      · rw [hof.recorded] at hmade
        cases hmade
        have hfile : seen.file.name = new.file := (Prod.mk.inj hlike.1).2
        show new.file ∈ files
        rw [← hfile]
        exact hgiven.found seen hof.found
      · rw [hnone] at hmade
        cases hmade
  · intro record hrecord
    rcases hall record hrecord with
      ⟨before, hmem, hlike⟩ | ⟨given, made, new, hmem, hmade, hlike, hin, rfl⟩
    · exact standsBy_put h.toBegun hmem hlike
    · refine Or.inr ⟨given.sections, ?_⟩
      apply standsBy_cut h hlooked hread (hkept given hmem) hmade hlike hin
      exact fun topic htopic => List.mem_flatMap.mpr ⟨given, hmem, htopic⟩

/-!
## The second look
-/

theorem lookedAgain_settled (h : Listed cutter files settled world) {since : Instant}
    (hmay : MayCall cutter world (Call.forgetFileRecordsWrittenSince settled since)) :
    Settled cutter files
      (respond (Call.forgetFileRecordsWrittenSince settled since) world).2 := by
  refine ⟨⟨?_, ?_⟩, rfl⟩
  · exact fun record hrecord => h.placed record (List.mem_filter.mp hrecord).1
  · intro record hrecord
    rcases List.mem_filter.mp hrecord with ⟨hmem, hleft⟩
    refine (h.stands record hmem).imp_right ?_
    rintro ⟨sections, hstands⟩
    refine ⟨sections, hstands.cut, fun named hnamed hworthy => ?_⟩
    have hhere := hstands.guarded named hnamed hworthy
    have hsaid : Said world.ledger named := by
      by_contra hunsaid
      have hover := hhere.said.resolve_left hunsaid
      have hlisted := hstands.listed (hhere.fresh hunsaid) named hnamed
      have hwritten := hmay _ hlisted hover
        ⟨record, hmem, rfl, sections, hstands.cut, named, hnamed, rfl, hworthy⟩
      rw [Bool.not_eq_true', List.any_eq_false] at hleft
      apply hleft _ hlisted
      rw [decide_eq_true hwritten, Bool.and_true]
      exact decide_eq_true rfl
    exact hhere.stays hsaid ⟨rfl, rfl⟩ (Carried.refl _) rfl

theorem finish_settled (hfiles : NamedApart cutter files) (hgiven : GivenApart files request)
    {looking : Looking} {read : List Read} (hlooked : LookedAt cutter request looking)
    (hread : ReadAs cutter request looking read)
    (left : List (List (String × String) × Nat)) (outcome : Outcome) :
    (finish request looking left read outcome).Ensures (beside cutter files)
      (Surfaced cutter files (cutNames looking request) (rooted read))
      fun _ => Settled cutter files := by
  unfold finish
  apply ensures_bind
  · apply steady_make (steady_surfaced hfiles) fun _ => steady_surfaced hfiles
    exact fun world h _ => forgotten_surfaced h _
  · intro _
    apply ensures_bind
    · apply steady_make (steady_surfaced hfiles) fun _ => steady_listed hfiles
      exact fun world h hmay => put_listed hgiven hlooked hread h
        (fun _ hmem => (List.mem_filter.mp hmem).1) hmay
    · intro _
      apply steady_make (steady_listed hfiles) fun _ => steady_settled hfiles
      exact fun world h hmay => lookedAgain_settled h hmay

/-!
## The whole of it
-/

theorem leaves_begun (hfiles : NamedApart cutter files) (looking : Looking) :
    (leaves request looking).Ensures (beside cutter files) (Begun cutter files names)
      fun _ => Begun cutter files names := by
  have hbegun : Steady cutter files (Begun cutter files names) := steady_begun hfiles
  unfold leaves
  apply ensures_bind
  · exact steady_each hbegun _ fun tree _ => steady_read hbegun fun _ => rfl
  · intro under
    apply ensures_bind
    · apply steady_each hbegun
      intro entry _
      unfold lowsOf
      split
      · exact steady_pure _ hbegun fun _ h => h
      · apply ensures_bind (steady_read hbegun fun _ => rfl)
        intro count
        exact steady_pure _ hbegun fun _ h => h
    · intro lows
      exact steady_pure _ hbegun fun _ h => h

/-- What an ingest is about to record is read as the files were cut, apart from what is gone. -/
structure ReadyFor (cutter : Cutter) (request : Request) (looking : Looking) (ready : Ready) :
    Prop where
  looked : ready.looking = looking
  read : ReadAs cutter request looking ready.read
  gone : forall behind, behind ∈ ready.gone -> forall entry, entry ∈ rooted ready.read ->
    entry.1.name ≠ behind.name

theorem compared_begun (hfiles : NamedApart cutter files) (looking : Looking)
    (left : List (List (String × String) × Nat)) (lows : List String) :
    (compared cutter request looking left lows).Ensures (beside cutter files)
      (Begun cutter files names) fun ready world =>
        ReadyFor cutter request looking ready ∧ Begun cutter files names world := by
  have hbegun : Steady cutter files (Begun cutter files names) := steady_begun hfiles
  unfold compared
  apply ensures_bind (steady_read hbegun fun _ => rfl)
  intro topics
  apply ensures_bind (steady_read hbegun fun _ => rfl)
  intro said
  apply steady_pure _ hbegun
  intro world h
  refine ⟨⟨rfl, ⟨_, _, rfl⟩, ?_⟩, h⟩
  intro behind hbehind entry hentry hname
  rcases mem_gone.mp hbehind with ⟨topic, _, _, _, hapart, _, _, hbehindName, _⟩
  apply hapart
  rw [← hbehindName, ← hname]
  exact List.mem_map_of_mem (List.mem_map_of_mem hentry)

theorem ingest_settled (hfiles : NamedApart cutter files) (hgiven : GivenApart files request) :
    (ingest cutter request).Ensures (beside cutter files) (Settled cutter files)
      fun _ => Settled cutter files := by
  unfold ingest
  apply ensures_bind (begin_begun hfiles)
  intro looking
  apply ensures_given
  intro hlooked
  apply ensures_bind (leaves_begun hfiles looking)
  rintro ⟨left, lows⟩
  apply ensures_bind (compared_begun hfiles looking left lows)
  intro ready
  apply ensures_given
  intro hready
  have hsections := sectioned_rooted hfiles hgiven hlooked hready.read
  apply ensures_bind (recordAny_surfaced hfiles hsections request _ hready.gone)
  intro outcome
  apply ensures_bind
  · rw [hready.looked]
    exact finish_settled hfiles hgiven hlooked hready.read _ outcome
  · intro _
    exact steady_pure _ (steady_settled hfiles) fun _ h => h

end After

end Handwritten
end PaminMemory
