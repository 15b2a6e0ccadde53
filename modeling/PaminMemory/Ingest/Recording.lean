import Mathlib.Data.List.Perm.Basic
import PaminMemory.Ingest.Alone

/-!
# What recording leaves on the surface

When an ingest runs alone, recording leaves each section said or, where the filter holds it, off
the surface, every gone section retired or under a new name, and the rest as it was.
-/

namespace PaminMemory
namespace Ingest

open Foundation Foundation.Program
open Topics (Current Rejection Restates Retired SourceKind Worthless judge)

/-!
## Sections that only ingests of one root wrote
-/

structure Ours (cutter : Cutter) (root : String) (files : Set String) (ledger : Ledger) :
    Prop where
  filed : forall {name current}, ledger.current name = some current ->
    ledger.rootOf name = some root
  byFiles : forall name, ledger.sourceAt SourceKind.manual name = false
  named : forall {name current}, ledger.current name = some current ->
    exists file, file ∈ files ∧ cutter.Names file name

section Keeping

variable {cutter : Cutter} {root : String} {files : Set String} {ledger : Ledger}

theorem ours_empty : Ours cutter root files Ledger.empty where
  filed h := by simp [Ledger.current, Ledger.empty] at h
  byFiles name := by simp [Ledger.sourceAt, Ledger.empty]
  named h := by simp [Ledger.current, Ledger.empty] at h

theorem ours_congr {other : Ledger} (h : Ours cutter root files ledger)
    (htopics : other.topics = ledger.topics) (hsources : other.sources = ledger.sources) :
    Ours cutter root files other where
  filed hcurrent := by
    unfold Ledger.rootOf
    rw [hsources]
    apply h.filed
    rwa [Ledger.current, htopics] at hcurrent
  byFiles name := by
    unfold Ledger.sourceAt
    rw [hsources]
    exact h.byFiles name
  named hcurrent := by
    apply h.named
    rwa [Ledger.current, htopics] at hcurrent

theorem ours_written (h : Ours cutter root files ledger) {write : Write} {file : String}
    (hfile : file ∈ files) (hnames : cutter.Names file write.topic) :
    Ours cutter root files (ledger.writeFrom write SourceKind.file (some root)) where
  filed := by
    intro name current hcurrent
    unfold Ledger.rootOf
    rw [Ledger.sources_writeFrom]
    by_cases htopic : name = write.topic
    · rw [htopic, AList.lookup_insert]
      rfl
    · rw [Ledger.current_writeFrom, if_neg (fun hboth => htopic hboth.2)] at hcurrent
      rw [AList.lookup_insert_ne (by simp [htopic])]
      exact h.filed hcurrent
  byFiles name := by
    unfold Ledger.sourceAt
    rw [Ledger.sources_writeFrom, AList.lookup_insert_ne (by simp)]
    exact h.byFiles name
  named := by
    intro name current hcurrent
    by_cases htopic : name = write.topic
    · exact ⟨file, hfile, htopic ▸ hnames⟩
    · rw [Ledger.current_writeFrom, if_neg (fun hboth => htopic hboth.2)] at hcurrent
      exact h.named hcurrent

theorem ours_retired (h : Ours cutter root files ledger) (topic : String) :
    Ours cutter root files { ledger with topics := ledger.topics.insert topic none } where
  filed := by
    intro name current hcurrent
    rw [Ledger.current_retired] at hcurrent
    by_cases htopic : name = topic
    · simp [htopic] at hcurrent
    · rw [if_neg htopic] at hcurrent
      exact h.filed hcurrent
  byFiles := h.byFiles
  named := by
    intro name current hcurrent
    rw [Ledger.current_retired] at hcurrent
    by_cases htopic : name = topic
    · simp [htopic] at hcurrent
    · rw [if_neg htopic] at hcurrent
      exact h.named hcurrent

theorem ours_moved (h : Ours cutter root files ledger) {old new file : String}
    {moving : Current} (hold : ledger.current old = some moving) (hfile : file ∈ files)
    (hnames : cutter.Names file new) :
    Ours cutter root files (ledger.moved old new moving) := by
  have hroot := h.filed hold
  obtain ⟨source, hsource, hsourceRoot⟩ : exists source,
      ledger.sources.lookup (SourceKind.file, old) = some source ∧ source.root = some root :=
    Option.bind_eq_some_iff.mp hroot
  have hsources : (ledger.moved old new moving).sources =
      (ledger.sources.erase (SourceKind.file, old)).insert (SourceKind.file, new) source := by
    simp [Ledger.moved, hsource]
  constructor
  · intro name current hcurrent
    unfold Ledger.rootOf
    rw [hsources]
    rw [Ledger.current_moved] at hcurrent
    by_cases hnew : name = new
    · rw [hnew, AList.lookup_insert]
      exact hsourceRoot
    · rw [if_neg hnew] at hcurrent
      by_cases hgone : name = old
      · simp [hgone] at hcurrent
      · rw [if_neg hgone] at hcurrent
        rw [AList.lookup_insert_ne (by simp [hnew]), AList.lookup_erase_ne (by simp [hgone])]
        exact h.filed hcurrent
  · intro name
    unfold Ledger.sourceAt
    rw [hsources, AList.lookup_insert_ne (by simp), AList.lookup_erase_ne (by simp)]
    exact h.byFiles name
  · intro name current hcurrent
    rw [Ledger.current_moved] at hcurrent
    by_cases hnew : name = new
    · exact ⟨file, hfile, hnew ▸ hnames⟩
    · rw [if_neg hnew] at hcurrent
      by_cases hgone : name = old
      · simp [hgone] at hcurrent
      · rw [if_neg hgone] at hcurrent
        exact h.named hcurrent

theorem ours_rooted (h : Ours cutter root files ledger) (topic : String) :
    Ours cutter root files (Ledger.setRootAt root ledger topic) := by
  unfold Ledger.setRootAt
  cases hsource : ledger.sources.lookup (SourceKind.file, topic) with
  | none => exact h
  | some source =>
      constructor
      · intro name current hcurrent
        by_cases htopic : name = topic
        · subst htopic
          simp [Ledger.rootOf]
        · have hroot := h.filed (show ledger.current name = some current from hcurrent)
          simpa [Ledger.rootOf, AList.lookup_insert_ne, htopic] using hroot
      · intro name
        have hmanual := h.byFiles name
        simpa [Ledger.sourceAt, AList.lookup_insert_ne] using hmanual
      · exact fun hcurrent => h.named hcurrent

theorem ours_allRooted (h : Ours cutter root files ledger) (topics : List String) :
    Ours cutter root files (ledger.setRootsAt topics root) := by
  unfold Ledger.setRootsAt
  induction topics generalizing ledger with
  | nil => exact h
  | cons topic rest ih => exact ih (ours_rooted h topic)

end Keeping

/-!
## One section
-/

inductive Remembers (cutter : Cutter) (now : Instant) (named : Section) (root : String)
    (ledger : Ledger) : Remembered -> Ledger -> Prop where
  | written (hpromoted : judge named.content (ledger.currentContent named.name) = none) :
      Remembers cutter now named root ledger Remembered.written
        (ledger.writeFrom (named.write cutter now true) SourceKind.file (some root))
  | restated
      (hjudge : judge named.content (ledger.currentContent named.name) =
        some Rejection.restatement) :
      Remembers cutter now named root ledger Remembered.unchanged ledger
  | heldBefore (hworthless : Worthless named.content)
      (hnone : ledger.current named.name = none) :
      Remembers cutter now named root ledger Remembered.unchanged ledger
  | held (hworthless : Worthless named.content) :
      Remembers cutter now named root ledger Remembered.held
        (ledger.writeFrom (named.write cutter now false) SourceKind.file (some root))

theorem worthless_of_judge {content : String} {current : Option String}
    {rejection : Rejection} (h : judge content current = some rejection)
    (hrestatement : rejection ≠ Rejection.restatement) : Worthless content := by
  by_cases hworthless : Worthless content
  · exact hworthless
  · rw [Topics.judge_of_worthy hworthless] at h
    by_cases hrestates : current.map Topics.normalize = some (Topics.normalize content)
    · rw [if_pos hrestates, Option.some.injEq] at h
      exact absurd h.symm hrestatement
    · simp [hrestates] at h

section Phases

variable {dies : Ledger -> Prop} {cutter : Cutter} {now : Instant} {root : String}
  {files : Set String}

theorem writeSection_ensures {named : Section} {ledger : Ledger} {promoted : Bool}
    (hledger : dies ledger)
    (hwritten : dies
      (ledger.writeFrom (named.write cutter now promoted) SourceKind.file (some root))) :
    (writeSection cutter now named root promoted).Ensures (alone dies) (fun s => s = ledger)
      fun _ s =>
        s = ledger.writeFrom (named.write cutter now promoted) SourceKind.file (some root) := by
  apply alone_make
  · exact fun s hs => hs ▸ hledger
  · intro s hs
    cases hs
    rfl
  · exact fun _ s hs => hs ▸ hwritten

theorem holdSection_ensures {named : Section} {ledger : Ledger} (hledger : dies ledger)
    (hwritten : dies
      (ledger.writeFrom (named.write cutter now false) SourceKind.file (some root)))
    (hworthless : Worthless named.content) :
    (holdSection cutter now named root (ledger.currentContent named.name)).Ensures (alone dies)
      (fun s => s = ledger) (Remembers cutter now named root ledger) := by
  have hheld : (do
      writeSection cutter now named root false
      pure Remembered.held : Calls Remembered).Ensures (alone dies) (fun s => s = ledger)
        (Remembers cutter now named root ledger) := by
    apply ensures_bind (writeSection_ensures hledger hwritten)
    intro _
    exact alone_pure _ (fun s hs => hs ▸ hwritten) fun s hs => hs ▸ Remembers.held hworthless
  unfold holdSection
  by_cases hnone : (ledger.currentContent named.name).isNone = true
  · rw [if_pos hnone]
    apply ensures_bind (alone_reads rfl hledger)
    intro last
    apply ensures_given
    intro _
    by_cases hlast : last = some (cutter.contentHash named.content)
    · simp only [hlast, if_true]
      apply alone_pure _ (fun s hs => hs ▸ hledger)
      intro s hs
      cases hs
      apply Remembers.heldBefore hworthless
      simpa [Ledger.currentContent] using hnone
    · simp only [hlast, if_false]
      exact hheld
  · rw [if_neg hnone]
    exact hheld

theorem rememberSection_ensures {named : Section} {ledger : Ledger} (hledger : dies ledger)
    (hwritten : forall promoted, dies
      (ledger.writeFrom (named.write cutter now promoted) SourceKind.file (some root))) :
    (rememberSection cutter now named root).Ensures (alone dies) (fun s => s = ledger)
      (Remembers cutter now named root ledger) := by
  apply ensures_bind (alone_reads rfl hledger)
  intro current
  apply ensures_given
  intro hcurrent
  cases hcurrent
  have hanswer : (answer (Call.currentContent named.name) ledger).1 =
      ledger.currentContent named.name := rfl
  rw [hanswer]
  cases hjudge : judge named.content (ledger.currentContent named.name) with
  | none =>
      apply ensures_bind (writeSection_ensures hledger (hwritten true))
      intro _
      exact alone_pure _ (fun s hs => hs ▸ hwritten true)
        fun s hs => hs ▸ Remembers.written hjudge
  | some rejection =>
      cases rejection with
      | restatement =>
          apply alone_pure _ (fun s hs => hs ▸ hledger)
          intro s hs
          cases hs
          exact Remembers.restated hjudge
      | empty =>
          exact holdSection_ensures hledger (hwritten false)
            (worthless_of_judge hjudge (by decide))
      | tooShort =>
          exact holdSection_ensures hledger (hwritten false)
            (worthless_of_judge hjudge (by decide))

end Phases

/-!
## All of them
-/

theorem arranged_perm {α : Type} (schedule : List Nat) (entries : List α) :
    (arranged schedule entries).Perm entries := by
  induction schedule generalizing entries with
  | nil => exact List.Perm.refl _
  | cons i schedule ih =>
      unfold arranged
      cases hentry : entries[i]? with
      | none => exact ih entries
      | some found =>
          obtain ⟨hi, rfl⟩ := List.getElem?_eq_some_iff.mp hentry
          exact (List.Perm.cons _ (ih _)).trans (List.getElem_cons_eraseIdx_perm hi)

theorem mem_arranged {α : Type} (schedule : List Nat) {entries : List α} {entry : α} :
    entry ∈ arranged schedule entries <-> entry ∈ entries :=
  (arranged_perm schedule entries).mem_iff

theorem mem_moves {cutter : Cutter} {new : List Section} {candidates : List (Gone × String)}
    {move : Gone × Section} (h : move ∈ moves cutter new candidates) :
    (exists said, (move.1, said) ∈ candidates) ∧ move.2 ∈ new := by
  obtain ⟨pair, _, hpair⟩ := List.mem_filterMap.mp h
  cases hgone : candidates[pair.2]? with
  | none => simp [hgone] at hpair
  | some candidate =>
      cases hnamed : new[pair.1]? with
      | none => simp [hgone, hnamed] at hpair
      | some named =>
          simp only [hgone, hnamed, Option.some.injEq] at hpair
          cases hpair
          exact ⟨⟨candidate.2, List.mem_of_getElem? hgone⟩, List.mem_of_getElem? hnamed⟩

theorem mem_candidates {gone : List Gone} {said : List (String × Current)}
    {candidate : Gone × String} (h : candidate ∈ candidates gone said) :
    candidate.1 ∈ gone ∧ candidate.1.retirable = true := by
  obtain ⟨given, hgiven, hsaid⟩ := List.mem_filterMap.mp h
  obtain ⟨current, _, rfl⟩ := Option.map_eq_some_iff.mp hsaid
  exact List.mem_filter.mp hgiven

theorem mem_newSections {sections : List Rooted} {known : List String} {named : Section}
    (h : named ∈ newSections sections known) :
    (exists entry, entry ∈ sections ∧ entry.1 = named) ∧ named.name ∉ known := by
  obtain ⟨hmem, hknown⟩ := List.mem_filter.mp h
  exact ⟨List.mem_map.mp hmem, by simpa using hknown⟩

def movesOf (cutter : Cutter) (ledger : Ledger) (sections : List Rooted)
    (known : List FileTopic) (gone : List Gone) : List (Gone × Section) :=
  moves cutter (newSections sections (known.map FileTopic.name))
    (candidates gone (ledger.currentNamed ((gone.filter Gone.retirable).map Gone.name)))

structure Given (cutter : Cutter) (root : String) (files : Set String) (ledger : Ledger)
    (sections : List Rooted) (known : List FileTopic) (gone : List Gone) : Prop where
  ours : Ours cutter root files ledger
  rooted : forall {entry}, entry ∈ sections -> entry.2 = root
  named : forall {entry}, entry ∈ sections ->
    exists file, file ∈ files ∧ cutter.Names file entry.1.name
  apart : forall {entry other}, entry ∈ sections -> other ∈ sections ->
    entry.1.name = other.1.name -> entry = other
  knows : forall {entry current}, entry ∈ sections ->
    ledger.current entry.1.name = some current ->
      exists topic, topic ∈ known ∧ topic.name = entry.1.name
  knownSays : forall {topic}, topic ∈ known ->
    exists current, ledger.current topic.name = some current ∧ topic.current = current.state
  goneSays : forall {behind}, behind ∈ gone ->
    exists current, ledger.current behind.name = some current ∧ behind.current = current.state
  goneApart : forall {behind entry}, behind ∈ gone -> entry ∈ sections ->
    behind.name ≠ entry.1.name
  /-- No section that the filter holds takes the name of one that is gone. -/
  worthy : forall {move}, move ∈ movesOf cutter ledger sections known gone ->
    ¬Worthless move.2.content

section Recording

variable {dies : Ledger -> Prop} {cutter : Cutter} {now : Instant} {root : String}
  {files : Set String} {ledger : Ledger} {sections : List Rooted} {known : List FileTopic}
  {gone : List Gone}

structure During (cutter : Cutter) (root : String) (files : Set String) (ledger : Ledger)
    (sections : List Rooted) (gone : List Gone) (s : Ledger) : Prop where
  records : s.records = ledger.records
  ours : Ours cutter root files s
  goneOr : forall {behind}, behind ∈ gone -> behind.retirable = true ->
    s.current behind.name = ledger.current behind.name ∨ s.current behind.name = none
  others : forall {name}, (forall entry, entry ∈ sections -> entry.1.name ≠ name) ->
    (forall behind, behind ∈ gone -> behind.retirable = true -> behind.name ≠ name) ->
      s.current name = ledger.current name

/-- What an ingest leaves of what it recorded. -/
structure Recorded (cutter : Cutter) (root : String) (files : Set String) (ledger : Ledger)
    (sections : List Rooted) (gone : List Gone) (s : Ledger) : Prop
    extends During cutter root files ledger sections gone s where
  said : forall {entry}, entry ∈ sections -> ¬Worthless entry.1.content ->
    exists current, s.current entry.1.name = some current ∧
      Restates current.content entry.1.content
  held : forall {entry}, entry ∈ sections -> Worthless entry.1.content ->
    s.current entry.1.name = none
  retired : forall {behind}, behind ∈ gone -> behind.retirable = true ->
    s.current behind.name = none

theorem during_begun (h : Given cutter root files ledger sections known gone) :
    During cutter root files ledger sections gone ledger where
  records := rfl
  ours := h.ours
  goneOr _ _ := Or.inl rfl
  others _ _ := rfl

theorem during_congr {s t : Ledger} (h : During cutter root files ledger sections gone s)
    (hrecords : t.records = s.records) (hcurrent : forall name, t.current name = s.current name)
    (hours : Ours cutter root files t) :
    During cutter root files ledger sections gone t where
  records := hrecords.trans h.records
  ours := hours
  goneOr hmem hretirable := by
    rw [hcurrent]
    exact h.goneOr hmem hretirable
  others hsections hgone := by
    rw [hcurrent]
    exact h.others hsections hgone

theorem during_moved (hgiven : Given cutter root files ledger sections known gone)
    {s : Ledger} (h : During cutter root files ledger sections gone s) {behind : Gone}
    (hbehind : behind ∈ gone) (hretirable : behind.retirable = true) {entry : Rooted}
    (hentry : entry ∈ sections) {moving : Current}
    (hmoving : s.current behind.name = some moving) :
    During cutter root files ledger sections gone
      (s.moved behind.name entry.1.name moving) := by
  obtain ⟨file, hfile, hnames⟩ := hgiven.named hentry
  constructor
  · exact h.records
  · exact ours_moved h.ours hmoving hfile hnames
  · intro other hother hcan
    rw [Ledger.current_moved, if_neg (hgiven.goneApart hother hentry)]
    by_cases hname : other.name = behind.name
    · exact Or.inr (if_pos hname)
    · rw [if_neg hname]
      exact h.goneOr hother hcan
  · intro name hsections hgone
    rw [Ledger.current_moved, if_neg (hsections entry hentry).symm,
      if_neg (hgone behind hbehind hretirable).symm]
    exact h.others hsections hgone

theorem during_written (hgiven : Given cutter root files ledger sections known gone)
    {s : Ledger} (h : During cutter root files ledger sections gone s) {entry : Rooted}
    (hentry : entry ∈ sections) (promoted : Bool) :
    During cutter root files ledger sections gone
      (s.writeFrom (entry.1.write cutter now promoted) SourceKind.file (some root)) := by
  obtain ⟨file, hfile, hnames⟩ := hgiven.named hentry
  constructor
  · rw [Ledger.records_writeFrom]
    exact h.records
  · exact ours_written h.ours hfile hnames
  · intro behind hbehind hretirable
    rw [Ledger.current_writeFrom, if_neg fun hboth => hgiven.goneApart hbehind hentry hboth.2]
    exact h.goneOr hbehind hretirable
  · intro name hsections hgone
    rw [Ledger.current_writeFrom,
      if_neg fun hboth => hsections entry hentry (Eq.symm hboth.2)]
    exact h.others hsections hgone

theorem during_retired {s : Ledger} (h : During cutter root files ledger sections gone s)
    {topic : String}
    (htopic : (exists behind, behind ∈ gone ∧ behind.retirable = true ∧ behind.name = topic) ∨
      exists entry, entry ∈ sections ∧ entry.1.name = topic) :
    During cutter root files ledger sections gone
      { s with topics := s.topics.insert topic none } := by
  constructor
  · exact h.records
  · exact ours_retired h.ours topic
  · intro behind hbehind hretirable
    rw [Ledger.current_retired]
    by_cases hname : behind.name = topic
    · exact Or.inr (if_pos hname)
    · rw [if_neg hname]
      exact h.goneOr hbehind hretirable
  · intro name hsections hgone
    have hname : name ≠ topic := by
      cases htopic with
      | inl hbehind =>
          obtain ⟨behind, hmem, hretirable, rfl⟩ := hbehind
          exact (hgone behind hmem hretirable).symm
      | inr hentry =>
          obtain ⟨entry, hmem, rfl⟩ := hentry
          exact (hsections entry hmem).symm
    rw [Ledger.current_retired, if_neg hname]
    exact h.others hsections hgone

/-!
### Renaming
-/

def AsHeld (ledger : Ledger) (sections : List Rooted) (s : Ledger) : Prop :=
  forall entry, entry ∈ sections -> Worthless entry.1.content ->
    s.current entry.1.name = ledger.current entry.1.name

def GoneFrom (gone : List Gone) (renames : List (String × String)) (s : Ledger) : Prop :=
  forall entry, entry ∈ renames ->
    (exists behind, behind ∈ gone ∧ behind.name = entry.1) ∧ s.current entry.1 = none

theorem renameSection_ensures (hgiven : Given cutter root files ledger sections known gone)
    (hdies : forall s, During cutter root files ledger sections gone s -> dies s)
    {move : Gone × Section} (hmove : move ∈ movesOf cutter ledger sections known gone)
    {s : Ledger} (hs : During cutter root files ledger sections gone s)
    (hheld : AsHeld ledger sections s) :
    (make (Call.renameSection move.1.name move.2.name move.1.current) :
        Calls Bool).Ensures (alone dies) (fun t => t = s) fun done t =>
      During cutter root files ledger sections gone t ∧ AsHeld ledger sections t ∧
        (done = true -> t.current move.1.name = none) ∧
          forall behind, behind ∈ gone -> s.current behind.name = none ->
            t.current behind.name = none := by
  obtain ⟨⟨_, hcandidate⟩, hnew⟩ := mem_moves hmove
  obtain ⟨hbehind, hretirable⟩ := mem_candidates hcandidate
  obtain ⟨⟨entry, hentry, hnamed⟩, _⟩ := mem_newSections hnew
  have hworthy := hgiven.worthy hmove
  apply alone_make
  · exact fun t ht => ht ▸ hdies s hs
  · intro t ht
    cases ht
    change During _ _ _ _ _ _ (s.renameSection _ _ _).2 ∧ _
    rw [show answer (Call.renameSection move.1.name move.2.name move.1.current) s =
      s.renameSection move.1.name move.2.name move.1.current from rfl]
    cases Ledger.renameSection_cases s move.1.name move.2.name move.1.current with
    | inl hrefused =>
        rw [hrefused]
        exact ⟨hs, hheld, fun hdone => absurd hdone Bool.false_ne_true, fun _ _ hnone => hnone⟩
    | inr hmoved =>
        obtain ⟨moving, hmoving, _, _, _, hrename⟩ := hmoved
        rw [hrename, ← hnamed]
        constructor
        · exact during_moved hgiven hs hbehind hretirable hentry hmoving
        constructor
        · intro other hother hworthless
          have hne : other.1.name ≠ entry.1.name := by
            intro hname
            rw [hgiven.apart hother hentry hname, hnamed] at hworthless
            exact hworthy hworthless
          rw [Ledger.current_moved, if_neg hne, if_neg (hgiven.goneApart hbehind hother).symm]
          exact hheld other hother hworthless
        constructor
        · intro _
          rw [Ledger.current_moved, if_neg (hgiven.goneApart hbehind hentry), if_pos rfl]
        · intro other hother hnone
          rw [Ledger.current_moved, if_neg (hgiven.goneApart hother hentry)]
          by_cases hname : other.name = move.1.name
          · exact if_pos hname
          · rw [if_neg hname]
            exact hnone
  · exact fun _ t ht => hdies t ht.1

structure Tried (cutter : Cutter) (root : String) (files : Set String) (ledger : Ledger)
    (sections : List Rooted) (gone : List Gone) (done : List ((Gone × Section) × Bool))
    (s : Ledger) : Prop where
  during : During cutter root files ledger sections gone s
  asHeld : AsHeld ledger sections s
  moved : forall entry, entry ∈ done ->
    entry.1.1 ∈ gone ∧ (entry.2 = true -> s.current entry.1.1.name = none)

theorem tried_ensures (hgiven : Given cutter root files ledger sections known gone)
    (hdies : forall s, During cutter root files ledger sections gone s -> dies s)
    {done : List ((Gone × Section) × Bool)} {move : Gone × Section}
    (hmove : move ∈ movesOf cutter ledger sections known gone) {s : Ledger}
    (hs : Tried cutter root files ledger sections gone done s) :
    (make (Call.renameSection move.1.name move.2.name move.1.current) :
        Calls Bool).Ensures (alone dies) (fun t => t = s) fun value =>
      Tried cutter root files ledger sections gone (done ++ [(move, value)]) := by
  apply ensures_mono (renameSection_ensures hgiven hdies hmove hs.during hs.asHeld)
    (fun _ h => h)
  intro value t ht
  constructor
  · exact ht.1
  · exact ht.2.1
  · intro entry hentry
    cases List.mem_append.mp hentry with
    | inl hbefore =>
        obtain ⟨hbehind, hnone⟩ := hs.moved entry hbefore
        exact ⟨hbehind, fun hdone => ht.2.2.2 entry.1.1 hbehind (hnone hdone)⟩
    | inr hhere =>
        cases List.mem_singleton.mp hhere
        obtain ⟨⟨_, hcandidate⟩, _⟩ := mem_moves hmove
        exact ⟨(mem_candidates hcandidate).1, ht.2.2.1⟩

theorem renamed_ensures (hgiven : Given cutter root files ledger sections known gone)
    (hdies : forall s, During cutter root files ledger sections gone s -> dies s) :
    (renamed cutter sections (known.map FileTopic.name) gone).Ensures (alone dies)
      (fun s => s = ledger) fun renames s =>
        During cutter root files ledger sections gone s ∧ AsHeld ledger sections s ∧
          GoneFrom gone renames s := by
  have hledger := during_begun hgiven
  unfold renamed
  by_cases hnothing : ((newSections sections (known.map FileTopic.name)).isEmpty ||
      !gone.any Gone.retirable) = true
  · simp only [hnothing, if_true]
    apply alone_pure _ (fun s hs => hs ▸ hdies ledger hledger)
    intro s hs
    cases hs
    exact ⟨hledger, fun _ _ _ => rfl, fun _ hmem => absurd hmem List.not_mem_nil⟩
  · simp only [hnothing]
    apply ensures_bind (alone_reads rfl (hdies ledger hledger))
    intro said
    apply ensures_given
    intro hsaid
    cases hsaid
    have hstart : forall s, s = ledger ->
        Tried cutter root files ledger sections gone [] s := by
      intro s hs
      cases hs
      exact ⟨hledger, fun _ _ _ => rfl, fun _ hmem => absurd hmem List.not_mem_nil⟩
    apply ensures_bind (ensures_mono
      (alone_forEach (fun _ s hs => hdies s hs.during)
        (movesOf cutter ledger sections known gone)
        fun _ _ _ hmove hs => tried_ensures hgiven hdies hmove hs) hstart fun _ _ h => h)
    intro done
    apply alone_pure _ (fun s hs => hdies s hs.2.during)
    intro s hs
    constructor
    · exact hs.2.during
    constructor
    · exact hs.2.asHeld
    · intro entry hentry
      obtain ⟨move, hmove, hfound⟩ := List.mem_filterMap.mp hentry
      obtain ⟨hbehind, hnone⟩ := hs.2.moved move hmove
      cases hdone : move.2 with
      | false => simp [hdone] at hfound
      | true =>
          rw [hdone, if_pos rfl, Option.some.injEq] at hfound
          cases hfound
          exact ⟨⟨move.1.1, hbehind, rfl⟩, hnone hdone⟩

/-!
### Remembering
-/

/-- What remembering a section left of it. -/
structure Came (ledger : Ledger) (entry : Rooted × Remembered) (s : Ledger) : Prop where
  said : ¬Worthless entry.1.1.content -> exists current,
    s.current entry.1.1.name = some current ∧ Restates current.content entry.1.1.content
  worthless : entry.2 = Remembered.held -> Worthless entry.1.1.content
  held : Worthless entry.1.1.content -> (ledger.current entry.1.1.name).isSome = true ->
    entry.2 = Remembered.held

structure Remembering (cutter : Cutter) (root : String) (files : Set String) (ledger : Ledger)
    (sections : List Rooted) (gone : List Gone) (renames : List (String × String))
    (done : List (Rooted × Remembered)) (s : Ledger) : Prop where
  during : During cutter root files ledger sections gone s
  asHeld : AsHeld ledger sections s
  goneFrom : GoneFrom gone renames s
  came : forall entry, entry ∈ done -> entry.1 ∈ sections ∧ Came ledger entry s

theorem remembering_congr {renames : List (String × String)}
    {done : List (Rooted × Remembered)} {s t : Ledger}
    (h : Remembering cutter root files ledger sections gone renames done s)
    (hrecords : t.records = s.records) (hcurrent : forall name, t.current name = s.current name)
    (hours : Ours cutter root files t) :
    Remembering cutter root files ledger sections gone renames done t where
  during := during_congr h.during hrecords hcurrent hours
  asHeld entry hentry hworthless := by
    rw [hcurrent]
    exact h.asHeld entry hentry hworthless
  goneFrom entry hentry := by
    rw [hcurrent]
    exact h.goneFrom entry hentry
  came entry hentry := by
    obtain ⟨hsection, hcame⟩ := h.came entry hentry
    exact ⟨hsection, fun hworthy => by rw [hcurrent]; exact hcame.said hworthy, hcame.worthless,
      hcame.held⟩

theorem remembering_snoc {renames : List (String × String)}
    {done : List (Rooted × Remembered)} {s : Ledger} {entry : Rooted} {value : Remembered}
    (h : Remembering cutter root files ledger sections gone renames done s)
    (hentry : entry ∈ sections) (hcame : Came ledger (entry, value) s) :
    Remembering cutter root files ledger sections gone renames (done ++ [(entry, value)]) s where
  during := h.during
  asHeld := h.asHeld
  goneFrom := h.goneFrom
  came other hother := by
    cases List.mem_append.mp hother with
    | inl hbefore => exact h.came other hbefore
    | inr hhere =>
        cases List.mem_singleton.mp hhere
        exact ⟨hentry, hcame⟩

theorem remembering_written (hgiven : Given cutter root files ledger sections known gone)
    {renames : List (String × String)} {done : List (Rooted × Remembered)} {s : Ledger}
    (h : Remembering cutter root files ledger sections gone renames done s) {entry : Rooted}
    (hentry : entry ∈ sections) (hworthy : ¬Worthless entry.1.content) :
    Remembering cutter root files ledger sections gone renames
      (done ++ [(entry, Remembered.written)])
      (s.writeFrom (entry.1.write cutter now true) SourceKind.file (some root)) := by
  have hother : forall name, name ≠ entry.1.name ->
      (s.writeFrom (entry.1.write cutter now true) SourceKind.file (some root)).current name =
        s.current name := by
    intro name hname
    rw [Ledger.current_writeFrom, if_neg fun hboth => hname hboth.2]
  have hhere : (s.writeFrom (entry.1.write cutter now true) SourceKind.file
      (some root)).current entry.1.name =
        some { state := s.states, content := entry.1.content } := by
    rw [Ledger.current_writeFrom, if_pos ⟨rfl, rfl⟩]
    rfl
  constructor
  · exact during_written hgiven h.during hentry true
  · intro other hmem hworthless
    have hne : other.1.name ≠ entry.1.name := by
      intro hname
      rw [hgiven.apart hmem hentry hname] at hworthless
      exact hworthy hworthless
    rw [hother _ hne]
    exact h.asHeld other hmem hworthless
  · intro moved hmoved
    obtain ⟨⟨behind, hbehind, hname⟩, hnone⟩ := h.goneFrom moved hmoved
    have hne : moved.1 ≠ entry.1.name := hname ▸ hgiven.goneApart hbehind hentry
    exact ⟨⟨behind, hbehind, hname⟩, (hother _ hne).trans hnone⟩
  · intro other hmem
    cases List.mem_append.mp hmem with
    | inl hbefore =>
        obtain ⟨hsection, hcame⟩ := h.came other hbefore
        constructor
        · exact hsection
        · constructor
          · intro hstated
            by_cases hname : other.1.1.name = entry.1.name
            · rw [hgiven.apart hsection hentry hname]
              exact ⟨_, hhere, rfl⟩
            · rw [hother _ hname]
              exact hcame.said hstated
          · exact hcame.worthless
          · exact hcame.held
    | inr hlast =>
        cases List.mem_singleton.mp hlast
        constructor
        · exact hentry
        · constructor
          · exact fun _ => ⟨_, hhere, rfl⟩
          · intro hheld
            cases hheld
          · exact fun hworthless => absurd hworthless hworthy

theorem remembers_remembering (hgiven : Given cutter root files ledger sections known gone)
    {renames : List (String × String)} {done : List (Rooted × Remembered)} {s t : Ledger}
    (h : Remembering cutter root files ledger sections gone renames done s) {entry : Rooted}
    (hentry : entry ∈ sections) {value : Remembered}
    (hstep : Remembers cutter now entry.1 root s value t) :
    Remembering cutter root files ledger sections gone renames (done ++ [(entry, value)]) t := by
  cases hstep with
  | written hpromoted =>
      apply remembering_written hgiven h hentry
      intro hworthless
      rw [Topics.judge_of_worthless hworthless] at hpromoted
      exact hworthless hpromoted
  | restated hjudge =>
      apply remembering_snoc h hentry
      constructor
      · intro _
        cases hcurrent : s.current entry.1.name with
        | none =>
            rw [Ledger.currentContent, hcurrent] at hjudge
            by_cases hworthless : Worthless entry.1.content
            · exact absurd hjudge (Topics.worthless_ne_restatement hworthless _)
            · simp [Topics.judge_of_worthy hworthless] at hjudge
        | some current =>
            rw [Ledger.currentContent, hcurrent] at hjudge
            exact ⟨current, rfl, Topics.restates_of_judge hjudge⟩
      · intro hheld
        cases hheld
      · exact fun hworthless =>
          absurd hjudge (Topics.worthless_ne_restatement hworthless _)
  | heldBefore hworthless hnone =>
      apply remembering_snoc h hentry
      constructor
      · exact fun hworthy => absurd hworthless hworthy
      · intro hheld
        cases hheld
      · intro _ hsome
        rw [← h.asHeld entry hentry hworthless, hnone] at hsome
        cases hsome
  | held hworthless =>
      have hsame : Remembering cutter root files ledger sections gone renames done
          (s.writeFrom (entry.1.write cutter now false) SourceKind.file (some root)) := by
        apply remembering_congr h
        · exact Ledger.records_writeFrom _ _ _ _
        · intro name
          rw [Ledger.current_writeFrom, if_neg fun hboth => Bool.false_ne_true hboth.1]
        · exact (during_written hgiven h.during hentry false).ours
      apply remembering_snoc hsame hentry
      exact ⟨fun hworthy => absurd hworthless hworthy, fun _ => hworthless, fun _ _ => rfl⟩

theorem remembered_ensures (hgiven : Given cutter root files ledger sections known gone)
    (hdies : forall s, During cutter root files ledger sections gone s -> dies s)
    (schedule : List Nat) (renames : List (String × String)) :
    (forEach (fun entry : Rooted => rememberSection cutter now entry.1 entry.2)
        (arranged schedule sections)).Ensures (alone dies)
      (Remembering cutter root files ledger sections gone renames [])
      fun values s => values.length = (arranged schedule sections).length ∧
        Remembering cutter root files ledger sections gone renames
          ((arranged schedule sections).zip values) s := by
  apply alone_forEach (fun _ s hs => hdies s hs.during)
  intro done entry s hmem hs
  have hentry := (mem_arranged schedule).mp hmem
  rw [hgiven.rooted hentry]
  have hstep : (rememberSection cutter now entry.1 root).Ensures (alone dies)
      (fun t => t = s) (Remembers cutter now entry.1 root s) := by
    apply rememberSection_ensures (hdies s hs.during)
    exact fun promoted => hdies _ (during_written hgiven hs.during hentry promoted)
  exact ensures_mono hstep (fun _ h => h)
    fun value t ht => remembers_remembering hgiven hs hentry ht

/-!
### Retiring
-/

theorem retireSection_ensures (hdies : forall s, During cutter root files ledger sections gone s ->
      dies s) {topic : String} {seen : TopicStateId} {s : Ledger}
    (hs : During cutter root files ledger sections gone s)
    (hseen : forall current, s.current topic = some current -> current.state = seen)
    (htopic : (exists behind, behind ∈ gone ∧ behind.retirable = true ∧ behind.name = topic) ∨
      exists entry, entry ∈ sections ∧ entry.1.name = topic) :
    (make (Call.retireSection topic seen) : Calls Retired).Ensures (alone dies)
      (fun t => t = s) fun _ t =>
        During cutter root files ledger sections gone t ∧
          forall name, t.current name = if name = topic then none else s.current name := by
  have hretired := during_retired hs htopic
  apply alone_make
  · exact fun t ht => ht ▸ hdies s hs
  · intro t ht
    cases ht
    rw [show answer (Call.retireSection topic seen) s = s.retireSection topic seen from rfl]
    have hsame : s.current topic = none -> forall name,
        s.current name = if name = topic then none else s.current name := by
      intro hnone name
      by_cases hname : name = topic
      · rw [hname, if_pos rfl, hnone]
      · rw [if_neg hname]
    rcases Ledger.retireSection_cases s topic seen with habsent | hchanged | hkept | hdone
    · rw [habsent.1]
      exact ⟨hs, hsame habsent.2⟩
    · obtain ⟨current, hcurrent, hne, _⟩ := hchanged
      exact absurd (hseen current hcurrent) hne
    · rw [hs.ours.byFiles] at hkept
      exact absurd hkept.1 Bool.false_ne_true
    · rw [hdone]
      exact ⟨hretired, fun name => Ledger.current_retired s topic name⟩
  · exact fun _ t ht => hdies t ht.1

structure Retiring (cutter : Cutter) (root : String) (files : Set String) (ledger : Ledger)
    (sections : List Rooted) (gone : List Gone) (renames : List (String × String))
    (came : List (Rooted × Remembered)) (done : List ((String × TopicStateId) × Retired))
    (s : Ledger) : Prop
    extends Remembering cutter root files ledger sections gone renames came s where
  retired : forall entry, entry ∈ done -> s.current entry.1.1 = none

theorem retiring_ensures (hgiven : Given cutter root files ledger sections known gone)
    (hdies : forall s, During cutter root files ledger sections gone s -> dies s)
    {renames : List (String × String)} {came : List (Rooted × Remembered)}
    {done : List ((String × TopicStateId) × Retired)} {behind : Gone}
    (hbehind : behind ∈ gone) (hretirable : behind.retirable = true) {s : Ledger}
    (hs : Retiring cutter root files ledger sections gone renames came done s) :
    (make (Call.retireSection behind.name behind.current) : Calls Retired).Ensures (alone dies)
      (fun t => t = s) fun value =>
        Retiring cutter root files ledger sections gone renames came
          (done ++ [((behind.name, behind.current), value)]) := by
  have hseen : forall current, s.current behind.name = some current ->
      current.state = behind.current := by
    intro current hcurrent
    obtain ⟨first, hfirst, hstate⟩ := hgiven.goneSays hbehind
    cases hs.during.goneOr hbehind hretirable with
    | inl hsame =>
        rw [hsame, hfirst, Option.some.injEq] at hcurrent
        rw [hstate, hcurrent]
    | inr hnone =>
        rw [hnone] at hcurrent
        cases hcurrent
  apply ensures_mono (retireSection_ensures hdies hs.during hseen
    (Or.inl ⟨behind, hbehind, hretirable, rfl⟩)) (fun _ h => h)
  intro value t ht
  have hkept : forall entry, entry ∈ sections -> t.current entry.1.name =
      s.current entry.1.name := by
    intro entry hentry
    rw [ht.2, if_neg (hgiven.goneApart hbehind hentry).symm]
  have hnone : forall name, s.current name = none -> t.current name = none := by
    intro name hnone
    rw [ht.2]
    by_cases hname : name = behind.name
    · exact if_pos hname
    · rw [if_neg hname, hnone]
  constructor
  · constructor
    · exact ht.1
    · intro entry hentry hworthless
      exact (hkept entry hentry).trans (hs.asHeld entry hentry hworthless)
    · intro entry hentry
      obtain ⟨hfrom, hgone⟩ := hs.goneFrom entry hentry
      exact ⟨hfrom, hnone _ hgone⟩
    · intro entry hentry
      obtain ⟨hsection, hcame⟩ := hs.came entry hentry
      refine ⟨hsection, ⟨fun hworthy => ?_, hcame.worthless, hcame.held⟩⟩
      rw [hkept _ hsection]
      exact hcame.said hworthy
  · intro entry hentry
    cases List.mem_append.mp hentry with
    | inl hbefore => exact hnone _ (hs.retired entry hbefore)
    | inr hhere =>
        cases List.mem_singleton.mp hhere
        rw [ht.2, if_pos rfl]

structure Emptying (cutter : Cutter) (root : String) (files : Set String) (ledger : Ledger)
    (sections : List Rooted) (gone : List Gone)
    (done : List ((String × TopicStateId) × Retired)) (s : Ledger) : Prop
    extends During cutter root files ledger sections gone s where
  said : forall {entry}, entry ∈ sections -> ¬Worthless entry.1.content ->
    exists current, s.current entry.1.name = some current ∧
      Restates current.content entry.1.content
  heldOr : forall {entry}, entry ∈ sections -> Worthless entry.1.content ->
    s.current entry.1.name = ledger.current entry.1.name ∨ s.current entry.1.name = none
  retired : forall {behind}, behind ∈ gone -> behind.retirable = true ->
    s.current behind.name = none
  emptied : forall entry, entry ∈ done -> s.current entry.1.1 = none

theorem emptying_ensures (hgiven : Given cutter root files ledger sections known gone)
    (hdies : forall s, During cutter root files ledger sections gone s -> dies s)
    {done : List ((String × TopicStateId) × Retired)} {entry : Rooted}
    (hentry : entry ∈ sections) (hworthless : Worthless entry.1.content) {topic : FileTopic}
    (htopic : topic ∈ known) (hname : topic.name = entry.1.name) {s : Ledger}
    (hs : Emptying cutter root files ledger sections gone done s) :
    (make (Call.retireSection topic.name topic.current) : Calls Retired).Ensures (alone dies)
      (fun t => t = s) fun value =>
        Emptying cutter root files ledger sections gone
          (done ++ [((topic.name, topic.current), value)]) := by
  have hseen : forall current, s.current topic.name = some current ->
      current.state = topic.current := by
    intro current hcurrent
    obtain ⟨first, hfirst, hstate⟩ := hgiven.knownSays htopic
    rw [hname] at hcurrent hfirst
    cases hs.heldOr hentry hworthless with
    | inl hsame =>
        rw [hsame, hfirst, Option.some.injEq] at hcurrent
        rw [hstate, hcurrent]
    | inr hnone =>
        rw [hnone] at hcurrent
        cases hcurrent
  apply ensures_mono (retireSection_ensures hdies hs.toDuring hseen
    (Or.inr ⟨entry, hentry, hname.symm⟩)) (fun _ h => h)
  intro value t ht
  have hnone : forall name, s.current name = none -> t.current name = none := by
    intro name hnone
    rw [ht.2]
    by_cases hhere : name = topic.name
    · exact if_pos hhere
    · rw [if_neg hhere, hnone]
  constructor
  · exact ht.1
  · intro other hother hworthy
    have hne : other.1.name ≠ topic.name := by
      intro hsame
      rw [hgiven.apart hother hentry (hsame.trans hname)] at hworthy
      exact hworthy hworthless
    rw [ht.2, if_neg hne]
    exact hs.said hother hworthy
  · intro other hother hholds
    cases hs.heldOr hother hholds with
    | inl hsame =>
        rw [ht.2]
        by_cases hhere : other.1.name = topic.name
        · exact Or.inr (if_pos hhere)
        · rw [if_neg hhere]
          exact Or.inl hsame
    | inr hgone => exact Or.inr (hnone _ hgone)
  · exact fun hbehind hretirable => hnone _ (hs.retired hbehind hretirable)
  · intro other hother
    cases List.mem_append.mp hother with
    | inl hbefore => exact hnone _ (hs.emptied other hbefore)
    | inr hhere =>
        cases List.mem_singleton.mp hhere
        rw [ht.2, if_pos rfl]

/-!
### The whole of recording
-/

theorem exists_mem_zip {α β : Type} {entries : List α} {values : List β}
    (hlength : values.length = entries.length) {entry : α} (h : entry ∈ entries) :
    exists value, (entry, value) ∈ entries.zip values := by
  obtain ⟨i, hi, rfl⟩ := List.getElem_of_mem h
  have hzip : i < (entries.zip values).length := by simp [hi, hlength]
  exists values[i]
  have hmem := List.getElem_mem hzip
  rwa [List.getElem_zip] at hmem

theorem setRoots_ensures (hgiven : Given cutter root files ledger sections known gone)
    (hdies : forall s, During cutter root files ledger sections gone s -> dies s)
    {renames : List (String × String)} {came : List (Rooted × Remembered)}
    {unchanged : List Rooted} (hunchanged : forall entry, entry ∈ unchanged ->
      entry ∈ sections) :
    (forEach (fun root : String =>
        (make (Call.setRootsAt (namesAt unchanged root) root) : Calls Unit))
      (unchanged.map Prod.snd).eraseDups).Ensures (alone dies)
      (Remembering cutter root files ledger sections gone renames came)
      fun _ => Remembering cutter root files ledger sections gone renames came := by
  have hstep : forall (done : List (String × Unit)) (here : String) s,
      here ∈ (unchanged.map Prod.snd).eraseDups ->
      Remembering cutter root files ledger sections gone renames came s ->
      (make (Call.setRootsAt (namesAt unchanged here) here) : Calls Unit).Ensures (alone dies)
        (fun t => t = s)
        fun _ => Remembering cutter root files ledger sections gone renames came := by
    intro done here s hmem hs
    have hroot : here = root := by
      obtain ⟨entry, hentry, rfl⟩ := List.mem_map.mp (List.mem_eraseDups.mp hmem)
      exact hgiven.rooted (hunchanged entry hentry)
    have hafter : Remembering cutter root files ledger sections gone renames came
        (s.setRootsAt (namesAt unchanged root) root) := by
      have htables := Ledger.tables_setRootsAt s (namesAt unchanged root) root
      apply remembering_congr hs htables.2
      · intro name
        rw [Ledger.current, htables.1]
        rfl
      · exact ours_allRooted hs.during.ours _
    rw [hroot]
    apply alone_make
    · exact fun t ht => ht ▸ hdies s hs.during
    · intro t ht
      cases ht
      exact hafter
    · exact fun _ t ht => hdies t ht.during
  exact ensures_mono (alone_forEach (fun _ s hs => hdies s hs.during) _ hstep) (fun _ h => h)
    fun _ _ h => h.2

theorem retireGone_ensures (hgiven : Given cutter root files ledger sections known gone)
    (hdies : forall s, During cutter root files ledger sections gone s -> dies s)
    {renames : List (String × String)} {came : List (Rooted × Remembered)} {left : List Gone}
    (hleft : forall behind, behind ∈ left -> behind ∈ gone ∧ behind.retirable = true) :
    (retireAll (left.map fun behind => (behind.name, behind.current))).Ensures (alone dies)
      (Remembering cutter root files ledger sections gone renames came)
      fun _ s => Remembering cutter root files ledger sections gone renames came s ∧
        forall behind, behind ∈ left -> s.current behind.name = none := by
  have hstep : forall done topic s,
      topic ∈ left.map (fun behind => (behind.name, behind.current)) ->
      Retiring cutter root files ledger sections gone renames came done s ->
      (make (Call.retireSection topic.1 topic.2) : Calls Retired).Ensures (alone dies)
        (fun t => t = s) fun value =>
          Retiring cutter root files ledger sections gone renames came
            (done ++ [(topic, value)]) := by
    intro done topic s hmem hs
    obtain ⟨behind, hbehind, rfl⟩ := List.mem_map.mp hmem
    obtain ⟨hgone, hretirable⟩ := hleft behind hbehind
    exact retiring_ensures hgiven hdies hgone hretirable hs
  have hstart : forall s, Remembering cutter root files ledger sections gone renames came s ->
      Retiring cutter root files ledger sections gone renames came [] s :=
    fun s hs => ⟨hs, fun _ hmem => absurd hmem List.not_mem_nil⟩
  unfold retireAll
  apply ensures_bind (ensures_mono
    (alone_forEach (fun _ s hs => hdies s hs.during) _ hstep) hstart fun _ _ h => h)
  intro retired
  apply alone_pure _ (fun s hs => hdies s hs.2.during)
  intro s hs
  constructor
  · exact hs.2.toRemembering
  · intro behind hbehind
    obtain ⟨value, hvalue⟩ := exists_mem_zip hs.1
      (List.mem_map.mpr ⟨behind, hbehind, rfl⟩)
    exact hs.2.retired _ hvalue

theorem emptied_ensures (hgiven : Given cutter root files ledger sections known gone)
    (hdies : forall s, During cutter root files ledger sections gone s -> dies s)
    {held : List FileTopic} (hheld : forall topic, topic ∈ held -> topic ∈ known ∧
      exists entry, entry ∈ sections ∧ Worthless entry.1.content ∧
        topic.name = entry.1.name) :
    (retireAll (held.map fun topic => (topic.name, topic.current))).Ensures (alone dies)
      (Emptying cutter root files ledger sections gone [])
      fun _ s => Emptying cutter root files ledger sections gone [] s ∧
        forall topic, topic ∈ held -> s.current topic.name = none := by
  have hstep : forall done given s,
      given ∈ held.map (fun topic => (topic.name, topic.current)) ->
      Emptying cutter root files ledger sections gone done s ->
      (make (Call.retireSection given.1 given.2) : Calls Retired).Ensures (alone dies)
        (fun t => t = s) fun value =>
          Emptying cutter root files ledger sections gone (done ++ [(given, value)]) := by
    intro done given s hmem hs
    obtain ⟨topic, htopic, rfl⟩ := List.mem_map.mp hmem
    obtain ⟨hknown, entry, hentry, hworthless, hname⟩ := hheld topic htopic
    exact emptying_ensures hgiven hdies hentry hworthless hknown hname hs
  unfold retireAll
  apply ensures_bind (alone_forEach (fun _ s hs => hdies s hs.toDuring) _ hstep)
  intro retired
  apply alone_pure _ (fun s hs => hdies s hs.2.toDuring)
  intro s hs
  constructor
  · exact ⟨hs.2.toDuring, hs.2.said, hs.2.heldOr, hs.2.retired,
      fun _ hmem => absurd hmem List.not_mem_nil⟩
  · intro topic htopic
    obtain ⟨value, hvalue⟩ := exists_mem_zip hs.1 (List.mem_map.mpr ⟨topic, htopic, rfl⟩)
    exact hs.2.emptied _ hvalue

def HeldOf (ledger : Ledger) (came : List (Rooted × Remembered)) : Prop :=
  forall entry, entry ∈ came ->
    (entry.2 = Remembered.held -> Worthless entry.1.1.content) ∧
      (Worthless entry.1.1.content -> (ledger.current entry.1.1.name).isSome = true ->
        entry.2 = Remembered.held)

theorem emptying_begins {renames : List (String × String)} {schedule : List Nat}
    {remembered : List Remembered}
    (hlength : remembered.length = (arranged schedule sections).length) {s : Ledger}
    (hs : Remembering cutter root files ledger sections gone renames
      ((arranged schedule sections).zip remembered) s)
    (hleft : forall behind, behind ∈ (gone.filter fun behind =>
      behind.name ∉ renames.map Prod.fst).filter Gone.retirable ->
        s.current behind.name = none) :
    HeldOf ledger ((arranged schedule sections).zip remembered) ∧
      Emptying cutter root files ledger sections gone [] s := by
  constructor
  · exact fun entry hentry => ⟨(hs.came entry hentry).2.worthless, (hs.came entry hentry).2.held⟩
  constructor
  · exact hs.during
  · intro entry hentry hworthy
    obtain ⟨value, hvalue⟩ := exists_mem_zip hlength ((mem_arranged schedule).mpr hentry)
    exact (hs.came _ hvalue).2.said hworthy
  · exact fun hentry hworthless => Or.inl (hs.asHeld _ hentry hworthless)
  · intro behind hbehind hretirable
    by_cases hrenamed : behind.name ∈ renames.map Prod.fst
    · obtain ⟨entry, hentry, hname⟩ := List.mem_map.mp hrenamed
      rw [← hname]
      exact (hs.goneFrom entry hentry).2
    · apply hleft
      apply List.mem_filter.mpr
      exact ⟨List.mem_filter.mpr ⟨hbehind, by simpa using hrenamed⟩, hretirable⟩
  · exact fun _ hmem => absurd hmem List.not_mem_nil

theorem recorded_of_emptying (hgiven : Given cutter root files ledger sections known gone)
    {schedule : List Nat} {remembered : List Remembered}
    (hlength : remembered.length = (arranged schedule sections).length)
    (hheld : HeldOf ledger ((arranged schedule sections).zip remembered)) {s : Ledger}
    (hs : Emptying cutter root files ledger sections gone [] s)
    (hemptied : forall topic, topic ∈ emptied known
        ((((arranged schedule sections).zip remembered).filter fun entry =>
          entry.2 = Remembered.held).map Prod.fst) -> s.current topic.name = none) :
    Recorded cutter root files ledger sections gone s where
  toDuring := hs.toDuring
  said := hs.said
  retired := hs.retired
  held := by
    intro entry hentry hworthless
    cases hbefore : ledger.current entry.1.name with
    | none =>
        cases hs.heldOr hentry hworthless with
        | inl hsame => exact hsame.trans hbefore
        | inr hnone => exact hnone
    | some current =>
        obtain ⟨value, hvalue⟩ := exists_mem_zip hlength ((mem_arranged schedule).mpr hentry)
        have hcame : value = Remembered.held :=
          (hheld _ hvalue).2 hworthless (by rw [hbefore]; rfl)
        obtain ⟨topic, htopic, hname⟩ := hgiven.knows hentry hbefore
        cases hfind : known.find? fun topic => topic.name = entry.1.name with
        | none =>
            have hnot := List.find?_eq_none.mp hfind topic htopic
            simp [hname] at hnot
        | some found =>
            have hfound : found.name = entry.1.name := by
              simpa using List.find?_some hfind
            have hmem : entry ∈ (((arranged schedule sections).zip remembered).filter
                fun entry => entry.2 = Remembered.held).map Prod.fst :=
              List.mem_map.mpr
                ⟨(entry, value), List.mem_filter.mpr ⟨hvalue, by simp [hcame]⟩, rfl⟩
            rw [← hfound]
            exact hemptied found (List.mem_filterMap.mpr ⟨entry, hmem, hfind⟩)

theorem record_ensures (hgiven : Given cutter root files ledger sections known gone)
    (hdies : forall s, During cutter root files ledger sections gone s -> dies s)
    (schedule : List Nat) :
    (record cutter now schedule sections known gone).Ensures (alone dies)
      (fun s => s = ledger)
      fun _ => Recorded cutter root files ledger sections gone := by
  apply ensures_bind (renamed_ensures hgiven hdies)
  intro renames
  have hstart : forall s, (During cutter root files ledger sections gone s ∧
      AsHeld ledger sections s ∧ GoneFrom gone renames s) ->
        Remembering cutter root files ledger sections gone renames [] s :=
    fun s hs => ⟨hs.1, hs.2.1, hs.2.2, fun _ hmem => absurd hmem List.not_mem_nil⟩
  apply ensures_bind (ensures_mono (remembered_ensures hgiven hdies schedule renames) hstart
    fun _ _ h => h)
  intro remembered
  apply ensures_given
  intro hlength
  have hcame : forall {outcome} entry, entry ∈
      ((((arranged schedule sections).zip remembered).filter fun entry =>
        entry.2 = outcome).map Prod.fst) -> entry ∈ sections := by
    intro outcome entry hentry
    obtain ⟨given, hmem, rfl⟩ := List.mem_map.mp hentry
    exact (mem_arranged schedule).mp (List.of_mem_zip (List.mem_filter.mp hmem).1).1
  apply ensures_bind (setRoots_ensures hgiven hdies hcame)
  intro _
  have hleft : forall behind, behind ∈ (gone.filter fun behind =>
      behind.name ∉ renames.map Prod.fst).filter Gone.retirable ->
        behind ∈ gone ∧ behind.retirable = true := by
    intro behind hbehind
    obtain ⟨hmem, hretirable⟩ := List.mem_filter.mp hbehind
    exact ⟨(List.mem_filter.mp hmem).1, hretirable⟩
  apply ensures_bind (ensures_mono (retireGone_ensures hgiven hdies hleft) (fun _ h => h)
    fun _ s hs => emptying_begins hlength hs.1 hs.2)
  intro retired
  apply ensures_given
  intro hheld
  have hheldKnown : forall topic, topic ∈ emptied known
      ((((arranged schedule sections).zip remembered).filter fun entry =>
        entry.2 = Remembered.held).map Prod.fst) -> topic ∈ known ∧
          exists entry, entry ∈ sections ∧ Worthless entry.1.content ∧
            topic.name = entry.1.name := by
    intro topic htopic
    obtain ⟨entry, hentry, hfind⟩ := List.mem_filterMap.mp htopic
    constructor
    · exact List.mem_of_find?_eq_some hfind
    · have hsection := hcame entry hentry
      obtain ⟨given, hmem, rfl⟩ := List.mem_map.mp hentry
      obtain ⟨hzip, houtcome⟩ := List.mem_filter.mp hmem
      exact ⟨given.1, hsection, (hheld given hzip).1 (by simpa using houtcome),
        by simpa using List.find?_some hfind⟩
  apply ensures_bind (emptied_ensures hgiven hdies hheldKnown)
  intro _
  apply alone_pure _ (fun s hs => hdies s hs.1.toDuring)
  exact fun s hs => recorded_of_emptying hgiven hlength hheld hs.1 hs.2

theorem recordAny_ensures {request : Request} {read : List Read}
    (hgiven : Given cutter root files ledger (rooted read) known gone)
    (hdies : forall s, During cutter root files ledger (rooted read) gone s -> dies s) :
    (recordAny cutter request read known gone).Ensures (alone dies) (fun s => s = ledger)
      fun _ => Recorded cutter root files ledger (rooted read) gone := by
  have hledger := during_begun hgiven
  unfold recordAny
  by_cases hnothing : ((rooted read).isEmpty && !gone.any Gone.retirable) = true
  · rw [if_pos hnothing]
    rw [Bool.and_eq_true, List.isEmpty_iff, Bool.not_eq_true'] at hnothing
    apply alone_pure _ (fun s hs => hs ▸ hdies ledger hledger)
    intro s hs
    cases hs
    constructor
    · exact hledger
    · intro entry hentry
      rw [hnothing.1] at hentry
      exact absurd hentry List.not_mem_nil
    · intro entry hentry
      rw [hnothing.1] at hentry
      exact absurd hentry List.not_mem_nil
    · intro behind hbehind hretirable
      have hany := List.any_eq_true.mpr ⟨behind, hbehind, hretirable⟩
      rw [hnothing.2] at hany
      exact absurd hany Bool.false_ne_true
  · rw [if_neg hnothing]
    exact record_ensures hgiven hdies request.schedule

end Recording

end Ingest
end PaminMemory
