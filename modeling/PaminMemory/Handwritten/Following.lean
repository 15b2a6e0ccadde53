import PaminMemory.Handwritten.Calling

/-!
# Following an ingest

Each section an ingest records is said by its topic when it has been recorded, and is so still
when the file's record is stored, or has been written by hand meanwhile.  A record stored so is
looked at a second time.
-/

namespace PaminMemory
namespace Handwritten

open Foundation Foundation.Program
open Ingest
open Topics (Current Rejection Restates Retired SourceKind Worthless judge)

/-!
## Recording sections
-/

/-- What became of a section that has been recorded. -/
structure Came (world : World) (entry : Rooted × Remembered) : Prop where
  held : entry.2 = Remembered.held -> Worthless entry.1.1.content
  told : ¬Worthless entry.1.1.content -> Told world entry.1.1
  rooted : ¬Worthless entry.1.1.content -> entry.2 ≠ Remembered.unchanged ->
    RootedAt world.ledger entry.1.2 entry.1.1.name

structure Recording (cutter : Cutter) (files : Set String) (names : List String)
    (done : List (Rooted × Remembered)) (world : World) : Prop
    extends Begun cutter files names world where
  came : forall entry, entry ∈ done -> Came world entry

structure Sectioned (cutter : Cutter) (files : Set String) (names : List String)
    (sections : List Rooted) : Prop where
  named : forall entry, entry ∈ sections ->
    exists file, file ∈ files ∧ file ∈ names ∧ cutter.Names file entry.1.name
  apart : (sections.map fun entry => entry.1.name).Nodup

section Recording

variable {cutter : Cutter} {files : Set String} {names : List String}
  {done : List (Rooted × Remembered)} {world after : World} {named : Section} {root : String}
  {now : Instant}

theorem Came.agreed {entry : Rooted × Remembered} (h : Came world entry)
    (hagree : Agree world.ledger after.ledger entry.1.1.name)
    (hover : entry.1.1.name ∈ world.progress.overwritten ->
      entry.1.1.name ∈ after.progress.overwritten) :
    Came after entry where
  held := h.held
  told hworthy := told_congr (h.told hworthy) hagree.topic hover
  rooted hworthy hchanged := rootedAt_congr (h.rooted hworthy hchanged) hagree.source

theorem came_stroke {entry : Rooted × Remembered} (h : Came world entry) {stroke : Stroke}
    (hstroke : world.stroke stroke = some after) : Came after entry where
  held := h.held
  told hworthy := told_stroke (h.told hworthy) hstroke
  rooted hworthy hchanged := rootedAt_stroke (h.rooted hworthy hchanged) hstroke

theorem steady_recording (hfiles : NamedApart cutter files) :
    Steady cutter files (Recording cutter files names done) where
  struck := by
    rintro world after h ⟨stroke, hmay, hstroke⟩
    refine ⟨(steady_begun hfiles).struck h.toBegun ⟨stroke, hmay, hstroke⟩, ?_⟩
    exact fun entry hentry => came_stroke (h.came entry hentry) hstroke
  sound h := h.sound

theorem Recording.snoc (h : Recording cutter files names done world)
    {entry : Rooted × Remembered} (hentry : Came world entry) :
    Recording cutter files names (done ++ [entry]) world := by
  refine ⟨h.toBegun, ?_⟩
  intro other hother
  rcases List.mem_append.mp hother with hbefore | hnew
  · exact h.came other hbefore
  · cases List.mem_singleton.mp hnew
    exact hentry

theorem came_of_worthless (hworthless : Worthless named.content) (value : Remembered) :
    Came world ((named, root), value) where
  held _ := hworthless
  told hworthy := absurd hworthless hworthy
  rooted hworthy := absurd hworthless hworthy

theorem backed_written {ledger : Ledger} {write : Write}
    (hledger : after.ledger = ledger.writeFrom write SourceKind.file (some root))
    (hpromoted : write.promoted = true) (htopic : write.topic = named.name)
    (hcontent : write.content = named.content) : Backed after root named := by
  have htopics : after.ledger.topics = ledger.topics.insert named.name
      (some { state := ledger.states, content := named.content }) := by
    rw [hledger, topics_writeFrom, if_pos hpromoted, htopic, hcontent]
  have hsources : after.ledger.sources =
      ledger.sources.insert (SourceKind.file, named.name)
        (ledger.filedBy write SourceKind.file (some root)) := by
    rw [hledger, Ledger.sources_writeFrom, htopic]
  have hlookup : after.ledger.topics.lookup named.name =
      some (some { state := ledger.states, content := named.content }) := by
    rw [htopics]
    exact AList.lookup_insert _
  constructor
  · constructor
    · rw [hlookup]
      rfl
    · refine Or.inl ⟨{ state := ledger.states, content := named.content }, ?_, rfl⟩
      unfold Ledger.current
      rw [hlookup]
      rfl
  · intro source hsource
    rw [hsources, AList.lookup_insert] at hsource
    rw [← Option.some.inj hsource]
    rfl

theorem steady_backed (hfiles : NamedApart cutter files) {fact : Prop} :
    Steady cutter files fun world =>
      Recording cutter files names done world ∧ (fact -> Backed world root named) := by
  apply (steady_recording hfiles).and
  intro world after stroke hbacked hstroke hfact
  have hhere := hbacked hfact
  exact ⟨told_stroke hhere.toTold hstroke, rootedAt_stroke hhere.rooted hstroke⟩

theorem steady_told (hfiles : NamedApart cutter files) {fact : Prop} :
    Steady cutter files fun world =>
      Recording cutter files names done world ∧ (fact -> Told world named) := by
  apply (steady_recording hfiles).and
  intro world after stroke htold hstroke hfact
  exact told_stroke (htold hfact) hstroke

theorem writeSection_told (hfiles : NamedApart cutter files) {file : String}
    (hfile : file ∈ files) (hin : file ∈ names) (hnames : cutter.Names file named.name)
    (hapart : forall entry, entry ∈ done -> entry.1.1.name ≠ named.name) (promoted : Bool) :
    (writeSection cutter now named root promoted).Ensures (beside cutter files)
      (Recording cutter files names done) fun _ world =>
        Recording cutter files names done world ∧
          (promoted = true -> Backed world root named) := by
  apply steady_make (steady_recording hfiles)
  · exact fun _ => steady_backed hfiles
  · intro world h _
    constructor
    · refine ⟨h.toBegun.spared (spares_written hfiles h.toBegun hfile hin hnames), ?_⟩
      intro entry hentry
      have hne := hapart entry hentry
      apply (h.came entry hentry).agreed
      · exact agree_writeFrom (named.write cutter now promoted) SourceKind.file (some root) hne
      · intro hover
        apply List.mem_filter.mpr
        refine ⟨hover, ?_⟩
        rw [Bool.or_eq_true]
        exact Or.inr (decide_eq_true hne)
    · intro hpromoted
      exact @backed_written _ named root world.ledger (named.write cutter now promoted) rfl
        hpromoted rfl rfl

theorem holdSection_told (hfiles : NamedApart cutter files) {file : String}
    (hfile : file ∈ files) (hin : file ∈ names) (hnames : cutter.Names file named.name)
    (hapart : forall entry, entry ∈ done -> entry.1.1.name ≠ named.name)
    (hworthless : Worthless named.content) (current : Option String) :
    (holdSection cutter now named root current).Ensures (beside cutter files)
      (Recording cutter files names done) fun value =>
        Recording cutter files names (done ++ [((named, root), value)]) := by
  have hrecording : Steady cutter files (Recording cutter files names done) :=
    steady_recording hfiles
  have hheld : forall value world, Recording cutter files names done world ->
      Recording cutter files names (done ++ [((named, root), value)]) world :=
    fun value world hworld => hworld.snoc (came_of_worthless hworthless value)
  have hlast : forall last : Option String,
      (if last = some (cutter.contentHash named.content) then
        (pure Remembered.unchanged : Calls Remembered)
      else do
        writeSection cutter now named root false
        pure Remembered.held).Ensures (beside cutter files)
          (Recording cutter files names done) fun value =>
            Recording cutter files names (done ++ [((named, root), value)]) := by
    intro last
    split
    · exact steady_pure _ hrecording (hheld _)
    · apply ensures_bind (ensures_mono
        (writeSection_told hfiles hfile hin hnames hapart false) (fun _ hworld => hworld)
        fun _ _ hworld => hworld.1)
      intro _
      exact steady_pure _ hrecording (hheld _)
  unfold holdSection
  split
  · exact ensures_bind (steady_read hrecording fun _ => rfl) hlast
  · exact ensures_bind (steady_pure none hrecording fun _ hworld => hworld) hlast

theorem told_of_restatement (h : judge named.content (world.ledger.currentContent named.name) =
      some Rejection.restatement) : Told world named := by
  rcases Topics.says_of_restatement h with ⟨said, hcontent, hrestates⟩
  rcases Option.map_eq_some_iff.mp hcontent with ⟨current, hcurrent, rfl⟩
  rcases Option.join_eq_some_iff.mp hcurrent with hlookup
  constructor
  · rw [hlookup]
    rfl
  · exact Or.inl ⟨current, hcurrent, hrestates⟩

theorem Came.looked {entry : Rooted × Remembered} (h : Came world entry) {topic : String}
    (hne : entry.1.1.name ≠ topic) : Came (respond (Call.currentContent topic) world).2 entry := by
  have hledger : (respond (Call.currentContent topic) world).2.ledger = world.ledger := rfl
  apply h.agreed
  · rw [hledger]
    exact Agree.refl _ _
  · intro hover
    exact List.mem_filter.mpr ⟨hover, decide_eq_true hne⟩

theorem rememberSection_told (hfiles : NamedApart cutter files) {file : String}
    (hfile : file ∈ files) (hin : file ∈ names) (hnames : cutter.Names file named.name)
    (hapart : forall entry, entry ∈ done -> entry.1.1.name ≠ named.name) :
    (rememberSection cutter now named root).Ensures (beside cutter files)
      (Recording cutter files names done) fun value =>
        Recording cutter files names (done ++ [((named, root), value)]) := by
  have hlooked : (make (Call.currentContent named.name) : Calls (Option String)).Ensures
      (beside cutter files) (Recording cutter files names done) fun current world =>
        Recording cutter files names done world ∧
          (judge named.content current = some Rejection.restatement -> Told world named) := by
    apply steady_make (steady_recording hfiles) fun _ => steady_told hfiles
    intro world h _
    constructor
    · refine ⟨h.toBegun.spared (spares_looked world named.name), ?_⟩
      exact fun entry hentry => (h.came entry hentry).looked (hapart entry hentry)
    · exact fun hjudge => told_of_restatement hjudge
  apply ensures_bind hlooked
  intro current
  cases hjudge : judge named.content current with
  | none =>
      apply ensures_bind (ensures_mono (writeSection_told hfiles hfile hin hnames hapart true)
        (fun _ hworld => hworld.1) fun _ _ hworld => hworld)
      intro _
      apply steady_pure _ (steady_backed hfiles)
      intro world hworld
      have hbacked := hworld.2 rfl
      apply hworld.1.snoc
      exact ⟨nofun, fun _ => hbacked.toTold, fun _ _ => hbacked.rooted⟩
  | some rejection =>
      have hheld : rejection ≠ Rejection.restatement ->
          (holdSection cutter now named root current).Ensures (beside cutter files)
            (fun world => Recording cutter files names done world ∧
              (some rejection = some Rejection.restatement -> Told world named))
            fun value => Recording cutter files names (done ++ [((named, root), value)]) := by
        intro hkept
        exact ensures_mono (holdSection_told hfiles hfile hin hnames hapart
          (worthless_of_judge hjudge hkept) current) (fun _ hworld => hworld.1)
          fun _ _ hworld => hworld
      cases rejection with
      | restatement =>
          apply steady_pure _ (steady_told hfiles)
          intro world hworld
          apply hworld.1.snoc
          exact ⟨nofun, fun _ => hworld.2 rfl, fun _ hchanged => absurd rfl hchanged⟩
      | empty => exact hheld (by decide)
      | tooShort => exact hheld (by decide)

/-!
## All the sections
-/

variable {sections : List Rooted}

theorem renamed_begun (hfiles : NamedApart cutter files)
    (hsections : Sectioned cutter files names sections) (known : List String)
    (gone : List Gone) :
    (renamed cutter sections known gone).Ensures (beside cutter files)
      (Begun cutter files names) fun _ => Begun cutter files names := by
  have hbegun : Steady cutter files (Begun cutter files names) := steady_begun hfiles
  unfold renamed
  dsimp only
  split
  · exact steady_pure _ hbegun fun _ hworld => hworld
  · apply ensures_bind (steady_read hbegun fun _ => rfl)
    intro said
    apply ensures_bind
    · apply steady_each hbegun
      intro move hmove
      rcases mem_moves hmove with ⟨_, hnew⟩
      rcases mem_newSections hnew with ⟨⟨entry, hentry, hnamed⟩, _⟩
      rcases hsections.named entry hentry with ⟨file, hfile, hin, hnames⟩
      rw [hnamed] at hnames
      apply steady_make hbegun fun _ => hbegun
      intro world h _
      exact h.spared (spares_renamed hfiles h move.1.name move.1.current hfile hin hnames)
    · intro done
      exact steady_pure _ hbegun fun _ hworld => hworld

theorem remember_told (hfiles : NamedApart cutter files)
    (hsections : Sectioned cutter files names sections) :
    (forEach (fun rooted : Rooted => rememberSection cutter now rooted.1 rooted.2)
        sections).Ensures (beside cutter files) (Recording cutter files names [])
      fun remembered world => remembered.length = sections.length ∧
        Recording cutter files names (sections.zip remembered) world := by
  apply @steady_forEach cutter files Rooted Remembered _ (Recording cutter files names)
    fun done => steady_recording hfiles
  intro earlier entry later hsplit
  have hin : entry ∈ sections := by
    rw [← hsplit]
    exact List.mem_append_right _ List.mem_cons_self
  rcases hsections.named entry hin with ⟨file, hfile, hcut, hnames⟩
  apply rememberSection_told hfiles hfile hcut hnames
  intro other hother hname
  have hapart := hsections.apart
  rw [← hsplit, List.map_append, List.nodup_append] at hapart
  refine hapart.2.2 other.1.1.name ?_ entry.1.name ?_ hname
  · exact List.mem_map.mpr ⟨other.1, List.mem_map_of_mem hother, rfl⟩
  · exact List.mem_map.mpr ⟨entry, List.mem_cons_self, rfl⟩

/-!
## Their roots
-/

theorem rootedAt_setRootAt {ledger : Ledger} {name topic : String}
    (h : RootedAt ledger root name ∨ name = topic) :
    RootedAt (Ledger.setRootAt root ledger topic) root name := by
  by_cases hname : name = topic
  · cases hname
    intro source hsource
    unfold Ledger.setRootAt at hsource
    cases hfound : ledger.sources.lookup (SourceKind.file, name) with
    | none =>
        rw [hfound] at hsource
        rw [hfound] at hsource
        cases hsource
    | some found =>
        rw [hfound] at hsource
        rw [AList.lookup_insert] at hsource
        rw [← Option.some.inj hsource]
  · exact rootedAt_congr (h.resolve_right hname) (agree_setRootAt hname).source

theorem rootedAt_setRootsAt {ledger : Ledger} {name : String} {topics : List String}
    (h : RootedAt ledger root name ∨ name ∈ topics) :
    RootedAt (ledger.setRootsAt topics root) root name := by
  unfold Ledger.setRootsAt
  induction topics generalizing ledger with
  | nil => exact h.resolve_right List.not_mem_nil
  | cons topic rest ih =>
      apply ih
      rcases h with hrooted | hmem
      · exact Or.inl (rootedAt_setRootAt (Or.inl hrooted))
      · rcases List.mem_cons.mp hmem with rfl | hrest
        · exact Or.inl (rootedAt_setRootAt (Or.inr rfl))
        · exact Or.inr hrest

structure Rooting (cutter : Cutter) (files : Set String) (names : List String)
    (recorded : List (Rooted × Remembered)) (done : List (String × Unit)) (world : World) : Prop
    extends Recording cutter files names recorded world where
  rooted : forall entry, entry ∈ recorded -> entry.1.2 ∈ done.map Prod.fst ->
    entry.2 = Remembered.unchanged -> RootedAt world.ledger entry.1.2 entry.1.1.name

structure Surfaced (cutter : Cutter) (files : Set String) (names : List String)
    (sections : List Rooted) (world : World) : Prop extends Begun cutter files names world where
  backed : forall entry, entry ∈ sections -> ¬Worthless entry.1.content ->
    Backed world entry.2 entry.1

theorem steady_rooting (hfiles : NamedApart cutter files) {rooted : List (String × Unit)} :
    Steady cutter files (Rooting cutter files names done rooted) where
  struck := by
    rintro world after h ⟨stroke, hmay, hstroke⟩
    refine ⟨(steady_recording hfiles).struck h.toRecording ⟨stroke, hmay, hstroke⟩, ?_⟩
    intro entry hentry hroot hunchanged
    exact rootedAt_stroke (h.rooted entry hentry hroot hunchanged) hstroke
  sound h := h.sound

theorem steady_surfaced (hfiles : NamedApart cutter files) :
    Steady cutter files (Surfaced cutter files names sections) where
  struck := by
    rintro world after h ⟨stroke, hmay, hstroke⟩
    refine ⟨(steady_begun hfiles).struck h.toBegun ⟨stroke, hmay, hstroke⟩, ?_⟩
    intro entry hentry hworthy
    have hhere := h.backed entry hentry hworthy
    exact ⟨told_stroke hhere.toTold hstroke, rootedAt_stroke hhere.rooted hstroke⟩
  sound h := h.sound

theorem setRoots_rooted (hfiles : NamedApart cutter files)
    (hsections : Sectioned cutter files names (done.map Prod.fst)) (roots : List String) :
    (forEach (fun root : String => (make (Call.setRootsAt
        (namesAt ((done.filter fun entry => entry.2 = Remembered.unchanged).map Prod.fst) root)
        root) : Calls Unit)) roots).Ensures (beside cutter files)
      (Rooting cutter files names done [])
      fun values world => values.length = roots.length ∧
        Rooting cutter files names done (roots.zip values) world := by
  let unchanged := (done.filter fun entry => entry.2 = Remembered.unchanged).map Prod.fst
  have hnamesAt : forall {root topic}, topic ∈ namesAt unchanged root ->
      exists entry, entry ∈ done ∧ entry.1.2 = root ∧ entry.1.1.name = topic := by
    intro root topic htopic
    rcases List.mem_map.mp htopic with ⟨rooted, hrooted, rfl⟩
    rcases List.mem_filter.mp hrooted with ⟨hmem, hroot⟩
    rcases List.mem_map.mp hmem with ⟨entry, hentry, rfl⟩
    exact ⟨entry, (List.mem_filter.mp hentry).1, of_decide_eq_true hroot, rfl⟩
  apply @steady_forEach cutter files String Unit _ (Rooting cutter files names done)
    fun rooted => steady_rooting hfiles
  intro earlier root later _
  apply steady_make (steady_rooting hfiles) fun _ => steady_rooting hfiles
  intro world h _
  have htopics : forall topic, topic ∈ namesAt unchanged root ->
      exists file, file ∈ files ∧ file ∈ names ∧ cutter.Names file topic := by
    intro topic htopic
    rcases hnamesAt htopic with ⟨entry, hentry, _, rfl⟩
    exact hsections.named entry.1 (List.mem_map_of_mem hentry)
  have hkept : forall {entry : Rooted × Remembered}, entry ∈ done ->
      RootedAt world.ledger entry.1.2 entry.1.1.name ∨
        (entry.1.2 = root ∧ entry.2 = Remembered.unchanged) ->
          RootedAt (world.ledger.setRootsAt (namesAt unchanged root) root) entry.1.2
            entry.1.1.name := by
    intro entry hentry hcase
    by_cases hroot : entry.1.2 = root
    · cases hroot
      apply rootedAt_setRootsAt
      refine hcase.imp_right ?_
      rintro ⟨_, hunchanged⟩
      apply List.mem_map.mpr
      refine ⟨entry.1, List.mem_filter.mpr ⟨?_, decide_eq_true rfl⟩, rfl⟩
      exact List.mem_map_of_mem (List.mem_filter.mpr ⟨hentry, decide_eq_true hunchanged⟩)
    · have hrooted := hcase.resolve_right fun hboth => hroot hboth.1
      apply rootedAt_congr hrooted
      apply (agree_setRootsAt _).source
      intro hmem
      rcases hnamesAt hmem with ⟨other, hother, hotherRoot, hname⟩
      have hsame := List.inj_on_of_nodup_map hsections.apart (List.mem_map_of_mem hother)
        (List.mem_map_of_mem hentry) hname
      exact hroot (hsame ▸ hotherRoot)
  have hledger : (respond (Call.setRootsAt (namesAt unchanged root) root) world).2.ledger =
      world.ledger.setRootsAt (namesAt unchanged root) root := rfl
  have htables := world.ledger.tables_setRootsAt (namesAt unchanged root) root
  constructor
  · refine ⟨h.toBegun.spared (spares_rooted hfiles h.toBegun htopics), ?_⟩
    intro entry hentry
    have hhere := h.came entry hentry
    constructor
    · exact hhere.held
    · intro hworthy
      apply told_congr (hhere.told hworthy)
      · rw [hledger, htables.1]
      · exact fun hover => hover
    · intro hworthy hchanged
      rw [hledger]
      exact hkept hentry (Or.inl (hhere.rooted hworthy hchanged))
  · intro entry hentry hroot hunchanged
    rw [hledger]
    apply hkept hentry
    rw [List.map_append, List.mem_append] at hroot
    rcases hroot with hbefore | hnow
    · exact Or.inl (h.rooted entry hentry hbefore hunchanged)
    · exact Or.inr ⟨List.mem_singleton.mp hnow, hunchanged⟩

theorem surfaced_of_rooting {remembered : List Remembered}
    (hlength : remembered.length = sections.length) {roots : List String} {values : List Unit}
    (hvalues : values.length = roots.length)
    (hroots : forall entry, entry ∈ sections.zip remembered ->
      entry.2 = Remembered.unchanged -> entry.1.2 ∈ roots)
    (h : Rooting cutter files names (sections.zip remembered) (roots.zip values) world) :
    Surfaced cutter files names sections world := by
  refine ⟨h.toBegun, ?_⟩
  intro entry hentry hworthy
  rcases exists_mem_zip hlength hentry with ⟨value, hvalue⟩
  have hcame := h.came (entry, value) hvalue
  refine ⟨hcame.told hworthy, ?_⟩
  by_cases hunchanged : value = Remembered.unchanged
  · apply h.rooted (entry, value) hvalue ?_ hunchanged
    rw [List.map_fst_zip (Nat.le_of_eq hvalues.symm)]
    exact hroots (entry, value) hvalue hunchanged
  · exact hcame.rooted hworthy hunchanged

/-!
## Retiring
-/

theorem retireSection_surfaced (hfiles : NamedApart cutter files) {topic : String}
    (hapart : forall entry, entry ∈ sections -> ¬Worthless entry.1.content ->
      entry.1.name ≠ topic) (seen : TopicStateId) :
    (make (Call.retireSection topic seen) : Calls Retired).Ensures (beside cutter files)
      (Surfaced cutter files names sections) fun _ =>
        Surfaced cutter files names sections := by
  have hsurfaced : Steady cutter files (Surfaced cutter files names sections) :=
    steady_surfaced hfiles
  apply steady_make hsurfaced fun _ => hsurfaced
  intro world h _
  rcases @spares_retired cutter world topic seen with ⟨hspares, hagree⟩
  refine ⟨h.toBegun.spared hspares, ?_⟩
  intro entry hentry hworthy
  have hhere := h.backed entry hentry hworthy
  have hover : (respond (Call.retireSection topic seen) world).2.progress.overwritten =
      world.progress.overwritten := by
    show (if (world.ledger.retireSection topic seen).1 = Retired.retired then
      { world.progress with off := world.storedWith topic ++ world.progress.off }
    else
      world.progress).overwritten = _
    split
    · rfl
    · rfl
  apply backed_congr hhere (hagree entry.1.name (hapart entry hentry hworthy))
  rw [hover]
  exact id

theorem retireAll_surfaced (hfiles : NamedApart cutter files)
    {topics : List (String × TopicStateId)}
    (hapart : forall topic, topic ∈ topics -> forall entry, entry ∈ sections ->
      ¬Worthless entry.1.content -> entry.1.name ≠ topic.1) :
    (retireAll topics).Ensures (beside cutter files) (Surfaced cutter files names sections)
      fun _ => Surfaced cutter files names sections := by
  have hsurfaced : Steady cutter files (Surfaced cutter files names sections) :=
    steady_surfaced hfiles
  unfold retireAll
  apply ensures_bind
  · apply steady_each hsurfaced
    exact fun topic htopic => retireSection_surfaced hfiles (hapart topic htopic) topic.2
  · intro retired
    exact steady_pure _ hsurfaced fun _ hworld => hworld

/-!
## The whole of recording
-/

def HeldOnly (came : List (Rooted × Remembered)) : Prop :=
  forall entry, entry ∈ came -> entry.2 = Remembered.held -> Worthless entry.1.1.content

theorem emptied_apart {came : List (Rooted × Remembered)} (hheld : HeldOnly came)
    (hapart : (came.map fun entry => entry.1.1.name).Nodup) {known : List FileTopic}
    {topic : FileTopic}
    (htopic : topic ∈ emptied known
      ((came.filter fun entry => entry.2 = Remembered.held).map Prod.fst))
    {entry : Rooted × Remembered} (hentry : entry ∈ came)
    (hworthy : ¬Worthless entry.1.1.content) : entry.1.1.name ≠ topic.name := by
  rcases List.mem_filterMap.mp htopic with ⟨rooted, hrooted, hfind⟩
  rcases List.mem_map.mp hrooted with ⟨other, hother, rfl⟩
  rcases List.mem_filter.mp hother with ⟨hmem, houtcome⟩
  have hworthless := hheld other hmem (of_decide_eq_true houtcome)
  intro hname
  have hfound : topic.name = other.1.1.name := by simpa using List.find?_some hfind
  have hsame : entry = other :=
    List.inj_on_of_nodup_map hapart hentry hmem (hname.trans hfound)
  rw [hsame] at hworthy
  exact hworthy hworthless

theorem record_surfaced (hfiles : NamedApart cutter files)
    (hsections : Sectioned cutter files names sections) (schedule : List Nat)
    (known : List FileTopic) {gone : List Gone}
    (hgone : forall behind, behind ∈ gone -> forall entry, entry ∈ sections ->
      entry.1.name ≠ behind.name) :
    (record cutter now schedule sections known gone).Ensures (beside cutter files)
      (Begun cutter files names) fun _ => Surfaced cutter files names sections := by
  have hperm := arranged_perm schedule sections
  have harranged : Sectioned cutter files names (arranged schedule sections) := by
    constructor
    · exact fun entry hentry => hsections.named entry ((mem_arranged schedule).mp hentry)
    · exact (hperm.map fun entry => entry.1.name).nodup_iff.mpr hsections.apart
  have hremember : (forEach (fun rooted : Rooted => rememberSection cutter now rooted.1 rooted.2)
      (arranged schedule sections)).Ensures (beside cutter files) (Begun cutter files names)
        fun remembered world =>
          (remembered.length = (arranged schedule sections).length ∧
            HeldOnly ((arranged schedule sections).zip remembered)) ∧
              Rooting cutter files names ((arranged schedule sections).zip remembered) []
                world := by
    apply ensures_mono (remember_told hfiles harranged)
    · exact fun _ hworld => ⟨hworld, fun _ hmem => absurd hmem List.not_mem_nil⟩
    · rintro remembered world ⟨hlength, hworld⟩
      refine ⟨⟨hlength, fun entry hentry => (hworld.came entry hentry).held⟩, hworld, ?_⟩
      exact fun _ _ hroot => absurd hroot List.not_mem_nil
  apply ensures_bind (renamed_begun hfiles hsections _ gone)
  intro renames
  apply ensures_bind hremember
  intro remembered
  apply ensures_given
  rintro ⟨hlength, hheld⟩
  have hfst : ((arranged schedule sections).zip remembered).map Prod.fst =
      arranged schedule sections := List.map_fst_zip (Nat.le_of_eq hlength.symm)
  have hzip : Sectioned cutter files names
      (((arranged schedule sections).zip remembered).map Prod.fst) := by
    rw [hfst]
    exact harranged
  have hroots : forall entry, entry ∈ (arranged schedule sections).zip remembered ->
      entry.2 = Remembered.unchanged ->
        entry.1.2 ∈ ((((arranged schedule sections).zip remembered).filter fun entry =>
          entry.2 = Remembered.unchanged).map Prod.fst |>.map Prod.snd).eraseDups := by
    intro entry hentry hunchanged
    apply List.mem_eraseDups.mpr
    apply List.mem_map_of_mem
    apply List.mem_map_of_mem
    exact List.mem_filter.mpr ⟨hentry, decide_eq_true hunchanged⟩
  apply ensures_bind (ensures_mono (setRoots_rooted hfiles hzip _) (fun _ hworld => hworld)
    fun values world hworld => surfaced_of_rooting hlength hworld.1 hroots hworld.2)
  intro _
  apply ensures_bind (retireAll_surfaced hfiles ?_)
  · intro retired
    apply ensures_bind (retireAll_surfaced hfiles ?_)
    · intro emptied
      apply steady_pure _ (steady_surfaced hfiles)
      intro world hworld
      refine ⟨hworld.toBegun, ?_⟩
      exact fun entry hentry => hworld.backed entry ((mem_arranged schedule).mpr hentry)
    · intro seen hseen entry hentry hworthy
      rcases List.mem_map.mp hseen with ⟨topic, htopic, rfl⟩
      rcases exists_mem_zip hlength hentry with ⟨value, hvalue⟩
      apply @emptied_apart _ hheld ?_ known topic htopic (entry, value) hvalue hworthy
      have hapart := hzip.apart
      rw [List.map_map] at hapart
      exact hapart
  · intro seen hseen entry hentry _
    rcases List.mem_map.mp hseen with ⟨behind, hbehind, rfl⟩
    have hmem := (List.mem_filter.mp (List.mem_filter.mp hbehind).1).1
    exact hgone behind hmem entry ((mem_arranged schedule).mp hentry)

theorem recordAny_surfaced (hfiles : NamedApart cutter files) {read : List Read}
    (hsections : Sectioned cutter files names (rooted read)) (request : Request)
    (known : List FileTopic) {gone : List Gone}
    (hgone : forall behind, behind ∈ gone -> forall entry, entry ∈ rooted read ->
      entry.1.name ≠ behind.name) :
    (recordAny cutter request read known gone).Ensures (beside cutter files)
      (Begun cutter files names) fun _ => Surfaced cutter files names (rooted read) := by
  unfold recordAny
  split
  · next hnothing =>
      rw [Bool.and_eq_true, List.isEmpty_iff] at hnothing
      apply steady_pure _ (steady_begun hfiles)
      intro world hworld
      refine ⟨hworld, ?_⟩
      intro entry hentry
      rw [hnothing.1] at hentry
      exact absurd hentry List.not_mem_nil
  · exact record_surfaced hfiles hsections request.schedule known hgone

end Recording

end Handwritten
end PaminMemory
