import PaminMemory.Ingest.Ingest

/-!
# An ingest that runs alone

When nobody writes between its calls, what an ingest looks at is a function of the ledger it
began on: only its writes are left to follow.
-/

namespace PaminMemory
namespace Ingest

open Foundation Foundation.Program
open Topics (Current)

def alone (dies : Ledger -> Prop) : Setting Call Call.reply Ledger where
  answer := answer
  others := Eq
  allowed := fun _ _ => True
  dies := dies
  others_refl := fun _ => rfl
  others_trans := Eq.trans

/-!
## What an ingest plans

Each set of what it looks at and writes is told from the tree and the ledger it began with.
-/

section Planned

variable (cutter : Cutter) (request : Request) (ledger : Ledger)

def sights : Looking :=
  look cutter request.build
    (ledger.records.of (request.found.map fun seen => seen.file.key)) request.found

def cuts : List Cut := (sights cutter request ledger).cut request.deleted

def cutNames : List String := (cuts cutter request ledger).map fun cut => cut.file.name

def begun : Ledger :=
  { ledger with records := ledger.records.forgetFiles (cutNames cutter request ledger) }

def leaving : List (List (String × String) × Nat) :=
  request.trees.map fun tree =>
    leftTree ((begun cutter request ledger).records.startingWith tree.root tree.low)
      ((sights cutter request ledger).keys request.deleted)

/-- More sections are under a tree than its records account for, or a file had no record. -/
def unknown (tree : Tree) (left : List (String × String) × Nat) : Bool :=
  tree.unrecorded (sights cutter request ledger).unrecorded ||
    decide (left.2 < (begun cutter request ledger).countFileTopicsUnder tree.low)

def lows : List String :=
  cutNames cutter request ledger ++
    ((request.trees.zip (leaving cutter request ledger)).map fun entry =>
      if unknown cutter request ledger entry.1 entry.2 then [entry.1.low]
      else entry.2.1.map Prod.snd).flatten

def playing : List FileTopic :=
  inPlay ((begun cutter request ledger).fileTopicsUnder (lows cutter request ledger))
    (cutNames cutter request ledger) request.trees

def reads : List Read :=
  (cuts cutter request ledger).map (namedRead cutter (playing cutter request ledger)
    ((begun cutter request ledger).currentNamed
      ((cuts cutter request ledger).flatMap fun cut =>
        wanted cut (playing cutter request ledger))))

def leftBehind : List Gone :=
  gone ((sights cutter request ledger).looked request)
    ((rooted (reads cutter request ledger)).map Prod.fst) (playing cutter request ledger)

def ready : Ready :=
  { looking := sights cutter request ledger, left := leaving cutter request ledger
    recorded := playing cutter request ledger, read := reads cutter request ledger
    gone := leftBehind cutter request ledger }

end Planned

/-!
## Calls of one who is alone
-/

section Rules

variable {dies : Ledger -> Prop}

theorem alone_make {call : Call} {before : Ledger -> Prop}
    {after : call.reply -> Ledger -> Prop} (hbefore : forall s, before s -> dies s)
    (hcall : forall s, before s -> after (answer call s).1 (answer call s).2)
    (hafter : forall value s, after value s -> dies s) :
    (make call : Calls call.reply).Ensures (alone dies) before after := by
  apply ensures_make
  · intro s t hs hothers
    exact hothers ▸ hs
  · exact hbefore
  · exact fun s hs _ => hcall s hs
  · exact hafter
  · intro value s t hs hothers
    exact hothers ▸ hs

theorem alone_reads {call : Call} {ledger : Ledger} (hread : (answer call ledger).2 = ledger)
    (hdies : dies ledger) :
    (make call : Calls call.reply).Ensures (alone dies) (fun s => s = ledger)
      fun value s => value = (answer call ledger).1 ∧ s = ledger := by
  apply alone_make
  · exact fun s hs => hs ▸ hdies
  · intro s hs
    cases hs
    exact ⟨rfl, hread⟩
  · exact fun value s hs => hs.2 ▸ hdies

theorem alone_pure {α : Type} {before : Ledger -> Prop} {after : α -> Ledger -> Prop}
    (value : α) (hdies : forall s, before s -> dies s)
    (h : forall s, before s -> after value s) :
    (pure value : Calls α).Ensures (alone dies) before after := by
  apply ensures_pure
  intro s t hs hothers
  cases hothers
  exact ⟨hdies s hs, h s hs⟩

theorem alone_reads_each {α β : Type} {ledger : Ledger} {body : α -> Calls β}
    {value : α -> β} (hdies : dies ledger)
    (hbody : forall entry, (body entry).Ensures (alone dies) (fun s => s = ledger)
      fun given s => given = value entry ∧ s = ledger) (entries : List α) :
    (forEach body entries).Ensures (alone dies) (fun s => s = ledger)
      fun values s => values = entries.map value ∧ s = ledger :=
  ensures_forEach_map hbody (fun _ _ hs hothers => hothers ▸ hs) (fun _ hs => hs ▸ hdies) entries

theorem alone_forEach {α β : Type} {body : α -> Calls β}
    {Done : List (α × β) -> Ledger -> Prop}
    (hdies : forall done s, Done done s -> dies s) (entries : List α)
    (hbody : forall done entry s, entry ∈ entries -> Done done s ->
      (body entry).Ensures (alone dies) (fun t => t = s)
        fun value => Done (done ++ [(entry, value)])) :
    (forEach body entries).Ensures (alone dies) (Done [])
      fun values s => values.length = entries.length ∧ Done (entries.zip values) s :=
  ensures_forEach (fun _ _ _ hs hothers => hothers ▸ hs) hdies [] entries
    fun done entry hmem s hs => hbody done entry s hmem hs s rfl

/-!
## What an ingest comes to alone
-/

section Reading

variable {cutter : Cutter} {request : Request} {ledger : Ledger}

theorem begin_ensures (hledger : dies ledger) (hbegun : dies (begun cutter request ledger)) :
    (begin cutter request).Ensures (alone dies) (fun s => s = ledger)
      fun looking s =>
        looking = sights cutter request ledger ∧ s = begun cutter request ledger := by
  apply ensures_bind (alone_reads rfl hledger)
  intro records
  apply ensures_given
  intro hrecords
  cases hrecords
  have hforget : (make (Call.forgetRecordsOfFiles (cutNames cutter request ledger)) :
      Calls Unit).Ensures (alone dies) (fun s => s = ledger)
      fun _ s => s = begun cutter request ledger := by
    apply alone_make
    · exact fun s hs => hs ▸ hledger
    · intro s hs
      cases hs
      rfl
    · exact fun _ s hs => hs ▸ hbegun
  apply ensures_bind hforget
  intro _
  exact alone_pure _ (fun s hs => hs ▸ hbegun) fun s hs => ⟨rfl, hs⟩

theorem lowsOf_ensures (hdies : dies ledger) (unrecorded : List File) (tree : Tree)
    (left : List (String × String) × Nat) :
    (lowsOf unrecorded tree left).Ensures (alone dies) (fun s => s = ledger)
      fun value s =>
        value =
          (if tree.unrecorded unrecorded ||
              decide (left.2 < ledger.countFileTopicsUnder tree.low) then [tree.low]
          else left.1.map Prod.snd) ∧ s = ledger := by
  unfold lowsOf
  by_cases hunrecorded : tree.unrecorded unrecorded = true
  · rw [if_pos hunrecorded]
    exact alone_pure _ (fun s hs => hs ▸ hdies) fun s hs => ⟨by simp [hunrecorded], hs⟩
  · rw [if_neg hunrecorded]
    apply ensures_bind (alone_reads rfl hdies)
    intro count
    apply ensures_given
    intro hcount
    exact alone_pure _ (fun s hs => hs ▸ hdies) fun s hs =>
      ⟨by simp [hunrecorded, hcount, answer], hs⟩

theorem leaves_ensures (hbegun : dies (begun cutter request ledger)) :
    (leaves request (sights cutter request ledger)).Ensures (alone dies)
      (fun s => s = begun cutter request ledger)
      fun found s => found = (leaving cutter request ledger, lows cutter request ledger) ∧
        s = begun cutter request ledger := by
  have hrecords : forall tree : Tree,
      (make (Call.fileRecordsUnder tree.root tree.low) : Calls Records).Ensures (alone dies)
        (fun s => s = begun cutter request ledger)
        fun value s =>
          value = (begun cutter request ledger).records.startingWith tree.root tree.low ∧
            s = begun cutter request ledger :=
    fun tree => alone_reads rfl hbegun
  apply ensures_bind (alone_reads_each hbegun hrecords request.trees)
  intro under
  apply ensures_given
  intro hunder
  have hleft : (under.map fun records =>
      leftTree records ((sights cutter request ledger).keys request.deleted)) =
        leaving cutter request ledger := by
    rw [hunder, List.map_map]
    rfl
  rw [hleft]
  apply ensures_bind (alone_reads_each hbegun
    (fun entry : Tree × (List (String × String) × Nat) =>
      lowsOf_ensures hbegun (sights cutter request ledger).unrecorded entry.1 entry.2) _)
  intro lows
  apply ensures_given
  intro hlows
  exact alone_pure _ (fun s hs => hs ▸ hbegun) fun s hs => ⟨by rw [hlows]; rfl, hs⟩

theorem compared_ensures (hbegun : dies (begun cutter request ledger)) :
    (compared cutter request (sights cutter request ledger) (leaving cutter request ledger)
        (lows cutter request ledger)).Ensures (alone dies)
      (fun s => s = begun cutter request ledger)
      fun given s => given = ready cutter request ledger ∧ s = begun cutter request ledger := by
  apply ensures_bind (alone_reads rfl hbegun)
  intro topics
  apply ensures_given
  intro htopics
  cases htopics
  apply ensures_bind (alone_reads rfl hbegun)
  intro said
  apply ensures_given
  intro hsaid
  cases hsaid
  exact alone_pure _ (fun s hs => hs ▸ hbegun) fun s hs => ⟨rfl, hs⟩

theorem ingest_ensures {between : Outcome -> Ledger -> Prop} {after : Ledger -> Prop}
    (hledger : dies ledger) (hbegun : dies (begun cutter request ledger))
    (hrecord : (recordAny cutter request (reads cutter request ledger)
        (playing cutter request ledger) (leftBehind cutter request ledger)).Ensures
      (alone dies) (fun s => s = begun cutter request ledger) between)
    (hfinish : forall outcome,
      (finish request (sights cutter request ledger) (leaving cutter request ledger)
        (reads cutter request ledger) outcome).Ensures (alone dies) (between outcome)
        fun _ => after)
    (hafter : forall s, after s -> dies s) :
    (ingest cutter request).Ensures (alone dies) (fun s => s = ledger) fun _ => after := by
  apply ensures_bind (begin_ensures hledger hbegun)
  intro looking
  apply ensures_given
  intro hlooking
  cases hlooking
  apply ensures_bind (leaves_ensures hbegun)
  intro found
  apply ensures_given
  intro hfound
  cases hfound
  apply ensures_bind (compared_ensures hbegun)
  intro given
  apply ensures_given
  intro hgiven
  cases hgiven
  apply ensures_bind hrecord
  intro outcome
  apply ensures_bind (hfinish outcome)
  intro _
  exact alone_pure _ hafter fun s hs => hs

end Reading

end Rules

end Ingest
end PaminMemory
