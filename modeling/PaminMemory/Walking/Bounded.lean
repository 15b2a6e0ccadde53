import PaminMemory.Walking.Reading
import PaminMemory.Walking.Breadth

/-!
# A bounded walk beside the walk it bounds

Up to the hop it stops at, a bounded walk is the walk that reads every edge.  At that hop
every topic it reaches is reached as without the bound, and one it misses lies past a cut.
-/

namespace PaminMemory
namespace Walking

open Foundation PaminMemory.Graph

def OnePerEdge (edges : List Live) : Prop :=
  (edges.map Live.edge).Nodup

theorem OnePerEdge.eq {edges : List Live} (h : OnePerEdge edges) {left right : Live}
    (hleft : left ∈ edges) (hright : right ∈ edges) (hedge : left.edge = right.edge) :
    left = right :=
  List.inj_on_of_nodup_map h hleft hright hedge

/-!
## The order of a topic's crossings
-/

theorem kind_of_ctorIdx {left right : EdgeKind} (h : left.ctorIdx = right.ctorIdx) :
    left = right := by
  cases left <;> cases right <;> first | rfl | cases h

theorem near_ne_far (outward : Bool) (live : Live) : near outward live ≠ far outward live := by
  cases outward with
  | true => exact live.edge.distinct
  | false => exact live.edge.distinct.symm

theorem edge_of_ends {left right : Live} {outward : Bool}
    (hnear : near outward left = near outward right)
    (hfar : far outward left = far outward right) (hkind : left.edge.kind = right.edge.kind) :
    left.edge = right.edge := by
  cases hleft : left.edge with
  | mk leftFrom leftTo leftKind leftDistinct =>
      cases hright : right.edge with
      | mk rightFrom rightTo rightKind rightDistinct =>
          cases outward with
          | true =>
              simp only [near, far, hleft, hright, if_true] at hnear hfar hkind
              subst hnear hfar hkind
              rfl
          | false =>
              simp only [near, far, hleft, hright, Bool.false_eq_true, if_false] at hnear hfar hkind
              subst hnear hfar hkind
              rfl

theorem entry_of_key {edges : List Live} (hone : OnePerEdge edges) {standing : TopicId}
    {left right : Live} {leftward rightward : Bool}
    (hleft : left ∈ edges) (hright : right ∈ edges)
    (hnearLeft : near leftward left = standing) (hnearRight : near rightward right = standing)
    (hkey : crossingKey standing (entryOf leftward left) =
      crossingKey standing (entryOf rightward right)) :
    entryOf leftward left = entryOf rightward right := by
  have hrest := congrArg Prod.snd (toLex.injective hkey)
  have hfar : far leftward left = far rightward right := congrArg Prod.fst (toLex.injective hrest)
  have hlast := congrArg Prod.snd (toLex.injective hrest)
  have hkind : left.edge.kind = right.edge.kind :=
    kind_of_ctorIdx (congrArg Prod.fst (toLex.injective hlast))
  have hasserted : assertedFrom standing (entryOf leftward left) =
      assertedFrom standing (entryOf rightward right) :=
    congrArg Prod.snd (toLex.injective hlast)
  have hdistinct : standing ≠ far rightward right := by
    rw [← hnearRight]
    exact near_ne_far rightward right
  have hside : leftward = rightward := by
    cases leftward with
    | true =>
        cases rightward with
        | true => rfl
        | false => exact absurd hasserted hdistinct
    | false =>
        cases rightward with
        | false => rfl
        | true => exact absurd (hfar.symm.trans hasserted).symm hdistinct
  subst hside
  have hedge := edge_of_ends (hnearLeft.trans hnearRight.symm) hfar hkind
  rw [hone.eq hleft hright hedge]

theorem flatMap_filter_nonempty {α β : Type} (items : List α) (f : α -> List β) :
    items.flatMap f = (items.filter fun item => !(f item).isEmpty).flatMap f := by
  induction items with
  | nil => rfl
  | cons item rest ih =>
      rw [List.flatMap_cons, ih, List.filter_cons]
      cases hempty : f item with
      | nil => simp
      | cons first others => simp [hempty]

theorem crossings_filter_congr {edges : List Live} (hone : OnePerEdge edges)
    {left right : List Live} {standing : TopicId} {picks : Entry -> Bool}
    (hleft : forall live, live ∈ left -> live ∈ edges)
    (hright : forall live, live ∈ right -> live ∈ edges)
    (hleftNodup : left.Nodup) (hrightNodup : right.Nodup)
    (h : forall live outward, near outward live = standing ->
      picks (entryOf outward live) = true -> (live ∈ left <-> live ∈ right)) :
    (crossings left standing).filter picks = (crossings right standing).filter picks := by
  let picked : Live -> List Entry := fun live => (entriesOf standing live).filter picks
  have hflat : forall rows : List Live,
      ((crossings rows standing).filter picks).Perm
        ((rows.filter fun live => !(picked live).isEmpty).flatMap picked) := by
    intro rows
    have hsort := (List.perm_insertionSort (crossingOrder standing)
      (rows.flatMap (entriesOf standing))).filter picks
    rw [List.filter_flatMap] at hsort
    rw [← flatMap_filter_nonempty rows picked]
    exact hsort
  have hrows : (left.filter fun live => !(picked live).isEmpty).Perm
      (right.filter fun live => !(picked live).isEmpty) := by
    rw [List.perm_ext_iff_of_nodup (hleftNodup.filter _) (hrightNodup.filter _)]
    intro live
    rw [List.mem_filter, List.mem_filter]
    have hsame : (!(picked live).isEmpty) = true -> (live ∈ left <-> live ∈ right) := by
      intro hpicked
      cases hentries : picked live with
      | nil =>
          rw [hentries] at hpicked
          cases hpicked
      | cons entry rest =>
          have hmem : entry ∈ picked live := by
            rw [hentries]
            exact List.mem_cons_self
          rcases List.mem_filter.mp hmem with ⟨hentry, hpicks⟩
          rcases mem_entriesOf.mp hentry with ⟨outward, hnear, rfl⟩
          exact h live outward hnear hpicks
    constructor
    · intro hmem
      exact ⟨(hsame hmem.2).mp hmem.1, hmem.2⟩
    · intro hmem
      exact ⟨(hsame hmem.2).mpr hmem.1, hmem.2⟩
  have hperm : ((crossings left standing).filter picks).Perm
      ((crossings right standing).filter picks) :=
    (hflat left).trans ((hrows.flatMap_right picked).trans (hflat right).symm)
  have hsorted : forall rows : List Live,
      ((crossings rows standing).filter picks).Pairwise (crossingOrder standing) := by
    intro rows
    exact List.Pairwise.filter picks (List.pairwise_insertionSort _ _)
  apply List.Perm.eq_of_pairwise ?_ (hsorted left) (hsorted right) hperm
  intro one other hone' hother hle hge
  rcases mem_crossings.mp (List.mem_filter.mp hone').1 with ⟨live, hlive, hentry⟩
  rcases mem_crossings.mp (List.mem_filter.mp hother).1 with ⟨live', hlive', hentry'⟩
  rcases mem_entriesOf.mp hentry with ⟨outward, hnear, rfl⟩
  rcases mem_entriesOf.mp hentry' with ⟨outward', hnear', rfl⟩
  exact entry_of_key hone (hleft live hlive) (hright live' hlive') hnear hnear'
    (le_antisymm hle hge)

/-!
## What a bounded read holds
-/

section Reading

variable {edges : List Live} {answers : Answers edges} {hop perTopic : Nat}
  {positions : List TopicId} {live : Live} {outward : Bool}

def gathered (answers : Answers edges) (hop perTopic : Nat) (positions : List TopicId) :
    List Live :=
  rowsRead answers hop perTopic positions ++
    if cutsMade answers hop perTopic positions = [] then
      []
    else
      answers.between hop ((cutsMade answers hop perTopic positions).map Cut.standing)
        (touchedBy (rowsRead answers hop perTopic positions))

theorem mem_pairs {cut touched : List TopicId} :
    live ∈ answers.between hop cut touched <->
      live ∈ edges ∧ exists outward, near outward live ∈ cut ∧ far outward live ∈ touched := by
  rw [(answers.betweenPerm hop cut touched).mem_iff, List.mem_filter]
  have hbetween : between cut touched live = true <->
      exists outward, near outward live ∈ cut ∧ far outward live ∈ touched := by
    simp [between, near, far, or_comm]
  rw [hbetween]

theorem mem_gathered :
    live ∈ gathered answers hop perTopic positions <->
      live ∈ rowsRead answers hop perTopic positions ∨
        (live ∈ edges ∧ exists cut outward, cut ∈ cutsMade answers hop perTopic positions ∧
          near outward live = cut.standing ∧
            far outward live ∈ touchedBy (rowsRead answers hop perTopic positions)) := by
  unfold gathered
  rw [List.mem_append]
  by_cases hnone : cutsMade answers hop perTopic positions = []
  · rw [if_pos hnone, hnone]
    simp
  · rw [if_neg hnone, mem_pairs]
    constructor
    · intro h
      rcases h with hrow | ⟨hlive, outward, hnear, hfar⟩
      · exact Or.inl hrow
      · rcases List.mem_map.mp hnear with ⟨cut, hcut, hat⟩
        exact Or.inr ⟨hlive, cut, outward, hcut, hat.symm, hfar⟩
    · intro h
      rcases h with hrow | ⟨hlive, cut, outward, hcut, hat, hfar⟩
      · exact Or.inl hrow
      · exact Or.inr ⟨hlive, outward, List.mem_map.mpr ⟨cut, hcut, hat.symm⟩, hfar⟩

theorem gathered_sound (h : live ∈ gathered answers hop perTopic positions) :
    live ∈ edges ∧ touching positions live = true := by
  rw [mem_touching]
  rcases mem_gathered.mp h with hrow | ⟨hlive, cut, outward, hcut, hat, _⟩
  · rcases mem_rowsRead.mp hrow with ⟨standing, outward, hstanding, hside⟩
    have hsound := sideRows_sound hside
    rw [← hsound.2] at hstanding
    exact ⟨hsound.1, outward, hstanding⟩
  · have hstanding := (cut_touched hcut).1
    rw [← hat] at hstanding
    exact ⟨hlive, outward, hstanding⟩

theorem gathered_touched (h : live ∈ gathered answers hop perTopic positions) :
    far outward live ∈ touchedBy (rowsRead answers hop perTopic positions) := by
  rcases mem_gathered.mp h with hrow | ⟨_, cut, side, hcut, hat, hfar⟩
  · exact (ends_touched hrow outward).2
  · have hstanding := (cut_touched hcut).2.1
    rw [← hat] at hstanding
    cases outward with
    | true =>
        cases side with
        | true => exact hfar
        | false => exact hstanding
    | false =>
        cases side with
        | true => exact hstanding
        | false => exact hfar

theorem ungathered (hbound : 0 < perTopic) (hlive : live ∈ edges)
    (hstanding : near outward live ∈ positions)
    (hout : live ∉ gathered answers hop perTopic positions) :
    far outward live ∉ touchedBy (rowsRead answers hop perTopic positions) ∧
      exists cut, cut ∈ cutsMade answers hop perTopic positions ∧
        cut.standing = near outward live ∧
          (strength live.confidence < strength cut.confidence ∨
            (strength live.confidence = strength cut.confidence ∧
              cut.after < far outward live)) := by
  have hrow : live ∉ rowsRead answers hop perTopic positions := by
    intro hrow
    exact hout (mem_gathered.mpr (Or.inl hrow))
  rcases unread_after_cut hbound hlive hstanding hrow with ⟨cut, hcut, hat, hle⟩
  have hfar : far outward live ∉ touchedBy (rowsRead answers hop perTopic positions) := by
    intro hfar
    exact hout (mem_gathered.mpr (Or.inr ⟨hlive, cut, outward, hcut, hat.symm, hfar⟩))
  refine ⟨hfar, cut, hcut, hat, ?_⟩
  rw [sideKey_eq] at hle
  rcases placeKey_le_iff.mp hle with hless | ⟨hsame, hafter⟩
  · exact Or.inl hless
  · refine Or.inr ⟨hsame, Nat.lt_of_le_of_ne hafter ?_⟩
    intro heq
    apply hfar
    rw [← heq]
    exact (cut_touched hcut).2.2

theorem gathered_closed (hbound : 0 < perTopic) {other : Live} {side : Bool}
    (hlive : live ∈ gathered answers hop perTopic positions) (hother : other ∈ edges)
    (hstanding : near side other ∈ positions) (hsame : far outward live = far side other) :
    other ∈ gathered answers hop perTopic positions := by
  by_contra hout
  have hfar := (ungathered hbound hother hstanding hout).1
  rw [← hsame] at hfar
  exact hfar (gathered_touched hlive)

theorem gathered_all (hbound : 0 < perTopic)
    (hnone : cutsMade answers hop perTopic positions = []) (hlive : live ∈ edges)
    (hstanding : near outward live ∈ positions) :
    live ∈ gathered answers hop perTopic positions := by
  by_contra hout
  rcases (ungathered hbound hlive hstanding hout).2 with ⟨cut, hcut, _⟩
  rw [hnone] at hcut
  cases hcut

theorem strongestEdges_eq (answers : Answers edges) (hop perTopic : Nat)
    (positions : List TopicId) :
    strongestEdges answers hop positions perTopic =
      (firsts Live.edge ∅ (gathered answers hop perTopic positions),
        cutsMade answers hop perTopic positions) :=
  rfl

theorem mem_strongestEdges (hone : OnePerEdge edges) :
    live ∈ (strongestEdges answers hop positions perTopic).1 <->
      live ∈ gathered answers hop perTopic positions := by
  rw [strongestEdges_eq]
  apply mem_firsts_iff
  intro left right hleft hright hedge
  exact hone.eq (gathered_sound hleft).1 (gathered_sound hright).1 hedge

theorem nodup_strongestEdges (answers : Answers edges) (hop perTopic : Nat)
    (positions : List TopicId) : (strongestEdges answers hop positions perTopic).1.Nodup := by
  rw [strongestEdges_eq]
  exact List.Nodup.of_map Live.edge nodup_keys_firsts

theorem nodup_every (hone : OnePerEdge edges) (hop : Nat) (positions : List TopicId) :
    (answers.every hop positions).Nodup := by
  rw [(answers.everyPerm hop positions).nodup_iff]
  exact (List.Nodup.of_map Live.edge hone).filter _

theorem mem_every : live ∈ answers.every hop positions <->
    live ∈ edges ∧ touching positions live = true := by
  rw [(answers.everyPerm hop positions).mem_iff, List.mem_filter]

end Reading

/-!
## One hop, bounded and not
-/

/-- What an entry of the unread says of a topic the walk misses. -/
def Covers (unread : Unread) (neighbor : Neighbor) : Prop :=
  neighbor.hops = unread.hops ∧ neighbor.via = unread.via ∧ neighbor.origin ∈ unread.origins ∧
    (strength neighbor.confidence < strength unread.confidence ∨
      (strength neighbor.confidence = strength unread.confidence ∧
        unread.after < neighbor.topic))

section Hop

variable {edges : List Live} {answers : Answers edges} {hop perTopic : Nat} {s : State}
  {topic : TopicId}

theorem mem_positions_of_step {step : Step} (h : step ∈ s.frontier) : step.topic ∈ s.positions :=
  mem_positions.mpr ⟨step, h, rfl⟩

theorem crossings_strongest (hone : OnePerEdge edges) (picks : Entry -> Bool) {step : Step}
    (h : forall live outward, live ∈ edges -> near outward live = step.topic ->
      picks (entryOf outward live) = true ->
        live ∈ gathered answers hop perTopic s.positions) :
    (crossings (strongestEdges answers hop s.positions perTopic).1 step.topic).filter picks =
      (crossings (answers.every hop s.positions) step.topic).filter picks := by
  apply crossings_filter_congr hone
  · intro live hlive
    exact (gathered_sound ((mem_strongestEdges hone).mp hlive)).1
  · intro live hlive
    exact (mem_every.mp hlive).1
  · exact nodup_strongestEdges answers hop perTopic s.positions
  · exact nodup_every hone hop s.positions
  · intro live outward hnear hpicks
    rw [mem_strongestEdges hone, mem_every]
    constructor
    · exact gathered_sound
    · intro hlive
      exact h live outward hlive.1 hnear hpicks

theorem missed_covered (hone : OnePerEdge edges) (hbound : 0 < perTopic) {neighbor : Neighbor}
    (hmissed : (arrivals hop s.frontier
      (strongestEdges answers hop s.positions perTopic).1).filter
        (fun arrival => arrival.topic = neighbor.topic) = [])
    (hneighbor : neighbor ∈ arrivals hop s.frontier (answers.every hop s.positions)) :
    exists cut, cut ∈ cutsMade answers hop perTopic s.positions ∧
      Covers (unreadAt hop s.frontier cut) neighbor := by
  rcases mem_arrivals.mp hneighbor with ⟨step, entry, hstep, hentry, hback, rfl⟩
  rcases mem_crossings.mp hentry with ⟨live, hlive, hof⟩
  rcases mem_entriesOf.mp hof with ⟨outward, hnear, rfl⟩
  have hout : live ∉ gathered answers hop perTopic s.positions := by
    intro hread
    have harrival : arrivalAt hop step (entryOf outward live) ∈
        (arrivals hop s.frontier (strongestEdges answers hop s.positions perTopic).1).filter
          fun arrival => arrival.topic = (arrivalAt hop step (entryOf outward live)).topic := by
      apply List.mem_filter.mpr
      refine ⟨mem_arrivals.mpr ⟨step, entryOf outward live, hstep, ?_, hback, rfl⟩,
        decide_eq_true rfl⟩
      exact mem_crossings.mpr ⟨live, (mem_strongestEdges hone).mpr hread, hof⟩
    rw [hmissed] at harrival
    cases harrival
  have hstanding : near outward live ∈ s.positions := by
    rw [hnear]
    exact mem_positions_of_step hstep
  rcases (ungathered hbound (mem_every.mp hlive).1 hstanding hout).2 with
    ⟨cut, hcut, hat, hafter⟩
  refine ⟨cut, hcut, rfl, hnear.symm.trans hat.symm, ?_, hafter⟩
  unfold unreadAt
  rw [List.mem_dedup, List.mem_insertionSort, List.mem_map]
  refine ⟨step, List.mem_filter.mpr ⟨hstep, decide_eq_true ?_⟩, rfl⟩
  exact hnear.symm.trans hat.symm

theorem lookup_bounded (hone : OnePerEdge edges) (hbound : 0 < perTopic)
    (hheld : forall topic neighbor, s.reached.lookup topic = some neighbor -> neighbor.hops < hop)
    (topic : TopicId) :
    let bounded := cross hop s.frontier (strongestEdges answers hop s.positions perTopic).1
      s.seen s.reached
    let full := crossEvery answers hop s
    bounded.reached.lookup topic = full.reached.lookup topic ∨
      (bounded.reached.lookup topic = none ∧
        forall neighbor, full.reached.lookup topic = some neighbor ->
          exists cut, cut ∈ cutsMade answers hop perTopic s.positions ∧
            Covers (unreadAt hop s.frontier cut) neighbor) := by
  intro bounded full
  have hlookup : forall rows : List Live,
      (cross hop s.frontier rows s.seen s.reached).reached.lookup topic =
        (firsts Neighbor.key s.seen ((arrivals hop s.frontier rows).filter fun arrival =>
          arrival.topic = topic)).foldl better (s.reached.lookup topic) := by
    intro rows
    rw [cross_eq, lookup_foldl_settle, taken_at]
  by_cases hmissed : (arrivals hop s.frontier
      (strongestEdges answers hop s.positions perTopic).1).filter
        (fun arrival => arrival.topic = topic) = []
  · have hbounded : bounded.reached.lookup topic = s.reached.lookup topic := by
      rw [hlookup, hmissed]
      rfl
    cases hbefore : s.reached.lookup topic with
    | some held =>
        left
        rw [hbounded, hbefore]
        symm
        rw [show full = cross hop s.frontier (answers.every hop s.positions) s.seen s.reached
          from rfl, hlookup, hbefore]
        apply foldl_better_held
        intro arrival harrival
        have hmet := List.mem_filter.mp (mem_of_mem_firsts harrival).1
        rcases mem_arrivals.mp hmet.1 with ⟨step, entry, _, _, _, rfl⟩
        have hless := hheld topic held hbefore
        exact Nat.ne_of_lt hless
    | none =>
        right
        refine ⟨hbounded.trans hbefore, ?_⟩
        intro neighbor hneighbor
        rw [show full = cross hop s.frontier (answers.every hop s.positions) s.seen s.reached
          from rfl, hlookup, hbefore] at hneighbor
        rcases foldl_better_mem hneighbor with hnone | hmem
        · cases hnone
        · have hmet := List.mem_filter.mp (mem_of_mem_firsts hmem).1
          have htopic : neighbor.topic = topic := of_decide_eq_true hmet.2
          subst htopic
          exact missed_covered hone hbound hmissed hmet.1
  · left
    rcases List.exists_mem_of_ne_nil _ hmissed with ⟨arrival, harrival⟩
    have hmet := List.mem_filter.mp harrival
    rcases mem_arrivals.mp hmet.1 with ⟨step, entry, hstep, hentry, _, rfl⟩
    rcases mem_crossings.mp hentry with ⟨live, hlive, hof⟩
    rcases mem_entriesOf.mp hof with ⟨outward, _, rfl⟩
    have hfar : far outward live = topic := of_decide_eq_true hmet.2
    have hread := (mem_strongestEdges hone).mp hlive
    have hsame : (arrivals hop s.frontier
        (strongestEdges answers hop s.positions perTopic).1).filter
          (fun arrival => arrival.topic = topic) =
        (arrivals hop s.frontier (answers.every hop s.positions)).filter
          fun arrival => arrival.topic = topic := by
      rw [arrivals_at, arrivals_at]
      apply List.flatMap_congr
      intro other hother
      rw [crossings_strongest hone fun entry => entry.1 = topic]
      intro near' side hnear' hat hpicks
      have hsameFar : far outward live = far side near' :=
        hfar.trans (of_decide_eq_true hpicks).symm
      have hstanding : near side near' ∈ s.positions := by
        rw [hat]
        exact mem_positions_of_step hother
      exact gathered_closed hbound hread hnear' hstanding hsameFar
    rw [show bounded = cross hop s.frontier
      (strongestEdges answers hop s.positions perTopic).1 s.seen s.reached from rfl,
      show full = cross hop s.frontier (answers.every hop s.positions) s.seen s.reached from rfl,
      hlookup, hlookup, hsame]

theorem cross_uncut (hone : OnePerEdge edges) (hbound : 0 < perTopic)
    (hnone : cutsMade answers hop perTopic s.positions = []) :
    cross hop s.frontier (strongestEdges answers hop s.positions perTopic).1 s.seen s.reached =
      crossEvery answers hop s := by
  have hsame : arrivals hop s.frontier (strongestEdges answers hop s.positions perTopic).1 =
      arrivals hop s.frontier (answers.every hop s.positions) := by
    unfold arrivals
    apply List.flatMap_congr
    intro step hstep
    have hread : forall live outward, live ∈ edges -> near outward live = step.topic ->
        true = true -> live ∈ gathered answers hop perTopic s.positions := by
      intro live outward hlive hnear _
      have hstanding : near outward live ∈ s.positions := by
        rw [hnear]
        exact mem_positions_of_step hstep
      exact gathered_all hbound hnone hlive hstanding
    have hall := crossings_strongest hone (fun _ => true) hread
    rw [List.filter_true, List.filter_true] at hall
    rw [hall]
  unfold crossEvery
  rw [cross_eq, cross_eq]
  unfold taken
  rw [hsame]

end Hop

/-!
## The two walks
-/

def Bounded (bounded full : State) : Prop :=
  forall topic, bounded.reached.lookup topic = full.reached.lookup topic ∨
    (bounded.reached.lookup topic = none ∧
      forall neighbor, full.reached.lookup topic = some neighbor ->
        exists unread, unread ∈ bounded.unread ∧ Covers unread neighbor)

section Walks

variable {edges : List Live} {answers : Answers edges} {options : Expansion}
  {seeds : List TopicId} {perTopic hops : Nat} {s : State}

theorem enough_of_bounded {bounded full : State} (h : Bounded bounded full)
    (henough : enough options.keep bounded.reached = true) :
    enough options.keep full.reached = true := by
  have hkeys : forall topic, topic ∈ bounded.reached.keys -> topic ∈ full.reached.keys := by
    intro topic hmem
    have hsome := AList.lookup_isSome.mpr (AList.mem_keys.mpr hmem)
    rcases h topic with hsame | ⟨hnone, _⟩
    · rw [hsame] at hsome
      exact AList.mem_keys.mp (AList.lookup_isSome.mp hsome)
    · rw [hnone] at hsome
      cases hsome
  have hlength : bounded.reached.keys.length <= full.reached.keys.length :=
    (List.subperm_of_subset bounded.reached.keys_nodup hkeys).length_le
  unfold enough at henough ⊢
  rcases (Option.any_eq_true _ _).mp henough with ⟨keep, hkeep, hle⟩
  rw [hkeep]
  exact decide_eq_true ((of_decide_eq_true hle).trans hlength)

def Beside (answers : Answers edges) (options : Expansion) (seeds : List TopicId)
    (perTopic hops : Nat) : Prop :=
  let bounded := after answers options (some perTopic) seeds hops
  let full := after answers options none seeds hops
  bounded = full ∨
    (Bounded bounded full ∧
      (hops = options.depth ∨ (bounded.stopped = true ∧ full.stopped = true)))

theorem beside_oneHop (hone : OnePerEdge edges) (hbound : 0 < perTopic) (hheld : Held hops s)
    (hgoing : s.stopped = false) :
    oneHop answers options (some perTopic) s (hops + 1) =
        oneHop answers options none s (hops + 1) ∨
      (Bounded (oneHop answers options (some perTopic) s (hops + 1))
          (oneHop answers options none s (hops + 1)) ∧
        (hops + 1 = options.depth ∨
          ((oneHop answers options (some perTopic) s (hops + 1)).stopped = true ∧
            (oneHop answers options none s (hops + 1)).stopped = true))) := by
  let crossed := cross (hops + 1) s.frontier
    (strongestEdges answers (hops + 1) s.positions perTopic).1 s.seen s.reached
  by_cases hnone : cutsMade answers (hops + 1) perTopic s.positions = []
  · left
    apply oneHop_of_crossed hgoing
    have hread : crossReading answers options (some perTopic) (hops + 1) s = (crossed, []) :=
      if_pos hnone
    rw [hread, show crossed = crossEvery answers (hops + 1) s from cross_uncut hone hbound hnone]
  · by_cases hstops : hops + 1 = options.depth ∨ enough options.keep crossed.reached = true
    · right
      have hread : crossReading answers options (some perTopic) (hops + 1) s =
          (crossed, (cutsMade answers (hops + 1) perTopic s.positions).map
            (unreadAt (hops + 1) s.frontier)) := (if_neg hnone).trans (if_pos hstops)
      have hbounded : Bounded (oneHop answers options (some perTopic) s (hops + 1))
          (oneHop answers options none s (hops + 1)) := by
        intro topic
        rw [reached_oneHop _ hgoing, reached_oneHop _ hgoing, unread_oneHop _ hgoing, hread]
        have hless : forall topic neighbor, s.reached.lookup topic = some neighbor ->
            neighbor.hops < hops + 1 := by
          intro topic neighbor hlookup
          exact Nat.lt_succ_of_le (hheld topic neighbor hlookup).2
        rcases lookup_bounded hone hbound hless topic with hsame | ⟨hmissed, hcovered⟩
        · exact Or.inl hsame
        · right
          refine ⟨hmissed, ?_⟩
          intro neighbor hneighbor
          rcases hcovered neighbor hneighbor with ⟨cut, hcut, hcovers⟩
          exact ⟨_, List.mem_append_right _ (List.mem_map.mpr ⟨cut, hcut, rfl⟩), hcovers⟩
      refine ⟨hbounded, ?_⟩
      rcases hstops with hdepth | henough
      · exact Or.inl hdepth
      · right
        have hboundedEnough : enough options.keep
            (oneHop answers options (some perTopic) s (hops + 1)).reached = true := by
          rw [reached_oneHop _ hgoing, hread]
          exact henough
        have hfullEnough := enough_of_bounded hbounded hboundedEnough
        rw [reached_oneHop _ hgoing] at hboundedEnough hfullEnough
        exact ⟨stopped_oneHop _ hgoing hboundedEnough, stopped_oneHop _ hgoing hfullEnough⟩
    · left
      exact oneHop_of_crossed hgoing ((if_neg hnone).trans (if_neg hstops))

theorem beside_after (hone : OnePerEdge edges) (hbound : 0 < perTopic) {hops : Nat}
    (hle : hops <= options.depth) : Beside answers options seeds perTopic hops := by
  induction hops with
  | zero => exact Or.inl rfl
  | succ n ih =>
      unfold Beside
      rw [after_succ, after_succ]
      rcases ih (by omega) with hsame | ⟨hbounded, hdepth | ⟨hstopped, hstopped'⟩⟩
      · rw [hsame]
        cases hgoing : (after answers options none seeds n).stopped with
        | true =>
            left
            unfold oneHop
            rw [hgoing]
            rfl
        | false => exact beside_oneHop hone hbound (held_after answers options none seeds n) hgoing
      · omega
      · have hstay : oneHop answers options (some perTopic)
            (after answers options (some perTopic) seeds n) (n + 1) =
              after answers options (some perTopic) seeds n := if_pos hstopped
        have hstay' : oneHop answers options none (after answers options none seeds n) (n + 1) =
            after answers options none seeds n := if_pos hstopped'
        rw [hstay, hstay']
        exact Or.inr ⟨hbounded, Or.inr ⟨hstopped, hstopped'⟩⟩

end Walks

def liveEdges (ledger : Ledger) : List Edge :=
  ledger.flatMap fun relationship =>
    (relationship.versions.filter RelationshipVersion.isLive).map fun _ => relationship.edge

/-- No edge has two live versions. -/
def OneLive (ledger : Ledger) : Prop :=
  (liveEdges ledger).Nodup

theorem onePerEdge_of_oneLive {ledger : Ledger} {options : Expansion} (h : OneLive ledger)
    (hmoment : options.moment = none) : OnePerEdge (edgesOf ledger options) := by
  have hcounts : counts options.moment = RelationshipVersion.isLive := by
    rw [hmoment]
    rfl
  have hedges : (edgesOf ledger options).map Live.edge =
      liveEdges (ledger.filter fun relationship => asked options.kinds relationship.edge.kind) := by
    unfold edgesOf liveEdges
    rw [hcounts, List.map_flatMap]
    congr 1
    funext relationship
    rw [List.map_map]
    rfl
  unfold OnePerEdge
  rw [hedges]
  exact List.Sublist.nodup (List.filter_sublist.flatMap _) h

theorem mem_walk {ledger : Ledger} {options : Expansion}
    {answers : Answers (edgesOf ledger options)} {seeds : List TopicId} {read : Option Nat}
    (hseeds : ¬ (seeds = [] ∨ options.depth = 0)) (hmoment : options.moment = none)
    (htopic : forall topic neighbor,
      (after answers options read seeds options.depth).reached.lookup topic = some neighbor ->
        neighbor.topic = topic) {neighbor : Neighbor} :
    neighbor ∈ (walk ledger options answers seeds read).neighbors <->
      (after answers options read seeds options.depth).reached.lookup neighbor.topic =
        some neighbor := by
  have hread : (read.filter fun _ => options.moment.isNone) = read := by
    rw [hmoment]
    cases read with
    | none => rfl
    | some perTopic => rfl
  unfold walk
  rw [if_neg hseeds, hread]
  exact mem_listed htopic

section Contract

variable {ledger : Ledger} {options : Expansion} {answers : Answers (edgesOf ledger options)}
  {seeds : List TopicId} {perTopic : Nat}

theorem bounded_of_oneLive (answers : Answers (edgesOf ledger options)) (seeds : List TopicId)
    (perTopic : Nat) (hone : OneLive ledger) (hmoment : options.moment = none) :
    Bounded (after answers options (some (max perTopic 1)) seeds options.depth)
      (after answers options none seeds options.depth) := by
  have hbeside : Beside answers options seeds (max perTopic 1) options.depth :=
    beside_after (onePerEdge_of_oneLive hone hmoment) (by omega) (Nat.le_refl _)
  rcases hbeside with heq | ⟨hbounded, _⟩
  · intro topic
    exact Or.inl (congrArg (fun s => s.reached.lookup topic) heq)
  · exact hbounded

theorem topic_of_reached {topic : TopicId} {neighbor : Neighbor}
    (h : (after answers options none seeds options.depth).reached.lookup topic = some neighbor) :
    neighbor.topic = topic :=
  (held_after answers options none seeds options.depth topic neighbor h).1

theorem topic_of_bounded (hone : OneLive ledger) (hmoment : options.moment = none)
    {topic : TopicId} {neighbor : Neighbor}
    (h : (after answers options (some (max perTopic 1)) seeds options.depth).reached.lookup topic =
      some neighbor) : neighbor.topic = topic := by
  rcases bounded_of_oneLive answers seeds perTopic hone hmoment topic with heq | ⟨hnone, _⟩
  · exact topic_of_reached (heq.symm.trans h)
  · rw [hnone] at h
    cases h

theorem reading_of_moment (h : (seeds = [] ∨ options.depth = 0) ∨ options.moment ≠ none) :
    (expandReading ledger options answers seeds perTopic).neighbors =
      expand ledger options answers seeds := by
  unfold expandReading expand walk
  rcases h with hseeds | hmoment
  · rw [if_pos hseeds, if_pos hseeds]
  · cases hsome : options.moment with
    | none => exact absurd hsome hmoment
    | some moment => rfl

theorem mem_expand_of_bounded (hone : OneLive ledger) {neighbor : Neighbor}
    (h : neighbor ∈ (expandReading ledger options answers seeds perTopic).neighbors) :
    neighbor ∈ expand ledger options answers seeds := by
  by_cases hread : (seeds = [] ∨ options.depth = 0) ∨ options.moment ≠ none
  · rwa [reading_of_moment hread] at h
  · rw [not_or, Classical.not_not] at hread
    rcases hread with ⟨hseeds, hmoment⟩
    have hlookup := (mem_walk hseeds hmoment fun topic neighbor hlookup =>
      topic_of_bounded hone hmoment hlookup).mp h
    apply (mem_walk hseeds hmoment fun topic neighbor hlookup => topic_of_reached hlookup).mpr
    rcases bounded_of_oneLive answers seeds perTopic hone hmoment neighbor.topic with
      heq | ⟨hnone, _⟩
    · exact heq.symm.trans hlookup
    · exact absurd (hnone.symm.trans hlookup) (by simp)

theorem covered_of_missing (hone : OneLive ledger) {neighbor : Neighbor}
    (h : neighbor ∈ expand ledger options answers seeds)
    (hmissing : neighbor.topic ∉
      (expandReading ledger options answers seeds perTopic).neighbors.map Neighbor.topic) :
    exists unread, unread ∈ (expandReading ledger options answers seeds perTopic).unread ∧
      Covers unread neighbor := by
  by_cases hread : (seeds = [] ∨ options.depth = 0) ∨ options.moment ≠ none
  · rw [reading_of_moment hread] at hmissing
    exact absurd (List.mem_map.mpr ⟨neighbor, h, rfl⟩) hmissing
  · rw [not_or, Classical.not_not] at hread
    rcases hread with ⟨hseeds, hmoment⟩
    have hlookup := (mem_walk hseeds hmoment fun topic neighbor hlookup =>
      topic_of_reached hlookup).mp h
    rcases bounded_of_oneLive answers seeds perTopic hone hmoment neighbor.topic with
      heq | ⟨_, hcovered⟩
    · have hpresent : neighbor ∈
          (expandReading ledger options answers seeds perTopic).neighbors :=
        (mem_walk hseeds hmoment fun topic neighbor hlookup =>
          topic_of_bounded hone hmoment hlookup).mpr (heq.trans hlookup)
      exact absurd (List.mem_map.mpr ⟨neighbor, hpresent, rfl⟩) hmissing
    · rcases hcovered neighbor hlookup with ⟨unread, hunread, hcovers⟩
      have hlisted : (expandReading ledger options answers seeds perTopic).unread =
          (after answers options (some (max perTopic 1)) seeds options.depth).unread := by
        unfold expandReading walk
        rw [if_neg hseeds, hmoment]
        rfl
      rw [hlisted]
      exact ⟨unread, hunread, hcovers⟩

end Contract

/-- Every neighbour of a bounded walk is one of the walk over every edge, and every topic that
walk returns and this one lacks is covered by an entry of the unread. -/
theorem bounded_walk_contract (ledger : Ledger) (hone : OneLive ledger) (options : Expansion)
    (answers : Answers (edgesOf ledger options)) (seeds : List TopicId) (perTopic : Nat) :
    (forall neighbor,
      neighbor ∈ (expandReading ledger options answers seeds perTopic).neighbors ->
        neighbor ∈ expand ledger options answers seeds) ∧
    forall neighbor, neighbor ∈ expand ledger options answers seeds ->
      neighbor.topic ∉
        (expandReading ledger options answers seeds perTopic).neighbors.map Neighbor.topic ->
      exists unread, unread ∈ (expandReading ledger options answers seeds perTopic).unread ∧
        Covers unread neighbor :=
  ⟨fun _ => mem_expand_of_bounded hone, fun _ => covered_of_missing hone⟩

theorem chain_oneLive : OneLive chainLedger := by
  unfold OneLive
  decide

theorem first_ne_near : (1 : TopicId) ≠ 10 := by decide

theorem second_ne_near : (2 : TopicId) ≠ 20 := by decide

def forkLedger : Ledger :=
  [{ id := 1
     edge := { fromTopic := 1, toTopic := 10, kind := EdgeKind.supports, distinct := first_ne_near }
     versions := [assertedVersion 1 Confidence.one] },
    { id := 2
      edge :=
        { fromTopic := 2, toTopic := 20, kind := EdgeKind.supports, distinct := second_ne_near }
      versions := [assertedVersion 2 Confidence.one] },
    { id := 3
      edge := { fromTopic := 2, toTopic := 21, kind := EdgeKind.supports, distinct := by decide }
      versions := [assertedVersion 3 Confidence.one] },
    { id := 4
      edge := { fromTopic := 2, toTopic := 22, kind := EdgeKind.supports, distinct := by decide }
      versions := [assertedVersion 4 Confidence.one] }]

def oneHopAway : Expansion :=
  { depth := 1, kinds := none, moment := none, keep := none }

theorem fork_oneLive : OneLive forkLedger := by
  unfold OneLive
  decide

def forkMiddle : Neighbor :=
  { topic := 21, origin := 2, hops := 1, via := 2, kind := EdgeKind.supports
    derivation := Derivation.explicit, confidence := Confidence.one, outbound := true }

theorem bounded_walk_contract_of_fork :
    let reading := expandReading forkLedger oneHopAway
      (Answers.stored (edgesOf forkLedger oneHopAway)) [2] 1
    (forall neighbor, neighbor ∈ reading.neighbors ->
      neighbor ∈ expand forkLedger oneHopAway
        (Answers.stored (edgesOf forkLedger oneHopAway)) [2]) ∧
      forkMiddle.topic ∉ reading.neighbors.map Neighbor.topic ∧
      exists unread, unread ∈ reading.unread ∧ Covers unread forkMiddle := by
  have hcontract := bounded_walk_contract forkLedger fork_oneLive oneHopAway
    (Answers.stored (edgesOf forkLedger oneHopAway)) [2] 1
  have hmissing : forkMiddle.topic ∉ (expandReading forkLedger oneHopAway
      (Answers.stored (edgesOf forkLedger oneHopAway)) [2] 1).neighbors.map Neighbor.topic := by
    decide
  exact ⟨hcontract.1, hmissing, hcontract.2 forkMiddle (by decide) hmissing⟩

end Walking
end PaminMemory
