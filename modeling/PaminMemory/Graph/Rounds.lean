import PaminMemory.Graph.Chain
import Mathlib.Data.List.Nodup

/-!
# The rounds of a call

A transaction writes in rounds.  A round holds one entry of an edge, so its
statements are its claims one after another.
-/

namespace PaminMemory
namespace Graph

/-!
## Rounds
-/

theorem mapM_eq_map {first second : Type} {f : first -> Option second} {g : first -> second}
    {entries : List first} (h : forall entry, entry ∈ entries -> f entry = some (g entry)) :
    entries.mapM f = some (entries.map g) := by
  induction entries with
  | nil => rfl
  | cons entry rest ih =>
      have hrest := ih fun other hmem => h other (List.mem_cons_of_mem _ hmem)
      simp [List.mapM_cons, h entry List.mem_cons_self, hrest]

def edgesOf (round : List Item) : List Edge := round.map fun item => item.1.edge

theorem find_created {round : List Asked} (ledger : Ledger)
    (hdistinct : (round.map Asked.edge).Nodup) :
    (forall edge, edge ∉ round.map Asked.edge ->
      (round.foldl createIdentity ledger).find edge = ledger.find edge) ∧
      forall asked, asked ∈ round ->
        (round.foldl createIdentity ledger).find asked.edge =
          some ((ledger.find asked.edge).getD (created asked)) := by
  induction round generalizing ledger with
  | nil => simp
  | cons first rest ih =>
      rw [List.map_cons, List.nodup_cons] at hdistinct
      have hrest := ih (createIdentity ledger first) hdistinct.2
      constructor
      · intro edge hedge
        rw [List.map_cons, List.mem_cons, not_or] at hedge
        rw [List.foldl_cons, hrest.1 edge hedge.2, find_createIdentity,
          if_neg fun h => hedge.1 h.symm]
      · intro asked hasked
        rw [List.foldl_cons]
        rcases List.mem_cons.mp hasked with rfl | hlater
        · rw [hrest.1 asked.edge hdistinct.1, find_createIdentity, if_pos rfl]
        · have hne : first.edge ≠ asked.edge := by
            intro hsame
            exact hdistinct.1 (hsame ▸ List.mem_map_of_mem hlater)
          rw [hrest.2 asked hlater, find_createIdentity, if_neg hne]

theorem answersOf_distinct (now : Instant) {round : List Item}
    (chains : Edge -> Option Relationship) (hdistinct : (edgesOf round).Nodup) :
    answersOf (round.map fun item => (now, item)) chains =
      round.map fun item => (item.2, (assertOne now item.1 (chains item.1.edge)).2) := by
  induction round generalizing chains with
  | nil => rfl
  | cons first rest ih =>
      rcases first with ⟨asked, place⟩
      rw [edgesOf, List.map_cons, List.nodup_cons] at hdistinct
      rw [List.map_cons, answersOf, ih _ hdistinct.2, List.map_cons]
      congr 1
      refine List.map_congr_left fun item hitem => ?_
      have hne : item.1.edge ≠ asked.edge := by
        intro hsame
        exact hdistinct.1 (List.mem_map.mpr ⟨item, hitem, hsame⟩)
      rw [Function.update_of_ne hne]

theorem leftBy_distinct (now : Instant) {round : List Item}
    (chains : Edge -> Option Relationship) (hdistinct : (edgesOf round).Nodup) :
    (forall edge, edge ∉ edgesOf round ->
      leftBy (round.map fun item => (now, item)) chains edge = chains edge) ∧
      forall item, item ∈ round ->
        leftBy (round.map fun item => (now, item)) chains item.1.edge =
          (assertOne now item.1 (chains item.1.edge)).1 := by
  induction round generalizing chains with
  | nil => simp [leftBy]
  | cons first rest ih =>
      rcases first with ⟨asked, place⟩
      rw [edgesOf, List.map_cons, List.nodup_cons] at hdistinct
      have hrest := ih (Function.update chains asked.edge
        (assertOne now asked (chains asked.edge)).1) hdistinct.2
      constructor
      · intro edge hedge
        rw [edgesOf, List.map_cons, List.mem_cons, not_or] at hedge
        rw [List.map_cons, leftBy, hrest.1 edge hedge.2, Function.update_of_ne hedge.1]
      · intro item hitem
        rw [List.map_cons, leftBy]
        rcases List.mem_cons.mp hitem with rfl | hlater
        · rw [hrest.1 asked.edge hdistinct.1, Function.update_self]
        · have hne : item.1.edge ≠ asked.edge := by
            intro hsame
            exact hdistinct.1 (List.mem_map.mpr ⟨item, hlater, hsame⟩)
          rw [hrest.2 item hlater, Function.update_of_ne hne]

theorem appendFrom_edge (now : Instant) (appending : List Decided)
    (relationship : Relationship) :
    (relationship.appendFrom now appending).edge = relationship.edge := by
  unfold Relationship.appendFrom
  split
  · rfl
  · rfl

theorem find_appendVersions (now : Instant) (appending : List Decided) (ledger : Ledger)
    (edge : Edge) :
    (appendVersions now appending ledger).find edge =
      (ledger.find edge).map (Relationship.appendFrom now appending) :=
  find_map (appendFrom_edge now appending) ledger edge

theorem find_filter_distinct {decisions : List Decided} (cond : Decided -> Bool)
    {decided : Decided} (hmem : decided ∈ decisions)
    (hdistinct : (decisions.map fun other => other.1.edge).Nodup) :
    (decisions.filter cond).find? (fun other => other.1.edge = decided.1.edge) =
      if cond decided then some decided else none := by
  induction decisions with
  | nil => simp at hmem
  | cons first rest ih =>
      rw [List.map_cons, List.nodup_cons] at hdistinct
      rcases List.mem_cons.mp hmem with rfl | hlater
      · have hnone : (rest.filter cond).find?
            (fun other => other.1.edge = decided.1.edge) = none := by
          rw [List.find?_eq_none]
          intro other hother hsame
          have hsame : other.1.edge = decided.1.edge := by simpa using hsame
          exact hdistinct.1 (List.mem_map.mpr ⟨other, (List.mem_filter.mp hother).1, hsame⟩)
        by_cases hcond : cond decided
        · simp [hcond]
        · simp [hcond, hnone]
      · have hne : ¬ first.1.edge = decided.1.edge := by
          intro hsame
          exact hdistinct.1 (List.mem_map.mpr ⟨decided, hlater, hsame.symm⟩)
        by_cases hcond : cond first
        · simp [hcond, hne, ih hlater hdistinct.2]
        · simp [hcond, ih hlater hdistinct.2]

def decisionsOf (chains : Edge -> Option Relationship) (round : List Asked) : List Decided :=
  round.map fun asked => (asked, ((chains asked.edge).getD (created asked)).live)

theorem readLive_eq {chains : Edge -> Option Relationship} {round : List Asked}
    {locked : Ledger}
    (hlocked : forall asked, asked ∈ round ->
      locked.find asked.edge = some ((chains asked.edge).getD (created asked))) :
    readLive round locked = some (decisionsOf chains round) := by
  apply mapM_eq_map
  intro asked hmem
  rw [hlocked asked hmem]
  rfl

theorem alreadySaid_live (asked : Asked) (relationship : Relationship) :
    alreadySaid (asked, relationship.live) = relationship.standing asked.claim := rfl

theorem writeDecided_eq (now : Instant) {round : List Asked}
    {chains : Edge -> Option Relationship} {locked : Ledger}
    (hdistinct : (round.map Asked.edge).Nodup)
    (hlocked : forall asked, asked ∈ round ->
      locked.find asked.edge = some ((chains asked.edge).getD (created asked))) :
    exists final,
      writeDecided now (decisionsOf chains round) locked =
          some (final, round.map fun asked =>
            (assertOne now asked (chains asked.edge)).2) ∧
        (forall asked, asked ∈ round ->
          final.find asked.edge = (assertOne now asked (chains asked.edge)).1) ∧
          forall edge, edge ∉ round.map Asked.edge -> final.find edge = locked.find edge := by
  have hanswers : (decisionsOf chains round).mapM (answerDecided now locked) =
      some (round.map fun asked => (assertOne now asked (chains asked.edge)).2) := by
    unfold decisionsOf
    rw [List.mapM_map]
    apply mapM_eq_map
    intro asked hasked
    show answerDecided now locked (asked, ((chains asked.edge).getD (created asked)).live) =
      some (assertOne now asked (chains asked.edge)).2
    unfold answerDecided assertOne Relationship.assertClaim
    rw [alreadySaid_live, hlocked asked hasked]
    cases ((chains asked.edge).getD (created asked)).standing asked.claim with
    | none => rfl
    | some version => rfl
  have hedges : ((decisionsOf chains round).map fun other => other.1.edge).Nodup := by
    unfold decisionsOf
    rw [List.map_map]
    exact hdistinct
  refine ⟨appendVersions now
    ((decisionsOf chains round).filter fun d => (alreadySaid d).isNone) locked, ?_, ?_, ?_⟩
  · unfold writeDecided
    rw [hanswers]
  · intro asked hasked
    have hedge := edge_of_find (hlocked asked hasked)
    have hmem : (asked, ((chains asked.edge).getD (created asked)).live) ∈
        decisionsOf chains round := List.mem_map_of_mem hasked
    have hfound := find_filter_distinct (fun d => (alreadySaid d).isNone) hmem hedges
    rw [find_appendVersions, hlocked asked hasked, Option.map_some, Relationship.appendFrom,
      hedge, hfound, alreadySaid_live]
    unfold assertOne Relationship.assertClaim
    cases ((chains asked.edge).getD (created asked)).standing asked.claim with
    | none => rfl
    | some version => rfl
  · intro edge hedge
    rw [find_appendVersions]
    cases hfind : locked.find edge with
    | none => rfl
    | some relationship =>
        have hnone : ((decisionsOf chains round).filter fun d => (alreadySaid d).isNone).find?
            (fun decided => decided.1.edge = relationship.edge) = none := by
          rw [List.find?_eq_none, edge_of_find hfind]
          intro decided hdecided hsame
          rcases List.mem_map.mp (List.mem_filter.mp hdecided).1 with ⟨asked, hasked, rfl⟩
          exact hedge (List.mem_map.mpr ⟨asked, hasked, by simpa using hsame⟩)
        rw [Option.map_some, Relationship.appendFrom, hnone]

theorem assertWithin_eq (now : Instant) {round : List Item} (ledger : Ledger)
    (hdistinct : (edgesOf round).Nodup) :
    exists final answers,
      assertWithin now (round.map Prod.fst) ledger = some (final, answers) ∧
        (round.map Prod.snd).zip answers =
            answersOf (round.map fun item => (now, item)) ledger.find ∧
          forall edge, final.find edge =
            leftBy (round.map fun item => (now, item)) ledger.find edge := by
  have hasked : ((round.map Prod.fst).map Asked.edge).Nodup := by
    rw [List.map_map]
    exact hdistinct
  rcases find_created ledger hasked with ⟨hother, hheld⟩
  rcases writeDecided_eq now hasked hheld with ⟨final, hwrite, hwritten, hkept⟩
  have hread := readLive_eq hheld
  refine ⟨final, (round.map Prod.fst).map fun asked =>
    (assertOne now asked (ledger.find asked.edge)).2, ?_, ?_, ?_⟩
  · unfold assertWithin
    simp only [hread]
    exact hwrite
  · rw [answersOf_distinct now ledger.find hdistinct, List.map_map, List.zip_map']
    rfl
  · intro edge
    by_cases hmem : edge ∈ edgesOf round
    · rcases List.mem_map.mp hmem with ⟨item, hitem, rfl⟩
      rw [(leftBy_distinct now ledger.find hdistinct).2 item hitem,
        hwritten item.1 (List.mem_map_of_mem hitem)]
    · have houtside : edge ∉ (round.map Prod.fst).map Asked.edge := by
        rw [List.map_map]
        exact hmem
      rw [(leftBy_distinct now ledger.find hdistinct).1 edge hmem, hkept edge houtside,
        hother edge houtside]

/-!
## Entries in rounds

A round holds one entry of an edge, and taking the rounds in order takes the
entries of an edge in their order.
-/

def itemsOf (edge : Edge) (items : List Item) : List Item :=
  items.filter fun item => item.1.edge = edge

theorem itemsOf_eq_nil {edge : Edge} {items : List Item} (h : edge ∉ edgesOf items) :
    itemsOf edge items = [] := by
  rw [itemsOf, List.filter_eq_nil_iff]
  intro item hitem hedge
  exact h (List.mem_map.mpr ⟨item, hitem, by simpa using hedge⟩)

theorem itemsOf_append (edge : Edge) (first second : List Item) :
    itemsOf edge (first ++ second) = itemsOf edge first ++ itemsOf edge second :=
  List.filter_append ..

structure Placed (processed : List Item) (rounds : List (List Item)) (seen : Edge -> Nat) :
    Prop where
  distinct : forall round, round ∈ rounds -> (edgesOf round).Nodup
  within : forall edge, seen edge <= rounds.length
  later : forall edge place round, rounds[place]? = some round -> seen edge <= place ->
    edge ∉ edgesOf round
  inOrder : forall edge, itemsOf edge rounds.flatten = itemsOf edge processed

theorem placed_open {processed : List Item} {rounds : List (List Item)} {seen : Edge -> Nat}
    (h : Placed processed rounds seen) : Placed processed (rounds ++ [[]]) seen where
  distinct := by
    intro round hround
    rcases List.mem_append.mp hround with hold | hnew
    · exact h.distinct round hold
    · rw [List.mem_singleton.mp hnew]
      exact List.nodup_nil
  within := by
    intro edge
    have hwithin := h.within edge
    simp only [List.length_append, List.length_singleton]
    exact Nat.le_succ_of_le hwithin
  later := by
    intro edge place round hround hseen
    by_cases hplace : place < rounds.length
    · rw [List.getElem?_append_left hplace] at hround
      exact h.later edge place round hround hseen
    · rw [List.getElem?_append_right (Nat.le_of_not_lt hplace)] at hround
      have hempty : round = [] := by
        rcases List.mem_singleton.mp (List.mem_of_getElem? hround) with rfl
        rfl
      simp [hempty, edgesOf]
  inOrder := by
    intro edge
    simpa using h.inOrder edge

theorem placed_modify {processed : List Item} {rounds : List (List Item)} {seen : Edge -> Nat}
    (h : Placed processed rounds seen) (item : Item)
    (hroom : seen item.1.edge < rounds.length) :
    Placed (processed ++ [item])
      (rounds.modify (seen item.1.edge) fun round => round ++ [item])
      (Function.update seen item.1.edge (seen item.1.edge + 1)) := by
  rcases List.exists_of_modify (fun round => round ++ [item]) hroom with
    ⟨before, chosen, after, hrounds, hlength, hmodify⟩
  have hchosen : rounds[seen item.1.edge]? = some chosen := by
    rw [hrounds, ← hlength]
    simp
  have hfree : item.1.edge ∉ edgesOf chosen :=
    h.later item.1.edge _ chosen hchosen (Nat.le_refl _)
  constructor
  case distinct =>
    intro round hround
    rw [hmodify] at hround
    rcases List.mem_append.mp hround with hold | hnew
    · exact h.distinct round (by rw [hrounds]; simp [hold])
    · rcases List.mem_cons.mp hnew with rfl | hold
      · have hkept := h.distinct chosen (by rw [hrounds]; simp)
        rw [edgesOf, List.map_append, List.map_singleton, ← List.concat_eq_append]
        exact List.Nodup.concat hfree hkept
      · exact h.distinct round (by rw [hrounds]; simp [hold])
  case within =>
    intro edge
    rw [List.length_modify]
    by_cases hedge : edge = item.1.edge
    · rw [hedge, Function.update_self]
      exact hroom
    · rw [Function.update_of_ne hedge]
      exact h.within edge
  case later =>
    intro edge place round hround hseen
    rw [List.getElem?_modify] at hround
    rcases hold : rounds[place]? with _ | old
    · rw [hold] at hround
      simp at hround
    · rw [hold] at hround
      by_cases hedge : edge = item.1.edge
      · rw [hedge, Function.update_self] at hseen
        have hne : seen item.1.edge ≠ place := Nat.ne_of_lt hseen
        have hsame : old = round := by simpa [hne] using hround
        rw [← hsame, hedge]
        exact h.later item.1.edge place old hold (Nat.le_of_lt hseen)
      · rw [Function.update_of_ne hedge] at hseen
        have hkept := h.later edge place old hold hseen
        by_cases hplace : seen item.1.edge = place
        · have hsame : old ++ [item] = round := by simpa [hplace] using hround
          rw [← hsame, edgesOf, List.map_append, List.mem_append, not_or]
          exact ⟨hkept, by simpa using hedge⟩
        · have hsame : old = round := by simpa [hplace] using hround
          rw [← hsame]
          exact hkept
  case inOrder =>
    intro edge
    have hkept := h.inOrder edge
    simp only [hrounds, List.flatten_append, List.flatten_cons, itemsOf_append] at hkept
    simp only [hmodify, List.flatten_append, List.flatten_cons, itemsOf_append]
    rw [← hkept]
    by_cases hedge : edge = item.1.edge
    · have hchosenNone : itemsOf edge chosen = [] := itemsOf_eq_nil (hedge ▸ hfree)
      have hafterNone : itemsOf edge after.flatten = [] := by
        refine itemsOf_eq_nil ?_
        intro hmem
        rcases List.mem_map.mp hmem with ⟨other, hother, hsame⟩
        rcases List.mem_flatten.mp hother with ⟨round, hround, hin⟩
        rcases List.mem_iff_getElem?.mp hround with ⟨place, hplace⟩
        have hat : rounds[before.length + (place + 1)]? = some round := by
          rw [hrounds]
          simp [List.getElem?_append_right, hplace]
        refine h.later edge _ round hat ?_ (List.mem_map.mpr ⟨other, hin, hsame⟩)
        rw [hedge, ← hlength]
        exact Nat.le_add_right _ _
      simp [hchosenNone, hafterNone]
    · have hnone : itemsOf edge [item] = [] := by
        refine itemsOf_eq_nil ?_
        simpa [edgesOf] using hedge
      simp [hnone]

theorem placed_place {processed : List Item} {state : List (List Item) × (Edge -> Nat)}
    (h : Placed processed state.1 state.2) (item : Item) :
    Placed (processed ++ [item]) (place state item).1 (place state item).2 := by
  rcases state with ⟨rounds, seen⟩
  unfold place
  by_cases hfull : rounds.length = seen item.1.edge
  · simp only [hfull, if_true]
    refine placed_modify (placed_open h) item ?_
    simp [hfull]
  · simp only [hfull, if_false]
    refine placed_modify h item ?_
    exact Nat.lt_of_le_of_ne (h.within item.1.edge) fun hsame => hfull hsame.symm

theorem placed_foldl (items processed : List Item) (state : List (List Item) × (Edge -> Nat))
    (h : Placed processed state.1 state.2) :
    Placed (processed ++ items) (items.foldl place state).1 (items.foldl place state).2 := by
  induction items generalizing processed state with
  | nil => simpa using h
  | cons item rest ih =>
      have hrest := ih (processed ++ [item]) (place state item) (placed_place h item)
      simpa using hrest

theorem repeatsApart_placed (pending : List Item) :
    (forall round, round ∈ repeatsApart pending -> (edgesOf round).Nodup) ∧
      forall edge, itemsOf edge (repeatsApart pending).flatten = itemsOf edge pending := by
  have hstart : Placed [] [] fun _ => 0 :=
    { distinct := by simp
      within := by simp
      later := by simp
      inOrder := by simp }
  have h := placed_foldl pending [] ([], fun _ => 0) hstart
  exact ⟨h.distinct, h.inOrder⟩

theorem assertRounds_eq (clock : Nat -> Instant) (n : Nat) (rounds : List (List Item))
    (ledger : Ledger) (hdistinct : forall round, round ∈ rounds -> (edgesOf round).Nodup) :
    exists final timed,
      assertRounds clock n rounds ledger = some (final, answersOf timed ledger.find) ∧
        timed.map Prod.snd = rounds.flatten ∧
          forall edge, final.find edge = leftBy timed ledger.find edge := by
  induction rounds generalizing n ledger with
  | nil => exact ⟨ledger, [], rfl, rfl, fun _ => rfl⟩
  | cons round rest ih =>
      rcases assertWithin_eq (clock n) ledger (hdistinct round List.mem_cons_self) with
        ⟨written, answers, hwithin, hanswers, hwritten⟩
      rcases ih (n + 1) written (fun other hmem => hdistinct other (List.mem_cons_of_mem _ hmem))
        with ⟨final, timed, hrest, hitems, hfinal⟩
      have hfind : written.find =
          leftBy (round.map fun item => (clock n, item)) ledger.find := funext hwritten
      refine ⟨final, (round.map fun item => (clock n, item)) ++ timed, ?_, ?_, ?_⟩
      · rw [assertRounds, hwithin]
        simp only [hrest, hanswers, answersOf_append, hfind]
      · simp [hitems, Function.comp_def]
      · intro edge
        rw [hfinal, leftBy_append, hfind]

end Graph
end PaminMemory
