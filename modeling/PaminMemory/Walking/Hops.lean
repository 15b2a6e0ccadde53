import PaminMemory.Walking.Walk

/-!
# What a hop meets

A hop meets arrivals in the order of the frontier and, at each topic, of its crossings.
It takes the first arrival of every walk at a topic, and holds the best of those a topic has.
-/

namespace PaminMemory
namespace Walking

open Foundation PaminMemory.Graph

abbrev Reached := AList fun _ : TopicId => Neighbor

def Neighbor.key (neighbor : Neighbor) : TopicId × TopicId :=
  (neighbor.topic, neighbor.origin)

def Neighbor.position (neighbor : Neighbor) : Step × Confidence :=
  ({ topic := neighbor.topic, origin := neighbor.origin, via := neighbor.via },
    neighbor.confidence)

def back (hop : Nat) (step : Step) (entry : Entry) : Bool :=
  1 < hop && (entry.1 = step.origin || entry.1 = step.via)

def arrivals (hop : Nat) (frontier : List Step) (edges : List Live) : List Neighbor :=
  frontier.flatMap fun step =>
    ((crossings edges step.topic).filter fun entry => !back hop step entry).map
      (arrivalAt hop step)

def taken (hop : Nat) (frontier : List Step) (edges : List Live)
    (seen : Finset (TopicId × TopicId)) : List Neighbor :=
  firsts Neighbor.key seen (arrivals hop frontier edges)

def meet (progress : Progress) (arrival : Neighbor) : Progress :=
  if arrival.key ∈ progress.seen then
    progress
  else
    { seen := insert arrival.key progress.seen
      reached := settle progress.reached arrival
      next := progress.next ++ [arrival.position] }

theorem foldl_meet (progress : Progress) (met : List Neighbor) :
    met.foldl meet progress =
      { seen := metAfter Neighbor.key progress.seen met
        reached := (firsts Neighbor.key progress.seen met).foldl settle progress.reached
        next := progress.next ++
          (firsts Neighbor.key progress.seen met).map Neighbor.position } := by
  induction met generalizing progress with
  | nil => simp [firsts, metAfter]
  | cons arrival rest ih =>
      rw [List.foldl_cons, ih]
      by_cases hseen : arrival.key ∈ progress.seen
      · have hmeet : meet progress arrival = progress := if_pos hseen
        have hmet : insert arrival.key progress.seen = progress.seen :=
          Finset.insert_eq_of_mem hseen
        rw [hmeet, firsts_cons_met hseen]
        unfold metAfter
        rw [List.foldl_cons, hmet]
      · have hmeet : meet progress arrival =
            { seen := insert arrival.key progress.seen
              reached := settle progress.reached arrival
              next := progress.next ++ [arrival.position] } := if_neg hseen
        rw [hmeet, firsts_cons_new hseen]
        simp [metAfter]

theorem cross_eq (hop : Nat) (frontier : List Step) (edges : List Live)
    (seen : Finset (TopicId × TopicId)) (reached : Reached) :
    cross hop frontier edges seen reached =
      { seen := metAfter Neighbor.key seen (arrivals hop frontier edges)
        reached := (taken hop frontier edges seen).foldl settle reached
        next := (taken hop frontier edges seen).map Neighbor.position } := by
  have hloop : cross hop frontier edges seen reached =
      (arrivals hop frontier edges).foldl meet { seen := seen, reached := reached, next := [] } := by
    unfold cross arrivals
    rw [List.foldl_flatMap]
    congr 1
    funext progress step
    rw [List.foldl_map, List.foldl_filter]
    congr 1
    funext progress entry
    have hback : (1 < hop ∧ (entry.1 = step.origin ∨ entry.1 = step.via)) =
        (back hop step entry = true) := by
      simp [back]
    simp only [hback]
    cases back hop step entry with
    | true => rfl
    | false => rfl
  rw [hloop, foldl_meet]
  rfl

/-!
## What is held of a topic
-/

def better (held : Option Neighbor) (arrival : Neighbor) : Option Neighbor :=
  match held with
  | none => some arrival
  | some held =>
      if held.hops = arrival.hops ∧ strength held.confidence < strength arrival.confidence then
        some arrival
      else
        some held

theorem lookup_settle (reached : Reached) (arrival : Neighbor) (topic : TopicId) :
    (settle reached arrival).lookup topic =
      if arrival.topic = topic then better (reached.lookup topic) arrival
      else reached.lookup topic := by
  by_cases htopic : arrival.topic = topic
  · subst htopic
    rw [if_pos rfl]
    unfold settle better
    cases hheld : reached.lookup arrival.topic with
    | none => exact AList.lookup_insert reached
    | some held =>
        simp only
        split
        · exact AList.lookup_insert reached
        · exact hheld
  · rw [if_neg htopic]
    have hother : topic ≠ arrival.topic := fun hsame => htopic hsame.symm
    unfold settle
    cases reached.lookup arrival.topic with
    | none => exact AList.lookup_insert_ne hother
    | some held =>
        simp only
        split
        · exact AList.lookup_insert_ne hother
        · rfl

theorem lookup_foldl_settle (reached : Reached) (met : List Neighbor) (topic : TopicId) :
    (met.foldl settle reached).lookup topic =
      (met.filter fun arrival => arrival.topic = topic).foldl better (reached.lookup topic) := by
  induction met generalizing reached with
  | nil => rfl
  | cons arrival rest ih =>
      rw [List.foldl_cons, ih, lookup_settle]
      by_cases htopic : arrival.topic = topic
      · rw [if_pos htopic, List.filter_cons, if_pos (decide_eq_true htopic), List.foldl_cons]
      · rw [if_neg htopic, List.filter_cons, if_neg (by simpa using htopic)]

theorem foldl_better_held {held : Neighbor} {met : List Neighbor}
    (h : forall arrival, arrival ∈ met -> held.hops ≠ arrival.hops) :
    met.foldl better (some held) = some held := by
  induction met with
  | nil => rfl
  | cons arrival rest ih =>
      have hsame : better (some held) arrival = some held :=
        if_neg fun hbetter => h arrival List.mem_cons_self hbetter.1
      rw [List.foldl_cons, hsame]
      exact ih fun other hother => h other (List.mem_cons_of_mem _ hother)

theorem foldl_better_mem {held : Option Neighbor} {met : List Neighbor} {best : Neighbor}
    (h : met.foldl better held = some best) : held = some best ∨ best ∈ met := by
  induction met generalizing held with
  | nil => exact Or.inl h
  | cons arrival rest ih =>
      rw [List.foldl_cons] at h
      rcases ih h with hbetter | hrest
      · cases held with
        | none =>
            cases hbetter
            exact Or.inr List.mem_cons_self
        | some held =>
            unfold better at hbetter
            simp only at hbetter
            split at hbetter
            · cases hbetter
              exact Or.inr List.mem_cons_self
            · exact Or.inl hbetter
      · exact Or.inr (List.mem_cons_of_mem _ hrest)

theorem foldl_better_none {held : Option Neighbor} {met : List Neighbor}
    (h : met.foldl better held = none) : held = none ∧ met = [] := by
  induction met generalizing held with
  | nil => exact ⟨h, rfl⟩
  | cons arrival rest ih =>
      have hnone := (ih h).1
      cases held with
      | none => cases hnone
      | some held =>
          unfold better at hnone
          simp only at hnone
          split at hnone <;> cases hnone

/-!
## Where the arrivals come from
-/

theorem mem_crossings {edges : List Live} {standing : TopicId} {entry : Entry} :
    entry ∈ crossings edges standing <->
      exists live, live ∈ edges ∧ entry ∈ entriesOf standing live := by
  unfold crossings
  rw [List.mem_insertionSort, List.mem_flatMap]

def entryOf (outward : Bool) (live : Live) : Entry :=
  (far outward live, { kind := live.edge.kind, derivation := live.derivation
                       confidence := live.confidence, outbound := outward })

theorem mem_entriesOf {standing : TopicId} {live : Live} {entry : Entry} :
    entry ∈ entriesOf standing live <->
      exists outward, near outward live = standing ∧ entry = entryOf outward live := by
  unfold entriesOf
  rw [List.mem_append]
  constructor
  · intro h
    rcases h with h | h
    · split at h
      · next hfrom => exact ⟨true, hfrom, List.mem_singleton.mp h⟩
      · cases h
    · split at h
      · next hto => exact ⟨false, hto, List.mem_singleton.mp h⟩
      · cases h
  · intro h
    rcases h with ⟨outward, hnear, rfl⟩
    cases outward with
    | true =>
        have hfrom : live.edge.fromTopic = standing := hnear
        left
        rw [if_pos hfrom]
        exact List.mem_singleton.mpr rfl
    | false =>
        have hto : live.edge.toTopic = standing := hnear
        right
        rw [if_pos hto]
        exact List.mem_singleton.mpr rfl

theorem mem_arrivals {hop : Nat} {frontier : List Step} {edges : List Live}
    {arrival : Neighbor} :
    arrival ∈ arrivals hop frontier edges <->
      exists step entry, step ∈ frontier ∧ entry ∈ crossings edges step.topic ∧
        back hop step entry = false ∧ arrival = arrivalAt hop step entry := by
  unfold arrivals
  simp only [List.mem_flatMap, List.mem_map, List.mem_filter, Bool.not_eq_true']
  constructor
  · intro h
    rcases h with ⟨step, hstep, entry, ⟨hentry, hback⟩, rfl⟩
    exact ⟨step, entry, hstep, hentry, hback, rfl⟩
  · intro h
    rcases h with ⟨step, entry, hstep, hentry, hback, rfl⟩
    exact ⟨step, hstep, entry, ⟨hentry, hback⟩, rfl⟩

theorem mem_positions {s : State} {topic : TopicId} :
    topic ∈ s.positions <-> exists step, step ∈ s.frontier ∧ step.topic = topic := by
  unfold State.positions
  rw [List.mem_dedup, List.mem_insertionSort, List.mem_map]

theorem mem_touching {positions : List TopicId} {live : Live} :
    touching positions live = true <->
      exists outward, near outward live ∈ positions := by
  unfold touching near
  simp [or_comm]

theorem mem_crossings_every {edges : List Live} (answers : Answers edges) {hop : Nat}
    {s : State} {step : Step} {entry : Entry} (hstep : step ∈ s.frontier) :
    entry ∈ crossings (answers.every hop s.positions) step.topic <->
      entry ∈ crossings edges step.topic := by
  rw [mem_crossings, mem_crossings]
  constructor
  · intro h
    rcases h with ⟨live, hlive, hentry⟩
    exact ⟨live, (List.mem_filter.mp ((answers.everyPerm _ _).mem_iff.mp hlive)).1, hentry⟩
  · intro h
    rcases h with ⟨live, hlive, hentry⟩
    rcases mem_entriesOf.mp hentry with ⟨outward, hnear, _⟩
    refine ⟨live, ?_, hentry⟩
    rw [(answers.everyPerm _ _).mem_iff, List.mem_filter]
    refine ⟨hlive, mem_touching.mpr ⟨outward, ?_⟩⟩
    exact mem_positions.mpr ⟨step, hstep, hnear.symm⟩

theorem arrivals_at (hop : Nat) (frontier : List Step) (rows : List Live) (topic : TopicId) :
    (arrivals hop frontier rows).filter (fun arrival => arrival.topic = topic) =
      frontier.flatMap fun step =>
        (((crossings rows step.topic).filter fun entry => entry.1 = topic).filter
          fun entry => !back hop step entry).map (arrivalAt hop step) := by
  unfold arrivals
  rw [List.filter_flatMap]
  congr 1
  funext step
  rw [List.filter_map, List.filter_filter, List.filter_filter]
  congr 1
  apply List.filter_congr
  intro entry _
  exact Bool.and_comm _ _

theorem taken_at (hop : Nat) (frontier : List Step) (rows : List Live)
    (seen : Finset (TopicId × TopicId)) (topic : TopicId) :
    (taken hop frontier rows seen).filter (fun arrival => arrival.topic = topic) =
      firsts Neighbor.key seen
        ((arrivals hop frontier rows).filter fun arrival => arrival.topic = topic) := by
  apply filter_firsts
  intro left right hkey
  have htopic : left.topic = right.topic := congrArg Prod.fst hkey
  rw [htopic]

/-!
## The state a hop ends in
-/

section Hop

variable {edges : List Live} {answers : Answers edges} {options : Expansion}
  {seeds : List TopicId} {hops : Nat} {s : State}

def takenNext (answers : Answers edges) (hops : Nat) (s : State) : List Neighbor :=
  taken (hops + 1) s.frontier (answers.every (hops + 1) s.positions) s.seen

theorem crossEvery_eq (answers : Answers edges) (hops : Nat) (s : State) :
    crossEvery answers (hops + 1) s =
      { seen := metAfter Neighbor.key s.seen
          (arrivals (hops + 1) s.frontier (answers.every (hops + 1) s.positions))
        reached := (takenNext answers hops s).foldl settle s.reached
        next := (takenNext answers hops s).map Neighbor.position } :=
  cross_eq _ _ _ _ _

theorem takenNext_hops {arrival : Neighbor} (h : arrival ∈ takenNext answers hops s) :
    arrival.hops = hops + 1 := by
  rcases mem_arrivals.mp (mem_of_mem_firsts h).1 with ⟨step, entry, _, _, _, rfl⟩
  rfl

theorem takenNext_via {arrival : Neighbor} (h : arrival ∈ takenNext answers hops s) :
    exists step, step ∈ s.frontier ∧ step.topic = arrival.via ∧ step.origin = arrival.origin := by
  rcases mem_arrivals.mp (mem_of_mem_firsts h).1 with ⟨step, entry, hstep, _, _, rfl⟩
  exact ⟨step, hstep, rfl, rfl⟩

theorem oneHop_of_crossed {read : Option Nat} (hgoing : s.stopped = false)
    (h : crossReading answers options read (hops + 1) s =
      (crossEvery answers (hops + 1) s, [])) :
    oneHop answers options read s (hops + 1) = oneHop answers options none s (hops + 1) := by
  unfold oneHop
  rw [hgoing, h]
  rfl

theorem reached_oneHop (read : Option Nat) (hgoing : s.stopped = false) :
    (oneHop answers options read s (hops + 1)).reached =
      (crossReading answers options read (hops + 1) s).1.reached := by
  unfold oneHop
  rw [hgoing]
  simp only [Bool.false_eq_true, if_false]
  split <;> rfl

theorem unread_oneHop (read : Option Nat) (hgoing : s.stopped = false) :
    (oneHop answers options read s (hops + 1)).unread =
      s.unread ++ (crossReading answers options read (hops + 1) s).2 := by
  unfold oneHop
  rw [hgoing]
  simp only [Bool.false_eq_true, if_false]
  split <;> rfl

theorem stopped_oneHop (read : Option Nat) (hgoing : s.stopped = false)
    (henough : enough options.keep (crossReading answers options read (hops + 1) s).1.reached =
      true) : (oneHop answers options read s (hops + 1)).stopped = true := by
  unfold oneHop
  rw [hgoing]
  simp only [Bool.false_eq_true, if_false]
  split
  · rfl
  · exact henough

theorem oneHop_every (hgoing : s.stopped = false) :
    oneHop answers options none s (hops + 1) =
      if (crossEvery answers (hops + 1) s).next = [] then
        { s with
          seen := (crossEvery answers (hops + 1) s).seen
          reached := (crossEvery answers (hops + 1) s).reached
          unread := s.unread ++ []
          stopped := true }
      else
        { frontier := nextFrontier (crossEvery answers (hops + 1) s).next
          seen := (crossEvery answers (hops + 1) s).seen
          reached := (crossEvery answers (hops + 1) s).reached
          unread := s.unread ++ []
          stopped := enough options.keep (crossEvery answers (hops + 1) s).reached } := by
  unfold oneHop
  rw [hgoing]
  rfl

def Held (hops : Nat) (s : State) : Prop :=
  forall topic neighbor, s.reached.lookup topic = some neighbor ->
    neighbor.topic = topic ∧ neighbor.hops <= hops

theorem held_cross {hop : Nat} {frontier : List Step} {rows : List Live}
    {seen : Finset (TopicId × TopicId)} {reached : Reached}
    (h : forall topic neighbor, reached.lookup topic = some neighbor -> neighbor.hops < hop)
    (topic : TopicId) :
    ((cross hop frontier rows seen reached).reached.lookup topic = reached.lookup topic) ∨
      (reached.lookup topic = none ∧
        exists neighbor, neighbor ∈ taken hop frontier rows seen ∧ neighbor.topic = topic ∧
          (cross hop frontier rows seen reached).reached.lookup topic = some neighbor) := by
  rw [cross_eq]
  simp only
  rw [lookup_foldl_settle]
  cases hbefore : reached.lookup topic with
  | some held =>
      left
      apply foldl_better_held
      intro arrival harrival
      rcases mem_arrivals.mp (mem_of_mem_firsts (List.mem_filter.mp harrival).1).1 with
        ⟨step, entry, _, _, _, rfl⟩
      exact Nat.ne_of_lt (h topic held hbefore)
  | none =>
      cases hafter : ((taken hop frontier rows seen).filter fun arrival =>
          arrival.topic = topic).foldl better none with
      | none => exact Or.inl rfl
      | some neighbor =>
          right
          rcases foldl_better_mem hafter with hnone | hmem
          · cases hnone
          · exact ⟨rfl, neighbor, (List.mem_filter.mp hmem).1,
              of_decide_eq_true (List.mem_filter.mp hmem).2, rfl⟩

theorem hops_of_taken {hop : Nat} {frontier : List Step} {rows : List Live}
    {seen : Finset (TopicId × TopicId)} {neighbor : Neighbor}
    (h : neighbor ∈ taken hop frontier rows seen) : neighbor.hops = hop := by
  rcases mem_arrivals.mp (mem_of_mem_firsts h).1 with ⟨step, entry, _, _, _, rfl⟩
  rfl

theorem crossReading_rows (answers : Answers edges) (options : Expansion) (read : Option Nat)
    (hop : Nat) (s : State) :
    exists rows, (crossReading answers options read hop s).1 =
      cross hop s.frontier rows s.seen s.reached := by
  cases read with
  | none => exact ⟨_, rfl⟩
  | some perTopic =>
      unfold crossReading
      simp only
      split
      · exact ⟨_, rfl⟩
      · split
        · exact ⟨_, rfl⟩
        · exact ⟨_, rfl⟩

theorem lookup_oneHop (read : Option Nat) (h : Held hops s) (topic : TopicId) :
    (oneHop answers options read s (hops + 1)).reached.lookup topic = s.reached.lookup topic ∨
      (s.reached.lookup topic = none ∧
        exists neighbor, neighbor.topic = topic ∧ neighbor.hops = hops + 1 ∧
          (oneHop answers options read s (hops + 1)).reached.lookup topic = some neighbor) := by
  cases hgoing : s.stopped with
  | true =>
      left
      unfold oneHop
      rw [if_pos hgoing]
  | false =>
      rw [reached_oneHop read hgoing]
      rcases crossReading_rows answers options read (hops + 1) s with ⟨rows, hrows⟩
      rw [hrows]
      have hless : forall topic neighbor, s.reached.lookup topic = some neighbor ->
          neighbor.hops < hops + 1 := fun topic neighbor hheld =>
        Nat.lt_succ_of_le (h topic neighbor hheld).2
      rcases held_cross hless topic with hsame | ⟨hnone, neighbor, htaken, htopic, hnew⟩
      · exact Or.inl hsame
      · exact Or.inr ⟨hnone, neighbor, htopic, hops_of_taken htaken, hnew⟩

theorem held_next (h : Held hops s) {topic : TopicId} {neighbor : Neighbor}
    (hheld : (crossEvery answers (hops + 1) s).reached.lookup topic = some neighbor) :
    s.reached.lookup topic = some neighbor ∨
      (s.reached.lookup topic = none ∧ neighbor ∈ takenNext answers hops s ∧
        neighbor.topic = topic) := by
  have hless : forall topic neighbor, s.reached.lookup topic = some neighbor ->
      neighbor.hops < hops + 1 := fun topic neighbor hbefore =>
    Nat.lt_succ_of_le (h topic neighbor hbefore).2
  unfold crossEvery at hheld
  rcases held_cross hless topic with hsame | ⟨hnone, other, htaken, htopic, hnew⟩
  · exact Or.inl (hsame.symm.trans hheld)
  · cases Option.some.inj (hnew.symm.trans hheld)
    exact Or.inr ⟨hnone, htaken, htopic⟩

theorem missing_next {topic : TopicId}
    (hmissing : (crossEvery answers (hops + 1) s).reached.lookup topic = none) :
    s.reached.lookup topic = none ∧
      forall arrival, arrival ∈ takenNext answers hops s -> arrival.topic ≠ topic := by
  rw [crossEvery_eq, lookup_foldl_settle] at hmissing
  have hnone := foldl_better_none hmissing
  refine ⟨hnone.1, ?_⟩
  intro arrival harrival hsame
  have hmem : arrival ∈ (takenNext answers hops s).filter fun arrival =>
      arrival.topic = topic := List.mem_filter.mpr ⟨harrival, decide_eq_true hsame⟩
  rw [hnone.2] at hmem
  cases hmem

theorem held_oneHop (read : Option Nat) (h : Held hops s) :
    Held (hops + 1) (oneHop answers options read s (hops + 1)) := by
  intro topic neighbor hheld
  rcases lookup_oneHop read h topic with hsame | ⟨_, other, htopic, hhops, hnew⟩
  · have hbefore := h topic neighbor (hsame.symm.trans hheld)
    exact ⟨hbefore.1, Nat.le_succ_of_le hbefore.2⟩
  · cases Option.some.inj (hnew.symm.trans hheld)
    exact ⟨htopic, Nat.le_of_eq hhops⟩

theorem after_succ (answers : Answers edges) (options : Expansion) (perTopic : Option Nat)
    (seeds : List TopicId) (hops : Nat) :
    after answers options perTopic seeds (hops + 1) =
      oneHop answers options perTopic (after answers options perTopic seeds hops) (hops + 1) := by
  unfold after
  rw [List.range'_1_concat, List.foldl_append, Nat.add_comm 1 hops]
  rfl

theorem held_after (answers : Answers edges) (options : Expansion) (read : Option Nat)
    (seeds : List TopicId) (hops : Nat) : Held hops (after answers options read seeds hops) := by
  induction hops with
  | zero =>
      intro topic neighbor h
      cases h
  | succ n ih =>
      rw [after_succ]
      exact held_oneHop read ih

end Hop

end Walking
end PaminMemory
