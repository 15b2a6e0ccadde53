import PaminMemory.Walking.Hops
import PaminMemory.Foundation.Levels

/-!
# The walk is a breadth-first search

After some hops each walk saw the topics within as many steps of its seed, its positions
are those at exactly that distance, and a topic is held at its least distance from a seed
other than itself.
-/

namespace PaminMemory
namespace Walking

open Foundation PaminMemory.Graph

def neighbourhood (edges : List Live) : SimpleGraph TopicId where
  Adj one other := exists live outward, live ∈ edges ∧ near outward live = one ∧
    far outward live = other
  symm := ⟨by
    intro one other h
    rcases h with ⟨live, outward, hlive, rfl, rfl⟩
    cases outward with
    | true => exact ⟨live, false, hlive, rfl, rfl⟩
    | false => exact ⟨live, true, hlive, rfl, rfl⟩⟩
  loopless := ⟨by
    intro topic h
    rcases h with ⟨live, outward, _, hnear, hfar⟩
    cases outward with
    | true => exact live.edge.distinct (hnear.trans hfar.symm)
    | false => exact live.edge.distinct (hfar.trans hnear.symm)⟩

theorem adj_iff_crossing {edges : List Live} {one other : TopicId} :
    (neighbourhood edges).Adj one other <->
      exists entry, entry ∈ crossings edges one ∧ entry.1 = other := by
  constructor
  · intro h
    rcases h with ⟨live, outward, hlive, hnear, hfar⟩
    exact ⟨entryOf outward live,
      mem_crossings.mpr ⟨live, hlive, mem_entriesOf.mpr ⟨outward, hnear, rfl⟩⟩, hfar⟩
  · intro h
    rcases h with ⟨entry, hentry, rfl⟩
    rcases mem_crossings.mp hentry with ⟨live, hlive, hof⟩
    rcases mem_entriesOf.mp hof with ⟨outward, hnear, rfl⟩
    exact ⟨live, outward, hlive, hnear, rfl⟩

structure Level (edges : List Live) (seeds : List TopicId) (hops : Nat) (s : State) : Prop where
  seen : forall topic origin, (topic, origin) ∈ s.seen <->
    origin ∈ seeds ∧ topic ≠ origin ∧ (neighbourhood edges).edist origin topic <= (hops : ℕ∞)
  standing : s.stopped = false -> forall topic origin,
    (exists step, step ∈ s.frontier ∧ step.topic = topic ∧ step.origin = origin) <->
      origin ∈ seeds ∧ (neighbourhood edges).edist origin topic = (hops : ℕ∞)
  via : s.stopped = false -> 0 < hops -> forall step, step ∈ s.frontier ->
    (neighbourhood edges).edist step.origin step.via <= (hops : ℕ∞)
  ended : s.stopped = true -> forall topic origin, origin ∈ seeds ->
    (neighbourhood edges).edist origin topic ≠ (hops : ℕ∞)
  held : forall topic neighbor, s.reached.lookup topic = some neighbor ->
    neighbor.topic = topic ∧ neighbor.hops <= hops ∧ neighbor.origin ∈ seeds ∧
      neighbor.origin ≠ topic ∧
        (neighbourhood edges).edist neighbor.origin topic = (neighbor.hops : ℕ∞) ∧
          forall seed, seed ∈ seeds -> seed ≠ topic ->
            (neighbor.hops : ℕ∞) <= (neighbourhood edges).edist seed topic
  missing : forall topic, s.reached.lookup topic = none -> forall seed, seed ∈ seeds ->
    seed ≠ topic -> ¬ (neighbourhood edges).edist seed topic <= (hops : ℕ∞)

section Level

variable {edges : List Live} {answers : Answers edges} {options : Expansion}
  {seeds : List TopicId} {hops : Nat} {s : State}

theorem Level.toHeld (h : Level edges seeds hops s) : Held hops s := by
  intro topic neighbor hlookup
  rcases h.held topic neighbor hlookup with ⟨htopic, hle, _⟩
  exact ⟨htopic, hle⟩

theorem level_start (edges : List Live) (seeds : List TopicId) :
    Level edges seeds 0 (State.start seeds) := by
  have hzero : forall topic origin : TopicId,
      (neighbourhood edges).edist origin topic <= ((0 : Nat) : ℕ∞) <-> origin = topic := by
    intro topic origin
    rw [Nat.cast_zero, nonpos_iff_eq_zero, SimpleGraph.edist_eq_zero_iff]
  constructor
  case seen =>
    intro topic origin
    rw [hzero]
    constructor
    · intro h
      cases h
    · intro h
      exact absurd h.2.2.symm h.2.1
  case standing =>
    intro _ topic origin
    rw [Nat.cast_zero, SimpleGraph.edist_eq_zero_iff]
    unfold State.start
    constructor
    · intro h
      rcases h with ⟨step, hstep, rfl, rfl⟩
      rcases List.mem_map.mp hstep with ⟨seed, hseed, rfl⟩
      exact ⟨hseed, rfl⟩
    · intro h
      rcases h with ⟨hseed, rfl⟩
      exact ⟨_, List.mem_map.mpr ⟨origin, hseed, rfl⟩, rfl, rfl⟩
  case via =>
    intro _ h
    cases h
  case ended =>
    intro h
    cases h
  case held =>
    intro topic neighbor h
    cases h
  case missing =>
    intro topic _ seed _ hne h
    exact hne ((hzero topic seed).mp h)

theorem new_key_iff (answers : Answers edges) (h : Level edges seeds hops s)
    (hgoing : s.stopped = false)
    (topic origin : TopicId) :
    ((topic, origin) ∈ (arrivals (hops + 1) s.frontier
        (answers.every (hops + 1) s.positions)).map Neighbor.key ∧ (topic, origin) ∉ s.seen) <->
      origin ∈ seeds ∧
        (neighbourhood edges).edist origin topic = ((hops + 1 : Nat) : ℕ∞) := by
  rw [edist_eq_succ_iff, h.seen]
  constructor
  · intro hmet
    rcases hmet with ⟨hkey, hnew⟩
    rcases List.mem_map.mp hkey with ⟨arrival, harrival, hkeyed⟩
    rcases mem_arrivals.mp harrival with ⟨step, entry, hstep, hentry, hback, rfl⟩
    cases hkeyed
    have hat := (h.standing hgoing step.topic step.origin).mp ⟨step, hstep, rfl, rfl⟩
    have hadj : (neighbourhood edges).Adj step.topic entry.1 :=
      adj_iff_crossing.mpr ⟨entry, (mem_crossings_every answers hstep).mp hentry, rfl⟩
    have hne : entry.1 ≠ step.origin := by
      intro hsame
      cases hops with
      | zero =>
          have hstart : step.origin = step.topic := by
            have hzero := hat.2
            rw [Nat.cast_zero] at hzero
            exact SimpleGraph.edist_eq_zero_iff.mp hzero
          rw [hsame, hstart] at hadj
          exact hadj.ne rfl
      | succ n =>
          have htaken : back (n + 1 + 1) step entry = true := by simp [back, hsame]
          rw [hback] at htaken
          cases htaken
    refine ⟨hat.1, ?_, step.topic, hat.2, hadj⟩
    intro hle
    exact hnew ⟨hat.1, hne, hle⟩
  · intro hnext
    rcases hnext with ⟨horigin, hfar, before, hbefore, hadj⟩
    have hne : topic ≠ origin := by
      rintro rfl
      apply hfar
      rw [SimpleGraph.edist_self]
      exact zero_le
    rcases (h.standing hgoing before origin).mpr ⟨horigin, hbefore⟩ with
      ⟨step, hstep, rfl, rfl⟩
    rcases adj_iff_crossing.mp hadj with ⟨entry, hentry, rfl⟩
    have hback : back (hops + 1) step entry = false := by
      rw [Bool.eq_false_iff]
      intro htaken
      simp only [back, Bool.and_eq_true, decide_eq_true_eq, Bool.or_eq_true] at htaken
      rcases htaken with ⟨hhop, hto | hto⟩
      · exact hne hto
      · have hvia := h.via hgoing (by omega) step hstep
        rw [← hto] at hvia
        exact hfar hvia
    refine ⟨List.mem_map.mpr ⟨arrivalAt (hops + 1) step entry, ?_, rfl⟩, ?_⟩
    · exact mem_arrivals.mpr ⟨step, entry, hstep, (mem_crossings_every answers hstep).mpr hentry,
        hback, rfl⟩
    · intro hseen
      exact hfar hseen.2.2

theorem takenNext_key_iff (answers : Answers edges) (h : Level edges seeds hops s)
    (hgoing : s.stopped = false)
    (topic origin : TopicId) :
    (exists arrival, arrival ∈ takenNext answers hops s ∧ arrival.topic = topic ∧
        arrival.origin = origin) <->
      origin ∈ seeds ∧
        (neighbourhood edges).edist origin topic = ((hops + 1 : Nat) : ℕ∞) := by
  rw [← new_key_iff answers h hgoing, ← mem_keys_firsts, List.mem_map]
  constructor
  · intro htaken
    rcases htaken with ⟨arrival, harrival, rfl, rfl⟩
    exact ⟨arrival, harrival, rfl⟩
  · intro hkey
    rcases hkey with ⟨arrival, harrival, hkeyed⟩
    cases hkeyed
    exact ⟨arrival, harrival, rfl, rfl⟩

theorem seen_next (h : Level edges seeds hops s) (hgoing : s.stopped = false)
    (topic origin : TopicId) :
    (topic, origin) ∈ (crossEvery answers (hops + 1) s).seen <->
      origin ∈ seeds ∧ topic ≠ origin ∧
        (neighbourhood edges).edist origin topic <= ((hops + 1 : Nat) : ℕ∞) := by
  rw [crossEvery_eq, mem_metAfter, edist_le_succ_iff]
  have hnew := new_key_iff answers h hgoing topic origin
  have hfar : (neighbourhood edges).edist origin topic = ((hops + 1 : Nat) : ℕ∞) ->
      topic ≠ origin := by
    rintro hlevel rfl
    rw [SimpleGraph.edist_self] at hlevel
    exact absurd hlevel.symm (by norm_cast)
  constructor
  · intro hseen
    by_cases hold : (topic, origin) ∈ s.seen
    · rcases (h.seen topic origin).mp hold with ⟨horigin, hne, hle⟩
      exact ⟨horigin, hne, Or.inl hle⟩
    · have hlevel := hnew.mp ⟨hseen.resolve_left hold, hold⟩
      exact ⟨hlevel.1, hfar hlevel.2, Or.inr hlevel.2⟩
  · intro hlevel
    rcases hlevel with ⟨horigin, hne, hle | heq⟩
    · exact Or.inl ((h.seen topic origin).mpr ⟨horigin, hne, hle⟩)
    · exact Or.inr (hnew.mpr ⟨horigin, heq⟩).1

theorem held_level (h : Level edges seeds hops s) (hgoing : s.stopped = false)
    {topic : TopicId} {neighbor : Neighbor}
    (hheld : (crossEvery answers (hops + 1) s).reached.lookup topic = some neighbor) :
    neighbor.topic = topic ∧ neighbor.hops <= hops + 1 ∧ neighbor.origin ∈ seeds ∧
      neighbor.origin ≠ topic ∧
        (neighbourhood edges).edist neighbor.origin topic = (neighbor.hops : ℕ∞) ∧
          forall seed, seed ∈ seeds -> seed ≠ topic ->
            (neighbor.hops : ℕ∞) <= (neighbourhood edges).edist seed topic := by
  rcases held_next h.toHeld hheld with hold | ⟨hnone, htaken, rfl⟩
  · rcases h.held topic neighbor hold with ⟨htopic, hle, hrest⟩
    exact ⟨htopic, by omega, hrest⟩
  · have hhops := takenNext_hops htaken
    have hlevel := (takenNext_key_iff answers h hgoing neighbor.topic neighbor.origin).mp
      ⟨neighbor, htaken, rfl, rfl⟩
    refine ⟨rfl, by omega, hlevel.1, ?_, ?_, ?_⟩
    · intro hsame
      have hzero := hlevel.2
      rw [hsame, SimpleGraph.edist_self] at hzero
      exact absurd hzero.symm (by norm_cast)
    · rw [hhops]
      exact hlevel.2
    · intro seed hseed hne
      have hfar := h.missing neighbor.topic hnone seed hseed hne
      rw [hhops]
      exact succ_le_edist hfar

theorem missing_level (h : Level edges seeds hops s) (hgoing : s.stopped = false)
    {topic : TopicId}
    (hmissing : (crossEvery answers (hops + 1) s).reached.lookup topic = none) :
    forall seed, seed ∈ seeds -> seed ≠ topic ->
      ¬ (neighbourhood edges).edist seed topic <= ((hops + 1 : Nat) : ℕ∞) := by
  rcases missing_next hmissing with ⟨hnone, hnot⟩
  intro seed hseed hne hle
  rcases edist_le_succ_iff.mp hle with hnear | hlevel
  · exact h.missing topic hnone seed hseed hne hnear
  · rcases (takenNext_key_iff answers h hgoing topic seed).mpr ⟨hseed, hlevel⟩ with
      ⟨arrival, harrival, htopic, _⟩
    exact hnot arrival harrival htopic

theorem mem_nextFrontier {next : List (Step × Confidence)} (h : next.length <= MAX_FRONTIER)
    {step : Step} : step ∈ nextFrontier next <-> exists confidence, (step, confidence) ∈ next := by
  have hlength : (next.insertionSort confident).length <= MAX_FRONTIER := by
    rw [List.length_insertionSort]
    exact h
  unfold nextFrontier
  rw [List.take_of_length_le hlength, List.mem_map]
  constructor
  · intro hmem
    rcases hmem with ⟨entry, hentry, rfl⟩
    exact ⟨entry.2, (List.mem_insertionSort confident).mp hentry⟩
  · intro hmem
    rcases hmem with ⟨confidence, hentry⟩
    exact ⟨(step, confidence), (List.mem_insertionSort confident).mpr hentry, rfl⟩

theorem mem_nextFrontier_taken (hcut : (crossEvery answers (hops + 1) s).next.length <= MAX_FRONTIER)
    {step : Step} :
    step ∈ nextFrontier (crossEvery answers (hops + 1) s).next <->
      exists arrival, arrival ∈ takenNext answers hops s ∧
        step = { topic := arrival.topic, origin := arrival.origin, via := arrival.via } := by
  rw [mem_nextFrontier hcut, crossEvery_eq]
  constructor
  · intro h
    rcases h with ⟨confidence, hmem⟩
    rcases List.mem_map.mp hmem with ⟨arrival, harrival, hposition⟩
    exact ⟨arrival, harrival, (congrArg Prod.fst hposition).symm⟩
  · intro h
    rcases h with ⟨arrival, harrival, rfl⟩
    exact ⟨arrival.confidence, List.mem_map.mpr ⟨arrival, harrival, rfl⟩⟩

theorem level_stopped (h : Level edges seeds hops s) (hstopped : s.stopped = true) :
    Level edges seeds (hops + 1) s := by
  have hnone : forall topic origin, origin ∈ seeds ->
      (neighbourhood edges).edist origin topic ≠ ((hops + 1 : Nat) : ℕ∞) := by
    intro topic origin horigin
    exact edist_ne_succ_of_empty fun before => h.ended hstopped before origin horigin
  constructor
  case seen =>
    intro topic origin
    rw [h.seen, edist_le_succ_iff]
    constructor
    · intro hseen
      exact ⟨hseen.1, hseen.2.1, Or.inl hseen.2.2⟩
    · intro hseen
      exact ⟨hseen.1, hseen.2.1, hseen.2.2.resolve_right (hnone topic origin hseen.1)⟩
  case standing =>
    intro hgoing
    rw [hstopped] at hgoing
    cases hgoing
  case via =>
    intro hgoing
    rw [hstopped] at hgoing
    cases hgoing
  case ended => exact fun _ => hnone
  case held =>
    intro topic neighbor hheld
    rcases h.held topic neighbor hheld with ⟨htopic, hle, hrest⟩
    exact ⟨htopic, by omega, hrest⟩
  case missing =>
    intro topic hmissing seed hseed hne hle
    rcases edist_le_succ_iff.mp hle with hnear | hlevel
    · exact h.missing topic hmissing seed hseed hne hnear
    · exact hnone topic seed hseed hlevel

theorem level_oneHop (h : Level edges seeds hops s) (hkeep : options.keep = none)
    (hcut : s.stopped = false ->
      (crossEvery answers (hops + 1) s).next.length <= MAX_FRONTIER) :
    Level edges seeds (hops + 1) (oneHop answers options none s (hops + 1)) := by
  cases hstopped : s.stopped with
  | true =>
      have hsame : oneHop answers options none s (hops + 1) = s := if_pos hstopped
      rw [hsame]
      exact level_stopped h hstopped
  | false =>
      have hkept : forall reached, enough options.keep reached = false := by
        intro reached
        rw [hkeep]
        rfl
      rw [oneHop_every hstopped]
      by_cases hempty : (crossEvery answers (hops + 1) s).next = []
      · rw [if_pos hempty]
        constructor
        case seen => exact seen_next h hstopped
        case standing =>
          intro hgoing
          cases hgoing
        case via =>
          intro hgoing
          cases hgoing
        case ended =>
          intro _ topic origin horigin hlevel
          rcases (takenNext_key_iff answers h hstopped topic origin).mpr
            ⟨horigin, hlevel⟩ with ⟨arrival, harrival, _⟩
          rw [crossEvery_eq] at hempty
          rw [List.map_eq_nil_iff.mp hempty] at harrival
          cases harrival
        case held =>
          intro topic neighbor
          exact held_level h hstopped
        case missing =>
          intro topic
          exact missing_level h hstopped
      · rw [if_neg hempty]
        constructor
        case seen => exact seen_next h hstopped
        case standing =>
          intro _ topic origin
          rw [← takenNext_key_iff answers h hstopped]
          constructor
          · intro hstep
            rcases hstep with ⟨step, hmem, rfl, rfl⟩
            rcases (mem_nextFrontier_taken (hcut hstopped)).mp hmem with ⟨arrival, harrival, rfl⟩
            exact ⟨arrival, harrival, rfl, rfl⟩
          · intro htaken
            rcases htaken with ⟨arrival, harrival, rfl, rfl⟩
            exact ⟨_, (mem_nextFrontier_taken (hcut hstopped)).mpr ⟨arrival, harrival, rfl⟩,
              rfl, rfl⟩
        case via =>
          intro _ _ step hmem
          rcases (mem_nextFrontier_taken (hcut hstopped)).mp hmem with ⟨arrival, harrival, rfl⟩
          rcases takenNext_via harrival with ⟨before, hbefore, hvia, horigin⟩
          have hlevel := (h.standing hstopped before.topic before.origin).mp
            ⟨before, hbefore, rfl, rfl⟩
          rw [← hvia, ← horigin]
          exact edist_le_succ_iff.mpr (Or.inl (le_of_eq hlevel.2))
        case ended =>
          intro hended
          rw [hkept] at hended
          cases hended
        case held =>
          intro topic neighbor
          exact held_level h hstopped
        case missing =>
          intro topic
          exact missing_level h hstopped

end Level

section Run

variable {edges : List Live}

/-- No hop of a walk over every edge leaves more positions than the frontier carries on. -/
def Uncut (answers : Answers edges) (options : Expansion) (seeds : List TopicId) : Prop :=
  forall hops, hops < options.depth -> (after answers options none seeds hops).stopped = false ->
    (crossEvery answers (hops + 1) (after answers options none seeds hops)).next.length <=
      MAX_FRONTIER

theorem level_after {answers : Answers edges} {options : Expansion} {seeds : List TopicId}
    (hkeep : options.keep = none) (hcut : Uncut answers options seeds) {hops : Nat}
    (hle : hops <= options.depth) :
    Level edges seeds hops (after answers options none seeds hops) := by
  induction hops with
  | zero => exact level_start edges seeds
  | succ n ih =>
      rw [after_succ]
      exact level_oneHop (ih (by omega)) hkeep (hcut n (by omega))

end Run

/-!
## What the walk returns
-/

theorem mem_listed {reached : Reached}
    (h : forall topic neighbor, reached.lookup topic = some neighbor -> neighbor.topic = topic)
    {neighbor : Neighbor} :
    neighbor ∈ (reached.entries.map Sigma.snd).insertionSort listed <->
      reached.lookup neighbor.topic = some neighbor := by
  rw [List.mem_insertionSort, List.mem_map]
  constructor
  · intro hmem
    rcases hmem with ⟨entry, hentry, rfl⟩
    have hlookup : reached.lookup entry.1 = some entry.2 := AList.mem_lookup_iff.mpr hentry
    rw [h entry.1 entry.2 hlookup]
    exact hlookup
  · intro hlookup
    exact ⟨⟨neighbor.topic, neighbor⟩, AList.mem_lookup_iff.mp hlookup, rfl⟩

theorem nodup_listed {reached : Reached}
    (h : forall topic neighbor, reached.lookup topic = some neighbor -> neighbor.topic = topic) :
    (((reached.entries.map Sigma.snd).insertionSort listed).map Neighbor.topic).Nodup := by
  have hperm := (List.perm_insertionSort listed (reached.entries.map Sigma.snd)).map Neighbor.topic
  rw [hperm.nodup_iff, List.map_map]
  have hkeys : reached.entries.map (Neighbor.topic ∘ Sigma.snd) = reached.entries.map Sigma.fst := by
    apply List.map_congr_left
    intro entry hentry
    exact h entry.1 entry.2 (AList.mem_lookup_iff.mpr hentry)
  rw [hkeys]
  exact reached.nodupKeys

theorem expand_nil {ledger : Ledger} {options : Expansion}
    {answers : Answers (edgesOf ledger options)} {seeds : List TopicId}
    (h : seeds = [] ∨ options.depth = 0) : expand ledger options answers seeds = [] := by
  unfold expand walk
  rw [if_pos h]

theorem expand_eq {ledger : Ledger} {options : Expansion}
    {answers : Answers (edgesOf ledger options)} {seeds : List TopicId}
    (h : ¬ (seeds = [] ∨ options.depth = 0)) :
    expand ledger options answers seeds =
      ((after answers options none seeds options.depth).reached.entries.map
        Sigma.snd).insertionSort listed := by
  unfold expand walk
  rw [if_neg h]
  rfl

/-- The walk returns the topics within its depth of a seed other than themselves, each once,
at its least distance from such a seed, with a seed that lies there. -/
theorem walk_is_breadth_first (ledger : Ledger) (options : Expansion)
    (answers : Answers (edgesOf ledger options)) (seeds : List TopicId)
    (hkeep : options.keep = none) (hcut : Uncut answers options seeds) :
    (forall topic, topic ∈ (expand ledger options answers seeds).map Neighbor.topic <->
      exists seed, seed ∈ seeds ∧ seed ≠ topic ∧
        1 <= (neighbourhood (edgesOf ledger options)).edist seed topic ∧
          (neighbourhood (edgesOf ledger options)).edist seed topic <= (options.depth : ℕ∞)) ∧
    ((expand ledger options answers seeds).map Neighbor.topic).Nodup ∧
    forall neighbor, neighbor ∈ expand ledger options answers seeds ->
      neighbor.origin ∈ seeds ∧ neighbor.origin ≠ neighbor.topic ∧
        (neighbourhood (edgesOf ledger options)).edist neighbor.origin neighbor.topic =
          (neighbor.hops : ℕ∞) ∧
        forall seed, seed ∈ seeds -> seed ≠ neighbor.topic ->
          (neighbor.hops : ℕ∞) <=
            (neighbourhood (edgesOf ledger options)).edist seed neighbor.topic := by
  by_cases hnone : seeds = [] ∨ options.depth = 0
  · rw [expand_nil hnone]
    refine ⟨?_, List.nodup_nil, ?_⟩
    · intro topic
      constructor
      · intro h
        cases h
      · intro h
        rcases h with ⟨seed, hseed, _, hfar, hle⟩
        rcases hnone with rfl | hdepth
        · cases hseed
        · rw [hdepth] at hle
          exact absurd (hfar.trans hle) (by norm_cast)
    · intro neighbor h
      cases h
  · have hlevel := level_after hkeep hcut (Nat.le_refl options.depth)
    have htopic : forall topic neighbor,
        (after answers options none seeds options.depth).reached.lookup topic = some neighbor ->
          neighbor.topic = topic := by
      intro topic neighbor h
      exact (hlevel.held topic neighbor h).1
    rw [expand_eq hnone]
    refine ⟨?_, nodup_listed htopic, ?_⟩
    · intro topic
      rw [List.mem_map]
      constructor
      · intro h
        rcases h with ⟨neighbor, hmem, rfl⟩
        rcases hlevel.held neighbor.topic neighbor ((mem_listed htopic).mp hmem) with
          ⟨_, hle, hseed, hne, hdistance, _⟩
        refine ⟨neighbor.origin, hseed, hne, ?_, ?_⟩
        · exact Order.one_le_iff_pos.mpr (SimpleGraph.edist_pos_of_ne hne)
        · rw [hdistance, ENat.natCast_le_natCast]
          exact hle
      · intro h
        rcases h with ⟨seed, hseed, hne, _, hle⟩
        cases hheld : (after answers options none seeds options.depth).reached.lookup topic with
        | none => exact absurd hle (hlevel.missing topic hheld seed hseed hne)
        | some neighbor =>
            have hsame := htopic topic neighbor hheld
            refine ⟨neighbor, (mem_listed htopic).mpr ?_, hsame⟩
            rw [hsame]
            exact hheld
    · intro neighbor hmem
      rcases hlevel.held neighbor.topic neighbor ((mem_listed htopic).mp hmem) with
        ⟨_, _, hseed, hne, hdistance, hleast⟩
      exact ⟨hseed, hne, hdistance, hleast⟩

def assertedVersion (relationship : RelationshipId) (confidence : Confidence) :
    RelationshipVersion :=
  { id := relationship, relationshipId := relationship, version := 1, validity := Validity.ALWAYS
    createdAt := 0, invalidatedAt := none, supersedes := none, causedByTopicState := none
    confidence := confidence, derivation := Derivation.explicit, tombstoneReason := none }

theorem first_ne_second : (1 : TopicId) ≠ 2 := by decide

def chainLedger : Ledger :=
  [{ id := 1
     edge :=
       { fromTopic := 1, toTopic := 2, kind := EdgeKind.dependsOn, distinct := first_ne_second }
     versions := [assertedVersion 1 Confidence.one] },
    { id := 2
      edge :=
        { fromTopic := 3, toTopic := 2, kind := EdgeKind.supports, distinct := by decide }
      versions := [assertedVersion 2 Confidence.one] }]

def twoHops : Expansion :=
  { depth := 2, kinds := none, moment := none, keep := none }

theorem chain_uncut : Uncut (Answers.stored (edgesOf chainLedger twoHops)) twoHops [1] := by
  unfold Uncut
  decide

theorem walk_is_breadth_first_of_chain :
    let found := expand chainLedger twoHops (Answers.stored (edgesOf chainLedger twoHops)) [1]
    (found.map Neighbor.topic).Nodup ∧
      (3 ∈ found.map Neighbor.topic <->
        exists seed, seed ∈ [1] ∧ seed ≠ 3 ∧
          1 <= (neighbourhood (edgesOf chainLedger twoHops)).edist seed 3 ∧
            (neighbourhood (edgesOf chainLedger twoHops)).edist seed 3 <= 2) := by
  have hbreadth := walk_is_breadth_first chainLedger twoHops
    (Answers.stored (edgesOf chainLedger twoHops)) [1] rfl chain_uncut
  exact ⟨hbreadth.2.1, hbreadth.1 3⟩

end Walking
end PaminMemory
