import PaminMemory.Cascade.Restate
import PaminMemory.Topics.Surface
import PaminMemory.Foundation.Joined
import PaminMemory.Foundation.Windows

/-!
# Finding names by lookup and by comparison

A name is found in a memory in two ways.  Restating the memory looks every run of its
tokens up in the name index.  Backfilling a new topic asks the index for memories and
compares the tokens of each with the tokens of the name.
-/

namespace PaminMemory
namespace Cascade

open Foundation PaminMemory.Graph
open Topics (Current Memories currentStatesOf)

/-- A token, as names are compared. -/
structure Token where
  text : String
  filled : text.toList ≠ []
  unspaced : ' ' ∉ text.toList
deriving DecidableEq

def join (tokens : List Token) : String :=
  " ".intercalate (tokens.map Token.text)

theorem toList_join (tokens : List Token) :
    (join tokens).toList = [' '].intercalate (tokens.map fun token => token.text.toList) := by
  unfold join
  rw [String.toList_intercalate, List.map_map]
  rfl

theorem join_injective {left right : List Token} (h : join left = join right) : left = right := by
  have hwords : forall tokens : List Token, forall word,
      word ∈ (tokens.map fun token => token.text.toList) -> word ≠ [] ∧ ' ' ∉ word := by
    intro tokens word hword
    rcases List.mem_map.mp hword with ⟨token, _, rfl⟩
    exact ⟨token.filled, token.unspaced⟩
  have hjoined : [' '].intercalate (left.map fun token => token.text.toList) =
      [' '].intercalate (right.map fun token => token.text.toList) := by
    rw [← toList_join, ← toList_join, h]
  have htexts := intercalate_injective (hwords left) (hwords right) hjoined
  apply List.map_injective_iff.mpr ?_ htexts
  intro token other hsame
  cases token
  cases other
  simpa using String.toList_inj.mp hsame

def runsOfTokens (tokens : List Token) (widest : Nat) : List String :=
  (((List.range' 1 (min widest tokens.length)).flatMap fun width =>
    (windowsOf width tokens).map join).insertionSort (· <= ·)).dedup

def names (text needle : List Token) : Bool :=
  if needle.isEmpty then
    false
  else
    (windowsOf needle.length text).any fun window => window = needle

theorem mem_runsOfTokens {tokens : List Token} {widest : Nat} {run : String} :
    run ∈ runsOfTokens tokens widest <->
      exists window, window ≠ [] ∧ window.length <= widest ∧ window <:+: tokens ∧
        run = join window := by
  unfold runsOfTokens
  simp only [List.mem_dedup, List.mem_insertionSort, List.mem_flatMap, List.mem_map,
    List.mem_range'_1, mem_windowsOf]
  constructor
  · intro h
    rcases h with ⟨width, hwidth, window, ⟨hlength, hinfix⟩, rfl⟩
    refine ⟨window, ?_, by omega, hinfix, rfl⟩
    intro hempty
    rw [hempty, List.length_nil] at hlength
    omega
  · intro h
    rcases h with ⟨window, hfilled, hwidth, hinfix, rfl⟩
    have hpositive : 0 < window.length := List.length_pos_iff.mpr hfilled
    have hlength : window.length <= tokens.length := hinfix.length_le
    exact ⟨window.length, by omega, window, ⟨rfl, hinfix⟩, rfl⟩

theorem names_iff {text needle : List Token} :
    names text needle = true <-> needle ≠ [] ∧ needle <:+: text := by
  unfold names
  cases needle with
  | nil => simp
  | cons token rest =>
      simp only [List.isEmpty_cons, Bool.false_eq_true, if_false, List.any_eq_true,
        decide_eq_true_eq, mem_windowsOf]
      constructor
      · intro h
        rcases h with ⟨window, ⟨_, hinfix⟩, rfl⟩
        exact ⟨List.cons_ne_nil _ _, hinfix⟩
      · intro h
        exact ⟨token :: rest, ⟨rfl, h.2⟩, rfl⟩

theorem join_mem_runsOfTokens {tokens name : List Token} {widest : Nat}
    (h : name.length <= widest) :
    join name ∈ runsOfTokens tokens widest <-> names tokens name = true := by
  rw [mem_runsOfTokens, names_iff]
  constructor
  · intro hrun
    rcases hrun with ⟨window, hfilled, _, hinfix, hsame⟩
    rw [join_injective hsame]
    exact ⟨hfilled, hinfix⟩
  · intro hnames
    exact ⟨name, hnames.1, h, hnames.2, rfl⟩

/-!
## The name index
-/

structure Name where
  text : String
  tokenCount : Int
deriving DecidableEq, Repr

/-- The topics of the name index. -/
abbrev Surface := AList fun _ : TopicId => Name

def topicsById (surface : Surface) (topics : List TopicId) : List (TopicId × String) :=
  topics.filterMap fun topic => (surface.lookup topic).map fun name => (topic, name.text)

def widestTopicName (surface : Surface) : Nat :=
  let counts : List Int := surface.entries.map fun row => row.2.tokenCount
  (max (counts.max?.getD 0) 0).toNat

def BACKFILL_CANDIDATES : Nat := 500

section Segmenter

variable (nameSequence : String -> List Token) (recallNaming : String -> Nat -> List TopicId)

def namesMatching (surface : Surface) (runs : List String) : List (String × TopicId) :=
  (surface.entries.filter fun row => join (nameSequence row.2.text) ∈ runs).map fun row =>
    (join (nameSequence row.2.text), row.1)

def restateMentions (surface : Surface) (states : List (TopicId × Current)) : List Found :=
  let widest := widestTopicName surface
  let runs := states.map fun entry => runsOfTokens (nameSequence entry.2.content) widest
  let asked := (runs.flatten.insertionSort (· <= ·)).dedup
  let naming := namesMatching nameSequence surface asked
  (states.zip runs).map fun entry =>
    { topic := entry.1.1, state := entry.1.2.state
      named := namedNow entry.1.1 (entry.2.flatMap fun run =>
        (naming.filter fun row => row.1 = run).map Prod.snd) }

def backfillAll (memories : Memories) (topics : List (TopicId × String)) : List Found :=
  let candidates := topics.map fun topic => recallNaming topic.2 BACKFILL_CANDIDATES
  let wanted := (candidates.flatten.insertionSort (· <= ·)).dedup
  let states := currentStatesOf memories wanted
  (topics.zip candidates).flatMap fun entry =>
    let name := nameSequence entry.1.2
    entry.2.eraseDups.filterMap fun candidate =>
      (states.lookup candidate).bind fun current =>
        if candidate ≠ entry.1.1 ∧ names (nameSequence current.content) name = true then
          some { topic := candidate, state := current.state, named := [entry.1.1] }
        else
          none

/-- The widest recorded name is as wide as every name of the surface. -/
def AtLeastAsWide (surface : Surface) : Prop :=
  forall row, row ∈ surface.entries ->
    (nameSequence row.2.text).length <= widestTopicName surface

/-- The index gives the memory an edge leaves for the name of the topic it enters. -/
def Proposed (surface : Surface) (topics : List TopicId) (edge : Edge) : Prop :=
  exists name, (edge.toTopic, name) ∈ topicsById surface topics ∧
    edge.fromTopic ∈ recallNaming name BACKFILL_CANDIDATES

variable {nameSequence} in
theorem atLeastAsWide_of_counts {surface : Surface}
    (h : forall row, row ∈ surface.entries ->
      ((nameSequence row.2.text).length : Int) <= row.2.tokenCount) :
    AtLeastAsWide nameSequence surface := by
  intro row hrow
  have hcount := h row hrow
  have hmem : row.2.tokenCount ∈
      surface.entries.map fun row : Sigma fun _ : TopicId => Name => row.2.tokenCount :=
    List.mem_map.mpr ⟨row, hrow, rfl⟩
  unfold widestTopicName
  simp only
  cases hmax : (surface.entries.map fun row : Sigma fun _ : TopicId => Name =>
      row.2.tokenCount).max? with
  | none =>
      rw [List.max?_eq_none_iff.mp hmax] at hmem
      cases hmem
  | some widest =>
      have hle : row.2.tokenCount <= widest :=
        (List.max?_eq_some_iff.mp hmax).2 row.2.tokenCount hmem
      rw [Option.getD_some]
      omega

/-!
## What each way finds
-/

theorem zip_map_self {α β : Type} (items : List α) (f : α -> β) :
    items.zip (items.map f) = items.map fun item => (item, f item) := by
  induction items with
  | nil => rfl
  | cons item rest ih => rw [List.map_cons, List.zip_cons_cons, ih, List.map_cons]

theorem lookup_currentStatesOf {memories : Memories} {topics : List TopicId} {topic : TopicId}
    (h : topic ∈ topics) : (currentStatesOf memories topics).lookup topic = memories.lookup topic := by
  unfold currentStatesOf
  induction topics with
  | nil => cases h
  | cons first rest ih =>
      by_cases hsame : topic = first
      · subst hsame
        cases hfound : memories.lookup topic with
        | some current => simp [hfound]
        | none =>
            rw [List.filterMap_cons, hfound]
            apply List.lookup_eq_none_iff.mpr
            intro entry hentry
            rcases List.mem_filterMap.mp hentry with ⟨other, _, hother⟩
            rcases Option.map_eq_some_iff.mp hother with ⟨current, hcurrent, rfl⟩
            have hne : topic ≠ other := by
              intro heq
              rw [heq, hcurrent] at hfound
              cases hfound
            simpa using hne
      · have hrest : topic ∈ rest := (List.mem_cons.mp h).resolve_left hsame
        cases hfound : memories.lookup first with
        | none =>
            rw [List.filterMap_cons, hfound]
            exact ih hrest
        | some current =>
            rw [List.filterMap_cons, hfound, Option.map_some, List.lookup_cons]
            rw [show (topic == first) = false by simpa using hsame]
            exact ih hrest

variable {nameSequence recallNaming}

theorem mem_named_restated {surface : Surface} {states : List (TopicId × Current)}
    {edge : Edge} :
    edge ∈ (claims (restateMentions nameSequence surface states)).map Prod.fst <->
      exists entry, entry ∈ states ∧ Mentions entry.1 edge ∧
        exists name, name ∈ surface.lookup edge.toTopic ∧
          join (nameSequence name.text) ∈
            runsOfTokens (nameSequence entry.2.content) (widestTopicName surface) := by
  rw [mem_claims]
  unfold restateMentions
  simp only [zip_map_self, List.map_map, List.mem_map, Function.comp_apply]
  constructor
  · intro h
    rcases h with ⟨_, ⟨entry, hentry, rfl⟩, hmentions, hnamed⟩
    have hfound := (mem_namedNow.mp hnamed).1
    rcases List.mem_flatMap.mp hfound with ⟨run, hrun, htopic⟩
    rcases List.mem_map.mp htopic with ⟨matched, hmatched, hto⟩
    rcases List.mem_map.mp (List.mem_filter.mp hmatched).1 with ⟨row, hrow, rfl⟩
    have hsame : join (nameSequence row.2.text) = run :=
      of_decide_eq_true (List.mem_filter.mp hmatched).2
    refine ⟨entry, hentry, hmentions, row.2, ?_, ?_⟩
    · rw [← hto]
      exact AList.mem_lookup_iff.mpr (List.mem_filter.mp hrow).1
    · rw [hsame]
      exact hrun
  · intro h
    rcases h with ⟨entry, hentry, hmentions, name, hname, hrun⟩
    refine ⟨_, ⟨entry, hentry, rfl⟩, hmentions, ?_⟩
    have hdistinct : edge.toTopic ≠ entry.1 := by
      rw [← hmentions.2]
      exact edge.distinct.symm
    apply mem_namedNow.mpr
    refine ⟨List.mem_flatMap.mpr ⟨_, hrun, ?_⟩, hdistinct⟩
    apply List.mem_map.mpr
    refine ⟨(join (nameSequence name.text), edge.toTopic), ?_, rfl⟩
    apply List.mem_filter.mpr
    refine ⟨?_, decide_eq_true rfl⟩
    apply List.mem_map.mpr
    refine ⟨⟨edge.toTopic, name⟩, ?_, rfl⟩
    apply List.mem_filter.mpr
    refine ⟨AList.mem_lookup_iff.mp hname, decide_eq_true ?_⟩
    rw [List.mem_dedup, List.mem_insertionSort]
    exact List.mem_flatten.mpr ⟨_, List.mem_map.mpr ⟨entry, hentry, rfl⟩, hrun⟩

theorem mem_restated {surface : Surface} {states : List (TopicId × Current)} {edge : Edge}
    (hwide : AtLeastAsWide nameSequence surface) :
    edge ∈ (claims (restateMentions nameSequence surface states)).map Prod.fst <->
      exists entry, entry ∈ states ∧ Mentions entry.1 edge ∧
        exists name, name ∈ surface.lookup edge.toTopic ∧
          names (nameSequence entry.2.content) (nameSequence name.text) = true := by
  rw [mem_named_restated]
  constructor
  · intro h
    rcases h with ⟨entry, hentry, hmentions, name, hname, hrun⟩
    have hwidth := hwide ⟨edge.toTopic, name⟩ (AList.mem_lookup_iff.mp hname)
    exact ⟨entry, hentry, hmentions, name, hname, (join_mem_runsOfTokens hwidth).mp hrun⟩
  · intro h
    rcases h with ⟨entry, hentry, hmentions, name, hname, hnames⟩
    have hwidth := hwide ⟨edge.toTopic, name⟩ (AList.mem_lookup_iff.mp hname)
    exact ⟨entry, hentry, hmentions, name, hname, (join_mem_runsOfTokens hwidth).mpr hnames⟩

theorem mem_backfilled {memories : Memories} {topics : List (TopicId × String)} {edge : Edge} :
    edge ∈ (claims (backfillAll nameSequence recallNaming memories topics)).map Prod.fst <->
      edge.kind = EdgeKind.mentions ∧
        exists name, (edge.toTopic, name) ∈ topics ∧
          edge.fromTopic ∈ recallNaming name BACKFILL_CANDIDATES ∧
          exists current, current ∈ memories.lookup edge.fromTopic ∧
            names (nameSequence current.content) (nameSequence name) = true := by
  have hstates : forall topic, topic ∈ topics -> forall candidate,
      candidate ∈ recallNaming topic.2 BACKFILL_CANDIDATES ->
      (currentStatesOf memories
        (((topics.map fun topic => recallNaming topic.2 BACKFILL_CANDIDATES).flatten.insertionSort
          (· <= ·)).dedup)).lookup candidate = memories.lookup candidate := by
    intro topic htopic candidate hcandidate
    apply lookup_currentStatesOf
    rw [List.mem_dedup, List.mem_insertionSort]
    exact List.mem_flatten.mpr ⟨_, List.mem_map.mpr ⟨topic, htopic, rfl⟩, hcandidate⟩
  rw [mem_claims]
  unfold backfillAll
  simp only [zip_map_self, List.mem_flatMap, List.mem_map, List.mem_filterMap, List.mem_eraseDups]
  constructor
  · intro h
    rcases h with ⟨memory, ⟨_, ⟨topic, htopic, rfl⟩, candidate, hcandidate, hfound⟩, hmentions,
      hnamed⟩
    rw [hstates topic htopic candidate hcandidate] at hfound
    rcases Option.bind_eq_some_iff.mp hfound with ⟨current, hcurrent, hcompared⟩
    split at hcompared
    · next hnames =>
      cases hcompared
      have hto : edge.toTopic = topic.1 := List.mem_singleton.mp hnamed
      have hcandidate' : edge.fromTopic = candidate := hmentions.2
      refine ⟨hmentions.1, topic.2, ?_, ?_, current, ?_, hnames.2⟩
      · rw [hto]
        exact htopic
      · rw [hcandidate']
        exact hcandidate
      · rw [hcandidate']
        exact hcurrent
    · cases hcompared
  · intro h
    rcases h with ⟨hkind, name, htopic, hcandidate, current, hcurrent, hnames⟩
    refine ⟨{ topic := edge.fromTopic, state := current.state, named := [edge.toTopic] },
      ⟨_, ⟨(edge.toTopic, name), htopic, rfl⟩, edge.fromTopic, hcandidate, ?_⟩, ⟨hkind, rfl⟩,
      List.mem_singleton.mpr rfl⟩
    rw [hstates _ htopic _ hcandidate, Option.mem_def.mp hcurrent, Option.bind_some,
      if_pos ⟨edge.distinct, hnames⟩]

theorem mem_topicsById {surface : Surface} {topics : List TopicId} {topic : TopicId}
    {text : String} :
    (topic, text) ∈ topicsById surface topics <->
      topic ∈ topics ∧ exists name, name ∈ surface.lookup topic ∧ name.text = text := by
  unfold topicsById
  constructor
  · intro h
    rcases List.mem_filterMap.mp h with ⟨other, hother, hfound⟩
    rcases Option.map_eq_some_iff.mp hfound with ⟨name, hname, hsame⟩
    cases hsame
    exact ⟨hother, name, hname, rfl⟩
  · intro h
    rcases h with ⟨htopic, name, hname, rfl⟩
    exact List.mem_filterMap.mpr ⟨topic, htopic, Option.map_eq_some_iff.mpr ⟨name, hname, rfl⟩⟩

theorem mem_currentStatesOf {memories : Memories} {topics : List TopicId} {topic : TopicId}
    {current : Current} :
    (topic, current) ∈ currentStatesOf memories topics <->
      topic ∈ topics ∧ current ∈ memories.lookup topic := by
  unfold currentStatesOf
  constructor
  · intro h
    rcases List.mem_filterMap.mp h with ⟨other, hother, hfound⟩
    rcases Option.map_eq_some_iff.mp hfound with ⟨found, hlookup, hsame⟩
    cases hsame
    exact ⟨hother, hlookup⟩
  · intro h
    exact List.mem_filterMap.mpr ⟨topic, h.1, Option.map_eq_some_iff.mpr ⟨current, h.2, rfl⟩⟩

end Segmenter

/-- A name is among the runs exactly when comparison finds it, so the mentions backfilling a
surface's topics finds are those restating finds, for the memories the index gives. -/
theorem lookup_agrees_with_comparison :
    (forall (tokens name : List Token) (widest : Nat), name.length <= widest ->
      (join name ∈ runsOfTokens tokens widest <-> names tokens name = true)) ∧
    forall (nameSequence : String -> List Token) (recallNaming : String -> Nat -> List TopicId)
      (surface : Surface) (memories : Memories), AtLeastAsWide nameSequence surface ->
      forall (topics restated : List TopicId) (edge : Edge), edge.fromTopic ∈ restated ->
        (edge ∈ (claims (backfillAll nameSequence recallNaming memories
            (topicsById surface topics))).map Prod.fst <->
          Proposed recallNaming surface topics edge ∧
            edge ∈ (claims (restateMentions nameSequence surface
              (currentStatesOf memories restated))).map Prod.fst) := by
  constructor
  · intro tokens name widest h
    exact join_mem_runsOfTokens h
  · intro nameSequence recallNaming surface memories hwide topics restated edge hrestated
    rw [mem_backfilled, mem_restated hwide]
    constructor
    · intro h
      rcases h with ⟨hkind, text, htopic, hgiven, current, hcurrent, hnames⟩
      rcases (mem_topicsById.mp htopic).2 with ⟨name, hname, rfl⟩
      refine ⟨⟨name.text, htopic, hgiven⟩, (edge.fromTopic, current), ?_, ⟨hkind, rfl⟩, name,
        hname, hnames⟩
      exact mem_currentStatesOf.mpr ⟨hrestated, hcurrent⟩
    · intro h
      rcases h with ⟨⟨text, htopic, hgiven⟩, entry, hentry, hmentions, name, hname, hnames⟩
      rcases (mem_topicsById.mp htopic).2 with ⟨other, hother, rfl⟩
      have hsame : other = name := Option.mem_unique hother hname
      have hcurrent := (mem_currentStatesOf.mp hentry).2
      rw [← hmentions.2] at hcurrent
      rw [← hsame] at hnames
      exact ⟨hmentions.1, other.text, htopic, hgiven, entry.2, hcurrent, hnames⟩

def dbToken : Token := { text := "db", filled := by decide, unspaced := by decide }

def dbSequence (text : String) : List Token :=
  if text = "db" then [dbToken] else []

def dbSurface : Surface := AList.singleton 0 { text := "db", tokenCount := 1 }

theorem dbSurface_wide : AtLeastAsWide dbSequence dbSurface := by
  apply atLeastAsWide_of_counts
  decide

def dbTopics : List TopicId := List.range' 1 501

def dbMemories : Memories :=
  { entries := dbTopics.map fun topic => ⟨topic, { state := topic, content := "db" }⟩
    nodupKeys := by
      unfold List.NodupKeys List.keys
      rw [List.map_map]
      exact (List.map_id dbTopics).symm ▸ List.nodup_range' }

def dbRecall (_name : String) (limit : Nat) : List TopicId :=
  dbTopics.take limit

def dbEdge (topic : TopicId) (h : topic ≠ 0) : Edge :=
  { fromTopic := topic, toTopic := 0, kind := EdgeKind.mentions, distinct := h }

theorem lookup_dbMemories {topic : TopicId} (h : topic ∈ dbTopics) :
    { state := topic, content := "db" } ∈ dbMemories.lookup topic :=
  AList.mem_lookup_iff.mpr (List.mem_map.mpr ⟨topic, h, rfl⟩)

theorem names_db : names (dbSequence "db") (dbSequence "db") = true := by
  decide

theorem lookup_agrees_with_comparison_once :
    dbEdge 1 (by decide) ∈ (claims (backfillAll dbSequence dbRecall dbMemories
        (topicsById dbSurface [0]))).map Prod.fst <->
      Proposed dbRecall dbSurface [0] (dbEdge 1 (by decide)) ∧
        dbEdge 1 (by decide) ∈ (claims (restateMentions dbSequence dbSurface
          (currentStatesOf dbMemories [1]))).map Prod.fst :=
  lookup_agrees_with_comparison.2 dbSequence dbRecall dbSurface dbMemories dbSurface_wide
    [0] [1] (dbEdge 1 (by decide)) (List.mem_singleton.mpr rfl)

/-- The memory past the last one the index gives is mentioned by restating it alone. -/
theorem backfilling_takes_what_the_index_gives :
    AtLeastAsWide dbSequence dbSurface ∧
      dbEdge 501 (by decide) ∈ (claims (restateMentions dbSequence dbSurface
        (currentStatesOf dbMemories dbTopics))).map Prod.fst ∧
      dbEdge 501 (by decide) ∉ (claims (backfillAll dbSequence dbRecall dbMemories
        (topicsById dbSurface [0]))).map Prod.fst := by
  have hmem : 501 ∈ dbTopics := List.mem_range'_1.mpr (by decide)
  refine ⟨dbSurface_wide, ?_, ?_⟩
  · apply (mem_restated dbSurface_wide).mpr
    exact ⟨(501, { state := 501, content := "db" }),
      mem_currentStatesOf.mpr ⟨hmem, lookup_dbMemories hmem⟩, ⟨rfl, rfl⟩,
      { text := "db", tokenCount := 1 }, rfl, names_db⟩
  · intro h
    rcases (mem_backfilled.mp h).2 with ⟨name, _, hgiven, _⟩
    have htaken : 501 ∈ (List.range' 1 501).take 500 := hgiven
    rw [List.take_range'_of_length_ge (by decide)] at htaken
    have hlt := (List.mem_range'_1.mp htaken).2
    omega

end Cascade
end PaminMemory
