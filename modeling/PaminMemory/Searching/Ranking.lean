import PaminMemory.Reranking.Invisible
import PaminMemory.Search.Placed
import PaminMemory.Searching.Gathering
import PaminMemory.Spans.Capped
import PaminMemory.Spans.Growing

/-!
# What a search gives

The reranker is shown the head of the fused list and a few finds below it, and what it says is
blended with what fusion said.  The first results of the list it leaves become hits.  Where the
source indexes, slices or expects, what is computed here is none, and the search panics.
-/

namespace PaminMemory
namespace Searching

open Foundation
open Cascade (Token)
open Reranking (Answer Ranked Reranker Text rank)
open Search (ChannelResults Fusion FusedResult Why canBeSeen place rerankable)
open Spans (SentenceSegmenter Span SpanView TokenCount growAsking spansOf)

def VIEW_TOKENS : Nat := 600

def MAX_TOKENS : Nat := 256

def RERANK_FUSION : Rat := 1 / 5

def scaledScores : List Rat -> List Rat
  | [] => []
  | first :: rest =>
      let low := rest.foldl min first
      let high := rest.foldl max first
      (first :: rest).map fun value => if low < high then (value - low) / (high - low) else 0

/-- Best-first positions by both scores, each scaled within the list; the two are of one list. -/
def scoreBlendOrder (fused model : List Rat) (fusion : Rat) : Option (List Nat) :=
  if fused.length = model.length then
    let fused' := scaledScores fused
    let model' := scaledScores model
    let score := fun position =>
      fusion * fused'.getD position 0 + (1 - fusion) * model'.getD position 0
    some ((List.range fused.length).insertionSort fun left right =>
      score right < score left ∨ (score right = score left ∧ left <= right))
  else
    none

def shownText (topic content : String) : Option String -> String
  | none => topic ++ ": " ++ content
  | some seed => topic ++ ": " ++ content ++ ". " ++ seed

/-!
## What a search gives

A search ends in hits, in an error, or where the code would panic; that it never does so is
proved, not assumed.
-/

/-- A hit of a search: a topic as it stood, where it came, and why. -/
structure SearchHit where
  topic : String
  state : Said
  result : FusedResult
  seed : Option String
  span : Option SpanView
  parent : Option String

inductive Outcome where
  | failed (error : String)
  | panicked
  /-- A text is longer than memory counts. -/
  | exhausted
  | found (hits : List SearchHit)

def Outcome.ofHits : Option (List SearchHit) -> Outcome
  | none => panicked
  | some hits => found hits

/-- What a search runs on: its models, its segmenters, and how far it goes. -/
structure Searcher (strength model backend encoding : Type) where
  arithmetic : Arithmetic
  nameSequence : String -> List Token
  spelled : TopicId -> String
  /-- What counts a memory's tokens, or how loading it fails. -/
  counter : Except String TokenCount
  segmenter : SentenceSegmenter
  /-- The cap memories are cut to, where the index cuts them. -/
  cap : Option Nat
  shared : Binary32 -> Nat -> strength
  runtime : Reranking.Runtime model backend encoding
  sha256 : List UInt8 -> Reranking.Digest
  /-- Whether the reranker loads, or how that fails. -/
  loads : Except String Unit
  depths : Depths
  fusion : Fusion

structure Window where
  cap : Nat
  counter : TokenCount
  room : Nat

def asText (text : String) : Option Text :=
  if h : text.utf8ByteSize < 2 ^ 64 then some ⟨text, h⟩ else none

def Fused.seed (fused : Fused) (topic : TopicId) : Option Said :=
  (fused.paths.lookup topic).bind fun reached => fused.live.state reached.origin

def tracedIn {num num' : Type} (number : num -> num') : Why num -> Why num'
  | Why.channel channel rank score weight contribution =>
      Why.channel channel rank (score.map number) (number weight) (number contribution)
  | Why.path source via hops => Why.path source via hops
  | Why.reranked score => Why.reranked (number score)

/-!
## What the reranker is shown

A memory is shown as the window around what it matched, which needs its spans cut and its tokens
counted; what cannot be cut or counted is shown whole.
-/

section Searcher

variable {strength model backend encoding : Type} [LinearOrder strength]
  (searcher : Searcher strength model backend encoding)

def windowFor (query : String) : Except String (Option Window) :=
  match searcher.cap with
  | none => Except.ok none
  | some cap =>
      searcher.counter.map fun counter =>
        some
          { cap := cap, counter := counter
            room := MAX_TOKENS - (4 + counter.count query.toList) }

def cut (window : Window) (said : Said) (name : String) : List Span :=
  Spans.pack window.counter searcher.segmenter name.toList said.content.toList window.cap

def rendered (spans : List Span) (seed : Option String) (first last : Nat) : Option String := do
  let run <- spansOf spans first last
  let head <- spans[first]?
  some (shownText (String.ofList head.header)
    ("\n".intercalate (run.map fun span => String.ofList span.text)) seed)

def Window.shown (window : Window) (said : Said) (name : String) (best : Nat)
    (seed : Option String) : Option String :=
  let spans := cut searcher window said name
  if spans.length = 1 ∨ spans.length <= best then
    some (shownText name said.content seed)
  else do
    let run <- growAsking best spans.length fun first last =>
      (rendered spans seed first last).map fun text =>
        decide (window.counter.count text.toList <= window.room)
    rendered spans seed run.1 run.2

def Window.view (window : Window) (said : Said) (name : String) (best : Nat) :
    Option (Option SpanView) :=
  let spans := cut searcher window said name
  if spans.length = 1 then some none else SpanView.within spans best VIEW_TOKENS

def sliceOf (content : List Char) (range : Stretch) : Option String :=
  if range.start <= range.stop ∧ range.stop <= content.length then
    some (String.ofList (Spans.slice content range))
  else
    none

def Window.naming (window : Window) (seed : Said) (reached : String) : Option String :=
  let spans := cut searcher window seed ""
  let wanted := searcher.nameSequence reached
  if spans.length = 1 then
    some seed.content
  else
    match spans.find? fun span =>
        Cascade.names (searcher.nameSequence (String.ofList span.text)) wanted with
    | none => some seed.content
    | some span => sliceOf seed.content.toList span.range

def Fused.shownOf (fused : Fused) (window : Option Window) (result : FusedResult) :
    Option String := do
  let said <- fused.live.state result.topic
  let name := fused.live.topicName searcher.spelled result.topic
  match window, fused.seed result.topic with
  | none, seed => some (shownText name said.content (seed.map Said.content))
  | some window, none => window.shown searcher said name result.span none
  | some window, some seed =>
      (window.naming searcher seed name).bind fun seed =>
        window.shown searcher said name result.span (some seed)

/-- A result with the state it stands for. -/
def Fused.hit (fused : Fused) (window : Option Window) (result : FusedResult) :
    Option SearchHit := do
  let said <- fused.live.state result.topic
  let name := fused.live.topicName searcher.spelled result.topic
  let span <-
    match window with
    | none => some none
    | some window => window.view searcher said name result.span
  some
    { topic := name, state := said, result := result
      seed := (fused.seed result.topic).map Said.content
      span := span
      parent := none }

def Fused.hits (fused : Fused) (results : List FusedResult) (limit : Nat)
    (window : Option Window) : Option (List SearchHit) :=
  (results.take limit).mapM (fused.hit searcher window)

/-!
## The two scores

The head of the fused list is looked at by the reranker, and its scores are blended with fusion's.
-/

def lookedAt (fused : Fused) : List Nat :=
  rerankable searcher.shared
    (fused.results.map fun result => result.why.map (tracedIn searcher.arithmetic.rounded))
    searcher.depths.rerank

def marked (unlexical : List Nat) (results : List FusedResult) :
    List Ranked -> Option (List FusedResult)
  | [] => some results
  | ranked :: rest => do
      let position <- unlexical[ranked.position]?
      let result <- results[position]?
      marked unlexical (results.set position
        { result with
          why := result.why ++ [Why.reranked (searcher.arithmetic.exact ranked.score)] }) rest

def scoresFrom (scores : List Rat) : List Ranked -> Option (List Rat)
  | [] => some scores
  | ranked :: rest =>
      if ranked.position < scores.length then
        scoresFrom (scores.set ranked.position (searcher.arithmetic.exact ranked.score)) rest
      else
        none

def modelScores (order : List Ranked) : Option (List Rat) :=
  scoresFrom searcher (List.replicate order.length 0) order

def rearranged (fused : Fused) (unlexical : List Nat) (order : List Ranked) :
    Option (List FusedResult) := do
  let results <- marked searcher unlexical fused.results order
  let fusedScores <- unlexical.mapM fun position => results[position]?.map FusedResult.score
  let modelScores <- modelScores searcher order
  let bestFirst <- scoreBlendOrder fusedScores modelScores RERANK_FUSION
  place results unlexical searcher.depths.rerank bestFirst

def fusedOf (reads : Reads) (query : String) (lists : List ChannelResults) :
    Except String Fused :=
  fused searcher.arithmetic searcher.nameSequence searcher.spelled searcher.depths searcher.fusion
    reads query lists

def answeredHits (fused : Fused) (unlexical : List Nat) (limit : Nat) (window : Option Window) :
    Answer model -> Outcome
  | Answer.ranked order _ =>
      Outcome.ofHits ((rearranged searcher fused unlexical order).bind fun results =>
        fused.hits searcher results limit window)
  | Answer.failed error => Outcome.failed error.display
  | Answer.panicked => Outcome.panicked
  | Answer.unfinished => Outcome.panicked

def rerankedHits (fused : Fused) (query : String) (limit : Nat) (window : Option Window)
    (s : Reranker model) : Outcome × Reranker model :=
  let unlexical := lookedAt searcher fused
  match unlexical.mapM fun position =>
      fused.results[position]?.bind (fused.shownOf searcher window) with
  | none => (Outcome.panicked, s)
  | some shown =>
      match searcher.loads with
      | Except.error error => (Outcome.failed error, s)
      | Except.ok _ =>
          match asText query, shown.mapM asText with
          | some query, some documents =>
              let called := rank searcher.runtime searcher.sha256 query documents s
              (answeredHits searcher fused unlexical limit window called.1, called.2)
          | _, _ => (Outcome.exhausted, s)

/-- The first hits of a fused list; what cannot be seen is not reranked. -/
def rankedHits (fused : Fused) (query : String) (limit : Nat) (s : Reranker model) :
    Outcome × Reranker model :=
  match windowFor searcher query with
  | Except.error error => (Outcome.failed error, s)
  | Except.ok window =>
      if fused.results = [] then
        (Outcome.ofHits (fused.hits searcher fused.results limit window), s)
      else if !canBeSeen (lookedAt searcher fused) limit then
        (Outcome.ofHits (fused.hits searcher fused.results limit window), s)
      else
        rerankedHits searcher fused query limit window s

def ranked (reads : Reads) (query : String) (lists : List ChannelResults) (limit : Nat)
    (s : Reranker model) : Outcome × Reranker model :=
  match fusedOf searcher reads query lists with
  | Except.error error => (Outcome.failed error, s)
  | Except.ok fused => rankedHits searcher fused query limit s

/-!
## Hits under their parents
-/

def targets (ledger : Graph.Ledger) (topics : List TopicId) (kind : Graph.EdgeKind) :
    List (TopicId × TopicId) :=
  (ledger.filter fun relationship =>
    relationship.edge.fromTopic ∈ topics ∧ relationship.edge.kind = kind ∧
      relationship.versions.any Graph.RelationshipVersion.isLive).map fun relationship =>
        (relationship.edge.fromTopic, relationship.edge.toTopic)

end Searcher

end Searching
end PaminMemory
