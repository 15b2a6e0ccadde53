import Mathlib.Data.Nat.Digits.Defs
import Mathlib.Data.Prod.Lex
import PaminMemory.Foundation.Highest
import PaminMemory.Foundation.Leading
import PaminMemory.Recalling.Deepening
import PaminMemory.Recalling.Keys
import PaminMemory.Topics.Filter

/-!
# Recall by words

The engine scores documents and returns as many as it is asked for, which of those with one
score is its own choice.  They are read as spans, put in order and collapsed into topics.
-/

namespace PaminMemory
namespace Recalling

open Foundation

/-- A document the engine returned. -/
structure Doc (score : Type) where
  pk : Option String
  score : score
deriving DecidableEq, Repr

def Identifier.topic (id : Identifier) : TopicId :=
  Nat.ofDigits 256 (id.bytes.reverse.map UInt8.toNat)

def Doc.span {score : Type} (keys : Keys) (crate : UuidCrate) (orient : score -> score)
    (doc : Doc score) : Option (Span score) := do
  let (id, ordinal) ← keys.span crate (← doc.pk)
  some { topic := id.topic, ordinal := ordinal.toNat, score := orient doc.score }

def collectScored {score : Type} (keys : Keys) (crate : UuidCrate) (docs : List (Doc score))
    (orient : score -> score) : List (Span score) :=
  docs.filterMap (Doc.span keys crate orient)

def FIELD_ID : String := "id"

/-- What the engine is asked. -/
structure SearchQuery where
  field : String
  matchString : String
  topk : Int32
  outputFields : List String
  operator : Option String
deriving DecidableEq, Repr

def lexicalQuery (field query : String) (everyTerm : Bool) (depth : UInt32) : SearchQuery :=
  { field := field
    matchString := query
    topk := depth.toInt32
    outputFields := [FIELD_ID]
    operator := if everyTerm then some "AND" else none }

def isBlank (query : String) : Bool := query.toList.all Topics.isWhitespace

section Recall

variable {score error : Type} [LinearOrder score]

def Span.place (span : Span score) : scoreᵒᵈ ×ₗ (TopicId ×ₗ Nat) :=
  toLex (OrderDual.toDual span.score, toLex (span.topic, span.ordinal))

def ordered (spans : List (Span score)) : List (Span score) :=
  spans.insertionSort fun left right => left.place <= right.place

def recallFts (keys : Keys) (crate : UuidCrate)
    (engine : SearchQuery -> Except error (List (Doc score))) (grain : Grain)
    (field query : String) (limit : UInt32) (everyTerm : Bool) :
    Except error (List (Scored score)) :=
  if isBlank query then
    Except.ok []
  else
    deepest grain limit fun depth =>
      (engine (lexicalQuery field query everyTerm depth)).map fun docs =>
        collapse (ordered (collectScored keys crate docs id))

/-- The documents a search scores, no two of them read as the same span. -/
structure Documents (keys : Keys) (crate : UuidCrate) (score : Type) where
  list : List (Doc score)
  distinct : ((collectScored keys crate list id).map fun span =>
    (span.topic, span.ordinal)).Nodup

/-- A layout answers with as many documents as it is asked for, of the highest scores. -/
def Answers {keys : Keys} {crate : UuidCrate} (documents : Documents keys crate score)
    (field query : String) (everyTerm : Bool)
    (engine : SearchQuery -> Except error (List (Doc score))) : Prop :=
  forall depth, exists docs, engine (lexicalQuery field query everyTerm depth) = Except.ok docs ∧
    Highest Doc.score depth.toNat documents.list docs

def topicsOf (keys : Keys) (crate : UuidCrate) (docs : List (Doc score)) : Finset TopicId :=
  ((collectScored keys crate docs id).map Span.topic).toFinset

/--
Where the depth ends within the documents of one score, there are topics enough above them, or
they are of no other topics.
-/
def Settled {keys : Keys} {crate : UuidCrate} (documents : Documents keys crate score)
    (depth limit : Nat) : Prop :=
  forall cut, CutAt Doc.score depth documents.list cut ->
    limit <= (topicsOf keys crate (higher Doc.score cut documents.list)).card ∨
      topicsOf keys crate (level Doc.score cut documents.list) ⊆
        topicsOf keys crate (higher Doc.score cut documents.list)

end Recall

/-!
## What a list of documents is collapsed to
-/

section Spans

variable {score : Type} {keys : Keys} {crate : UuidCrate} {docs : List (Doc score)}

theorem place_injective :
    Function.Injective (Span.place : Span score -> scoreᵒᵈ ×ₗ (TopicId ×ₗ Nat)) := by
  intro left right h
  have hparts := Prod.mk.inj (toLex_inj.mp h)
  have hkey := Prod.mk.inj (toLex_inj.mp hparts.2)
  cases left
  cases right
  congr 1
  · exact hkey.1
  · exact hkey.2
  · exact OrderDual.toDual_inj.mp hparts.1

theorem scored_injective :
    Function.Injective (Span.scored : Span score -> Scored score) := by
  intro left right h
  cases left
  cases right
  cases h
  rfl

theorem span_of_collected {span : Span score} (h : span ∈ collectScored keys crate docs id) :
    exists doc, doc ∈ docs ∧ doc.span keys crate id = some span ∧ span.score = doc.score := by
  rcases List.mem_filterMap.mp h with ⟨doc, hdoc, hspan⟩
  refine ⟨doc, hdoc, hspan, ?_⟩
  unfold Doc.span at hspan
  cases hpk : doc.pk with
  | none =>
      rw [hpk] at hspan
      cases hspan
  | some key =>
      cases hread : keys.span crate key with
      | none =>
          simp [hpk, hread] at hspan
      | some parts =>
          simp only [hpk, hread, Option.bind_eq_bind, Option.bind_some, Option.some.injEq] at hspan
          rw [← hspan]
          rfl

end Spans

section Order

variable {score error : Type} [LinearOrder score] {keys : Keys} {crate : UuidCrate}
  {docs left right : List (Doc score)} {spans lefts rights : List (Span score)}

theorem perm_ordered (spans : List (Span score)) : (ordered spans).Perm spans :=
  List.perm_insertionSort _ spans

theorem pairwise_ordered (spans : List (Span score)) :
    (ordered spans).Pairwise fun left right => left.place <= right.place := by
  have htotal : Std.Total fun left right : Span score => left.place <= right.place :=
    ⟨fun left right => le_total left.place right.place⟩
  have htrans : IsTrans (Span score) fun left right => left.place <= right.place :=
    ⟨fun _ _ _ hfirst hsecond => le_trans hfirst hsecond⟩
  exact List.pairwise_insertionSort _ spans

theorem eq_ordered (hsorted : lefts.Pairwise fun left right => left.place <= right.place)
    (hperm : lefts.Perm spans) : lefts = ordered spans := by
  apply List.Perm.eq_of_pairwise _ hsorted (pairwise_ordered spans)
    (hperm.trans (perm_ordered spans).symm)
  intro left right _ _ hle hge
  exact place_injective (le_antisymm hle hge)

theorem ordered_of_perm (h : lefts.Perm rights) : ordered lefts = ordered rights :=
  eq_ordered (pairwise_ordered lefts) ((perm_ordered lefts).trans h)

theorem place_le_of_score {left right : Span score} (h : right.score < left.score) :
    left.place <= right.place := by
  apply le_of_lt
  apply Prod.Lex.toLex_lt_toLex.mpr
  exact Or.inl (OrderDual.toDual_lt_toDual.mpr h)

theorem ordered_append
    (h : forall left right, left ∈ lefts -> right ∈ rights -> right.score < left.score) :
    ordered (lefts ++ rights) = ordered lefts ++ ordered rights := by
  symm
  apply eq_ordered
  · rw [List.pairwise_append]
    refine ⟨pairwise_ordered lefts, pairwise_ordered rights, ?_⟩
    intro left hleft right hright
    apply place_le_of_score
    exact h left right ((perm_ordered lefts).mem_iff.mp hleft)
      ((perm_ordered rights).mem_iff.mp hright)
  · exact (perm_ordered lefts).append (perm_ordered rights)

theorem length_collapse (spans : List (Span score)) :
    (collapse (ordered spans)).length = (spans.map Span.topic).toFinset.card := by
  rw [collapse, List.length_map, length_firsts]
  congr 1
  ext topic
  rw [List.mem_toFinset, List.mem_toFinset, ((perm_ordered spans).map Span.topic).mem_iff]

def recalled (keys : Keys) (crate : UuidCrate) (docs : List (Doc score)) : List (Scored score) :=
  collapse (ordered (collectScored keys crate docs id))

theorem recalled_of_perm (h : left.Perm right) :
    recalled keys crate left = recalled keys crate right := by
  have hspans : (collectScored keys crate left id).Perm (collectScored keys crate right id) :=
    List.Perm.filterMap _ h
  unfold recalled
  rw [ordered_of_perm hspans]

theorem mem_recalled {span : Span score} (h : span.scored ∈ recalled keys crate docs) :
    span ∈ collectScored keys crate docs id := by
  rcases List.mem_map.mp h with ⟨taken, htaken, hsame⟩
  rw [← scored_injective hsame]
  exact (perm_ordered _).mem_iff.mp (mem_of_mem_firsts htaken).1

end Order

/-!
## A cut within one score
-/

section Cut

variable {score error : Type} [LinearOrder score] {keys : Keys} {crate : UuidCrate}
  {docs whole chosen : List (Doc score)} {cut : score} {limit : Nat}

theorem recalled_of_cut (hperm : docs.Perm (higher Doc.score cut whole ++ chosen))
    (hchosen : forall doc, doc ∈ chosen -> doc.score = cut) :
    recalled keys crate docs = recalled keys crate (higher Doc.score cut whole) ++
      (firsts Span.topic
        (metAfter Span.topic ∅ (ordered (collectScored keys crate
          (higher Doc.score cut whole) id)))
        (ordered (collectScored keys crate chosen id))).map Span.scored := by
  rw [recalled_of_perm hperm]
  unfold recalled collectScored
  rw [List.filterMap_append, ordered_append, collapse, firsts_append, List.map_append]
  · rfl
  · intro left right hleft hright
    rcases span_of_collected hleft with ⟨above, habove, _, hleftScore⟩
    rcases span_of_collected hright with ⟨at_, hat, _, hrightScore⟩
    rw [hleftScore, hrightScore, hchosen at_ hat]
    exact (mem_higher.mp habove).2

theorem mem_met {spans : List (Span score)} {topic : TopicId} :
    topic ∈ metAfter Span.topic ∅ (ordered spans) <-> topic ∈ (spans.map Span.topic).toFinset := by
  rw [mem_metAfter, ((perm_ordered spans).map Span.topic).mem_iff, List.mem_toFinset]
  exact or_iff_right (Finset.notMem_empty topic)

theorem length_recalled (docs : List (Doc score)) :
    (recalled keys crate docs).length = (topicsOf keys crate docs).card :=
  length_collapse _

theorem take_recalled_of_cut (hperm : docs.Perm (higher Doc.score cut whole ++ chosen))
    (hchosen : forall doc, doc ∈ chosen -> doc ∈ level Doc.score cut whole)
    (hsettled : limit <= (topicsOf keys crate (higher Doc.score cut whole)).card ∨
      topicsOf keys crate (level Doc.score cut whole) ⊆
        topicsOf keys crate (higher Doc.score cut whole)) :
    (recalled keys crate docs).take limit =
      (recalled keys crate (higher Doc.score cut whole)).take limit := by
  rw [recalled_of_cut hperm fun doc hdoc => (mem_level.mp (hchosen doc hdoc)).2]
  cases hsettled with
  | inl henough =>
      rw [List.take_append_of_le_length]
      rw [length_recalled]
      exact henough
  | inr hold =>
      rw [firsts_of_met, List.map_nil, List.append_nil]
      intro span hspan
      rw [mem_met]
      apply hold
      rw [topicsOf, List.mem_toFinset]
      apply List.mem_map_of_mem
      have hcollected := (perm_ordered _).mem_iff.mp hspan
      rcases List.mem_filterMap.mp hcollected with ⟨doc, hdoc, hread⟩
      exact List.mem_filterMap.mpr ⟨doc, hchosen doc hdoc, hread⟩

theorem take_recalled_of_settled {documents : Documents keys crate score} {depth : Nat}
    {one other : List (Doc score)} (hsettled : Settled documents depth limit)
    (hone : Highest Doc.score depth documents.list one)
    (hother : Highest Doc.score depth documents.list other) :
    (recalled keys crate one).take limit = (recalled keys crate other).take limit := by
  have hlevel : forall docs rest : List (Doc score), forall cut,
      (docs ++ rest).Perm documents.list -> forall doc, doc ∈ level Doc.score cut docs ->
        doc ∈ level Doc.score cut documents.list := by
    intro docs rest cut hperm doc hdoc
    rcases mem_level.mp hdoc with ⟨hmem, hscore⟩
    exact mem_level.mpr ⟨hperm.subset (List.mem_append_left rest hmem), hscore⟩
  rcases perm_or_cut hone hother with hsame | ⟨cut, hcut, honeParts, hotherParts⟩
  · rw [recalled_of_perm hsame]
  · rcases hone with ⟨oneRest, honePerm, _⟩
    rcases hother with ⟨otherRest, hotherPerm, _⟩
    rw [take_recalled_of_cut honeParts (hlevel one oneRest cut honePerm) (hsettled cut hcut),
      take_recalled_of_cut hotherParts (hlevel other otherRest cut hotherPerm) (hsettled cut hcut)]

theorem exists_least (met : Finset TopicId) {spans : List (Span score)}
    (h : exists span, span ∈ spans ∧ span.topic ∉ met) :
    exists span, span ∈ spans ∧ span.topic ∉ met ∧
      forall other, other ∈ spans -> other.topic ∉ met -> span.place <= other.place := by
  have hmem : forall span, span ∈ (ordered spans).filter (fun span => span.topic ∉ met) <->
      span ∈ spans ∧ span.topic ∉ met := by
    intro span
    rw [List.mem_filter, (perm_ordered spans).mem_iff, decide_eq_true_eq]
  have hsorted := (pairwise_ordered spans).filter fun span => span.topic ∉ met
  cases hnew : (ordered spans).filter fun span => span.topic ∉ met with
  | nil =>
      rcases h with ⟨span, hspan⟩
      have hnone := (hmem span).mpr hspan
      rw [hnew] at hnone
      cases hnone
  | cons span rest =>
      rw [hnew] at hmem hsorted
      have hspan := (hmem span).mp List.mem_cons_self
      refine ⟨span, hspan.1, hspan.2, ?_⟩
      intro other hother hothernew
      rcases List.mem_cons.mp ((hmem other).mpr ⟨hother, hothernew⟩) with rfl | hrest
      · exact le_refl _
      · exact (List.pairwise_cons.mp hsorted).1 other hrest

theorem seen_of_chosen {span : Span score}
    (hchosen : forall doc, doc ∈ chosen -> doc ∈ level Doc.score cut whole)
    (hspan : span ∈ collectScored keys crate chosen id)
    (hnew : span.topic ∉ topicsOf keys crate (higher Doc.score cut whole))
    (hleast : forall other, other ∈ collectScored keys crate (level Doc.score cut whole) id ->
      other.topic ∉ topicsOf keys crate (higher Doc.score cut whole) -> span.place <= other.place)
    (hroom : (topicsOf keys crate (higher Doc.score cut whole)).card < limit) :
    span.scored ∈
      (recalled keys crate (higher Doc.score cut whole ++ chosen)).take limit := by
  have hfirst : exists more, firsts Span.topic
      (metAfter Span.topic ∅ (ordered (collectScored keys crate
        (higher Doc.score cut whole) id)))
      (ordered (collectScored keys crate chosen id)) = span :: more := by
    apply firsts_of_least (pairwise_ordered _)
    · intro one other hle hge
      exact place_injective (le_antisymm hle hge)
    · exact (perm_ordered _).mem_iff.mpr hspan
    · rw [mem_met]
      exact hnew
    · intro other hother hothernew
      rw [mem_met] at hothernew
      rcases List.mem_filterMap.mp ((perm_ordered _).mem_iff.mp hother) with ⟨doc, hdoc, hread⟩
      exact hleast other (List.mem_filterMap.mpr ⟨doc, hchosen doc hdoc, hread⟩) hothernew
  rcases hfirst with ⟨more, hmore⟩
  rw [recalled_of_cut (List.Perm.refl _) fun doc hdoc => (mem_level.mp (hchosen doc hdoc)).2,
    hmore, List.map_cons]
  rcases Nat.exists_eq_succ_of_ne_zero (Nat.sub_ne_zero_of_lt hroom) with ⟨extra, hleft⟩
  rw [List.take_append, length_recalled, hleft]
  exact List.mem_append_right _ List.mem_cons_self

theorem not_collected_twice {documents : Documents keys crate score} {doc : Doc score}
    {others : List (Doc score)} {span : Span score}
    (htied : (level Doc.score cut documents.list).Perm (doc :: others))
    (hread : doc.span keys crate id = some span) : span ∉ collectScored keys crate others id := by
  have hdistinct : (collectScored keys crate documents.list id).Nodup :=
    List.Nodup.of_map _ documents.distinct
  have hsub : (collectScored keys crate (level Doc.score cut documents.list) id).Nodup :=
    hdistinct.sublist (List.Sublist.filterMap _ List.filter_sublist)
  have hperm : (collectScored keys crate (level Doc.score cut documents.list) id).Perm
      (collectScored keys crate (doc :: others) id) := List.Perm.filterMap _ htied
  have hnodup := hperm.nodup_iff.mp hsub
  rw [collectScored, List.filterMap_cons_some hread, List.nodup_cons] at hnodup
  exact hnodup.1

theorem differ_of_not_settled {documents : Documents keys crate score} {depth : Nat}
    (h : ¬ Settled documents depth limit) : exists one other,
      Highest Doc.score depth documents.list one ∧ Highest Doc.score depth documents.list other ∧
        (recalled keys crate one).take limit ≠ (recalled keys crate other).take limit := by
  unfold Settled at h
  push Not at h
  rcases h with ⟨cut, hcut, hroom, hnot⟩
  let above := higher Doc.score cut documents.list
  let tied := level Doc.score cut documents.list
  have hnew : exists span, span ∈ collectScored keys crate tied id ∧
      span.topic ∉ topicsOf keys crate above := by
    rcases Finset.not_subset.mp hnot with ⟨topic, htopic, hnottopic⟩
    rcases List.mem_map.mp (List.mem_toFinset.mp htopic) with ⟨span, hspan, rfl⟩
    exact ⟨span, hspan, hnottopic⟩
  rcases exists_least _ hnew with ⟨span, hspan, hspanNew, hleast⟩
  rcases span_of_collected hspan with ⟨doc, hdoc, hread, hscore⟩
  let others := tied.erase doc
  have htied : tied.Perm (doc :: others) := List.perm_cons_erase hdoc
  have hlength : (level Doc.score cut documents.list).length = others.length + 1 :=
    htied.length_eq
  have hsome := hcut.some_of_level
  have hmore := hcut.not_all_of_level
  rcases Nat.exists_eq_succ_of_ne_zero (Nat.sub_ne_zero_of_lt hsome) with ⟨m, hm⟩
  have hwith : (doc :: others.take m ++ others.drop m).Perm tied := by
    rw [List.cons_append, List.take_append_drop]
    exact htied.symm
  have hwithout : (others.take (m + 1) ++ doc :: others.drop (m + 1)).Perm tied := by
    apply List.perm_middle.trans
    rw [List.take_append_drop]
    exact htied.symm
  refine ⟨above ++ doc :: others.take m, above ++ others.take (m + 1), ?_, ?_, ?_⟩
  · apply highest_of_cut hcut hwith
    rw [List.length_cons, List.length_take]
    omega
  · apply highest_of_cut hcut hwithout
    rw [List.length_take]
    omega
  · intro hsame
    have hseen : span.scored ∈
        (recalled keys crate (above ++ doc :: others.take m)).take limit := by
      apply seen_of_chosen _ _ hspanNew hleast hroom
      · exact fun chosen hchosen => hwith.subset (List.mem_append_left _ hchosen)
      · exact List.mem_filterMap.mpr ⟨doc, List.mem_cons_self, hread⟩
    rw [hsame] at hseen
    have hagain := mem_recalled (List.mem_of_mem_take hseen)
    rw [collectScored, List.filterMap_append] at hagain
    cases List.mem_append.mp hagain with
    | inl habove =>
        rcases span_of_collected habove with ⟨other, hother, _, hotherScore⟩
        have hgreater := (mem_higher.mp hother).2
        rw [← hotherScore, hscore, (mem_level.mp hdoc).2] at hgreater
        exact lt_irrefl cut hgreater
    | inr hrest =>
        rcases List.mem_filterMap.mp hrest with ⟨other, hother, hotherRead⟩
        apply not_collected_twice htied hread
        exact List.mem_filterMap.mpr ⟨other, List.mem_of_mem_take hother, hotherRead⟩

end Cut

/-!
## Documents as an index writes them
-/

section Written

theorem topic_injective : Function.Injective Identifier.topic := by
  intro one other h
  have hbytes : one.bytes.reverse.map UInt8.toNat = other.bytes.reverse.map UInt8.toNat := by
    apply Nat.ofDigits_inj_of_len_eq (by decide) _ _ _ h
    · simp only [List.length_map, List.length_reverse, one.length_eq, other.length_eq]
    · intro n hn
      rcases List.mem_map.mp hn with ⟨b, _, rfl⟩
      exact b.toNat_lt
    · intro n hn
      rcases List.mem_map.mp hn with ⟨b, _, rfl⟩
      exact b.toNat_lt
  apply Identifier.ext
  apply List.reverse_injective
  exact List.map_injective_iff.mpr (fun _ _ => UInt8.toNat_inj.mp) hbytes

variable {score : Type} {keys : Keys} {crate : UuidCrate}

def written (keys : Keys) (span : (Identifier × UInt32) × score) : Doc score :=
  { pk := some (keys.spanKey span.1.1 span.1.2), score := span.2 }

theorem collectScored_written (spans : List ((Identifier × UInt32) × score)) :
    collectScored keys crate (spans.map (written keys)) id =
      spans.map fun span =>
        { topic := span.1.1.topic, ordinal := span.1.2.toNat, score := span.2 } := by
  unfold collectScored
  rw [List.filterMap_map, ← List.filterMap_eq_map]
  congr 1
  funext span
  simp only [Function.comp, Doc.span, written, Option.bind_eq_bind, Option.bind_some,
    span_spanKey]
  rfl

/-- An index keeps a document for a key, so what it writes is read as spans of their own. -/
def Documents.written (keys : Keys) (crate : UuidCrate)
    (spans : List ((Identifier × UInt32) × score)) (h : (spans.map Prod.fst).Nodup) :
    Documents keys crate score where
  list := spans.map (Recalling.written keys)
  distinct := by
    rw [collectScored_written, List.map_map]
    have hpair : Function.Injective fun key : Identifier × UInt32 =>
        (key.1.topic, key.2.toNat) := by
      intro one other hsame
      have hparts := Prod.mk.inj hsame
      exact Prod.ext (topic_injective hparts.1) (UInt32.toNat_inj.mp hparts.2)
    have hkeys := h.map hpair
    rw [List.map_map] at hkeys
    exact hkeys

end Written

/-!
## Two layouts
-/

section Layouts

variable {score error : Type} [LinearOrder score] {keys : Keys} {crate : UuidCrate}

theorem exists_answering (error : Type) (documents : Documents keys crate score)
    (field query : String) (everyTerm : Bool) {depth : UInt32} {docs : List (Doc score)}
    (hdocs : Highest Doc.score depth.toNat documents.list docs) :
    exists engine : SearchQuery -> Except error (List (Doc score)),
      Answers documents field query everyTerm engine ∧
        engine (lexicalQuery field query everyTerm depth) = Except.ok docs := by
  let engine : SearchQuery -> Except error (List (Doc score)) := fun search =>
    if search.topk = depth.toInt32 then
      Except.ok docs
    else
      Except.ok ((documents.list.insertionSort fun left right =>
        right.score <= left.score).take search.topk.toUInt32.toNat)
  refine ⟨engine, ?_, if_pos rfl⟩
  intro other
  rcases Decidable.em (other.toInt32 = depth.toInt32) with hsame | hdiffer
  · have hdepth : other = depth := congrArg Int32.toUInt32 hsame
    rw [hdepth]
    exact ⟨docs, if_pos rfl, hdocs⟩
  · exact ⟨_, if_neg hdiffer, highest_take_sorted Doc.score other.toNat documents.list⟩

theorem recallFts_of_answer {engine : SearchQuery -> Except error (List (Doc score))}
    {grain : Grain} {field query : String} {limit : UInt32} {everyTerm : Bool}
    {docs : List (Doc score)} (hblank : ¬ isBlank query)
    (h : engine (lexicalQuery field query everyTerm (deepestDepth grain limit)) =
      Except.ok docs) :
    recallFts keys crate engine grain field query limit everyTerm =
      Except.ok ((recalled keys crate docs).take limit.toNat) := by
  unfold recallFts deepest
  dsimp only
  rw [if_neg hblank, h]
  rfl

end Layouts

/--
Any two layouts that score the documents the same recall the same exactly where the query is
blank, or the depth does not end within a tie that is seen.
-/
theorem recallFts_same_iff {score error : Type} [LinearOrder score] {keys : Keys}
    {crate : UuidCrate} (documents : Documents keys crate score) (grain : Grain)
    (field query : String) (limit : UInt32) (everyTerm : Bool) :
    (forall one other : SearchQuery -> Except error (List (Doc score)),
      Answers documents field query everyTerm one ->
      Answers documents field query everyTerm other ->
        recallFts keys crate one grain field query limit everyTerm =
          recallFts keys crate other grain field query limit everyTerm) <->
      isBlank query ∨ Settled documents (deepestDepth grain limit).toNat limit.toNat := by
  constructor
  · intro hsame
    rcases Decidable.em (isBlank query = true) with hblank | hblank
    · exact Or.inl hblank
    · right
      apply Classical.byContradiction
      intro hnot
      rcases differ_of_not_settled hnot with ⟨one, other, hone, hother, hdiffer⟩
      rcases exists_answering error documents field query everyTerm hone with
        ⟨oneEngine, honeAnswers, honeDocs⟩
      rcases exists_answering error documents field query everyTerm hother with
        ⟨otherEngine, hotherAnswers, hotherDocs⟩
      have hequal := hsame oneEngine otherEngine honeAnswers hotherAnswers
      rw [recallFts_of_answer hblank honeDocs, recallFts_of_answer hblank hotherDocs] at hequal
      exact hdiffer (Except.ok.inj hequal)
  · intro hsettled one other hone hother
    rcases Decidable.em (isBlank query = true) with hblank | hblank
    · unfold recallFts
      rw [if_pos hblank, if_pos hblank]
    · rcases hone (deepestDepth grain limit) with ⟨oneDocs, honeDocs, honeHighest⟩
      rcases hother (deepestDepth grain limit) with ⟨otherDocs, hotherDocs, hotherHighest⟩
      rw [recallFts_of_answer hblank honeDocs, recallFts_of_answer hblank hotherDocs,
        take_recalled_of_settled (hsettled.resolve_left hblank) honeHighest hotherHighest]

def nine : List ((Identifier × UInt32) × Nat) :=
  [1, 2, 3, 4, 5, 6, 7, 8, 9].map fun n =>
    (({ bytes := n :: List.replicate 15 0, length_eq := rfl }, 0), 1)

/-- Asked for one topic, a layout that leaves the first out finds another than one that does not. -/
theorem tie_at_cut_is_seen :
    let documents := Documents.written Keys.topic reader nine (by decide)
    exists one other : SearchQuery -> Except Empty (List (Doc Nat)),
      Answers documents "content_ngram" "word" false one ∧
      Answers documents "content_ngram" "word" false other ∧
        recallFts Keys.topic reader one (Grain.spans 512) "content_ngram" "word" 1 false ≠
          recallFts Keys.topic reader other (Grain.spans 512) "content_ngram" "word" 1 false := by
  intro documents
  have hlevel : forall doc, doc ∈ documents.list -> doc.score = 1 := by decide +kernel
  refine ⟨fun search => Except.ok (documents.list.take search.topk.toUInt32.toNat),
    fun search => Except.ok (documents.list.reverse.take search.topk.toUInt32.toNat), ?_, ?_, ?_⟩
  · intro depth
    exact ⟨_, rfl, highest_take_of_level (List.Perm.refl _) hlevel⟩
  · intro depth
    exact ⟨_, rfl, highest_take_of_level (List.reverse_perm _) hlevel⟩
  · decide +kernel

end Recalling
end PaminMemory
