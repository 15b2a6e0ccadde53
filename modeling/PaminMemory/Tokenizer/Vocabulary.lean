import Mathlib.Algebra.GroupWithZero.Nat
import Mathlib.Algebra.Order.Ring.Rat
import PaminMemory.Foundation.Keyed
import PaminMemory.Foundation.Utf8

/-!
# A Unigram vocabulary

Pieces with their scores, and a trie from the bytes of each to its id.  Scores are exact
numbers.
-/

namespace PaminMemory
namespace Tokenizer

open Foundation

abbrev Vocab := List (List Char × ℚ)

def numbered (vocab : Vocab) : List (List UInt8 × Nat) :=
  vocab.zipIdx.map fun listed => (utf8 listed.1.1, listed.2)

/-- What the trie is built over: each piece once, under its later id. -/
def keys (vocab : Vocab) : List (List UInt8 × Nat) :=
  keepLater (fun bytes : List UInt8 => bytes.map UInt8.toNat) (numbered vocab)

/-- A double-array trie from keys to their values. -/
structure Trie where
  commonPrefixSearch : List UInt8 -> List (Nat × Nat)
  exactMatchSearch : List UInt8 -> Option Nat

/-- A trie holds some keys: it finds those that begin some bytes, shortest first, with their
lengths, and a key itself.  It is not asked about a zero byte, nor for an empty key. -/
structure Trie.Holds (trie : Trie) (keys : List (List UInt8 × Nat)) : Prop where
  prefixes : forall bytes, 0 ∉ bytes ->
    trie.commonPrefixSearch bytes =
      (keys.filter fun key => key.1.isPrefixOf bytes).map fun key => (key.2, key.1.length)
  exact : forall bytes, bytes ≠ [] -> 0 ∉ bytes ->
    trie.exactMatchSearch bytes = (keys.find? fun key => key.1 = bytes).map Prod.snd

/-- What builds tries. -/
structure Builder where
  build : List (List UInt8 × Nat) -> Option Trie
  holds : forall keys trie, build keys = some trie -> trie.Holds keys

def Builder.everyKey : Builder where
  build := fun keys =>
    some
      { commonPrefixSearch := fun bytes =>
          (keys.filter fun key => key.1.isPrefixOf bytes).map fun key => (key.2, key.1.length)
        exactMatchSearch := fun bytes => (keys.find? fun key => key.1 = bytes).map Prod.snd }
  holds := by
    intro keys trie htrie
    cases htrie
    exact ⟨fun _ _ => rfl, fun _ _ _ => rfl⟩

structure Unigram where
  trie : Trie
  scores : List ℚ
  unkId : Option Nat
  /-- What a character no piece starts with scores. -/
  unkScore : ℚ
  byteFallback : Bool

def isKey (text : List Char) : Bool := text ≠ [] && !text.contains (Char.ofNat 0)

def minScore (vocab : Vocab) : ℚ := ((vocab.map Prod.snd).min?).getD 0

namespace Unigram

/-- The model over a vocabulary, unless it is one the trie cannot hold; `stored` is the trie kept
for it, if one is. -/
def new (builder : Builder) (vocab : Vocab) (unkId : Option Nat) (byteFallback : Bool)
    (stored : Option Trie) : Option Unigram :=
  if vocab = [] ∨ 2 ^ 32 <= vocab.length ∨ unkId.any (fun id => vocab.length <= id) ∨
      vocab.any (fun listed => !isKey listed.1) then
    none
  else
    match stored.or (builder.build (keys vocab)) with
    | none => none
    | some trie =>
        if 2 ^ 32 <= (vocab.map fun listed => width listed.1).sum then
          none
        else
          some
            { trie := trie
              scores := vocab.map Prod.snd
              unkId := unkId
              unkScore := minScore vocab - 10
              byteFallback := byteFallback }

def tokenToId (model : Unigram) (token : List Char) : Option Nat :=
  if isKey token then model.trie.exactMatchSearch (utf8 token) else none

end Unigram

/-!
## The ids of pieces
-/

def pieceId (vocab : Vocab) (text : List Char) : Option Nat :=
  ((vocab.zipIdx.filter fun listed => listed.1.1 = text).map Prod.snd).max?

section Ids

variable {vocab : Vocab} {text : List Char} {id : Nat} {bytes : List UInt8} {key : List UInt8 × Nat}

theorem mem_numbered : key ∈ numbered vocab <->
    exists text score, vocab[key.2]? = some (text, score) ∧ key.1 = utf8 text := by
  unfold numbered
  rw [List.mem_map]
  constructor
  · rintro ⟨⟨⟨text, score⟩, id⟩, hlisted, rfl⟩
    exact ⟨text, score, List.mk_mem_zipIdx_iff_getElem?.mp hlisted, rfl⟩
  · rintro ⟨text, score, hlisted, hkey⟩
    exact ⟨((text, score), key.2), List.mk_mem_zipIdx_iff_getElem?.mpr hlisted,
      Prod.ext hkey.symm rfl⟩

theorem pieceId_eq_some : pieceId vocab text = some id <->
    (exists score, vocab[id]? = some (text, score)) ∧
      forall later score, vocab[later]? = some (text, score) -> later <= id := by
  have hmem : forall place,
      place ∈ (vocab.zipIdx.filter fun listed => listed.1.1 = text).map Prod.snd <->
        exists score, vocab[place]? = some (text, score) := by
    intro place
    rw [List.mem_map]
    constructor
    · rintro ⟨⟨⟨found, score⟩, _⟩, hlisted, rfl⟩
      rcases List.mem_filter.mp hlisted with ⟨hthere, hsame⟩
      rw [← of_decide_eq_true hsame]
      exact ⟨score, List.mk_mem_zipIdx_iff_getElem?.mp hthere⟩
    · rintro ⟨score, hlisted⟩
      refine ⟨((text, score), place), List.mem_filter.mpr ⟨?_, decide_eq_true rfl⟩, rfl⟩
      exact List.mk_mem_zipIdx_iff_getElem?.mpr hlisted
  unfold pieceId
  rw [List.max?_eq_some_iff]
  constructor
  · rintro ⟨hthere, hmost⟩
    refine ⟨(hmem id).mp hthere, ?_⟩
    exact fun later score hlater => hmost later ((hmem later).mpr ⟨score, hlater⟩)
  · rintro ⟨hthere, hmost⟩
    refine ⟨(hmem id).mpr hthere, ?_⟩
    intro later hlater
    rcases (hmem later).mp hlater with ⟨score, hlisted⟩
    exact hmost later score hlisted

theorem exists_keys (h : key ∈ numbered vocab) :
    exists kept, kept ∈ keys vocab ∧ kept.1 = key.1 ∧ key.2 <= kept.2 := by
  rcases @exists_keepLater _ _ _ (fun bytes : List UInt8 => bytes.map UInt8.toNat) _ _ h with
    ⟨kept, hkept, hsame, hle⟩
  have hinj : Function.Injective (List.map UInt8.toNat) :=
    List.map_injective_iff.mpr fun _ _ h => UInt8.toNat_inj.mp h
  exact ⟨kept, hkept, hinj hsame, hle⟩

theorem nodup_keys : ((keys vocab).map Prod.fst).Nodup := by
  have hnodup : ((keys vocab).map (List.map UInt8.toNat ∘ Prod.fst)).Nodup := nodup_keepLater
  rw [← List.map_map] at hnodup
  exact hnodup.of_map _

theorem mem_keys : key ∈ keys vocab <->
    exists text, pieceId vocab text = some key.2 ∧ key.1 = utf8 text := by
  constructor
  · intro hkey
    rcases mem_numbered.mp (mem_of_mem_keepLater hkey) with ⟨text, score, hlisted, hbytes⟩
    refine ⟨text, pieceId_eq_some.mpr ⟨⟨score, hlisted⟩, ?_⟩, hbytes⟩
    intro later other hlater
    have hentry : (key.1, later) ∈ numbered vocab := mem_numbered.mpr ⟨text, other, hlater, hbytes⟩
    rcases exists_keys hentry with ⟨kept, hkept, hsame, hle⟩
    have hkeptKey : kept = key := List.inj_on_of_nodup_map nodup_keys hkept hkey hsame
    rw [← hkeptKey]
    exact hle
  · rintro ⟨text, hid, hbytes⟩
    rcases pieceId_eq_some.mp hid with ⟨⟨score, hlisted⟩, hlater⟩
    have hentry : key ∈ numbered vocab := mem_numbered.mpr ⟨text, score, hlisted, hbytes⟩
    rcases exists_keys hentry with ⟨kept, hkept, hkey, hle⟩
    rcases mem_numbered.mp (mem_of_mem_keepLater hkept) with ⟨found, other, hfound, hfoundBytes⟩
    have htext : found = text := utf8_inj (hfoundBytes.symm.trans (hkey.trans hbytes))
    rw [htext] at hfound
    have hkeptKey : kept = key := Prod.ext hkey (Nat.le_antisymm (hlater kept.2 other hfound) hle)
    rw [← hkeptKey]
    exact hkept

end Ids

/-!
## What the trie finds
-/

structure Over (vocab : Vocab) (model : Unigram) : Prop where
  holds : model.trie.Holds (keys vocab)
  scores : model.scores = vocab.map Prod.snd
  unkScore : model.unkScore = minScore vocab - 10
  keys : forall listed, listed ∈ vocab -> isKey listed.1

section Found

variable {vocab : Vocab} {model : Unigram} {text : List Char} {bytes : List UInt8} {id len : Nat}

theorem over_of_new {builder : Builder} {unkId : Option Nat} {byteFallback : Bool}
    {stored : Option Trie} (hstored : forall trie, stored = some trie -> trie.Holds (keys vocab))
    (h : Unigram.new builder vocab unkId byteFallback stored = some model) :
    Over vocab model ∧ model.unkId = unkId ∧ model.byteFallback = byteFallback := by
  unfold Unigram.new at h
  split at h
  · cases h
  · next haccepted =>
      split at h
      · cases h
      · next trie htrie =>
          rcases Option.ite_none_left_eq_some.mp h with ⟨_, hmodel⟩
          cases hmodel
          refine ⟨⟨?_, rfl, rfl, ?_⟩, rfl, rfl⟩
          · rcases Option.or_eq_some_iff.mp htrie with hkept | ⟨_, hbuilt⟩
            · exact hstored trie hkept
            · exact builder.holds _ _ hbuilt
          · intro listed hlisted
            by_contra hnot
            apply haccepted
            refine Or.inr (Or.inr (Or.inr (List.any_eq_true.mpr ⟨listed, hlisted, ?_⟩)))
            rw [Bool.eq_false_iff.mpr hnot]
            rfl

theorem isKey_of_pieceId (hover : Over vocab model) (h : pieceId vocab text = some id) :
    isKey text := by
  rcases pieceId_eq_some.mp h with ⟨⟨score, hlisted⟩, _⟩
  exact hover.keys (text, score) (List.mem_of_getElem? hlisted)

theorem isKey_iff : isKey text <-> text ≠ [] ∧ Char.ofNat 0 ∉ text := by
  unfold isKey
  simp

theorem score_of_pieceId (hover : Over vocab model) (h : pieceId vocab text = some id) :
    exists score, vocab[id]? = some (text, score) ∧ model.scores[id]? = some score := by
  rcases pieceId_eq_some.mp h with ⟨⟨score, hlisted⟩, _⟩
  refine ⟨score, hlisted, ?_⟩
  rw [hover.scores, List.getElem?_map, hlisted]
  rfl

theorem tokenToId_eq (hover : Over vocab model) (text : List Char) :
    model.tokenToId text = pieceId vocab text := by
  unfold Unigram.tokenToId
  split
  · next hkey =>
      rcases isKey_iff.mp hkey with ⟨hsome, hnul⟩
      have hbytes : utf8 text ≠ [] := List.length_pos_iff.mp (width_pos hsome)
      have hzero : (0 : UInt8) ∉ utf8 text := fun hmem => hnul (zero_mem_utf8.mp hmem)
      rw [hover.holds.exact (utf8 text) hbytes hzero]
      cases hfind : (keys vocab).find? fun key => key.1 = utf8 text with
      | some key =>
          have hsame : key.1 = utf8 text := by simpa using List.find?_some hfind
          rcases mem_keys.mp (List.mem_of_find?_eq_some hfind) with ⟨other, hid, hother⟩
          rw [← utf8_inj (hother.symm.trans hsame), hid]
          rfl
      | none =>
          cases hid : pieceId vocab text with
          | none => rfl
          | some id =>
              have hkey : (utf8 text, id) ∈ keys vocab := mem_keys.mpr ⟨text, hid, rfl⟩
              exact absurd (decide_eq_true rfl) (List.find?_eq_none.mp hfind _ hkey)
  · next hkey =>
      cases hid : pieceId vocab text with
      | none => rfl
      | some id => exact absurd (isKey_of_pieceId hover hid) hkey

theorem mem_commonPrefixSearch (hover : Over vocab model) (hzero : 0 ∉ bytes) :
    (id, len) ∈ model.trie.commonPrefixSearch bytes <->
      exists text, pieceId vocab text = some id ∧ utf8 text <+: bytes ∧ len = width text := by
  rw [hover.holds.prefixes bytes hzero, List.mem_map]
  constructor
  · rintro ⟨key, hkey, hsame⟩
    cases hsame
    rcases List.mem_filter.mp hkey with ⟨hthere, hprefix⟩
    rcases mem_keys.mp hthere with ⟨text, hid, hbytes⟩
    rw [hbytes] at hprefix ⊢
    exact ⟨text, hid, List.isPrefixOf_iff_prefix.mp hprefix, rfl⟩
  · rintro ⟨text, hid, hprefix, rfl⟩
    refine ⟨(utf8 text, id), List.mem_filter.mpr ⟨mem_keys.mpr ⟨text, hid, rfl⟩, ?_⟩, rfl⟩
    exact List.isPrefixOf_iff_prefix.mpr hprefix

theorem nodup_commonPrefixSearch (hover : Over vocab model) (hzero : 0 ∉ bytes) :
    ((model.trie.commonPrefixSearch bytes).map Prod.snd).Nodup := by
  rw [hover.holds.prefixes bytes hzero, List.map_map]
  have hkeys : ((keys vocab).filter fun key => key.1.isPrefixOf bytes).Nodup :=
    nodup_keys.of_map.filter _
  apply hkeys.map_on
  intro left hleft right hright hlength
  rcases List.mem_filter.mp hleft with ⟨hthere, hprefix⟩
  rcases List.mem_filter.mp hright with ⟨hthere', hprefix'⟩
  have hsame : left.1 = right.1 :=
    List.IsPrefix.eq_of_length
      (List.prefix_of_prefix_length_le (List.isPrefixOf_iff_prefix.mp hprefix)
        (List.isPrefixOf_iff_prefix.mp hprefix') (Nat.le_of_eq hlength)) hlength
  exact List.inj_on_of_nodup_map nodup_keys hthere hthere' hsame

end Found

end Tokenizer
end PaminMemory
