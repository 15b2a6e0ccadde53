import PaminMemory.Reranking.Keys
import PaminMemory.Tokenizer.Vocabulary

/-!
# Model sections

A tokenizer's file describes its model in one section.  The section is made canonical before it
is read, so that two files which describe one model have one name, and it is built from what the
name is of.
-/

namespace PaminMemory
namespace Tokenizer

open Foundation
open Reranking (Digest)

inductive Number where
  | natural (n : Nat)
  | negative (n : Nat)
  | decimal (x : ℚ)

inductive Json where
  | null
  | bool (value : Bool)
  | number (value : Number)
  | string (text : String)
  | array (items : List Json)
  /-- The fields in the order of their names. -/
  | object (fields : List (String × Json))

abbrev Fields := List (String × Json)

def fieldOf (name : String) (fields : Fields) : Option Json :=
  (fields.find? fun field => field.1 = name).map Prod.snd

def insertField (name : String) (value : Json) : Fields -> Fields
  | [] => [(name, value)]
  | field :: rest =>
      if name < field.1 then (name, value) :: field :: rest
      else field :: insertField name value rest

def orInsert (name : String) (value : Json) (fields : Fields) : Fields :=
  if fields.any fun field => field.1 = name then fields else insertField name value fields

def Json.unigram : Json -> Option Fields
  | object fields =>
      match fieldOf "type" fields with
      | some (string text) => if text = "Unigram" then some fields else none
      | _ => none
  | _ => none

def parsed : List String := ["type", "vocab", "unk_id", "byte_fallback"]

/-- A section with what its parser would assume written out. -/
def canonical (model : Json) : Json :=
  match model.unigram with
  | none => model
  | some fields =>
      Json.object
        (orInsert "byte_fallback" (Json.bool false)
          (orInsert "unk_id" Json.null (fields.filter fun field => parsed.contains field.1)))

/-!
## What a section describes
-/

def Number.double : Number -> ℚ
  | natural n => n
  | negative n => -n
  | decimal x => x

def Json.piece : Json -> Option (List Char × ℚ)
  | array [string text, number score] => some (text.toList, score.double)
  | _ => none

def Json.vocab : Json -> Option Vocab
  | array items => items.mapM Json.piece
  | _ => none

def Json.unkId : Json -> Option (Option Nat)
  | null => some none
  | number (Number.natural n) => some (some n)
  | _ => none

def Json.byteFallback : Json -> Option Bool
  | bool value => some value
  | _ => none

structure Described where
  vocab : Vocab
  unkId : Option Nat
  byteFallback : Bool

def Described.read (fields : Fields) : Option Described := do
  let vocab <- (fieldOf "vocab" fields).bind Json.vocab
  let unkId <- (fieldOf "unk_id" fields).bind Json.unkId
  let byteFallback <- (fieldOf "byte_fallback" fields).bind Json.byteFallback
  return { vocab := vocab, unkId := unkId, byteFallback := byteFallback }

/-- How the tries of one release are laid out. -/
structure Layout where
  lay : List (List UInt8 × Nat) -> Option (List UInt8)
  opened : List UInt8 -> Option Trie
  holds : forall keys bytes trie, lay keys = some bytes -> opened bytes = some trie ->
    trie.Holds keys

def Layout.builder (layout : Layout) : Builder where
  build := fun keys => (layout.lay keys).bind layout.opened
  holds := by
    intro keys trie h
    rcases Option.bind_eq_some_iff.mp h with ⟨bytes, hlay, hopened⟩
    exact layout.holds keys bytes trie hlay hopened

/-- What the models of other crates are built by, what a section is written as and what it is
hashed with. -/
structure Tools (Other : Type) where
  sha256 : List UInt8 -> Digest
  write : Json -> List UInt8
  deserialize : Json -> Option Other
  unigramFrom : Vocab -> Option Nat -> Bool -> Option Other

inductive Loaded (Other : Type) where
  | unigram (model : Unigram)
  | other (model : Other)

section Built

variable {Other : Type} (tools : Tools Other) (layout : Layout)

/-- The model some fields describe; one the trie cannot hold is left to the other crate. -/
def Described.model (described : Described) (stored : Option Trie) : Option (Loaded Other) :=
  match Unigram.new layout.builder described.vocab described.unkId described.byteFallback
      stored with
  | some model => some (Loaded.unigram model)
  | none =>
      (tools.unigramFrom described.vocab described.unkId described.byteFallback).map Loaded.other

def Loaded.new (described : Json) (stored : Option Trie) : Option (Loaded Other) :=
  match described.unigram with
  | none => (tools.deserialize described).map Loaded.other
  | some fields => (Described.read fields).bind fun read => read.model tools layout stored

/-- The fields of a model the trie can hold: only of these is a stored trie looked for. -/
def Described.held (described : Json) : Option Described :=
  match described.unigram with
  | none => none
  | some fields =>
      (Described.read fields).filter fun read =>
        !(read.vocab = [] ∨ 2 ^ 32 <= read.vocab.length ∨
          read.unkId.any (fun id => read.vocab.length <= id) ∨
          read.vocab.any (fun listed => !isKey listed.1))

def Loaded.built (described : Json) (stored : Option Trie) : Option (List UInt8) :=
  match Described.held described, stored with
  | some read, none => layout.lay (keys read.vocab)
  | _, _ => none

/-- What a section describes as its parser reads it: no unknown-token id and no falling back to
bytes are assumed where it states none, and any other field is ignored. -/
def Described.parse (fields : Fields) : Option Described := do
  let vocab <- (fieldOf "vocab" fields).bind Json.vocab
  let unkId <- ((fieldOf "unk_id" fields).getD Json.null).unkId
  let byteFallback <- ((fieldOf "byte_fallback" fields).getD (Json.bool false)).byteFallback
  return { vocab := vocab, unkId := unkId, byteFallback := byteFallback }

def Loaded.describedBy (model : Json) : Option (Loaded Other) :=
  match model.unigram with
  | none => (tools.deserialize model).map Loaded.other
  | some fields => (Described.parse fields).bind fun read => read.model tools layout none

end Built

/-!
## A canonical section describes the same
-/

section Fields

variable {fields : Fields} {name other : String} {value : Json}

theorem fieldOf_insertField (habsent : forall field, field ∈ fields -> field.1 ≠ name) :
    fieldOf other (insertField name value fields) =
      if other = name then some value else fieldOf other fields := by
  induction fields with
  | nil =>
      unfold insertField fieldOf
      by_cases hsame : other = name
      · simp [hsame]
      · simp [hsame, Ne.symm hsame]
  | cons field rest ih =>
      have hfield : field.1 ≠ name := habsent field List.mem_cons_self
      have ih := ih fun other hother => habsent other (List.mem_cons_of_mem _ hother)
      unfold insertField
      unfold fieldOf at ih ⊢
      split
      · by_cases hsame : other = name
        · simp [hsame]
        · rw [List.find?_cons_of_neg (by simpa using Ne.symm hsame), if_neg hsame]
      · by_cases hhere : field.1 = other
        · rw [List.find?_cons_of_pos (by simpa using hhere),
            List.find?_cons_of_pos (by simpa using hhere),
            if_neg fun hsame => hfield (hhere.trans hsame)]
        · rw [List.find?_cons_of_neg (by simpa using hhere),
            List.find?_cons_of_neg (by simpa using hhere), ih]

theorem fieldOf_none (h : forall field, field ∈ fields -> field.1 ≠ name) :
    fieldOf name fields = none := by
  unfold fieldOf
  rw [Option.map_eq_none_iff, List.find?_eq_none]
  intro field hfield hsame
  exact h field hfield (of_decide_eq_true hsame)

theorem fieldOf_orInsert : fieldOf other (orInsert name value fields) =
    if other = name then some ((fieldOf name fields).getD value) else fieldOf other fields := by
  unfold orInsert
  split
  · next hthere =>
      split
      · next hsame =>
          rcases List.any_eq_true.mp hthere with ⟨field, hfield, hname⟩
          rw [hsame]
          cases hget : fieldOf name fields with
          | some found => rfl
          | none =>
              unfold fieldOf at hget
              rw [Option.map_eq_none_iff, List.find?_eq_none] at hget
              exact absurd hname (hget field hfield)
      · rfl
  · next hnot =>
      have habsent : forall field, field ∈ fields -> field.1 ≠ name := by
        intro field hfield hname
        exact hnot (List.any_eq_true.mpr ⟨field, hfield, decide_eq_true hname⟩)
      rw [fieldOf_insertField habsent, fieldOf_none habsent]
      rfl

theorem fieldOf_orInsert_self :
    fieldOf name (orInsert name value fields) = some ((fieldOf name fields).getD value) := by
  rw [fieldOf_orInsert, if_pos rfl]

theorem fieldOf_orInsert_of_ne (h : other ≠ name) :
    fieldOf other (orInsert name value fields) = fieldOf other fields := by
  rw [fieldOf_orInsert, if_neg h]

theorem fieldOf_filter {keep : String -> Bool} (h : keep name = true) :
    fieldOf name (fields.filter fun field => keep field.1) = fieldOf name fields := by
  unfold fieldOf
  rw [List.find?_filter]
  congr 2
  funext field
  by_cases hname : field.1 = name
  · simp [hname, h]
  · simp [hname]

end Fields

section Canonical

variable {model : Json} {fields : Fields}

theorem unigram_eq_some (h : model.unigram = some fields) :
    model = Json.object fields ∧ fieldOf "type" fields = some (Json.string "Unigram") := by
  unfold Json.unigram at h
  split at h
  · split at h
    · next text htype =>
        rcases Option.ite_none_right_eq_some.mp h with ⟨rfl, hfields⟩
        cases hfields
        exact ⟨rfl, htype⟩
    · cases h
  · cases h

theorem canonical_unigram (h : model.unigram = some fields) :
    exists stated, (canonical model).unigram = some stated ∧
      Described.read stated = Described.parse fields := by
  unfold canonical
  rw [h]
  refine ⟨orInsert "byte_fallback" (Json.bool false)
    (orInsert "unk_id" Json.null (fields.filter fun field => parsed.contains field.1)), ?_, ?_⟩
  · unfold Json.unigram
    change (match fieldOf "type" _ with | some (Json.string text) => _ | _ => _) = _
    rw [fieldOf_orInsert_of_ne (by simp), fieldOf_orInsert_of_ne (by simp),
      fieldOf_filter (by simp [parsed]), (unigram_eq_some h).2]
    rfl
  · unfold Described.read Described.parse
    rw [fieldOf_orInsert_of_ne (by simp), fieldOf_orInsert_of_ne (by simp),
      fieldOf_filter (by simp [parsed]), fieldOf_orInsert_of_ne (by simp),
      fieldOf_orInsert_self, fieldOf_filter (by simp [parsed]), fieldOf_orInsert_self,
      fieldOf_orInsert_of_ne (by simp), fieldOf_filter (by simp [parsed])]
    rfl

theorem new_canonical {Other : Type} (tools : Tools Other) (layout : Layout) (model : Json) :
    Loaded.new tools layout (canonical model) none = Loaded.describedBy tools layout model := by
  unfold Loaded.describedBy
  cases hunigram : model.unigram with
  | none =>
      have hsame : canonical model = model := by
        unfold canonical
        rw [hunigram]
      unfold Loaded.new
      rw [hsame, hunigram]
  | some fields =>
      rcases canonical_unigram hunigram with ⟨stated, hstated, hread⟩
      unfold Loaded.new
      rw [hstated]
      change (Described.read stated).bind _ = (Described.parse fields).bind _
      rw [hread]

end Canonical

/-!
## A stored trie changes nothing
-/

section Stored

variable {Other : Type} {tools : Tools Other} {layout : Layout}

theorem model_stored {described : Described} {trie : Trie}
    (h : layout.builder.build (keys described.vocab) = some trie) :
    described.model tools layout (some trie) = described.model tools layout none := by
  unfold Described.model Unigram.new
  rw [Option.some_or, Option.none_or, h]

theorem built_eq_some {described : Json} {bytes : List UInt8}
    (h : Loaded.built layout described none = some bytes) :
    exists fields read, described.unigram = some fields ∧ Described.read fields = some read ∧
      layout.lay (keys read.vocab) = some bytes := by
  unfold Loaded.built at h
  cases hheld : Described.held described with
  | none =>
      rw [hheld] at h
      cases h
  | some read =>
      rw [hheld] at h
      unfold Described.held at hheld
      cases hunigram : described.unigram with
      | none =>
          rw [hunigram] at hheld
          cases hheld
      | some fields =>
          rw [hunigram] at hheld
          exact ⟨fields, read, rfl, (Option.filter_eq_some_iff.mp hheld).1, h⟩

theorem new_stored {described : Json} {bytes : List UInt8} {trie : Trie}
    (hbuilt : Loaded.built layout described none = some bytes)
    (hopened : layout.opened bytes = some trie) :
    Loaded.new tools layout described (some trie) = Loaded.new tools layout described none := by
  rcases built_eq_some hbuilt with ⟨fields, read, hunigram, hread, hlay⟩
  have hbuild : layout.builder.build (keys read.vocab) = some trie := by
    change (layout.lay (keys read.vocab)).bind layout.opened = some trie
    rw [hlay]
    exact hopened
  unfold Loaded.new
  rw [hunigram]
  change (Described.read fields).bind _ = (Described.read fields).bind _
  rw [hread]
  exact model_stored hbuild

end Stored

end Tokenizer
end PaminMemory
