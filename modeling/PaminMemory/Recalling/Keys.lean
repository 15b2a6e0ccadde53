import PaminMemory.Settings.Paths
import PaminMemory.Spans.Blocks

/-!
# The keys of spans

A document of the index is a span of a topic, stored under a key that spells both: the
topic's identifier, with its bytes in one order or the other, and for every span but the
first its ordinal.  The identifiers are written and read by another crate.
-/

namespace PaminMemory
namespace Recalling

open Settings (hex)
open Spans (splitOnce)

@[ext] structure Identifier where
  bytes : List UInt8
  length_eq : bytes.length = 16
deriving DecidableEq, Repr

def hyphenated (digits : List Char) : List Char :=
  digits.take 8 ++ '-' :: ((digits.drop 8).take 4 ++ '-' :: ((digits.drop 12).take 4 ++
    '-' :: ((digits.drop 16).take 4 ++ '-' :: digits.drop 20)))

def Identifier.display (id : Identifier) : String :=
  String.ofList (hyphenated (id.bytes.flatMap hex))

def hexValue (c : Char) : Option Nat :=
  if c.isDigit then
    some (c.toNat - '0'.toNat)
  else if 'a' <= c ∧ c <= 'f' then
    some (c.toNat - 'a'.toNat + 10)
  else if 'A' <= c ∧ c <= 'F' then
    some (c.toNat - 'A'.toNat + 10)
  else
    none

def Spells (digits : List Char) (id : Identifier) : Prop :=
  digits.map hexValue = id.bytes.flatMap fun b => [some (b.toNat / 16), some (b.toNat % 16)]

/-- The forms digits are read in: hyphenated, simple, braced and as a urn. -/
def spellings (digits : List Char) : List (List Char) :=
  [hyphenated digits, digits, '{' :: (hyphenated digits ++ ['}']),
    "urn:uuid:".toList ++ hyphenated digits]

/-- What reads an identifier, in every form and either case. -/
structure UuidCrate where
  parseStr : String -> Option Identifier
  accepts : forall digits id text, Spells digits id -> text.toList ∈ spellings digits ->
    parseStr text = some id

/-- How an index spells its keys: the identifier as written, or its bytes in reverse order. -/
inductive Keys where
  | topic
  | reversed
deriving DecidableEq, Repr

def withoutSign : List Char -> List Char
  | '+' :: rest => rest
  | text => text

def parseU32 (text : List Char) : Option UInt32 :=
  let figures := withoutSign text
  if figures ≠ [] ∧ figures.all Char.isDigit then
    let n := Nat.ofDigitChars 10 figures 0
    if n < 4294967296 then some (UInt32.ofNat n) else none
  else
    none

/-- An ordinal in the one spelling it is given: above zero, no sign and no leading zero. -/
def parseOrdinal (text : List Char) : Option UInt32 :=
  (parseU32 text).filter fun parsed => 0 < parsed ∧ parsed.toNat.repr.toList = text

namespace Keys

def spell : Keys -> Identifier -> Identifier
  | topic, id => id
  | reversed, id =>
      { bytes := id.bytes.reverse, length_eq := by rw [List.length_reverse, id.length_eq] }

def spanKey (keys : Keys) (id : Identifier) (ordinal : UInt32) : String :=
  let key := (keys.spell id).display
  if ordinal = 0 then key else key ++ "#" ++ ordinal.toNat.repr

def span (keys : Keys) (crate : UuidCrate) (key : String) : Option (Identifier × UInt32) := do
  let (written, ordinal) ←
    match splitOnce '#' key.toList with
    | none => some (key, 0)
    | some (before, after) =>
        (parseOrdinal after).map fun ordinal => (String.ofList before, ordinal)
  let id ← crate.parseStr written
  some (keys.spell id, ordinal)

end Keys

/-!
## Splitting a key
-/

def identifierPart (key : String) : String :=
  String.ofList (key.toList.takeWhile (· ≠ '#'))

def ordinalPart (key : String) : Option UInt32 :=
  match splitOnce '#' key.toList with
  | none => some 0
  | some (_, after) => parseOrdinal after

section Keys

variable {keys : Keys} {crate : UuidCrate} {key : String} {id : Identifier} {ordinal : UInt32}

theorem splitOnce_none {separator : Char} {text : List Char} (h : splitOnce separator text = none) :
    separator ∉ text := by
  unfold splitOnce at h
  split at h
  · next hnone =>
      intro hmem
      have hall := List.dropWhile_eq_nil_iff.mp hnone separator hmem
      simp at hall
  · cases h

theorem splitOnce_some {separator : Char} {text before after : List Char}
    (h : splitOnce separator text = some (before, after)) :
    before = text.takeWhile (· ≠ separator) ∧ text = before ++ separator :: after := by
  unfold splitOnce at h
  cases hdrop : text.dropWhile (· ≠ separator) with
  | nil =>
      rw [hdrop] at h
      cases h
  | cons c rest =>
      simp only [hdrop, Option.some.injEq, Prod.mk.injEq] at h
      have hhead : c = separator := by
        have hnot := List.head?_dropWhile_not (fun c => decide (c ≠ separator)) text
        rw [hdrop] at hnot
        simpa using hnot
      refine ⟨h.1.symm, ?_⟩
      rw [← h.1, ← h.2]
      rw [hhead] at hdrop
      rw [← hdrop, List.takeWhile_append_dropWhile]

theorem splitOnce_of_not_mem {separator : Char} {text : List Char} (h : separator ∉ text) :
    splitOnce separator text = none := by
  have hall : text.dropWhile (· ≠ separator) = [] := by
    apply List.dropWhile_eq_nil_iff.mpr
    intro c hc
    exact decide_eq_true (fun hsame => h (hsame ▸ hc))
  unfold splitOnce
  rw [hall]

theorem splitOnce_append {separator : Char} {before : List Char} (after : List Char)
    (h : separator ∉ before) :
    splitOnce separator (before ++ separator :: after) = some (before, after) := by
  have hbefore : forall c, c ∈ before -> (decide (c ≠ separator)) = true := by
    intro c hc
    exact decide_eq_true (fun hsame => h (hsame ▸ hc))
  unfold splitOnce
  rw [List.dropWhile_append_of_pos hbefore, List.takeWhile_append_of_pos hbefore,
    List.dropWhile_cons_of_neg (by simp), List.takeWhile_cons_of_neg (by simp), List.append_nil]

theorem span_eq_some : keys.span crate key = some (id, ordinal) <->
    exists written, crate.parseStr (identifierPart key) = some written ∧
      keys.spell written = id ∧ ordinalPart key = some ordinal := by
  cases hsplit : splitOnce '#' key.toList with
  | none =>
      have hwhole : identifierPart key = key := by
        have hall : key.toList.takeWhile (· ≠ '#') = key.toList := by
          apply List.takeWhile_eq_self_iff.mpr
          intro c hc
          exact decide_eq_true (fun hsame => splitOnce_none hsplit (hsame ▸ hc))
        rw [identifierPart, hall, String.ofList_toList]
      simp only [Keys.span, ordinalPart, hsplit, hwhole, Option.bind_eq_bind, Option.bind_some,
        Option.bind_eq_some_iff, Option.some.injEq, Prod.mk.injEq]
  | some split =>
      rcases split with ⟨before, after⟩
      have hpart : identifierPart key = String.ofList before := by
        rw [identifierPart, (splitOnce_some hsplit).1]
      simp only [Keys.span, ordinalPart, hsplit, hpart, Option.bind_eq_bind,
        Option.bind_eq_some_iff, Option.map_eq_some_iff, Option.some.injEq, Prod.mk.injEq]
      constructor
      · rintro ⟨⟨_, _⟩, ⟨parsed, hparsed, rfl, rfl⟩, written, hwritten, hid, rfl⟩
        exact ⟨written, hwritten, hid, hparsed⟩
      · rintro ⟨written, hwritten, hid, hparsed⟩
        exact ⟨_, ⟨ordinal, hparsed, rfl⟩, written, hwritten, hid, rfl⟩

/-!
## What a key is written as
-/

theorem spell_spell (keys : Keys) (id : Identifier) : keys.spell (keys.spell id) = id := by
  cases keys with
  | topic => rfl
  | reversed => exact Identifier.ext (List.reverse_reverse id.bytes)

theorem hexValue_digitChar {n : Nat} (h : n < 16) : hexValue n.digitChar = some n := by
  have hall : forall n : Fin 16, hexValue n.val.digitChar = some n.val := by decide
  exact hall ⟨n, h⟩

theorem spells_hex (id : Identifier) : Spells (id.bytes.flatMap hex) id := by
  unfold Spells
  rw [List.map_flatMap]
  congr 1
  funext b
  have hb := b.toNat_lt
  rw [hex, List.map_cons, List.map_cons, List.map_nil, hexValue_digitChar (by omega),
    hexValue_digitChar (by omega)]

theorem parse_display (crate : UuidCrate) (id : Identifier) :
    crate.parseStr id.display = some id := by
  apply crate.accepts _ id _ (spells_hex id)
  rw [Identifier.display, String.toList_ofList]
  exact List.mem_cons_self

theorem ne_sign_of_spells {digits : List Char} (h : Spells digits id) {c : Char}
    (hc : c ∈ digits) : c ≠ '#' := by
  intro hsign
  have hmem : hexValue c ∈ digits.map hexValue := List.mem_map_of_mem hc
  rw [h, hsign] at hmem
  rcases List.mem_flatMap.mp hmem with ⟨b, _, hb⟩
  have hnone : hexValue '#' = none := by decide
  rw [hnone] at hb
  simp at hb

theorem sign_not_mem_display (id : Identifier) : '#' ∉ id.display.toList := by
  have hdigits : forall c, c ∈ id.bytes.flatMap hex -> c ≠ '#' := fun c hc =>
    ne_sign_of_spells (spells_hex id) hc
  intro hsign
  rw [Identifier.display, String.toList_ofList] at hsign
  simp only [hyphenated, List.mem_append, List.mem_cons] at hsign
  rcases hsign with h | h | h | h | h | h | h | h | h
  · exact hdigits _ (List.mem_of_mem_take h) rfl
  · cases h
  · exact hdigits _ (List.mem_of_mem_drop (List.mem_of_mem_take h)) rfl
  · cases h
  · exact hdigits _ (List.mem_of_mem_drop (List.mem_of_mem_take h)) rfl
  · cases h
  · exact hdigits _ (List.mem_of_mem_drop (List.mem_of_mem_take h)) rfl
  · cases h
  · exact hdigits _ (List.mem_of_mem_drop h) rfl

theorem parseU32_repr (ordinal : UInt32) : parseU32 ordinal.toNat.repr.toList = some ordinal := by
  rw [Nat.toList_repr]
  have hall : (Nat.toDigits 10 ordinal.toNat).all Char.isDigit = true :=
    List.all_eq_true.mpr fun c hc => Nat.isDigit_of_mem_toDigits (by decide) (by decide) hc
  have hvalue : Nat.ofDigitChars 10 (Nat.toDigits 10 ordinal.toNat) 0 = ordinal.toNat :=
    Nat.ofDigitChars_toDigits (by decide) (by decide)
  cases hfigures : Nat.toDigits 10 ordinal.toNat with
  | nil => exact absurd hfigures Nat.toDigits_ne_nil
  | cons c rest =>
      rw [hfigures] at hall hvalue
      have hsign : c ≠ '+' := by
        intro hplus
        rw [hplus] at hall
        cases hall
      have hbound : ordinal.toNat < 4294967296 := ordinal.toNat_lt
      have hunsigned : withoutSign (c :: rest) = c :: rest := by
        unfold withoutSign
        split
        · next heq => exact absurd (List.cons.inj heq).1 hsign
        · rfl
      unfold parseU32
      rw [hunsigned, if_pos ⟨List.cons_ne_nil c rest, hall⟩]
      simp only [hvalue, if_pos hbound, UInt32.ofNat_toNat]

theorem parseOrdinal_eq_some {text : List Char} :
    parseOrdinal text = some ordinal <-> 0 < ordinal ∧ text = ordinal.toNat.repr.toList := by
  unfold parseOrdinal
  rw [Option.filter_eq_some_iff, decide_eq_true_eq]
  constructor
  · rintro ⟨_, hpos, hsame⟩
    exact ⟨hpos, hsame.symm⟩
  · rintro ⟨hpos, rfl⟩
    exact ⟨parseU32_repr ordinal, hpos, rfl⟩

/-- A key and its parts: the identifier in its own spelling, and the ordinal after it. -/
theorem parts_spanKey (keys : Keys) (id : Identifier) (ordinal : UInt32) :
    identifierPart (keys.spanKey id ordinal) = (keys.spell id).display ∧
      ordinalPart (keys.spanKey id ordinal) = some ordinal := by
  have hsign := sign_not_mem_display (keys.spell id)
  by_cases hzero : ordinal = 0
  · have hkey : keys.spanKey id ordinal = (keys.spell id).display := if_pos hzero
    have hsplit := splitOnce_of_not_mem hsign
    rw [hkey]
    constructor
    · have hall : (keys.spell id).display.toList.takeWhile (· ≠ '#') =
          (keys.spell id).display.toList := by
        apply List.takeWhile_eq_self_iff.mpr
        intro c hc
        exact decide_eq_true (fun hsame => hsign (hsame ▸ hc))
      rw [identifierPart, hall, String.ofList_toList]
    · rw [ordinalPart, hsplit, hzero]
  · have hkey : (keys.spanKey id ordinal).toList =
        (keys.spell id).display.toList ++ '#' :: ordinal.toNat.repr.toList := by
      unfold Keys.spanKey
      rw [if_neg hzero, String.toList_append, String.toList_append, List.append_assoc]
      rfl
    have hsplit := splitOnce_append ordinal.toNat.repr.toList hsign
    rw [← hkey] at hsplit
    constructor
    · rw [identifierPart, ← (splitOnce_some hsplit).1, String.ofList_toList]
    · have hpos : 0 < ordinal := UInt32.pos_iff_ne_zero.mpr hzero
      simp only [ordinalPart, hsplit]
      exact parseOrdinal_eq_some.mpr ⟨hpos, rfl⟩

theorem span_spanKey (crate : UuidCrate) (keys : Keys) (id : Identifier) (ordinal : UInt32) :
    keys.span crate (keys.spanKey id ordinal) = some (id, ordinal) := by
  rcases parts_spanKey keys id ordinal with ⟨hid, hordinal⟩
  rw [span_eq_some, hid]
  exact ⟨keys.spell id, parse_display crate _, spell_spell keys id, hordinal⟩

theorem eq_spanKey {keys : Keys} (hid : identifierPart key = (keys.spell id).display)
    (hordinal : ordinalPart key = some ordinal) : key = keys.spanKey id ordinal := by
  have hbefore : key.toList.takeWhile (· ≠ '#') = (keys.spell id).display.toList := by
    rw [← hid, identifierPart, String.toList_ofList]
  apply String.toList_inj.mp
  cases hsplit : splitOnce '#' key.toList with
  | none =>
      simp only [ordinalPart, hsplit, Option.some.injEq] at hordinal
      have hall : key.toList.takeWhile (· ≠ '#') = key.toList := by
        apply List.takeWhile_eq_self_iff.mpr
        intro c hc
        exact decide_eq_true (fun hsame => splitOnce_none hsplit (hsame ▸ hc))
      rw [← hordinal, Keys.spanKey, if_pos rfl, ← hbefore, hall]
  | some split =>
      rcases split with ⟨before, after⟩
      simp only [ordinalPart, hsplit] at hordinal
      rcases parseOrdinal_eq_some.mp hordinal with ⟨hpos, rfl⟩
      rcases splitOnce_some hsplit with ⟨hpart, hkey⟩
      rw [hkey, hpart, hbefore, Keys.spanKey, if_neg (UInt32.pos_iff_ne_zero.mp hpos),
        String.toList_append, String.toList_append, List.append_assoc]
      rfl

end Keys

/-- A key's identifier is in its own spelling, or is none in any; or its ordinal is not read. -/
def Canonical (crate : UuidCrate) (key : String) : Prop :=
  (exists id : Identifier, identifierPart key = id.display) ∨
    crate.parseStr (identifierPart key) = none ∨ ordinalPart key = none

/--
Every key reads back as the span it was written for, no two spans share one, and a key is read
only in the spelling it is written in exactly where its identifier is.
-/
theorem keys_round_trip_iff (crate : UuidCrate) (keys : Keys) :
    (forall id ordinal, keys.span crate (keys.spanKey id ordinal) = some (id, ordinal)) ∧
    (forall id ordinal id' ordinal', keys.spanKey id ordinal = keys.spanKey id' ordinal' ->
      id = id' ∧ ordinal = ordinal') ∧
    forall key,
      (forall id ordinal, keys.span crate key = some (id, ordinal) ->
        key = keys.spanKey id ordinal) <-> Canonical crate key := by
  refine ⟨span_spanKey crate keys, ?_, ?_⟩
  · intro id ordinal id' ordinal' hsame
    have hread := span_spanKey crate keys id ordinal
    rw [hsame, span_spanKey crate keys id' ordinal'] at hread
    cases hread
    exact ⟨rfl, rfl⟩
  · intro key
    constructor
    · intro hown
      cases hparse : crate.parseStr (identifierPart key) with
      | none => exact Or.inr (Or.inl hparse)
      | some written =>
          cases hordinal : ordinalPart key with
          | none => exact Or.inr (Or.inr hordinal)
          | some ordinal =>
              have hread : keys.span crate key = some (keys.spell written, ordinal) :=
                span_eq_some.mpr ⟨written, hparse, rfl, hordinal⟩
              have hkey := hown (keys.spell written) ordinal hread
              left
              exists written
              rw [hkey, (parts_spanKey keys _ ordinal).1, spell_spell]
    · intro hcanonical id ordinal hread
      rcases span_eq_some.mp hread with ⟨written, hparse, hid, hordinal⟩
      rcases hcanonical with ⟨own, hown⟩ | hnone | hnone
      · rw [hown, parse_display, Option.some.injEq] at hparse
        apply eq_spanKey _ hordinal
        rw [hown, hparse, ← hid, spell_spell]
      · rw [hnone] at hparse
        cases hparse
      · rw [hnone] at hordinal
        cases hordinal

/-!
## A reader of identifiers
-/

def bareDigits (text : List Char) : List Char :=
  let body :=
    match text with
    | '{' :: rest => rest.dropLast
    | 'u' :: rest => rest.drop 8
    | _ => text
  body.filter (· ≠ '-')

def byteValues : List Char -> Option (List UInt8)
  | [] => some []
  | [_] => none
  | high :: low :: rest => do
      let h ← hexValue high
      let l ← hexValue low
      let bytes ← byteValues rest
      some (UInt8.ofNat (16 * h + l) :: bytes)

def parseSpelling (text : String) : Option Identifier :=
  let digits := bareDigits text.toList
  if text.toList ∈ spellings digits then
    match byteValues digits with
    | none => none
    | some bytes => if h : bytes.length = 16 then some { bytes := bytes, length_eq := h } else none
  else
    none

section Reader

variable {digits : List Char} {id : Identifier}

theorem byteValues_of_map {bytes : List UInt8} : forall {digits : List Char},
    digits.map hexValue =
      bytes.flatMap (fun b => [some (b.toNat / 16), some (b.toNat % 16)]) ->
    byteValues digits = some bytes := by
  induction bytes with
  | nil =>
      intro digits h
      cases digits with
      | nil => rfl
      | cons c rest => cases h
  | cons b rest ih =>
      intro digits h
      match digits with
      | [] => cases h
      | [_] =>
          have hlength := congrArg List.length h
          simp at hlength
      | high :: low :: digits =>
          simp only [List.map_cons, List.flatMap_cons, List.cons_append, List.nil_append,
            List.cons.injEq] at h
          rcases h with ⟨hhigh, hlow, hrest⟩
          have hbyte : UInt8.ofNat (16 * (b.toNat / 16) + b.toNat % 16) = b := by
            rw [Nat.div_add_mod, UInt8.ofNat_toNat]
          simp only [byteValues, hhigh, hlow, ih hrest, Option.bind_eq_bind, Option.bind_some,
            hbyte]

theorem hexValue_of_spells (h : Spells digits id) {c : Char} (hc : c ∈ digits) :
    hexValue c ≠ none := by
  intro hnone
  have hmem : hexValue c ∈ digits.map hexValue := List.mem_map_of_mem hc
  rw [h, hnone] at hmem
  rcases List.mem_flatMap.mp hmem with ⟨b, _, hb⟩
  simp at hb

theorem filter_digits (h : Spells digits id) : digits.filter (· ≠ '-') = digits := by
  apply List.filter_eq_self.mpr
  intro c hc
  apply decide_eq_true
  intro hhyphen
  apply hexValue_of_spells h hc
  rw [hhyphen]
  decide

theorem filter_hyphenated (digits : List Char) :
    (hyphenated digits).filter (· ≠ '-') = digits.filter (· ≠ '-') := by
  have hskip : forall rest : List Char,
      ('-' :: rest).filter (· ≠ '-') = rest.filter (· ≠ '-') := fun rest => by simp
  have hcut : forall n m : Nat, (digits.drop n).take m ++ digits.drop (n + m) = digits.drop n := by
    intro n m
    rw [← List.drop_drop, List.take_append_drop]
  unfold hyphenated
  simp only [List.filter_append, hskip]
  simp only [← List.filter_append]
  rw [hcut 16 4, hcut 12 4, hcut 8 4, List.take_append_drop]

theorem bareDigits_cons {c : Char} (hc : hexValue c ≠ none) (rest : List Char) :
    bareDigits (c :: rest) = (c :: rest).filter (· ≠ '-') := by
  have hbrace : hexValue '{' = none := by decide
  have hurn : hexValue 'u' = none := by decide
  unfold bareDigits
  split
  · next heq => exact absurd hbrace ((List.cons.inj heq).1 ▸ hc)
  · next heq => exact absurd hurn ((List.cons.inj heq).1 ▸ hc)
  · rfl

theorem bareDigits_of_mem (h : Spells digits id) {text : List Char}
    (htext : text ∈ spellings digits) : bareDigits text = digits := by
  have hkept := filter_digits h
  have hhyphenated : (hyphenated digits).filter (· ≠ '-') = digits := by
    rw [filter_hyphenated, hkept]
  simp only [spellings, List.mem_cons, List.not_mem_nil, or_false] at htext
  cases hdigits : digits with
  | nil =>
      have hlength := id.length_eq
      rw [hdigits] at h
      have hempty : id.bytes.flatMap (fun b => [some (b.toNat / 16), some (b.toNat % 16)]) = [] :=
        h.symm
      cases hbytes : id.bytes with
      | nil =>
          rw [hbytes] at hlength
          cases hlength
      | cons b rest =>
          rw [hbytes] at hempty
          cases hempty
  | cons c rest =>
      have hc : hexValue c ≠ none := hexValue_of_spells h (hdigits ▸ List.mem_cons_self)
      have hfirst : hyphenated (c :: rest) = c :: (hyphenated (c :: rest)).tail := rfl
      rw [hdigits] at htext hkept hhyphenated
      rcases htext with rfl | rfl | rfl | rfl
      · rw [hfirst, bareDigits_cons hc, ← hfirst, hhyphenated]
      · rw [bareDigits_cons hc, hkept]
      · have hbody : bareDigits ('{' :: (hyphenated (c :: rest) ++ ['}'])) =
            ((hyphenated (c :: rest) ++ ['}']).dropLast).filter (· ≠ '-') := rfl
        rw [hbody, List.dropLast_concat, hhyphenated]
      · have hurn : "urn:uuid:".toList = 'u' :: ['r', 'n', ':', 'u', 'u', 'i', 'd', ':'] := by
          decide +kernel
        have hbody : bareDigits ('u' :: (['r', 'n', ':', 'u', 'u', 'i', 'd', ':'] ++
            hyphenated (c :: rest))) = (hyphenated (c :: rest)).filter (· ≠ '-') := rfl
        rw [hurn, List.cons_append, hbody, hhyphenated]

theorem parseSpelling_of_spells (h : Spells digits id) {text : String}
    (htext : text.toList ∈ spellings digits) : parseSpelling text = some id := by
  have hdigits := bareDigits_of_mem h htext
  unfold parseSpelling
  rw [hdigits, if_pos htext, byteValues_of_map h]
  exact dif_pos id.length_eq

end Reader

def reader : UuidCrate where
  parseStr := parseSpelling
  accepts := fun _ _ _ h htext => parseSpelling_of_spells h htext

def shouted : String := "ABCDEFAB-CDEF-ABCD-EFAB-CDEFABCDEFAB#2"

/-- A key in upper case is read, and is not the key of the span it is read as. -/
theorem shouted_key_is_read :
    exists id ordinal, Keys.topic.span reader shouted = some (id, ordinal) ∧
      Keys.topic.spanKey id ordinal = "abcdefab-cdef-abcd-efab-cdefabcdefab#2" ∧
      shouted ≠ Keys.topic.spanKey id ordinal := by
  refine ⟨{ bytes := [0xab, 0xcd, 0xef, 0xab, 0xcd, 0xef, 0xab, 0xcd, 0xef, 0xab, 0xcd, 0xef,
    0xab, 0xcd, 0xef, 0xab], length_eq := rfl }, 2, ?_, ?_, ?_⟩
  · decide +kernel
  · decide +kernel
  · decide +kernel

end Recalling
end PaminMemory
