import PaminMemory.Foundation.Fallible
import PaminMemory.Tokenizer.Segmenting

/-!
# Tokens

The pieces of a sentence become its tokens: one of each known piece, and one of each run of
unknown pieces, or one of each of the run's bytes.
-/

namespace PaminMemory
namespace Tokenizer

open Foundation

structure Token where
  id : Nat
  value : List Char
  offsets : Nat × Nat
deriving DecidableEq, Repr

def dropBytes : List Char -> Nat -> Option (List Char)
  | text, 0 => some text
  | [], _ + 1 => none
  | c :: rest, count + 1 =>
      if c.utf8Size <= count + 1 then dropBytes rest (count + 1 - c.utf8Size) else none

def takeBytes : List Char -> Nat -> Option (List Char)
  | _, 0 => some []
  | [], _ + 1 => none
  | c :: rest, count + 1 =>
      if c.utf8Size <= count + 1 then
        (takeBytes rest (count + 1 - c.utf8Size)).map fun text => c :: text
      else
        none

def textAt (sentence : List Char) (start stop : Nat) : Except Failure (List Char) :=
  if stop < start then
    Except.error Failure.panic
  else
    match (dropBytes sentence start).bind fun rest => takeBytes rest (stop - start) with
    | none => Except.error Failure.panic
    | some text => Except.ok text

def byteName (byte : UInt8) : List Char :=
  let digit := fun value : Nat => (Nat.digitChar value).toUpper
  ['<', '0', 'x', digit (byte.toNat / 16), digit (byte.toNat % 16), '>']

namespace Unigram

def byteTokens (model : Unigram) (text : List Char) (offsets : Nat × Nat) : Option (List Token) :=
  (utf8 text).mapM fun byte =>
    (model.tokenToId (byteName byte)).map fun id =>
      { id := id, value := byteName byte, offsets := offsets }

def runTokens (model : Unigram) (unkId : Nat) (text : List Char) (offsets : Nat × Nat) :
    List Token :=
  match model.tokenToId text with
  | some id => [{ id := id, value := text, offsets := offsets }]
  | none =>
      match if model.byteFallback then model.byteTokens text offsets else none with
      | some tokens => tokens
      | none => [{ id := unkId, value := text, offsets := offsets }]

def fuse (model : Unigram) (sentence : List Char) : List Placed -> Except Failure (List Token)
  | [] => Except.ok []
  | piece :: rest =>
      let unknown := fun next : Placed => decide (some next.id = model.unkId)
      if unknown piece then do
        let run := rest.takeWhile unknown
        let stop := (run.getLast?.map Placed.stop).getD piece.stop
        let text ← textAt sentence piece.start stop
        let more ← model.fuse sentence (rest.dropWhile unknown)
        Except.ok (model.runTokens piece.id text (piece.start, stop) ++ more)
      else do
        let text ← textAt sentence piece.start piece.stop
        let more ← model.fuse sentence rest
        let token := { id := piece.id, value := text, offsets := (piece.start, piece.stop) }
        Except.ok (token :: more)
termination_by path => path.length
decreasing_by
  · exact Nat.lt_succ_of_le (List.length_dropWhile_le _ _)
  · exact Nat.lt_succ_self _

def tokenize (model : Unigram) (sentence : List Char) : Except Failure (List Token) := do
  let path ← model.segment sentence
  model.fuse sentence path

end Unigram

/-!
## What the tokens are
-/

section Fused

variable (vocab : Vocab) (unkId : Nat) (byteFallback : Bool)

def Unknown (text : List Char) : Prop := idOf vocab unkId text = unkId

instance : DecidablePred (Unknown vocab unkId) := by
  intro text
  unfold Unknown
  infer_instance

/-- The tokens of a run's text: one, or one of each byte. -/
inductive Written (start : Nat) (text : List Char) : List Token -> Prop where
  | piece {id : Nat} (hid : pieceId vocab text = some id) :
      Written start text [{ id := id, value := text, offsets := (start, start + width text) }]
  | bytes {tokens : List Token} (hfallback : byteFallback = true)
      (hnone : pieceId vocab text = none)
      (hbytes : List.Forall₂ (fun byte token =>
        pieceId vocab (byteName byte) = some (Token.id token) ∧
          token.value = byteName byte ∧ token.offsets = (start, start + width text))
        (utf8 text) tokens) :
      Written start text tokens
  | unknown (hnone : pieceId vocab text = none)
      (hbytes : byteFallback = true -> exists byte, byte ∈ utf8 text ∧
        pieceId vocab (byteName byte) = none) :
      Written start text [{ id := unkId, value := text, offsets := (start, start + width text) }]

/-- The tokens of pieces from a place on; no unknown piece comes after a run of them. -/
inductive Fused : Nat -> List (List Char) -> List Token -> Prop where
  | nil (start : Nat) : Fused start [] []
  | known {start : Nat} {text : List Char} {rest : List (List Char)} {more : List Token}
      (hknown : ¬ Unknown vocab unkId text)
      (hmore : Fused (start + width text) rest more) :
      Fused start (text :: rest)
        ({ id := idOf vocab unkId text, value := text
           offsets := (start, start + width text) } :: more)
  | unknown {start : Nat} {run rest : List (List Char)} {tokens more : List Token}
      (hrun : run ≠ []) (hunknown : forall text, text ∈ run -> Unknown vocab unkId text)
      (hnext : forall text, text ∈ rest.head? -> ¬ Unknown vocab unkId text)
      (htokens : Written vocab unkId byteFallback start run.flatten tokens)
      (hmore : Fused (start + width run.flatten) rest more) :
      Fused start (run ++ rest) (tokens ++ more)

/-- How a sentence was tokenized: its pieces and its tokens. -/
structure Tokenized (model : Unigram) (sentence : List Char) (pieces : List (List Char))
    (tokens : List Token) : Prop where
  segment : model.segment sentence = Except.ok (placed vocab unkId 0 pieces)
  tokenize : model.tokenize sentence = Except.ok tokens
  /-- The pieces cut the sentence best, ties falling to what was offered first. -/
  chosen : Chosen (Allowed vocab) (score vocab) sentence pieces
  nul : forall text, text ∈ pieces -> Char.ofNat 0 ∈ text -> text = [Char.ofNat 0]
  fused : Fused vocab unkId byteFallback 0 pieces tokens

end Fused

section Fusing

variable {vocab : Vocab} {model : Unigram} {unkId start : Nat} {byteFallback : Bool}
  {sentence before text rest : List Char} {pieces run : List (List Char)}

theorem dropBytes_width (before rest : List Char) :
    dropBytes (before ++ rest) (width before) = some rest := by
  induction before with
  | nil => cases rest <;> rfl
  | cons c more ih =>
      have hpos := Char.utf8Size_pos c
      rw [width_cons]
      rcases Nat.exists_eq_succ_of_ne_zero (show c.utf8Size + width more ≠ 0 by omega) with
        ⟨count, hcount⟩
      rw [hcount, List.cons_append, dropBytes, ← Nat.succ_eq_add_one, ← hcount,
        if_pos (Nat.le_add_right _ _), Nat.add_sub_cancel_left]
      exact ih

theorem takeBytes_width (text rest : List Char) :
    takeBytes (text ++ rest) (width text) = some text := by
  induction text with
  | nil => cases rest <;> rfl
  | cons c more ih =>
      have hpos := Char.utf8Size_pos c
      rw [width_cons]
      rcases Nat.exists_eq_succ_of_ne_zero (show c.utf8Size + width more ≠ 0 by omega) with
        ⟨count, hcount⟩
      rw [hcount, List.cons_append, takeBytes, ← Nat.succ_eq_add_one, ← hcount,
        if_pos (Nat.le_add_right _ _), Nat.add_sub_cancel_left, ih]
      rfl

theorem textAt_width (hsentence : before ++ text ++ rest = sentence) :
    textAt sentence (width before) (width before + width text) = Except.ok text := by
  unfold textAt
  rw [if_neg (Nat.not_lt_of_le (Nat.le_add_right _ _)), ← hsentence, List.append_assoc,
    dropBytes_width, Nat.add_sub_cancel_left]
  show (match takeBytes (text ++ rest) (width text) with
    | none => Except.error Failure.panic
    | some text => Except.ok text) = Except.ok text
  rw [takeBytes_width]

theorem takeWhile_placed (start : Nat) (pieces : List (List Char)) :
    (placed vocab unkId start pieces).takeWhile (fun next => some next.id = some unkId) =
      placed vocab unkId start (pieces.takeWhile fun text => Unknown vocab unkId text) := by
  induction pieces generalizing start with
  | nil => rfl
  | cons text rest ih =>
      rw [placed, List.takeWhile_cons, List.takeWhile_cons]
      by_cases hunknown : Unknown vocab unkId text
      · rw [if_pos (decide_eq_true (congrArg some hunknown)), if_pos (decide_eq_true hunknown), ih]
        rfl
      · rw [if_neg (fun h => hunknown (Option.some.inj (of_decide_eq_true h))),
          if_neg (fun h => hunknown (of_decide_eq_true h))]
        rfl

theorem dropWhile_placed (start : Nat) (pieces : List (List Char)) :
    (placed vocab unkId start pieces).dropWhile (fun next => some next.id = some unkId) =
      placed vocab unkId
        (start + width (pieces.takeWhile fun text => Unknown vocab unkId text).flatten)
        (pieces.dropWhile fun text => Unknown vocab unkId text) := by
  induction pieces generalizing start with
  | nil => rfl
  | cons text rest ih =>
      rw [placed, List.takeWhile_cons, List.dropWhile_cons, List.dropWhile_cons]
      by_cases hunknown : Unknown vocab unkId text
      · rw [if_pos (decide_eq_true (congrArg some hunknown)), if_pos (decide_eq_true hunknown),
          if_pos (decide_eq_true hunknown), ih, List.flatten_cons, width_append, Nat.add_assoc]
      · rw [if_neg (fun h => hunknown (Option.some.inj (of_decide_eq_true h))),
          if_neg (fun h => hunknown (of_decide_eq_true h)),
          if_neg (fun h => hunknown (of_decide_eq_true h))]
        rfl

theorem stop_placed (start : Nat) (pieces : List (List Char)) :
    (((placed vocab unkId start pieces).getLast?).map Placed.stop).getD start =
      start + width pieces.flatten := by
  rcases List.eq_nil_or_concat' pieces with rfl | ⟨more, last, rfl⟩
  · rfl
  · rw [placed_append, List.getLast?_concat, List.flatten_append, List.flatten_singleton]
    rfl

theorem forall₂_byteTokens (hover : Over vocab model) {offsets : Nat × Nat} {tokens : List Token}
    (h : model.byteTokens text offsets = some tokens) :
    List.Forall₂ (fun byte token => pieceId vocab (byteName byte) = some (Token.id token) ∧
      token.value = byteName byte ∧ token.offsets = offsets) (utf8 text) tokens := by
  apply (forall₂_of_mapM h).imp
  intro byte token htoken
  rcases Option.map_eq_some_iff.mp htoken with ⟨id, hid, rfl⟩
  rw [tokenToId_eq hover] at hid
  exact ⟨hid, rfl, rfl⟩

theorem exists_of_byteTokens (hover : Over vocab model) {offsets : Nat × Nat}
    (h : model.byteTokens text offsets = none) :
    exists byte, byte ∈ utf8 text ∧ pieceId vocab (byteName byte) = none := by
  rcases exists_of_mapM_eq_none h with ⟨byte, hbyte, hnone⟩
  rw [Option.map_eq_none_iff, tokenToId_eq hover] at hnone
  exact ⟨byte, hbyte, hnone⟩

theorem written_runTokens (hover : Over vocab model) (hfallback : model.byteFallback = byteFallback)
    (start : Nat) (text : List Char) :
    Written vocab unkId byteFallback start text
      (model.runTokens unkId text (start, start + width text)) := by
  unfold Unigram.runTokens
  rw [tokenToId_eq hover]
  cases hid : pieceId vocab text with
  | some id => exact Written.piece hid
  | none =>
      simp only
      split
      · next tokens htokens =>
          rcases Option.ite_none_right_eq_some.mp htokens with ⟨hallowed, hsome⟩
          exact Written.bytes (hfallback ▸ hallowed) hid (forall₂_byteTokens hover hsome)
      · next hnothing =>
          refine Written.unknown hid ?_
          intro hallowed
          rw [hfallback, if_pos hallowed] at hnothing
          exact exists_of_byteTokens hover hnothing

theorem next_known {next : List Char}
    (hnext : next ∈ (pieces.dropWhile fun text => Unknown vocab unkId text).head?) :
    ¬ Unknown vocab unkId next := by
  have hfalse := List.head?_dropWhile_not (fun text => decide (Unknown vocab unkId text)) pieces
  rw [Option.mem_def.mp hnext] at hfalse
  exact of_decide_eq_false hfalse

theorem fuse_fused (hover : Over vocab model) (hunk : model.unkId = some unkId)
    (hfallback : model.byteFallback = byteFallback)
    (hsentence : before ++ pieces.flatten = sentence) :
    exists tokens, model.fuse sentence (placed vocab unkId (width before) pieces) =
        Except.ok tokens ∧
      Fused vocab unkId byteFallback (width before) pieces tokens := by
  generalize hcount : pieces.length = count
  induction count using Nat.strong_induction_on generalizing pieces before with
  | h count ih =>
      cases pieces with
      | nil =>
          refine ⟨[], ?_, Fused.nil _⟩
          rw [placed, Unigram.fuse]
      | cons text rest =>
          rw [placed, Unigram.fuse]
          simp only [hunk]
          by_cases hunknown : Unknown vocab unkId text
          · let run := text :: rest.takeWhile fun next => Unknown vocab unkId next
            let more := rest.dropWhile fun next => Unknown vocab unkId next
            have hrest : rest = rest.takeWhile (fun next => Unknown vocab unkId next) ++ more :=
              List.takeWhile_append_dropWhile.symm
            have hpieces : run ++ more = text :: rest := congrArg (List.cons text) hrest.symm
            have hparts : before ++ run.flatten ++ more.flatten = sentence := by
              rw [← hsentence, ← hpieces, List.flatten_append, List.append_assoc]
            have hshorter : more.length < count := by
              rw [← hcount]
              exact Nat.lt_succ_of_le (List.length_dropWhile_le _ _)
            rcases ih more.length hshorter hparts rfl with ⟨tokens, htokens, hfused⟩
            have hrun : forall next, next ∈ run -> Unknown vocab unkId next := by
              intro next hnext
              rcases List.mem_cons.mp hnext with rfl | hlater
              · exact hunknown
              · have hmember := List.mem_takeWhile_imp hlater
                exact of_decide_eq_true hmember
            have hplace : width before + width text +
                width (rest.takeWhile fun next => Unknown vocab unkId next).flatten =
                  width before + width run.flatten := by
              rw [List.flatten_cons, width_append, Nat.add_assoc]
            have hstop : (((placed vocab unkId (width before + width text)
                (rest.takeWhile fun next => Unknown vocab unkId next)).getLast?).map
                  Placed.stop).getD (width before + width text) =
                width before + width run.flatten := (stop_placed _ _).trans hplace
            have hid : idOf vocab unkId text = unkId := hunknown
            rw [width_append] at htokens hfused
            refine ⟨_, ?_, hpieces ▸ Fused.unknown (List.cons_ne_nil _ _) hrun
              (fun _ hnext => next_known hnext)
              (written_runTokens hover hfallback (width before) run.flatten) hfused⟩
            rw [if_pos (decide_eq_true (congrArg some hunknown)), takeWhile_placed, hstop,
              textAt_width hparts, dropWhile_placed, hplace, hid]
            show (do
              let more ← model.fuse sentence (placed vocab unkId _ more)
              Except.ok _) = _
            rw [htokens]
            rfl
          · have htext : before ++ text ++ rest.flatten = sentence := by
              rw [← hsentence, List.flatten_cons, List.append_assoc]
            rcases ih rest.length (by rw [← hcount]; exact Nat.lt_succ_self _) htext rfl with
              ⟨more, hmore, hfused⟩
            rw [width_append] at hmore hfused
            have hknown : ¬ decide (some (idOf vocab unkId text) = some unkId) = true :=
              fun h => hunknown (Option.some.inj (of_decide_eq_true h))
            refine ⟨_, ?_, Fused.known hunknown hfused⟩
            rw [if_neg hknown, textAt_width htext, hmore]
            rfl

/-- Every sentence is tokenized, and its pieces are the best there are. -/
theorem tokenized_best {builder : Builder} {stored : Option Trie}
    (hstored : forall trie, stored = some trie -> trie.Holds (keys vocab))
    (hnew : Unigram.new builder vocab (some unkId) byteFallback stored = some model)
    (sentence : List Char) :
    exists pieces tokens, Tokenized vocab unkId byteFallback model sentence pieces tokens := by
  rcases over_of_new hstored hnew with ⟨hover, hunk, hfallback⟩
  rcases segment_chosen hover hunk sentence with ⟨pieces, hchosen, hsegment⟩
  have hwhole : [] ++ pieces.flatten = sentence := hchosen.cuts.whole
  rcases fuse_fused hover hunk hfallback hwhole with ⟨tokens, htokens, hfused⟩
  refine ⟨pieces, tokens, ?_⟩
  exact
    { segment := hsegment
      tokenize := by
        unfold Unigram.tokenize
        rw [hsegment]
        exact htokens
      chosen := hchosen
      nul := fun text htext hnul => nul_alone hover (hchosen.cuts.pieces text htext).2 hnul
      fused := hfused }

def pair : Vocab := [(['<', '>'], 0), (['a', 'b'], -1)]

theorem tokenized_best_pair : exists model pieces tokens,
    Unigram.new Builder.everyKey pair (some 0) false none = some model ∧
      Tokenized pair 0 false model ['b', 'a', 'b'] pieces tokens := by
  have hsome : (Unigram.new Builder.everyKey pair (some 0) false none).isSome = true := rfl
  rcases Option.isSome_iff_exists.mp hsome with ⟨model, hnew⟩
  have hstored : forall trie : Trie, none = some trie -> trie.Holds (keys pair) := by
    intro trie htrie
    cases htrie
  rcases tokenized_best hstored hnew ['b', 'a', 'b'] with ⟨pieces, tokens, htokenized⟩
  exact ⟨model, pieces, tokens, hnew, htokenized⟩

end Fusing

end Tokenizer
end PaminMemory
