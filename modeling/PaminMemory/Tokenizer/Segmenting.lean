import Mathlib.Data.List.TakeWhile
import PaminMemory.Foundation.Cutting
import PaminMemory.Tokenizer.Vocabulary

/-!
# The best segmentation

A sentence is cut into pieces in one pass over its characters.  At each the trie is asked for
the pieces that start there, and every one is offered to the place it ends at, which keeps the
best it was offered; the segmentation is read back from the end.
-/

namespace PaminMemory
namespace Tokenizer

open Foundation

/-- Why nothing is returned: the library's own error, a panic, or a walk that never ends. -/
inductive Failure where
  | missingUnkId
  | panic
  | endless
deriving DecidableEq, Repr

structure Best where
  id : Nat
  score : ℚ
  start : Option Nat
deriving DecidableEq

structure Placed where
  start : Nat
  stop : Nat
  id : Nat
deriving DecidableEq, Repr

def Best.unreached : Best := { id := 0, score := 0, start := none }

def Best.offer (node : Best) (id : Nat) (score : ℚ) (start : Nat) : Best :=
  if node.start = none ∨ node.score < score then
    { id := id, score := score, start := some start }
  else
    node

def offerAt (best : List Best) (place id : Nat) (score : ℚ) (start : Nat) :
    Except Failure (List Best) :=
  match best[place]? with
  | none => Except.error Failure.panic
  | some node => Except.ok (best.set place (node.offer id score start))

def nulFrom (start : Nat) (bytes : List UInt8) : Nat :=
  start + bytes.findIdx fun byte => byte = 0

namespace Unigram

def offerPieces (model : Unigram) (start : Nat) (here : ℚ) :
    List (Nat × Nat) -> List Best -> Except Failure (List Best)
  | [], best => Except.ok best
  | (id, len) :: more, best =>
      match model.scores[id]? with
      | none => Except.error Failure.panic
      | some score => do
          let best ← offerAt best (start + len) id (score + here) start
          model.offerPieces start here more best

def scan (model : Unigram) : List Char -> Nat -> Nat -> List Best -> Except Failure (List Best)
  | [], _, _, best => Except.ok best
  | c :: rest, start, nul, best =>
      let bytes := utf8 (c :: rest)
      -- The trie is searched no further than the next NUL.
      let nul := if nul < start then nulFrom start bytes else nul
      match best[start]? with
      | none => Except.error Failure.panic
      | some node => do
          let found := model.trie.commonPrefixSearch (bytes.take (nul - start))
          let best ← model.offerPieces start node.score found best
          if found.any fun piece => piece.2 = c.utf8Size then
            model.scan rest (start + c.utf8Size) nul best
          else
            match model.unkId with
            | none => Except.error Failure.missingUnkId
            | some unkId => do
                let place := start + c.utf8Size
                let best ← offerAt best place unkId (model.unkScore + node.score) start
                model.scan rest (start + c.utf8Size) nul best

end Unigram

def walk (best : List Best) : Nat -> Nat -> Except Failure (List Placed)
  | _, 0 => Except.ok []
  | 0, _ + 1 => Except.error Failure.endless
  | steps + 1, stop + 1 =>
      match best[stop + 1]? with
      | none => Except.error Failure.panic
      | some node =>
          match node.start with
          | none => Except.error Failure.panic
          | some start => do
              let earlier ← walk best steps start
              Except.ok ({ start := start, stop := stop + 1, id := node.id } :: earlier)

def Unigram.segment (model : Unigram) (sentence : List Char) : Except Failure (List Placed) := do
  let bytes := utf8 sentence
  let unreached := List.replicate (bytes.length + 1) Best.unreached
  let best ← model.scan sentence 0 (nulFrom 0 bytes) unreached
  let path ← walk best bytes.length bytes.length
  Except.ok path.reverse

/-!
## What a sentence may be cut into
-/

def Allowed (vocab : Vocab) (text : List Char) : Prop :=
  (pieceId vocab text).isSome ∨ exists c, text = [c] ∧ pieceId vocab [c] = none

def score (vocab : Vocab) (text : List Char) : ℚ :=
  match pieceId vocab text with
  | some id => ((vocab[id]?).map Prod.snd).getD 0
  | none => minScore vocab - 10

def idOf (vocab : Vocab) (unkId : Nat) (text : List Char) : Nat :=
  (pieceId vocab text).getD unkId

def placed (vocab : Vocab) (unkId : Nat) : Nat -> List (List Char) -> List Placed
  | _, [] => []
  | start, text :: rest =>
      { start := start, stop := start + width text, id := idOf vocab unkId text } ::
        placed vocab unkId (start + width text) rest

section Pieces

variable {vocab : Vocab} {model : Unigram} {text : List Char} {unkId : Nat}

theorem allowed_singleton (vocab : Vocab) (c : Char) : Allowed vocab [c] := by
  cases hid : pieceId vocab [c] with
  | none => exact Or.inr ⟨c, rfl, hid⟩
  | some id => exact Or.inl (by rw [hid]; rfl)

theorem piece_singleton (vocab : Vocab) (c : Char) : Piece (Allowed vocab) [c] :=
  ⟨List.cons_ne_nil c [], allowed_singleton vocab c⟩

theorem cuts_characters (vocab : Vocab) (text : List Char) :
    Cuts (Allowed vocab) text (text.map fun c => [c]) where
  whole := by
    induction text with
    | nil => rfl
    | cons c rest ih =>
        rw [List.map_cons, List.flatten_cons, ih]
        rfl
  pieces := by
    intro piece hpiece
    rcases List.mem_map.mp hpiece with ⟨c, _, rfl⟩
    exact piece_singleton vocab c

theorem placed_append (start : Nat) (pieces : List (List Char)) (last : List Char) :
    placed vocab unkId start (pieces ++ [last]) =
      placed vocab unkId start pieces ++
        [{ start := start + width pieces.flatten
           stop := start + width (pieces.flatten ++ last)
           id := idOf vocab unkId last }] := by
  induction pieces generalizing start with
  | nil =>
      rw [List.nil_append, List.flatten_nil, List.nil_append]
      rfl
  | cons text rest ih =>
      rw [List.cons_append, placed, placed, ih, List.flatten_cons, List.append_assoc]
      simp only [width_append, Nat.add_assoc, List.cons_append]

end Pieces

/-!
## What each place was offered
-/

inductive Told (vocab : Vocab) (unkId : Nat) (whole : List Char) (tried : Nat) (node : Best) :
    Prop where
  | unreached (hnode : node = Best.unreached)
      (hnone : forall before last pieces,
        ¬ Ends (Allowed vocab) whole tried before last pieces) : Told vocab unkId whole tried node
  | reached {before last : List Char} (hstart : node.start = some (width before))
      (hid : node.id = idOf vocab unkId last)
      (hleads : Leads (Allowed vocab) (score vocab) whole tried before last node.score) :
      Told vocab unkId whole tried node

section Told

variable {vocab : Vocab} {unkId tried : Nat} {whole before last : List Char} {node : Best}
  {here : ℚ}

theorem Told.most (h : Told vocab unkId whole tried node) (htried : whole.length <= tried) :
    Most (Allowed vocab) (score vocab) whole node.score := by
  cases h with
  | unreached hnode hnone =>
      rcases List.eq_nil_or_concat' whole with rfl | ⟨init, c, rfl⟩
      · rw [hnode]
        exact most_nil
      · rw [List.length_append, List.length_singleton] at htried
        exact absurd ⟨rfl, htried, piece_singleton vocab c, cuts_characters vocab init⟩
          (hnone init [c] _)
  | reached hstart hid hleads => exact hleads.most_whole htried

theorem Told.skip (h : Told vocab unkId whole tried node)
    (hnone : forall before last, before ++ last = whole -> before.length = tried ->
      ¬ Piece (Allowed vocab) last) : Told vocab unkId whole (tried + 1) node := by
  cases h with
  | unreached hnode hnothing =>
      refine Told.unreached hnode ?_
      intro before last pieces hends
      rcases Nat.lt_succ_iff_lt_or_eq.mp hends.starts with hearlier | hnow
      · exact hnothing before last pieces ⟨hends.joined, hearlier, hends.piece, hends.cuts⟩
      · exact hnone before last hends.joined hnow hends.piece
  | reached hstart hid hleads =>
      refine Told.reached hstart hid (hleads.keep ?_)
      intro before' last' pieces hends hnow
      exact absurd hends.piece (hnone before' last' hends.joined hnow)

theorem Told.offer (h : Told vocab unkId whole before.length node) (hwhole : before ++ last = whole)
    (hlast : Piece (Allowed vocab) last)
    (hhere : Most (Allowed vocab) (score vocab) before here) :
    Told vocab unkId whole (before.length + 1)
      (node.offer (idOf vocab unkId last) (score vocab last + here) (width before)) := by
  have htakes : (forall before' last' pieces,
      Ends (Allowed vocab) whole before.length before' last' pieces ->
        total (score vocab) pieces + score vocab last' < here + score vocab last) ->
      Told vocab unkId whole (before.length + 1)
        { id := idOf vocab unkId last, score := score vocab last + here
          start := some (width before) } := by
    intro hless
    refine Told.reached rfl rfl ?_
    rw [add_comm (score vocab last) here]
    exact leads_take hwhole hlast hhere hless
  unfold Best.offer
  cases h with
  | unreached hnode hnone =>
      rw [if_pos (Or.inl (by rw [hnode]; rfl))]
      exact htakes fun before' last' pieces hends => absurd hends (hnone before' last' pieces)
  | reached hstart hid hleads =>
      split
      · next htaken =>
          have hmore : node.score < score vocab last + here := by
            rcases htaken with hnone | hmore
            · rw [hstart] at hnone
              cases hnone
            · exact hmore
          apply htakes
          intro before' last' pieces hends
          rw [add_comm here]
          exact lt_of_le_of_lt (hleads.most before' last' pieces hends) hmore
      · next hkept =>
          refine Told.reached hstart hid (hleads.keep ?_)
          intro before' last' pieces hends hnow
          rcases List.append_inj (hends.joined.trans hwhole.symm) hnow with ⟨rfl, rfl⟩
          have hle : score vocab last' + here <= node.score :=
            not_lt.mp fun hmore => hkept (Or.inr hmore)
          rw [add_comm] at hle
          exact le_trans (hends.le hhere) hle

end Told

structure Table (vocab : Vocab) (unkId : Nat) (sentence : List Char) (tried : Nat)
    (best : List Best) : Prop where
  length : best.length = width sentence + 1
  told : forall whole, whole <+: sentence ->
    exists node, best[width whole]? = some node ∧ Told vocab unkId whole tried node

structure Offered (vocab : Vocab) (unkId : Nat) (sentence before : List Char) (here : ℚ)
    (best next : List Best) : Prop where
  length : next.length = best.length
  offered : forall text node, Piece (Allowed vocab) text -> before ++ text <+: sentence ->
    best[width (before ++ text)]? = some node ->
      next[width (before ++ text)]? =
        some (node.offer (idOf vocab unkId text) (score vocab text + here) (width before))
  kept : forall whole, whole <+: sentence ->
    (forall text, before ++ text = whole -> ¬ Piece (Allowed vocab) text) ->
      next[width whole]? = best[width whole]?

section Tables

variable {vocab : Vocab} {model : Unigram} {unkId nul : Nat} {sentence before rest : List Char}
  {best next : List Best} {here : ℚ} {c : Char}

theorem table_unreached (vocab : Vocab) (unkId : Nat) (sentence : List Char) :
    Table vocab unkId sentence 0 (List.replicate (width sentence + 1) Best.unreached) where
  length := List.length_replicate
  told := by
    intro whole hwhole
    refine ⟨Best.unreached, ?_, Told.unreached rfl ?_⟩
    · exact List.getElem?_replicate_of_lt (Nat.lt_succ_of_le (width_le_of_begins hwhole))
    · exact fun before last pieces hends => Nat.not_lt_zero _ hends.starts

theorem Table.offered (h : Table vocab unkId sentence before.length best)
    (hbefore : before <+: sentence)
    (hoffered : Offered vocab unkId sentence before here best next)
    (hhere : Most (Allowed vocab) (score vocab) before here) :
    Table vocab unkId sentence (before.length + 1) next where
  length := hoffered.length.trans h.length
  told := by
    intro whole hwhole
    rcases h.told whole hwhole with ⟨node, hnode, htold⟩
    by_cases hpiece : exists text, before ++ text = whole ∧ Piece (Allowed vocab) text
    · rcases hpiece with ⟨text, rfl, hpiece⟩
      exact ⟨_, hoffered.offered text node hpiece hwhole hnode, htold.offer rfl hpiece hhere⟩
    · have hnone : forall text, before ++ text = whole -> ¬ Piece (Allowed vocab) text :=
        fun text htext hallowed => hpiece ⟨text, htext, hallowed⟩
      refine ⟨node, (hoffered.kept whole hwhole hnone).trans hnode, htold.skip ?_⟩
      intro other last hparts hlength
      have hother : other <+: sentence := (List.prefix_append other last).trans (hparts ▸ hwhole)
      have hsame : other = before :=
        (List.prefix_of_prefix_length_le hother hbefore (Nat.le_of_eq hlength)).eq_of_length hlength
      exact hnone last (hsame ▸ hparts)

theorem offerPieces_spec (here : ℚ) {start : Nat} {found : List (Nat × Nat)}
    (hlengths : (found.map Prod.snd).Nodup)
    (hinside : forall piece, piece ∈ found -> start + piece.2 < best.length)
    (hscores : forall piece, piece ∈ found -> piece.1 < model.scores.length) :
    exists next, model.offerPieces start here found best = Except.ok next ∧
      next.length = best.length ∧
      (forall piece node score, piece ∈ found -> best[start + piece.2]? = some node ->
        model.scores[piece.1]? = some score ->
          next[start + piece.2]? = some (node.offer piece.1 (score + here) start)) ∧
      forall place, (forall piece, piece ∈ found -> start + piece.2 ≠ place) ->
        next[place]? = best[place]? := by
  induction found generalizing best with
  | nil => exact ⟨best, rfl, rfl, fun _ _ _ h => (nomatch h), fun _ _ => rfl⟩
  | cons piece more ih =>
      rcases piece with ⟨id, len⟩
      rcases List.nodup_cons.mp hlengths with ⟨hnew, hmore⟩
      have hplace : start + len < best.length := hinside _ List.mem_cons_self
      have hnode : best[start + len]? = some best[start + len] := List.getElem?_eq_getElem hplace
      have hid : id < model.scores.length := hscores _ List.mem_cons_self
      have hscore : model.scores[id]? = some model.scores[id] := List.getElem?_eq_getElem hid
      let offered := best[start + len].offer id (model.scores[id] + here) start
      have hother : forall other, other ∈ more -> start + len ≠ start + other.2 := by
        intro other hmem hsame
        rw [Nat.add_left_cancel hsame] at hnew
        exact hnew (List.mem_map.mpr ⟨other, hmem, rfl⟩)
      have hinside' : forall other, other ∈ more ->
          start + other.2 < (best.set (start + len) offered).length := by
        intro other hmem
        rw [List.length_set]
        exact hinside other (List.mem_cons_of_mem _ hmem)
      rcases ih hmore hinside' fun other hmem => hscores other (List.mem_cons_of_mem _ hmem) with
        ⟨next, hnext, hlength, hoffered, hkept⟩
      refine ⟨next, ?_, hlength.trans List.length_set, ?_, ?_⟩
      · simp only [Unigram.offerPieces, hscore, offerAt, hnode]
        exact hnext
      · intro other node value hmem hthere hvalue
        rcases List.mem_cons.mp hmem with rfl | hlater
        · rw [hkept _ fun other hmem => (hother other hmem).symm]
          rw [hnode] at hthere
          rw [hscore] at hvalue
          cases hthere
          cases hvalue
          exact List.getElem?_set_self hplace
        · apply hoffered other node value hlater _ hvalue
          rw [List.getElem?_set_ne (hother other hlater)]
          exact hthere
      · intro place hnone
        rw [hkept place fun other hmem => hnone other (List.mem_cons_of_mem _ hmem)]
        exact List.getElem?_set_ne (hnone _ List.mem_cons_self)

end Tables

/-!
## One character
-/

section Characters

variable {vocab : Vocab} {model : Unigram} {unkId nul start : Nat}
  {sentence before rest text : List Char} {best : List Best} {here : ℚ} {c : Char}

theorem take_nulFrom (start : Nat) (bytes : List UInt8) :
    bytes.take (nulFrom start bytes - start) = bytes.takeWhile fun byte => byte ≠ 0 := by
  unfold nulFrom
  rw [Nat.add_sub_cancel_left, List.takeWhile_eq_take_findIdx_not]
  congr 2
  funext byte
  simp

theorem zero_notMem_takeWhile (bytes : List UInt8) :
    (0 : UInt8) ∉ bytes.takeWhile fun byte => byte ≠ 0 := by
  intro hzero
  have hne := List.mem_takeWhile_imp hzero
  simp at hne

theorem prefix_takeWhile (hnul : Char.ofNat 0 ∉ text) :
    utf8 text <+: (utf8 rest).takeWhile (fun byte => byte ≠ 0) <-> text <+: rest := by
  constructor
  · intro h
    exact prefix_of_utf8 (h.trans (List.takeWhile_prefix _))
  · rintro ⟨more, rfl⟩
    rw [utf8_append, List.takeWhile_append_of_pos]
    · exact List.prefix_append _ _
    · intro byte hbyte
      refine decide_eq_true ?_
      rintro rfl
      exact hnul (zero_mem_utf8.mp hbyte)

theorem nulFrom_next (h : nul = nulFrom start (utf8 (c :: rest))) :
    nul < start + c.utf8Size ∨ nul = nulFrom (start + c.utf8Size) (utf8 rest) := by
  unfold nulFrom at h ⊢
  rw [utf8_cons, List.findIdx_append] at h
  split at h
  · next hfound =>
      left
      rw [h, Nat.add_lt_add_iff_left, ← String.length_utf8EncodeChar]
      exact hfound
  · right
    rw [h, String.length_utf8EncodeChar, Nat.add_assoc, Nat.add_comm (List.findIdx _ _)]

theorem mem_found {id len : Nat} (hover : Over vocab model) :
    (id, len) ∈ model.trie.commonPrefixSearch
        ((utf8 rest).take (nulFrom start (utf8 rest) - start)) <->
      exists text, pieceId vocab text = some id ∧ text <+: rest ∧ len = width text := by
  rw [take_nulFrom, mem_commonPrefixSearch hover (zero_notMem_takeWhile _)]
  apply exists_congr
  intro text
  apply and_congr_right
  intro hid
  rw [prefix_takeWhile (isKey_iff.mp (isKey_of_pieceId hover hid)).2]

theorem prefix_sentence (hsentence : before ++ rest = sentence) (h : text <+: rest) :
    before ++ text <+: sentence := by
  rw [← hsentence]
  exact (List.prefix_append_right_inj before).mpr h

theorem prefix_rest (hsentence : before ++ rest = sentence) (h : before ++ text <+: sentence) :
    text <+: rest := by
  rw [← hsentence] at h
  exact (List.prefix_append_right_inj before).mp h

theorem score_eq (hover : Over vocab model) {id : Nat} (hid : pieceId vocab text = some id) :
    model.scores[id]? = some (score vocab text) := by
  rcases score_of_pieceId hover hid with ⟨value, hlisted, hvalue⟩
  unfold score
  rw [hid, hvalue]
  simp only [hlisted, Option.map_some, Option.getD_some]

structure Finds (vocab : Vocab) (rest : List Char) (found : List (Nat × Nat)) : Prop where
  lengths : (found.map Prod.snd).Nodup
  mem : forall id len, (id, len) ∈ found <->
    exists text, pieceId vocab text = some id ∧ text <+: rest ∧ len = width text

theorem finds_commonPrefixSearch (hover : Over vocab model) (start : Nat) (rest : List Char) :
    Finds vocab rest (model.trie.commonPrefixSearch
      ((utf8 rest).take (nulFrom start (utf8 rest) - start))) where
  lengths := by
    rw [take_nulFrom]
    exact nodup_commonPrefixSearch hover (zero_notMem_takeWhile _)
  mem := fun _ _ => mem_found hover

theorem Finds.any {found : List (Nat × Nat)} (h : Finds vocab (c :: rest) found) :
    found.any (fun piece => piece.2 = c.utf8Size) = (pieceId vocab [c]).isSome := by
  apply Bool.eq_iff_iff.mpr
  rw [List.any_eq_true, Option.isSome_iff_exists]
  constructor
  · rintro ⟨⟨id, len⟩, hmem, hlen⟩
    rcases (h.mem id len).mp hmem with ⟨text, hid, hprefix, hwidth⟩
    have hsame : width text = width [c] := by
      rw [← hwidth, width_singleton]
      exact of_decide_eq_true hlen
    have hfirst : [c] <+: c :: rest := List.prefix_append [c] rest
    exact ⟨id, eq_of_width hprefix hfirst hsame ▸ hid⟩
  · rintro ⟨id, hid⟩
    refine ⟨(id, c.utf8Size), (h.mem id _).mpr ⟨[c], hid, ?_, (width_singleton c).symm⟩, ?_⟩
    · exact List.prefix_append [c] rest
    · exact decide_eq_true rfl

theorem offered_found (here : ℚ) (hover : Over vocab model) (hsentence : before ++ rest = sentence)
    (hlength : best.length = width sentence + 1) {found : List (Nat × Nat)}
    (hfound : Finds vocab rest found) :
    exists next, model.offerPieces (width before) here found best = Except.ok next ∧
      next.length = best.length ∧
      (forall text id node, pieceId vocab text = some id -> before ++ text <+: sentence ->
        best[width (before ++ text)]? = some node ->
          next[width (before ++ text)]? =
            some (node.offer id (score vocab text + here) (width before))) ∧
      forall whole, whole <+: sentence ->
        (forall text, before ++ text = whole -> pieceId vocab text = none) ->
          next[width whole]? = best[width whole]? := by
  have hinside : forall piece, piece ∈ found -> width before + piece.2 < best.length := by
    rintro ⟨id, len⟩ hmem
    rcases (hfound.mem id len).mp hmem with ⟨text, _, hprefix, rfl⟩
    rw [hlength, ← width_append]
    exact Nat.lt_succ_of_le (width_le_of_begins (prefix_sentence hsentence hprefix))
  have hscores : forall piece, piece ∈ found -> piece.1 < model.scores.length := by
    rintro ⟨id, len⟩ hmem
    rcases (hfound.mem id len).mp hmem with ⟨text, hid, _, _⟩
    exact (List.getElem?_eq_some_iff.mp (score_eq hover hid)).1
  rcases offerPieces_spec here hfound.lengths hinside hscores with
    ⟨next, hnext, hsame, hoffered, hkept⟩
  refine ⟨next, hnext, hsame, ?_, ?_⟩
  · intro text id node hid hprefix hnode
    have hmem : (id, width text) ∈ found :=
      (hfound.mem id _).mpr ⟨text, hid, prefix_rest hsentence hprefix, rfl⟩
    rw [width_append] at hnode ⊢
    exact hoffered _ node _ hmem hnode (score_eq hover hid)
  · intro whole hwhole hnone
    apply hkept
    rintro ⟨id, len⟩ hmem hplace
    rcases (hfound.mem id len).mp hmem with ⟨text, hid, hprefix, rfl⟩
    rw [← width_append] at hplace
    have htext := prefix_sentence hsentence hprefix
    rw [hnone text (eq_of_width htext hwhole hplace)] at hid
    cases hid

theorem piece_of_pieceId (hover : Over vocab model) {id : Nat}
    (hid : pieceId vocab text = some id) : Piece (Allowed vocab) text :=
  ⟨(isKey_iff.mp (isKey_of_pieceId hover hid)).1, Or.inl (by rw [hid]; rfl)⟩

theorem pieceId_of_not_piece (hover : Over vocab model)
    (hnot : ¬ Piece (Allowed vocab) text) : pieceId vocab text = none := by
  cases hid : pieceId vocab text with
  | none => rfl
  | some id => exact absurd (piece_of_pieceId hover hid) hnot

theorem offered_single (unkId : Nat) (here : ℚ) (hover : Over vocab model)
    (hsentence : before ++ c :: rest = sentence)
    (hlength : best.length = width sentence + 1) {found : List (Nat × Nat)}
    (hfound : Finds vocab (c :: rest) found) (hsingle : (pieceId vocab [c]).isSome) :
    exists next, model.offerPieces (width before) here found best = Except.ok next ∧
      Offered vocab unkId sentence before here best next := by
  rcases offered_found here hover hsentence hlength hfound with
    ⟨next, hnext, hsame, hoffered, hkept⟩
  refine ⟨next, hnext, hsame, ?_, ?_⟩
  · intro text node hpiece hprefix hnode
    cases hid : pieceId vocab text with
    | some id =>
        rw [hoffered text id node hid hprefix hnode, idOf, hid]
        rfl
    | none =>
        rcases hpiece.2 with hsome | ⟨d, rfl, hnone⟩
        · rw [hid] at hsome
          cases hsome
        · have hhead : d = c := (List.cons_prefix_cons.mp (prefix_rest hsentence hprefix)).1
          rw [hhead] at hnone
          rw [hnone] at hsingle
          cases hsingle
  · intro whole hwhole hnone
    apply hkept whole hwhole
    intro text htext
    exact pieceId_of_not_piece hover (hnone text htext)

theorem offered_unknown (unkId : Nat) (here : ℚ) (hover : Over vocab model)
    (hsentence : before ++ c :: rest = sentence)
    (hlength : best.length = width sentence + 1) {found : List (Nat × Nat)}
    (hfound : Finds vocab (c :: rest) found) (hunknown : pieceId vocab [c] = none) :
    exists middle next, model.offerPieces (width before) here found best = Except.ok middle ∧
      offerAt middle (width before + c.utf8Size) unkId (model.unkScore + here) (width before) =
        Except.ok next ∧
      Offered vocab unkId sentence before here best next := by
  rcases offered_found here hover hsentence hlength hfound with
    ⟨middle, hmiddle, hsame, hoffered, hkept⟩
  have hone : before ++ [c] <+: sentence :=
    prefix_sentence hsentence (List.prefix_append [c] rest)
  have hplace : width before + c.utf8Size = width (before ++ [c]) := by
    rw [width_append, width_singleton]
  have hinside : width (before ++ [c]) < middle.length := by
    rw [hsame, hlength]
    exact Nat.lt_succ_of_le (width_le_of_begins hone)
  have hnode : exists there, middle[width (before ++ [c])]? = some there :=
    ⟨_, List.getElem?_eq_getElem hinside⟩
  rcases hnode with ⟨there, hthere⟩
  have hbest : middle[width (before ++ [c])]? = best[width (before ++ [c])]? := by
    apply hkept _ hone
    intro text htext
    rw [List.append_cancel_left htext]
    exact hunknown
  have hscore : model.unkScore = score vocab [c] := by
    unfold score
    rw [hunknown, hover.unkScore]
  have hid : idOf vocab unkId [c] = unkId := by
    unfold idOf
    rw [hunknown]
    rfl
  refine ⟨middle, middle.set (width (before ++ [c]))
    (there.offer unkId (model.unkScore + here) (width before)), hmiddle, ?_, ?_⟩
  · rw [hplace, offerAt, hthere]
  refine ⟨List.length_set.trans hsame, ?_, ?_⟩
  · intro text node hpiece hprefix hnode
    by_cases htext : text = [c]
    · rw [htext] at hnode ⊢
      rw [hbest, hnode] at hthere
      rw [← Option.some.inj hthere, hid, hscore]
      exact List.getElem?_set_self hinside
    · have hne : width (before ++ [c]) ≠ width (before ++ text) := by
        intro hwidth
        exact htext (List.append_cancel_left (eq_of_width hone hprefix hwidth)).symm
      rw [List.getElem?_set_ne hne]
      rcases hpiece.2 with hsome | ⟨d, rfl, _⟩
      · rcases Option.isSome_iff_exists.mp hsome with ⟨id, hid⟩
        rw [hoffered text id node hid hprefix hnode, idOf, hid]
        rfl
      · have hhead : d = c := (List.cons_prefix_cons.mp (prefix_rest hsentence hprefix)).1
        exact absurd (by rw [hhead]) htext
  · intro whole hwhole hnone
    have hne : width (before ++ [c]) ≠ width whole := by
      intro hwidth
      exact hnone [c] (eq_of_width hone hwhole hwidth) (piece_singleton vocab c)
    rw [List.getElem?_set_ne hne]
    apply hkept whole hwhole
    intro text htext
    exact pieceId_of_not_piece hover (hnone text htext)

end Characters

/-!
## A sentence
-/

section Sentences

variable {vocab : Vocab} {model : Unigram} {unkId nul : Nat}
  {sentence before rest whole : List Char} {best : List Best}

theorem scan_table (hover : Over vocab model) (hunk : model.unkId = some unkId)
    (hsentence : before ++ rest = sentence)
    (htable : Table vocab unkId sentence before.length best)
    (hnul : nul < width before ∨ nul = nulFrom (width before) (utf8 rest)) :
    exists next, model.scan rest (width before) nul best = Except.ok next ∧
      Table vocab unkId sentence sentence.length next := by
  induction rest generalizing before nul best with
  | nil =>
      rw [List.append_nil] at hsentence
      rw [← hsentence] at htable ⊢
      exact ⟨best, rfl, htable⟩
  | cons c rest ih =>
      have hbefore : before <+: sentence := ⟨c :: rest, hsentence⟩
      have hnext : (before ++ [c]) ++ rest = sentence := by
        rw [← hsentence, List.append_assoc, List.singleton_append]
      have hwidth : width before + c.utf8Size = width (before ++ [c]) := by
        rw [width_append, width_singleton]
      have hlength : (before ++ [c]).length = before.length + 1 := List.length_append
      have hbytes :
          (if nul < width before then nulFrom (width before) (utf8 (c :: rest)) else nul) =
            nulFrom (width before) (utf8 (c :: rest)) := by
        split
        · rfl
        · next hahead => exact hnul.resolve_left hahead
      rcases htable.told before hbefore with ⟨node, hnode, htold⟩
      have hhere := htold.most (Nat.le_refl _)
      have hfinds := finds_commonPrefixSearch hover (width before) (c :: rest)
      have hahead : nulFrom (width before) (utf8 (c :: rest)) < width (before ++ [c]) ∨
          nulFrom (width before) (utf8 (c :: rest)) = nulFrom (width (before ++ [c])) (utf8 rest) :=
        hwidth ▸ nulFrom_next rfl
      rw [Unigram.scan, hbytes]
      simp only [hnode, hfinds.any]
      cases hsingle : pieceId vocab [c] with
      | some id =>
          have hthere : (pieceId vocab [c]).isSome := Option.isSome_of_eq_some hsingle
          rcases offered_single unkId node.score hover hsentence htable.length hfinds hthere with
            ⟨next, hoffer, hoffered⟩
          have htable' := htable.offered hbefore hoffered hhere
          rw [← hlength] at htable'
          rcases ih hnext htable' hahead with ⟨last, hscan, hlast⟩
          refine ⟨last, ?_, hlast⟩
          rw [hoffer, hwidth]
          exact hscan
      | none =>
          rcases offered_unknown unkId node.score hover hsentence htable.length hfinds hsingle with
            ⟨middle, next, hmiddle, hoffer, hoffered⟩
          have htable' := htable.offered hbefore hoffered hhere
          rw [← hlength] at htable'
          rcases ih hnext htable' hahead with ⟨last, hscan, hlast⟩
          refine ⟨last, ?_, hlast⟩
          rw [hwidth] at hoffer
          rw [hmiddle, hwidth, hunk]
          show (offerAt middle (width (before ++ [c])) unkId (model.unkScore + node.score)
            (width before) >>= _) = _
          rw [hoffer]
          exact hscan

theorem walk_chosen (htable : Table vocab unkId sentence sentence.length best)
    (hwhole : whole <+: sentence) {steps : Nat} (hsteps : width whole <= steps) :
    exists pieces, Chosen (Allowed vocab) (score vocab) whole pieces ∧
      walk best steps (width whole) = Except.ok (placed vocab unkId 0 pieces).reverse := by
  induction steps generalizing whole with
  | zero =>
      have hnothing : whole = [] := by
        by_contra hne
        exact absurd (width_pos hne) (Nat.not_lt_of_le hsteps)
      rw [hnothing]
      exact ⟨[], chosen_nil, rfl⟩
  | succ steps ih =>
      rcases List.eq_nil_or_concat' whole with rfl | ⟨init, c, hconcat⟩
      · exact ⟨[], chosen_nil, rfl⟩
      · have hlength : whole.length <= sentence.length := hwhole.length_le
        rcases htable.told whole hwhole with ⟨node, hnode, htold⟩
        cases htold with
        | unreached hunreached hnone =>
            have hends : Ends (Allowed vocab) whole sentence.length init [c]
                (init.map fun d => [d]) := by
              refine ⟨hconcat.symm, ?_, piece_singleton vocab c, cuts_characters vocab init⟩
              rw [hconcat, List.length_append] at hlength
              exact hlength
            exact absurd hends (hnone _ _ _)
        | reached hstart hid hleads =>
            next before last =>
              have hwidth : width whole = width before + width last := by
                rw [← hleads.joined, width_append]
              have hlast := width_pos hleads.piece.1
              have hbefore : before <+: sentence :=
                (hleads.joined ▸ List.prefix_append before last).trans hwhole
              have hfewer : width before <= steps := by omega
              rcases ih hbefore hfewer with ⟨pieces, hchosen, hwalk⟩
              refine ⟨pieces ++ [last], hchosen.snoc hleads hlength, ?_⟩
              rw [placed_append, List.reverse_append, hchosen.cuts.whole, hleads.joined]
              have hsome : width whole ≠ 0 := by omega
              rcases Nat.exists_eq_succ_of_ne_zero hsome with ⟨stop, hstop⟩
              rw [hstop] at hnode ⊢
              simp only [walk, hnode, hstart, hwalk, hid, Nat.zero_add]
              rfl

/-- A sentence is cut as well as it can be, and of the cuttings as good the one kept is that of
the pieces offered first. -/
theorem segment_chosen (hover : Over vocab model) (hunk : model.unkId = some unkId)
    (sentence : List Char) :
    exists pieces, Chosen (Allowed vocab) (score vocab) sentence pieces ∧
      model.segment sentence = Except.ok (placed vocab unkId 0 pieces) := by
  rcases scan_table hover hunk (List.nil_append sentence) (table_unreached vocab unkId sentence)
    (Or.inr rfl) with ⟨best, hscan, htable⟩
  rcases walk_chosen htable (List.prefix_refl sentence) (Nat.le_refl _) with
    ⟨pieces, hchosen, hwalk⟩
  refine ⟨pieces, hchosen, ?_⟩
  unfold Unigram.segment
  show (model.scan sentence (width []) (nulFrom (width []) (utf8 sentence))
    (List.replicate (width sentence + 1) Best.unreached) >>= _) = _
  rw [hscan]
  show (walk best (width sentence) (width sentence) >>= _) = _
  rw [hwalk]
  show Except.ok (placed vocab unkId 0 pieces).reverse.reverse = _
  rw [List.reverse_reverse]

theorem nul_alone (hover : Over vocab model) {text : List Char} (hallowed : Allowed vocab text)
    (hnul : Char.ofNat 0 ∈ text) : text = [Char.ofNat 0] := by
  rcases hallowed with hsome | ⟨c, rfl, _⟩
  · rcases Option.isSome_iff_exists.mp hsome with ⟨id, hid⟩
    exact absurd hnul (isKey_iff.mp (isKey_of_pieceId hover hid)).2
  · rw [List.mem_singleton.mp hnul]

end Sentences

end Tokenizer
end PaminMemory
