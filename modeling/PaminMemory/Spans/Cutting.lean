import PaminMemory.Spans.Text

/-!
# Cutting what is too large

A line or a sentence still too large is cut at its tokens, into pieces of near equal
size; what a header or a heading leaves room for is cut the same way.
-/

namespace PaminMemory
namespace Spans

open Foundation
open Topics (isWhitespace)

/-- Counts tokens the way the model that will read a span counts them. -/
structure TokenCount where
  /-- Where each token lies that a text encodes to. -/
  offsets : List Char -> List Stretch
  inside : forall text token, token ∈ offsets text ->
    token.start <= token.stop ∧ token.stop <= text.length
  ordered : forall text, (offsets text).Pairwise fun earlier later => earlier.start <= later.start

def TokenCount.count (counter : TokenCount) (text : List Char) : Nat :=
  (counter.offsets text).length

/-- Unicode's sentence boundaries, of a text with something in it. -/
structure SentenceSegmenter where
  segment : List Char -> List Nat
  first : forall text, text ≠ [] -> (segment text).head? = some 0
  last : forall text, text ≠ [] -> (segment text).getLast? = some text.length
  ordered : forall text, (segment text).Pairwise (· <= ·)

def lines (content : List Char) (range : Stretch) : List Stretch :=
  trimmedPieces content
    (splitAt range.start range.stop (newlines range.start (slice content range)))

def sentences (segmenter : SentenceSegmenter) (content : List Char) (range : Stretch) :
    List Stretch :=
  let boundaries := segmenter.segment (slice content range)
  trimmedPieces content ((windows boundaries).map (Stretch.shift range.start))

def startOf (offsets : List Stretch) (index : Nat) : Nat :=
  (offsets[index]?.map Stretch.start).getD 0

def boundsAfter (offsets : List Stretch) (count : Nat) (last : Nat) : List Nat -> List Nat
  | [] => []
  | piece :: pieces =>
      let bound := max (startOf offsets (piece * offsets.length / count)) last
      bound :: boundsAfter offsets count bound pieces

def cutBounds (offsets : List Stretch) (length count : Nat) : List Nat :=
  0 :: boundsAfter offsets count 0 (List.range' 1 (count - 1)) ++ [length]

section Cut

variable (counter : TokenCount)

def cutPieces (content : List Char) (range : Stretch) (count : Nat) : List (Stretch × Nat) :=
  let text := slice content range
  let bounds := cutBounds (counter.offsets text) text.length count
  let pieces := trimmedPieces content ((windows bounds).map (Stretch.shift range.start))
  pieces.map fun piece => (piece, counter.count (slice content piece))

def cutFrom (content : List Char) (range : Stretch) (cap count : Nat) : List (Stretch × Nat) :=
  let pieces := cutPieces counter content range count
  let tokens := counter.count (slice content range)
  if tokens <= count ∨ pieces.all fun piece => piece.2 <= cap then
    pieces
  else
    cutFrom content range cap (count + 1)
termination_by counter.count (slice content range) - count

def cut (content : List Char) (range : Stretch) (cap : Nat) : List (Stretch × Nat) :=
  let tokens := counter.count (slice content range)
  let most := max cap 1
  cutFrom counter content range cap (max ((tokens + most - 1) / most) 1)

def fitted (content : List Char) (cap : Nat) (range : Stretch) : List (Stretch × Nat) :=
  let tokens := counter.count (slice content range)
  if tokens <= cap then [(range, tokens)] else cut counter content range cap

@[irreducible] def restPieces (content : List Char) (cap : Nat) (range : Stretch) :
    List (Stretch × Nat) :=
  let rest := trim content range
  if rest.Empty then [] else fitted counter content cap rest

/-- The longest opening that ends at the start of one of the tokens up to `stop` and fits. -/
def fitFrom (text : List Char) (offsets : List Stretch) (budget : Nat) : Nat -> List Char
  | 0 => []
  | stop + 1 =>
      let head := trimEnd (text.take (startOf offsets (stop + 1)))
      if counter.count head <= budget then head else fitFrom text offsets budget stop

/-- The longest opening of a text ending at a token boundary that counts at most `budget`
tokens on its own, trimmed. -/
def fit (text : List Char) (budget : Nat) : List Char :=
  let offsets := counter.offsets text
  if offsets.length <= budget then text else fitFrom counter text offsets budget budget

end Cut

/-!
## What a cut leaves
-/

section Bounds

variable {offsets : List Stretch} {count length : Nat}

theorem startOf_le (h : forall token, token ∈ offsets -> token.start <= length) (index : Nat) :
    startOf offsets index <= length := by
  unfold startOf
  cases hindex : offsets[index]? with
  | none => exact Nat.zero_le length
  | some token => exact h token (List.mem_of_getElem? hindex)

theorem boundsAfter_sorted (h : forall token, token ∈ offsets -> token.start <= length) :
    forall {pieces : List Nat} {last : Nat}, last <= length ->
      (last :: (boundsAfter offsets count last pieces ++ [length])).Pairwise (· <= ·)
  | [], last, hlast => by
      unfold boundsAfter
      simpa using hlast
  | piece :: pieces, last, hlast => by
      unfold boundsAfter
      have hbound : max (startOf offsets (piece * offsets.length / count)) last <= length :=
        max_le (startOf_le h _) hlast
      have hrest := @boundsAfter_sorted h pieces _ hbound
      rw [List.cons_append]
      apply List.pairwise_cons.mpr
      constructor
      · intro bound hmem
        have hle : last <= max (startOf offsets (piece * offsets.length / count)) last :=
          Nat.le_max_right _ _
        cases List.mem_cons.mp hmem with
        | inl heq =>
            rw [heq]
            exact hle
        | inr hlater =>
            exact Nat.le_trans hle ((List.pairwise_cons.mp hrest).left bound hlater)
      · exact hrest

theorem cutBounds_sorted (h : forall token, token ∈ offsets -> token.start <= length) :
    (cutBounds offsets length count).Pairwise (· <= ·) :=
  boundsAfter_sorted h (Nat.zero_le length)

theorem tiles_cutBounds {slack : Nat -> Prop}
    (h : forall token, token ∈ offsets -> token.start <= length) (start : Nat) :
    Tiles slack start (start + length)
      ((windows (cutBounds offsets length count)).map (Stretch.shift start)) :=
  tiles_windows_shift (cutBounds_sorted h) rfl List.getLast?_concat start

end Bounds

section Pieces

variable {counter : TokenCount} {content : List Char} {range : Stretch} {cap count : Nat}

theorem start_le (text : List Char) :
    forall token, token ∈ counter.offsets text -> token.start <= text.length := by
  intro token htoken
  have hin := counter.inside text token htoken
  exact Nat.le_trans hin.left hin.right

theorem tiles_pieces (hrange : range.start <= range.stop) {pieces : List Stretch}
    (h : Tiles (White content) range.start (range.start + (slice content range).length) pieces) :
    Tiles (White content) range.start range.stop (trimmedPieces content pieces) := by
  apply tiles_trimmedPieces
  have hle : (slice content range).length <= range.length := slice_length_le
  unfold Stretch.length at hle
  exact Tiles.slack_after (by omega) slack_beyond h

theorem tiles_lines_of (hrange : range.start <= range.stop) :
    Tiles (White content) range.start range.stop (lines content range) := by
  have hle : (slice content range).length <= range.length := slice_length_le
  unfold Stretch.length at hle
  apply tiles_trimmedPieces
  apply tiles_splitAt
  · intro index c hc
    exact trimmed_getElem? hc
  · exact Nat.le_refl range.start
  · omega

theorem tiles_sentences {segmenter : SentenceSegmenter} (h : Trimmed content range) :
    Tiles (White content) range.start range.stop (sentences segmenter content range) := by
  have hne : slice content range ≠ [] := h.slice_ne_nil
  exact tiles_pieces (Nat.le_of_lt h.full) (tiles_windows_shift (segmenter.ordered _)
    (segmenter.first _ hne) (segmenter.last _ hne) range.start)

theorem tiles_cutPieces (hrange : range.start <= range.stop) :
    Tiles (White content) range.start range.stop
      ((cutPieces counter content range count).map Prod.fst) := by
  unfold cutPieces
  rw [List.map_map]
  have hpieces := tiles_pieces hrange
    (@tiles_cutBounds _ count _ _ (@start_le counter (slice content range)) range.start)
  simpa [Function.comp_def] using hpieces

/-- A cut is the pieces at one number of them: all fit, or there is one for each token. -/
theorem cutFrom_settles (start : Nat) :
    exists count, cutFrom counter content range cap start = cutPieces counter content range count ∧
      start <= count ∧ (count <= max start (counter.count (slice content range))) ∧
        (counter.count (slice content range) <= count ∨
          forall piece, piece ∈ cutPieces counter content range count -> piece.2 <= cap) := by
  induction start using cutFrom.induct counter content range cap with
  | case1 count pieces tokens hdone =>
      refine ⟨count, ?_, Nat.le_refl count, Nat.le_max_left _ _, ?_⟩
      · rw [cutFrom, if_pos hdone]
      · cases hdone with
        | inl hmany => exact Or.inl hmany
        | inr hfit =>
            right
            intro piece hpiece
            simpa using List.all_eq_true.mp hfit piece hpiece
  | case2 start pieces tokens hmore ih =>
      rcases ih with ⟨count, heq, hstart, hcount, hsettled⟩
      have hless : start < tokens := Nat.not_le.mp fun hle => hmore (Or.inl hle)
      refine ⟨count, ?_, Nat.le_of_succ_le hstart, ?_, hsettled⟩
      · rw [cutFrom, if_neg hmore]
        exact heq
      · omega

theorem tiles_cut (hrange : range.start <= range.stop) :
    Tiles (White content) range.start range.stop ((cut counter content range cap).map Prod.fst) := by
  unfold cut
  rcases @cutFrom_settles counter content range cap _ with ⟨count, heq, _⟩
  rw [heq]
  exact tiles_cutPieces hrange

theorem cutPieces_counted :
    forall piece, piece ∈ cutPieces counter content range count ->
      Trimmed content piece.1 ∧ piece.2 = counter.count (slice content piece.1) := by
  intro piece hpiece
  rcases List.mem_map.mp hpiece with ⟨stretch, hstretch, heq⟩
  subst heq
  exact ⟨trimmedPieces_trimmed stretch hstretch, rfl⟩

theorem tiles_fitted (hrange : range.start <= range.stop) :
    Tiles (White content) range.start range.stop
      ((fitted counter content cap range).map Prod.fst) := by
  unfold fitted
  by_cases hfits : counter.count (slice content range) <= cap
  · simp only [if_pos hfits]
    exact tiles_singleton hrange
  · simp only [if_neg hfits]
    exact tiles_cut hrange

theorem tiles_restPieces (hrange : range.start <= range.stop) :
    Tiles (White content) range.start range.stop
      ((restPieces counter content cap range).map Prod.fst) := by
  unfold restPieces
  have htrim : Tiles (White content) range.start range.stop [trim content range] := tiles_trim hrange
  by_cases hempty : (trim content range).Empty
  · simp only [if_pos hempty]
    refine ⟨hrange, htrim.slack_all ?_⟩
    intro piece hpiece
    rw [List.mem_singleton.mp hpiece]
    exact slack_nothing hempty
  · simp only [if_neg hempty]
    rcases htrim with ⟨hstart, hbefore, hfull, hstop, hafter⟩
    exact Tiles.slack_after hstop hafter ((tiles_fitted hfull).slack_before hstart hbefore)

theorem cut_counted :
    forall piece, piece ∈ cut counter content range cap ->
      Trimmed content piece.1 ∧ piece.2 = counter.count (slice content piece.1) := by
  unfold cut
  rcases @cutFrom_settles counter content range cap _ with ⟨count, heq, _⟩
  rw [heq]
  exact cutPieces_counted

theorem fitted_counted (h : Trimmed content range) :
    forall piece, piece ∈ fitted counter content cap range ->
      Trimmed content piece.1 ∧ piece.2 = counter.count (slice content piece.1) := by
  unfold fitted
  by_cases hfits : counter.count (slice content range) <= cap
  · simp only [if_pos hfits]
    intro piece hpiece
    rw [List.mem_singleton.mp hpiece]
    exact ⟨h, rfl⟩
  · simp only [if_neg hfits]
    exact cut_counted

theorem restPieces_counted :
    forall piece, piece ∈ restPieces counter content cap range ->
      Trimmed content piece.1 ∧ piece.2 = counter.count (slice content piece.1) := by
  unfold restPieces
  by_cases hempty : (trim content range).Empty
  · simp only [if_pos hempty]
    intro piece hpiece
    cases hpiece
  · simp only [if_neg hempty]
    exact fitted_counted (trimmed_trim hempty)

end Pieces

/-!
## Pieces of a single token
-/

section Single

variable {counter : TokenCount} {content : List Char} {range : Stretch} {cap : Nat}

def Spaced (counter : TokenCount) (content : List Char) (cap : Nat) : Prop :=
  forall range, Trimmed content range -> cap < counter.count (slice content range) ->
    (counter.offsets (slice content range)).Pairwise fun earlier later => earlier.start < later.start

end Single

/-!
## An opening that fits
-/

section Fit

variable {counter : TokenCount} {content text : List Char} {range : Stretch} {budget : Nat}

theorem fitFrom_eq {offsets : List Stretch} (stop : Nat) :
    exists length, fitFrom counter text offsets budget stop = trimEnd (text.take length) := by
  induction stop with
  | zero => exact ⟨0, rfl⟩
  | succ stop ih =>
      unfold fitFrom
      by_cases hfits : counter.count (trimEnd (text.take (startOf offsets (stop + 1)))) <= budget
      · exact ⟨startOf offsets (stop + 1), if_pos hfits⟩
      · simp only [if_neg hfits]
        exact ih

theorem fitFrom_count {offsets : List Stretch} (stop : Nat) :
    fitFrom counter text offsets budget stop = [] ∨
      counter.count (fitFrom counter text offsets budget stop) <= budget := by
  induction stop with
  | zero => exact Or.inl rfl
  | succ stop ih =>
      unfold fitFrom
      by_cases hfits : counter.count (trimEnd (text.take (startOf offsets (stop + 1)))) <= budget
      · simp only [if_pos hfits]
        exact Or.inr hfits
      · simp only [if_neg hfits]
        exact ih

theorem fit_count :
    fit counter text budget = [] ∨ counter.count (fit counter text budget) <= budget := by
  unfold fit
  by_cases hall : (counter.offsets text).length <= budget
  · simp only [if_pos hall]
    exact Or.inr hall
  · simp only [if_neg hall]
    exact fitFrom_count budget

theorem fit_opening : fit counter text budget <+: text := by
  unfold fit
  by_cases hall : (counter.offsets text).length <= budget
  · simp only [if_pos hall]
    exact List.prefix_refl text
  · simp only [if_neg hall]
    rcases @fitFrom_eq counter text budget (counter.offsets text) budget with ⟨length, heq⟩
    rw [heq]
    exact List.IsPrefix.trans (List.rdropWhile_prefix _ _) (List.take_prefix length text)

theorem fit_last (hlast : forall c, text.getLast? = some c -> isWhitespace c = false) :
    forall c, (fit counter text budget).getLast? = some c -> isWhitespace c = false := by
  unfold fit
  by_cases hall : (counter.offsets text).length <= budget
  · simp only [if_pos hall]
    exact hlast
  · simp only [if_neg hall]
    rcases @fitFrom_eq counter text budget (counter.offsets text) budget with ⟨length, heq⟩
    rw [heq]
    intro c hc
    exact trimEnd_last hc

theorem getLast_of_trimmed (h : Trimmed content range) {c : Char}
    (hc : (slice content range).getLast? = some c) : isWhitespace c = false := by
  have hfull := h.full
  have hlength := slice_length h.stop_le
  unfold Stretch.length at hlength
  rw [List.getLast?_eq_getElem?] at hc
  have hat := trimmed_getElem? hc
  have hposition : range.start + ((slice content range).length - 1) = range.stop - 1 := by omega
  rw [hposition] at hat
  cases hwhite : isWhitespace c with
  | false => rfl
  | true =>
      apply absurd _ h.last
      intro d hd
      rw [hat] at hd
      cases hd
      exact hwhite

theorem fit_range (h : Trimmed content range)
    (hsome : fit counter (slice content range) budget ≠ []) :
    let head := fit counter (slice content range) budget
    Trimmed content ⟨range.start, range.start + head.length⟩ ∧
      slice content ⟨range.start, range.start + head.length⟩ = head ∧
        range.start + head.length <= range.stop ∧ counter.count head <= budget := by
  have hopening := @fit_opening counter (slice content range) budget
  have hlast := @fit_last counter (slice content range) budget
    (fun c hc => getLast_of_trimmed h hc)
  have hcount := (@fit_count counter (slice content range) budget).resolve_left hsome
  generalize fit counter (slice content range) budget = head at hsome hopening hlast hcount
  rcases hopening with ⟨rest, hrest⟩
  have hfull : 0 < head.length := List.length_pos_iff.mpr hsome
  have hlength := slice_length h.stop_le
  unfold Stretch.length at hlength
  have hle : head.length <= (slice content range).length := by
    rw [← hrest, List.length_append]
    exact Nat.le_add_right _ _
  have hstart := h.full
  have hwithin : range.start + head.length <= range.stop := by omega
  refine ⟨⟨?_, h.first, ?_⟩, ?_, hwithin, hcount⟩
  · simp only
    omega
  · have hless : head.length - 1 < head.length := Nat.sub_lt hfull Nat.one_pos
    have hfinal : head[head.length - 1]? = some head[head.length - 1] :=
      List.getElem?_eq_getElem hless
    have hsolid := hlast head[head.length - 1] (by rw [List.getLast?_eq_getElem?, hfinal])
    have hslice : (slice content range)[head.length - 1]? = some head[head.length - 1] := by
      rw [← hrest, List.getElem?_append_left hless]
      exact hfinal
    have hat := not_white (trimmed_getElem? hslice) hsolid
    have hposition : range.start + (head.length - 1) = range.start + head.length - 1 := by omega
    rw [hposition] at hat
    exact hat
  · have happend := @slice_append content range.start (range.start + head.length) range.stop
      (Nat.le_add_right _ _) hwithin
    have hsame : slice content ⟨range.start, range.start + head.length⟩ ++
        slice content ⟨range.start + head.length, range.stop⟩ = head ++ rest := by
      rw [happend, hrest]
    apply List.append_inj_left hsame
    rw [slice_length (Nat.le_trans hwithin h.stop_le)]
    exact Nat.add_sub_cancel_left range.start head.length

end Fit

end Spans
end PaminMemory
