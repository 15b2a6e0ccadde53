import PaminMemory.Sections.Lines
import PaminMemory.Sections.Named

/-!
# Sections conserve the file

Reading the lines, joining what is too small and trimming what is left keep the sections in
order over the file, with nothing but white space outside them.
-/

namespace PaminMemory
namespace Sections

open Foundation Ingest Spans
open Topics (isWhitespace)

/-!
## Reading
-/

structure Read (text : List Char) (start here : Nat) (r : Reading) : Prop where
  tiles : Tiles (White text) start r.start (r.sections.map Headed.range)
  upto : r.start <= here
  paragraph : forall paragraph, r.paragraph = some paragraph ->
    r.start <= paragraph.start ∧ paragraph.start <= here

def Reading.starts (r : Reading) : List Nat :=
  r.start :: (r.paragraph.toList.map Paragraph.start ++
    r.sections.map fun headed => headed.range.start)

section Reading

variable {text : List Char} {start here : Nat} {r : Reading}

theorem Read.later {here' : Nat} (h : Read text start here r) (hle : here <= here') :
    Read text start here' r where
  tiles := h.tiles
  upto := h.upto.trans hle
  paragraph paragraph hparagraph :=
    ⟨(h.paragraph paragraph hparagraph).1, (h.paragraph paragraph hparagraph).2.trans hle⟩

theorem read_openAt {place : Nat} {title : List Char} {level : Nat} {hadBody : Bool}
    (htiles : Tiles (White text) start r.start (r.sections.map Headed.range))
    (hnone : r.paragraph = none) (hle : r.start <= place) (hupto : place <= here) :
    Read text start here (openAt place title level hadBody r) := by
  have hsections : Tiles (White text) start place
      ((openAt place title level hadBody r).sections.map Headed.range) := by
    unfold openAt
    simp only
    split
    · rw [List.map_append]
      exact Tiles.append (tiles_singleton hle) htiles
    · next hsame =>
        rw [show place = r.start by omega]
        exact htiles
  constructor
  case tiles => exact hsections
  case upto => exact hupto
  case paragraph =>
    intro paragraph hparagraph
    have hsome : r.paragraph = some paragraph := hparagraph
    rw [hnone] at hsome
    cases hsome

theorem read_readText (h : Read text start here r) (line : List Char) :
    Read text start here (readText here line r) := by
  constructor
  case tiles => exact h.tiles
  case upto => exact h.upto
  case paragraph =>
    intro paragraph hparagraph
    unfold readText at hparagraph
    simp only at hparagraph
    split at hparagraph
    · cases hparagraph
    · split at hparagraph
      · next before hbefore =>
          rw [← Option.some.inj hparagraph]
          exact h.paragraph before hbefore
      · split at hparagraph
        · rw [← Option.some.inj hparagraph]
          exact ⟨h.upto, Nat.le_refl here⟩
        · cases hparagraph

theorem read_readLine (h : Read text start here r) (line : List Char) :
    Read text start here (readLine r (here, line)) := by
  unfold readLine
  split
  · exact ⟨h.tiles, h.upto, h.paragraph⟩
  · split
    · refine ⟨h.tiles, h.upto, ?_⟩
      intro paragraph hparagraph
      cases hparagraph
    · unfold readOutside
      split
      · next paragraph _ hparagraph =>
          have hplace := h.paragraph paragraph hparagraph
          exact read_openAt h.tiles rfl hplace.1 hplace.2
      · split
        · exact read_openAt h.tiles rfl h.upto (Nat.le_refl here)
        · exact read_readText h line

theorem read_lines {stop : Nat} {lines : List (Nat × List Char)}
    (hlined : Lined text here stop lines) (h : Read text start here r) :
    Read text start stop (lines.foldl readLine r) := by
  induction lines generalizing here r with
  | nil =>
      rw [show stop = here from hlined.symm]
      exact h
  | cons line rest ih =>
      rcases line with ⟨place, line⟩
      rcases hlined with ⟨rfl, _, ⟨_, _, hrest⟩ | ⟨hend, _, hnil⟩⟩
      · exact ih hrest ((read_readLine h line).later (by omega))
      · rw [hnil]
        exact (read_readLine h line).later (by omega)

theorem openFence_readOutside (start : Nat) (line : List Char) (r : Reading) :
    (readOutside start line r).openFence = r.openFence := by
  unfold readOutside
  split
  · rfl
  · split
    · rfl
    · rfl

theorem openFence_readLine (r : Reading) (line : Nat × List Char) :
    (readLine r line).openFence = fenceAfter r.openFence line.2 := by
  cases hopen : r.openFence with
  | some opening => simp only [readLine, fenceAfter, hopen]
  | none =>
      simp only [readLine, fenceAfter, hopen]
      cases hfence : fence line.2 with
      | some opening => rfl
      | none => exact (openFence_readOutside line.1 line.2 r).trans hopen

theorem mem_starts {position : Nat} :
    position ∈ r.starts <-> position = r.start ∨
      (exists paragraph, r.paragraph = some paragraph ∧ paragraph.start = position) ∨
        exists headed, headed ∈ r.sections ∧ headed.range.start = position := by
  unfold Reading.starts
  simp [Option.mem_toList]

theorem starts_openAt {place position : Nat} {title : List Char} {level : Nat} {hadBody : Bool}
    (hnone : r.paragraph = none) (h : position ∈ (openAt place title level hadBody r).starts) :
    position = place ∨ position ∈ r.starts := by
  rcases mem_starts.mp h with hstart | ⟨paragraph, hparagraph, _⟩ | ⟨headed, hheaded, hwhere⟩
  · exact Or.inl hstart
  · have hsome : r.paragraph = some paragraph := hparagraph
    rw [hnone] at hsome
    cases hsome
  · right
    rw [mem_starts]
    unfold openAt at hheaded
    simp only at hheaded
    split at hheaded
    · rcases List.mem_append.mp hheaded with hold | hnew
      · exact Or.inr (Or.inr ⟨headed, hold, hwhere⟩)
      · rw [List.mem_singleton.mp hnew] at hwhere
        exact Or.inl hwhere.symm
    · exact Or.inr (Or.inr ⟨headed, hheaded, hwhere⟩)

theorem starts_readText {position : Nat} {line : List Char}
    (h : position ∈ (readText here line r).starts) : position = here ∨ position ∈ r.starts := by
  rcases mem_starts.mp h with hstart | ⟨paragraph, hparagraph, hwhere⟩ | hheaded
  · exact Or.inr (mem_starts.mpr (Or.inl hstart))
  · unfold readText at hparagraph
    simp only at hparagraph
    split at hparagraph
    · cases hparagraph
    · split at hparagraph
      · next before hbefore =>
          rw [← Option.some.inj hparagraph] at hwhere
          exact Or.inr (mem_starts.mpr (Or.inr (Or.inl ⟨before, hbefore, hwhere⟩)))
      · split at hparagraph
        · rw [← Option.some.inj hparagraph] at hwhere
          exact Or.inl hwhere.symm
        · cases hparagraph
  · exact Or.inr (mem_starts.mpr (Or.inr (Or.inr hheaded)))

theorem starts_readLine {position : Nat} {line : Nat × List Char}
    (h : position ∈ (readLine r line).starts) :
    (r.openFence = none ∧ position = line.1) ∨ position ∈ r.starts := by
  have hforgets : forall {t : Reading}, position ∈ t.starts -> t.start = r.start ->
      t.sections = r.sections -> t.paragraph = none -> position ∈ r.starts := by
    intro t hmem hstart hsections hnone
    rw [mem_starts, hstart, hsections, hnone] at hmem
    rcases hmem with hat | ⟨paragraph, hparagraph, _⟩ | hheaded
    · exact mem_starts.mpr (Or.inl hat)
    · cases hparagraph
    · exact mem_starts.mpr (Or.inr (Or.inr hheaded))
  unfold readLine at h
  split at h
  · exact Or.inr h
  · next hopen =>
      split at h
      · exact Or.inr (hforgets h rfl rfl rfl)
      · unfold readOutside at h
        split at h
        · next paragraph _ hparagraph =>
            right
            rcases starts_openAt rfl h with hplace | hold
            · exact mem_starts.mpr (Or.inr (Or.inl ⟨paragraph, hparagraph, hplace.symm⟩))
            · exact hforgets hold rfl rfl rfl
        · split at h
          · rcases starts_openAt rfl h with hplace | hold
            · exact Or.inl ⟨hopen, hplace⟩
            · exact Or.inr (hforgets hold rfl rfl rfl)
          · rcases starts_readText h with hplace | hold
            · exact Or.inl ⟨hopen, hplace⟩
            · exact Or.inr hold

theorem starts_lines {position : Nat} {lines : List (Nat × List Char)}
    (h : position ∈ (lines.foldl readLine r).starts) :
    position ∈ r.starts ∨ exists line, line ∈ unfenced r.openFence lines ∧
      line.1 = position := by
  induction lines generalizing r with
  | nil => exact Or.inl h
  | cons line rest ih =>
      unfold unfenced
      rcases ih h with hstart | ⟨later, hlater, hwhere⟩
      · rcases starts_readLine hstart with ⟨hopen, hplace⟩ | hold
        · rw [if_pos hopen]
          exact Or.inr ⟨line, List.mem_cons_self, hplace.symm⟩
        · exact Or.inl hold
      · right
        rw [openFence_readLine] at hlater
        refine ⟨later, ?_, hwhere⟩
        split
        · exact List.mem_cons_of_mem _ hlater
        · exact hlater

end Reading

section Headed

variable {text : List Char} {body : Stretch}

def readBody (text : List Char) (body : Stretch) : Reading :=
  (linesOf text body).foldl readLine (Reading.begin body.start)

def lastRun (text : List Char) (body : Stretch) : Headed :=
  { path := (readBody text body).stack.map Prod.snd
    range := ⟨(readBody text body).start, body.stop⟩, hasBody := (readBody text body).hasBody }

theorem headed_eq : headed text body =
    ((readBody text body).sections ++ [lastRun text body]).filter fun run =>
      !blank (slice text run.range) := rfl

theorem read_body (hle : body.start <= body.stop) (hstop : body.stop <= text.length) :
    Read text body.start body.stop (readBody text body) := by
  apply read_lines (lined_linesOf hle hstop)
  constructor
  case tiles => exact ⟨Nat.le_refl _, slack_nothing (Nat.le_refl _)⟩
  case upto => exact Nat.le_refl _
  case paragraph =>
    intro paragraph h
    cases h

theorem tiles_headed (hle : body.start <= body.stop) (hstop : body.stop <= text.length) :
    Tiles (White text) body.start body.stop ((headed text body).map Headed.range) := by
  have hread := read_body hle hstop
  have hall : Tiles (White text) body.start body.stop
      (((readBody text body).sections ++ [lastRun text body]).map Headed.range) := by
    rw [List.map_append]
    exact Tiles.append (tiles_singleton hread.upto) hread.tiles
  have hkept : Tiles (White text) body.start body.stop
      ((((readBody text body).sections ++ [lastRun text body]).map Headed.range).filter
        fun range => !blank (slice text range)) := by
    apply hall.filter
    intro piece _ hblank
    apply slack_of_blank
    simpa using hblank
  rw [List.filter_map] at hkept
  exact hkept

theorem start_headed (hle : body.start <= body.stop) (hstop : body.stop <= text.length)
    {run : Headed} (h : run ∈ headed text body) :
    exists line, line ∈ unfenced none (linesOf text body) ∧ line.1 = run.range.start := by
  rw [headed_eq] at h
  rcases List.mem_filter.mp h with ⟨hmem, hfull⟩
  have hstart : run.range.start ∈ (readBody text body).starts := by
    rcases List.mem_append.mp hmem with hsection | hlast
    · exact mem_starts.mpr (Or.inr (Or.inr ⟨run, hsection, rfl⟩))
    · rw [List.mem_singleton.mp hlast]
      exact mem_starts.mpr (Or.inl rfl)
  rcases starts_lines hstart with hbegin | hline
  · have hfirst : run.range.start = body.start := by
      rcases mem_starts.mp hbegin with hat | ⟨_, hnone, _⟩ | ⟨_, hnone, _⟩
      · exact hat
      · cases hnone
      · cases hnone
    have hlined := lined_linesOf hle hstop
    cases hlines : linesOf text body with
    | nil =>
        -- nothing is read, and so nothing is in a section
        rw [hlines] at hlined
        have hempty : body.start = body.stop := hlined
        have hbounds := (tiles_headed hle hstop).bounds run.range
          (List.mem_map_of_mem (List.mem_filter.mpr ⟨hmem, hfull⟩))
        have hblank : blank (slice text run.range) = true := by
          apply blank_of_slack
          apply slack_nothing
          omega
        rw [hblank] at hfull
        cases hfull
    | cons line rest =>
        rw [hlines] at hlined
        rw [hfirst]
        exact ⟨line, List.mem_cons_self, hlined.1⟩
  · exact hline

end Headed

/-!
## Joining
-/

section Merge

variable {text : List Char} {counter : TokenCount}

def Merging.runs (m : Merging) : List Headed := m.out ++ m.waiting.toList

theorem extendLast_concat (stop : Nat) (runs : List Headed) (last : Headed) :
    extendLast stop (runs ++ [last]) =
      runs ++ [{ last with range := ⟨last.range.start, stop⟩ }] := by
  induction runs with
  | nil => rfl
  | cons first rest ih =>
      cases rest with
      | nil => rfl
      | cons second rest =>
          have hrest : extendLast stop (first :: (second :: rest ++ [last])) =
              first :: extendLast stop (second :: rest ++ [last]) := rfl
          rw [List.cons_append, hrest, ih]
          rfl

theorem tiles_extendLast {start stop : Nat} {runs : List Headed} {next : Stretch}
    {rest : List Stretch} (hne : runs ≠ [])
    (h : Tiles (White text) start stop (runs.map Headed.range ++ next :: rest)) :
    Tiles (White text) start stop
      ((extendLast next.stop runs).map Headed.range ++ rest) := by
  rcases List.eq_nil_or_concat runs with hnil | ⟨before, last, hruns⟩
  · exact absurd hnil hne
  · rw [List.concat_eq_append] at hruns
    rw [hruns, List.map_append, List.append_assoc] at h
    rcases h.split with ⟨middle, hbefore, hlast⟩
    rw [hruns, extendLast_concat, List.map_append, List.append_assoc]
    exact Tiles.append hlast.join hbefore

theorem tiles_opened {start stop : Nat} {m : Merging} {next : Headed} {rest : List Stretch}
    (h : Tiles (White text) start stop (m.runs.map Headed.range ++ next.range :: rest)) :
    Tiles (White text) start stop
      (m.out.map Headed.range ++ (opened m.waiting next).range :: rest) := by
  unfold Merging.runs at h
  cases hwaiting : m.waiting with
  | none =>
      rw [hwaiting, Option.toList_none, List.append_nil] at h
      exact h
  | some title =>
      rw [hwaiting, Option.toList_some, List.map_append, List.append_assoc] at h
      rcases h.split with ⟨middle, hbefore, hafter⟩
      exact Tiles.append hafter.join hbefore

theorem tiles_mergeOne {start stop : Nat} {m : Merging} {next : Headed} {rest : List Stretch}
    (h : Tiles (White text) start stop (m.runs.map Headed.range ++ next.range :: rest)) :
    Tiles (White text) start stop
      ((mergeOne text counter m next).runs.map Headed.range ++ rest) := by
  have hopened := tiles_opened h
  unfold mergeOne
  simp only
  split
  · split
    · next hjoin =>
        unfold Merging.runs
        rw [Option.toList_none, List.append_nil]
        exact tiles_extendLast hjoin.1 hopened
    · unfold Merging.runs
      rw [Option.toList_some, List.map_append, List.append_assoc]
      exact hopened
  · unfold Merging.runs
    rw [Option.toList_none, List.append_nil, List.map_append, List.append_assoc]
    exact hopened

theorem tiles_mergeAll {start stop : Nat} {runs : List Headed} {m : Merging}
    (h : Tiles (White text) start stop ((m.runs ++ runs).map Headed.range)) :
    Tiles (White text) start stop
      ((runs.foldl (mergeOne text counter) m).runs.map Headed.range) := by
  induction runs generalizing m with
  | nil =>
      rw [List.append_nil] at h
      exact h
  | cons next rest ih =>
      rw [List.map_append, List.map_cons] at h
      apply ih
      rw [List.map_append]
      exact tiles_mergeOne h

def mergeAll (text : List Char) (counter : TokenCount) (runs : List Headed) : Merging :=
  runs.foldl (mergeOne text counter) { out := [], waiting := none }

theorem merged_eq (runs : List Headed) : merged text runs counter =
    match (mergeAll text counter runs).waiting with
    | none => (mergeAll text counter runs).out
    | some title =>
        if (mergeAll text counter runs).out = [] then
          [title]
        else
          extendLast title.range.stop (mergeAll text counter runs).out := rfl

theorem tiles_merged {start stop : Nat} {runs : List Headed}
    (h : Tiles (White text) start stop (runs.map Headed.range)) :
    Tiles (White text) start stop ((merged text runs counter).map Headed.range) := by
  have hall : Tiles (White text) start stop
      ((mergeAll text counter runs).runs.map Headed.range) := tiles_mergeAll h
  unfold Merging.runs at hall
  rw [merged_eq]
  split
  · next hnone =>
      rw [hnone, Option.toList_none, List.append_nil] at hall
      exact hall
  · next title hwaiting =>
      rw [hwaiting, Option.toList_some, List.map_append] at hall
      split
      · next hnil =>
          rw [hnil] at hall
          exact hall
      · next hout =>
          have hjoined := tiles_extendLast hout hall
          rw [List.map_nil, List.append_nil] at hjoined
          exact hjoined

theorem mem_extendLast {stop : Nat} {runs : List Headed} {run : Headed}
    (h : run ∈ extendLast stop runs) :
    exists before, before ∈ runs ∧ before.range.start = run.range.start := by
  rcases List.eq_nil_or_concat runs with hnil | ⟨before, last, hruns⟩
  · rw [hnil] at h
    cases h
  · rw [List.concat_eq_append] at hruns
    rw [hruns, extendLast_concat] at h
    rw [hruns]
    rcases List.mem_append.mp h with hold | hlast
    · exact ⟨run, List.mem_append_left _ hold, rfl⟩
    · rw [List.mem_singleton.mp hlast]
      exact ⟨last, List.mem_append_right _ List.mem_cons_self, rfl⟩

def BeginsIn (runs : List Headed) (run : Headed) : Prop :=
  exists before, before ∈ runs ∧ before.range.start = run.range.start

theorem starts_mergeOne {m : Merging} {next run : Headed}
    (h : run ∈ (mergeOne text counter m next).runs) : BeginsIn (m.runs ++ [next]) run := by
  have hopened : BeginsIn (m.runs ++ [next]) (opened m.waiting next) := by
    unfold Merging.runs
    cases hwaiting : m.waiting with
    | none => exact ⟨next, by simp, rfl⟩
    | some title => exact ⟨title, by simp, rfl⟩
  have hout : forall before, before ∈ m.out -> before ∈ m.runs ++ [next] := by
    intro before hbefore
    exact List.mem_append_left _ (List.mem_append_left _ hbefore)
  unfold mergeOne at h
  simp only at h
  split at h
  · split at h
    · unfold Merging.runs at h
      rw [Option.toList_none, List.append_nil] at h
      rcases mem_extendLast h with ⟨before, hbefore, hwhere⟩
      exact ⟨before, hout before hbefore, hwhere⟩
    · rcases List.mem_append.mp h with hold | hnew
      · exact ⟨run, hout run hold, rfl⟩
      · rw [List.mem_singleton.mp hnew]
        exact hopened
  · unfold Merging.runs at h
    rw [Option.toList_none, List.append_nil] at h
    rcases List.mem_append.mp h with hold | hnew
    · exact ⟨run, hout run hold, rfl⟩
    · rw [List.mem_singleton.mp hnew]
      exact hopened

theorem starts_mergeAll {runs : List Headed} {m : Merging} {run : Headed}
    (h : run ∈ (runs.foldl (mergeOne text counter) m).runs) : BeginsIn (m.runs ++ runs) run := by
  induction runs generalizing m with
  | nil => exact ⟨run, List.mem_append_left _ h, rfl⟩
  | cons next rest ih =>
      rcases ih h with ⟨before, hbefore, hwhere⟩
      rcases List.mem_append.mp hbefore with hmerged | hrest
      · rcases starts_mergeOne hmerged with ⟨earlier, hearlier, hwhere'⟩
        refine ⟨earlier, ?_, hwhere'.trans hwhere⟩
        rcases List.mem_append.mp hearlier with hold | hnext
        · exact List.mem_append_left _ hold
        · rw [List.mem_singleton.mp hnext]
          exact List.mem_append_right _ List.mem_cons_self
      · exact ⟨before, List.mem_append_right _ (List.mem_cons_of_mem _ hrest), hwhere⟩

theorem starts_merged {runs : List Headed} {run : Headed}
    (h : run ∈ merged text runs counter) : BeginsIn runs run := by
  have hall : forall before, before ∈ (mergeAll text counter runs).runs -> BeginsIn runs before := by
    intro before hbefore
    exact starts_mergeAll (m := { out := [], waiting := none }) hbefore
  rw [merged_eq] at h
  split at h
  · exact hall run (List.mem_append_left _ h)
  · next title hwaiting =>
      have htitle : title ∈ (mergeAll text counter runs).runs := by
        unfold Merging.runs
        rw [hwaiting]
        exact List.mem_append_right _ List.mem_cons_self
      split at h
      · rw [List.mem_singleton.mp h]
        exact hall title htitle
      · rcases mem_extendLast h with ⟨before, hbefore, hwhere⟩
        rcases hall before (List.mem_append_left _ hbefore) with ⟨earlier, hearlier, hwhere'⟩
        exact ⟨earlier, hearlier, hwhere'.trans hwhere⟩

/-- A counter that counts no less in a longer text, and nothing in white space around one. -/
structure Steady (counter : TokenCount) : Prop where
  before : forall first second, counter.count first <= counter.count (first ++ second)
  after : forall first second, counter.count second <= counter.count (first ++ second)
  around : forall lead core trail, blank lead = true -> blank trail = true ->
    counter.count (lead ++ core ++ trail) = counter.count core

def Enough (text : List Char) (counter : TokenCount) (runs : List Headed) : Prop :=
  forall run, run ∈ runs -> LEAST_TOKENS <= counter.count (slice text run.range)

theorem enough_extendLast {start stop : Nat} {runs : List Headed} {next : Stretch}
    {rest : List Stretch} (hsteady : Steady counter) (henough : Enough text counter runs)
    (h : Tiles (White text) start stop (runs.map Headed.range ++ next :: rest)) :
    Enough text counter (extendLast next.stop runs) := by
  rcases List.eq_nil_or_concat runs with hnil | ⟨before, last, hruns⟩
  · rw [hnil]
    intro run hrun
    cases hrun
  · rw [List.concat_eq_append] at hruns
    rw [hruns, List.map_append, List.append_assoc] at h
    rcases h.split with ⟨middle, _, _, _, hlast, hnext, _, hupto, _⟩
    have hlonger : counter.count (slice text last.range) <=
        counter.count (slice text ⟨last.range.start, next.stop⟩) := by
      rw [← slice_append hlast (hnext.trans hupto)]
      exact hsteady.before _ _
    rw [hruns] at henough
    rw [hruns, extendLast_concat]
    intro run hrun
    rcases List.mem_append.mp hrun with hold | hnew
    · exact henough run (List.mem_append_left _ hold)
    · rw [List.mem_singleton.mp hnew]
      exact (henough last (List.mem_append_right _ List.mem_cons_self)).trans hlonger

theorem enough_mergeAll {start stop : Nat} {runs : List Headed} {m : Merging}
    (hsteady : Steady counter) (henough : Enough text counter m.out)
    (h : Tiles (White text) start stop ((m.runs ++ runs).map Headed.range)) :
    Enough text counter (runs.foldl (mergeOne text counter) m).out := by
  induction runs generalizing m with
  | nil => exact henough
  | cons next rest ih =>
      rw [List.map_append, List.map_cons] at h
      apply ih
      · have hopened := tiles_opened h
        unfold mergeOne
        simp only
        split
        · split
          · exact enough_extendLast hsteady henough hopened
          · exact henough
        · next hlarge =>
            intro run hrun
            rcases List.mem_append.mp hrun with hold | hnew
            · exact henough run hold
            · rw [List.mem_singleton.mp hnew]
              exact Nat.le_of_not_lt hlarge
      · rw [List.map_append]
        exact tiles_mergeOne h

theorem enough_merged {start stop : Nat} {runs : List Headed} (hsteady : Steady counter)
    (h : Tiles (White text) start stop (runs.map Headed.range))
    (hmore : 1 < (merged text runs counter).length) :
    Enough text counter (merged text runs counter) := by
  have hnone : Enough text counter [] := by
    intro run hrun
    cases hrun
  have henough : Enough text counter (mergeAll text counter runs).out :=
    enough_mergeAll hsteady hnone h
  have hall : Tiles (White text) start stop
      ((mergeAll text counter runs).runs.map Headed.range) := tiles_mergeAll h
  rw [merged_eq] at hmore ⊢
  split at hmore
  · exact henough
  · next title hwaiting =>
      unfold Merging.runs at hall
      rw [hwaiting, Option.toList_some, List.map_append] at hall
      split at hmore
      · rw [List.length_singleton] at hmore
        exact absurd hmore (Nat.lt_irrefl 1)
      · next hout =>
          rw [if_neg hout]
          exact enough_extendLast hsteady henough hall

end Merge

/-!
## What the sections hold
-/

section Cut

variable {alphabet : Alphabet} {counter : TokenCount} {path : String} {text : List Char}

theorem slice_trim (whole : List Char) (range : Stretch) :
    slice whole (trim whole range) = trimEnd (trimStart (slice whole range)) := by
  have htrim := trimming (slice whole range)
  have hbound : (slice whole range).length <= range.length := slice_length_le
  rw [trim_eq]
  generalize (slice whole range).takeWhile isWhitespace = lead at htrim ⊢
  generalize trimEnd (trimStart (slice whole range)) = core at htrim ⊢
  generalize (trimStart (slice whole range)).rtakeWhile isWhitespace = trail at htrim
  have hlength := congrArg List.length htrim.parts
  rw [List.length_append, List.length_append] at hlength
  have hrest : ((whole.drop range.start).drop lead.length).take (range.length - lead.length) =
      core ++ trail := by
    have hparts := congrArg (List.drop lead.length) htrim.parts
    rw [List.append_assoc, List.drop_left] at hparts
    unfold slice at hparts
    rw [List.drop_take] at hparts
    exact hparts
  have hcore := congrArg (List.take core.length) hrest
  rw [List.take_left, List.take_take, List.drop_drop, Nat.min_eq_left (by omega)] at hcore
  unfold slice Stretch.length
  simp only
  rw [Nat.add_sub_cancel_left]
  exact hcore

theorem empty_trim {whole : List Char} {range : Stretch} :
    (trim whole range).Empty <-> trimEnd (trimStart (slice whole range)) = [] := by
  rw [trim_eq]
  unfold Stretch.Empty
  rw [← List.length_eq_zero_iff]
  simp only
  omega

def solid (text : List Char) : List Char := text.filter fun c => !isWhitespace c

theorem solid_append (first second : List Char) :
    solid (first ++ second) = solid first ++ solid second := List.filter_append _ _

theorem solid_of_slack {whole : List Char} {start stop : Nat}
    (h : Slack (White whole) start stop) : solid (slice whole ⟨start, stop⟩) = [] := by
  have hblank : blank (slice whole ⟨start, stop⟩) = true := blank_of_slack h
  unfold solid
  rw [List.filter_eq_nil_iff]
  intro c hc
  simpa using List.all_eq_true.mp hblank c hc

theorem solid_of_tiles {whole : List Char} {start stop : Nat} {pieces : List Stretch}
    (h : Tiles (White whole) start stop pieces) :
    pieces.flatMap (fun piece => solid (slice whole piece)) =
      solid (slice whole ⟨start, stop⟩) := by
  induction pieces generalizing start with
  | nil =>
      rw [solid_of_slack h.2]
      rfl
  | cons piece rest ih =>
      rcases h with ⟨hstart, hbefore, hpiece, hrest⟩
      have hwhole : slice whole ⟨start, stop⟩ = slice whole ⟨start, piece.start⟩ ++
          (slice whole piece ++ slice whole ⟨piece.stop, stop⟩) := by
        have hlater : slice whole ⟨piece.start, piece.stop⟩ ++ slice whole ⟨piece.stop, stop⟩ =
            slice whole ⟨piece.start, stop⟩ := slice_append hpiece hrest.le
        have hall : slice whole ⟨start, piece.start⟩ ++ slice whole ⟨piece.start, stop⟩ =
            slice whole ⟨start, stop⟩ := slice_append hstart (hpiece.trans hrest.le)
        rw [← hall, ← hlater]
      rw [List.flatMap_cons, ih hrest, hwhole, solid_append, solid_append,
        solid_of_slack hbefore, List.nil_append]

theorem body_bounds (alphabet : Alphabet) (whole : List Char) :
    (withoutFrontMatter alphabet whole).start <= (withoutFrontMatter alphabet whole).stop ∧
      (withoutFrontMatter alphabet whole).stop = whole.length := by
  have hend : forall {lines : List (Nat × List Char)} {start : Nat},
      frontMatterEnd whole.length lines = some start -> start <= whole.length := by
    intro lines
    induction lines with
    | nil =>
        intro start h
        cases h
    | cons line rest ih =>
        intro start h
        unfold frontMatterEnd at h
        split at h
        · rw [← Option.some.inj h]
          exact Nat.min_le_right _ _
        · split at h
          · cases h
          · exact ih h
  unfold withoutFrontMatter
  split
  · exact ⟨Nat.zero_le _, rfl⟩
  · split
    · split
      · exact ⟨Nat.zero_le _, rfl⟩
      · next hstart => exact ⟨hend hstart, rfl⟩
    · exact ⟨Nat.zero_le _, rfl⟩

def piecesOf (alphabet : Alphabet) (counter : TokenCount) (text : List Char) : List Stretch :=
  trimmedPieces (normalized text) ((runs alphabet counter text).map Headed.range)

theorem contents_unnamed (alphabet : Alphabet) (counter : TokenCount) (path : String)
    (text : List Char) :
    (unnamed alphabet counter path text).map (fun cut => cut.content.toList) =
      (piecesOf alphabet counter text).map (slice (normalized text)) := by
  unfold unnamed piecesOf trimmedPieces
  induction runs alphabet counter text with
  | nil => rfl
  | cons run rest ih =>
      rw [List.filterMap_cons, List.map_cons, List.map_cons, List.filter_cons]
      by_cases hnone : trimEnd (trimStart (slice (normalized text) run.range)) = []
      · have hempty : (trim (normalized text) run.range).Empty := empty_trim.mpr hnone
        simp only [if_pos hnone]
        rw [if_neg (by simpa using hempty)]
        exact ih
      · have hfull : ¬ (trim (normalized text) run.range).Empty := fun h => hnone (empty_trim.mp h)
        simp only [if_neg hnone]
        rw [if_pos (by simpa using hfull), List.map_cons, List.map_cons, ih, slice_trim,
          String.toList_ofList]

theorem tiles_pieces : Tiles (White (normalized text))
    (withoutFrontMatter alphabet (normalized text)).start
    (withoutFrontMatter alphabet (normalized text)).stop (piecesOf alphabet counter text) := by
  have hbody := body_bounds alphabet (normalized text)
  apply tiles_trimmedPieces
  apply tiles_merged
  exact tiles_headed hbody.1 (Nat.le_of_eq hbody.2)

theorem unfenced_piece {piece : Stretch} (h : piece ∈ piecesOf alphabet counter text) :
    exists line, line ∈ unfenced none
        (linesOf (normalized text) (withoutFrontMatter alphabet (normalized text))) ∧
      line.1 <= piece.start ∧ piece.start < line.1 + line.2.length := by
  have hbody := body_bounds alphabet (normalized text)
  have hstop := Nat.le_of_eq hbody.2
  rcases List.mem_filter.mp h with ⟨hmem, _⟩
  rcases List.mem_map.mp hmem with ⟨range, hrange, rfl⟩
  rcases List.mem_map.mp hrange with ⟨run, hrun, rfl⟩
  rcases starts_merged hrun with ⟨before, hbefore, hwhere⟩
  rcases start_headed hbody.1 hstop hbefore with ⟨line, hline, hstart⟩
  have htrimmed := trimmedPieces_trimmed _ h
  have hruns : Tiles (White (normalized text))
      (withoutFrontMatter alphabet (normalized text)).start
      (withoutFrontMatter alphabet (normalized text)).stop
      ((runs alphabet counter text).map Headed.range) :=
    tiles_merged (tiles_headed hbody.1 hstop)
  have hbounds := hruns.bounds run.range hrange
  have hcut : Tiles (White (normalized text)) run.range.start run.range.stop
      [trim (normalized text) run.range] := tiles_trim hbounds.2.1
  have hwithin : run.range.start <= (trim (normalized text) run.range).start :=
    (trim_within hbounds.2.1).1
  have hplace : line.1 = run.range.start := hstart.trans hwhere
  apply unfenced_of_start (lined_linesOf hbody.1 hstop) hline
  · rw [hplace]
    exact hwithin
  · have hfull := htrimmed.full
    have hinside := tiles_pieces.bounds _ h
    omega
  · intro position hfrom hto
    rw [hplace] at hfrom
    exact hcut.2.1 position hfrom hto
  · exact htrimmed.first

theorem contents_sections (alphabet : Alphabet) (counter : TokenCount) (path : String)
    (text : List Char) :
    (sections alphabet counter path text).map Section.content =
      (unnamed alphabet counter path text).map Unnamed.content := by
  have hnamed := named_by_bases alphabet (unnamed alphabet counter path text) []
  have hsame : List.Forall₂ (fun one other : String => one = other)
      ((sections alphabet counter path text).map Section.content)
      ((unnamed alphabet counter path text).map Unnamed.content) := by
    rw [List.forall₂_map_left_iff, List.forall₂_map_right_iff]
    exact (List.Forall₂.imp (fun _ _ h => h.1) hnamed).flip
  exact List.forall₂_eq_eq_eq ▸ hsame

theorem contents_pieces (alphabet : Alphabet) (counter : TokenCount) (path : String)
    (text : List Char) :
    (sections alphabet counter path text).map (fun cut => cut.content.toList) =
      (piecesOf alphabet counter text).map (slice (normalized text)) := by
  have hcontents := congrArg (List.map String.toList)
    (contents_sections alphabet counter path text)
  rw [List.map_map, List.map_map] at hcontents
  exact hcontents.trans (contents_unnamed alphabet counter path text)

theorem enough_sections (hsteady : Steady counter)
    (hmore : 1 < (sections alphabet counter path text).length) {cut : Section}
    (h : cut ∈ sections alphabet counter path text) :
    LEAST_TOKENS <= counter.count cut.content.toList := by
  have hbody := body_bounds alphabet (normalized text)
  have hcontent : cut.content.toList ∈
      (piecesOf alphabet counter text).map (slice (normalized text)) := by
    rw [← contents_pieces alphabet counter path text]
    exact List.mem_map_of_mem h
  rcases List.mem_map.mp hcontent with ⟨piece, hpiece, hslice⟩
  rcases List.mem_map.mp (List.mem_filter.mp hpiece).1 with ⟨range, hrange, rfl⟩
  rcases List.mem_map.mp hrange with ⟨run, hrun, rfl⟩
  have hruns : 1 < (runs alphabet counter text).length := by
    have hlength := congrArg List.length (contents_pieces alphabet counter path text)
    have hfewer := List.length_filter_le (fun piece : Stretch => decide (¬ piece.Empty))
      (((runs alphabet counter text).map Headed.range).map (trim (normalized text)))
    rw [List.length_map, List.length_map] at hlength hfewer
    unfold piecesOf trimmedPieces at hlength
    omega
  have henough : LEAST_TOKENS <= counter.count (slice (normalized text) run.range) :=
    enough_merged hsteady (tiles_headed hbody.1 (Nat.le_of_eq hbody.2)) hruns run hrun
  have htrim := trimming (slice (normalized text) run.range)
  rw [htrim.parts, hsteady.around _ _ _ (List.all_eq_true.mpr htrim.leading)
    (List.all_eq_true.mpr htrim.trailing)] at henough
  rw [← hslice, slice_trim]
  exact henough

end Cut

/-- The sections of a file hold every character of its body that is not white space, once and
in order; they lie over it with only white space between them, and each begins in a line that
is not inside a fenced block.  No two have one name, and of several none is too small. -/
theorem sections_conserve_the_file (alphabet : Alphabet) (counter : TokenCount) (path : String)
    (text : List Char) :
    let whole := normalized text
    let body := withoutFrontMatter alphabet whole
    let cut := sections alphabet counter path text
    (cut.flatMap fun each => solid each.content.toList) = solid (slice whole body) ∧
    (exists pieces, Tiles (White whole) body.start body.stop pieces ∧
      cut.map (fun each => each.content.toList) = pieces.map (slice whole) ∧
      forall piece, piece ∈ pieces ->
        exists line, line ∈ unfenced none (linesOf whole body) ∧ line.1 <= piece.start ∧
          piece.start < line.1 + line.2.length) ∧
    (cut.map Section.name).Nodup ∧
    (Steady counter -> 1 < cut.length -> forall each, each ∈ cut ->
      LEAST_TOKENS <= counter.count each.content.toList) := by
  intro whole body cut
  refine ⟨?_, ⟨piecesOf alphabet counter text, tiles_pieces,
    contents_pieces alphabet counter path text, ?_⟩, ?_, ?_⟩
  · have hflat : (cut.map fun each => each.content.toList).flatMap solid =
        cut.flatMap fun each => solid each.content.toList := by
      rw [List.flatMap_map]
    rw [← hflat, contents_pieces, List.flatMap_map]
    exact solid_of_tiles tiles_pieces
  · intro piece hpiece
    exact unfenced_piece hpiece
  · exact named_apart alphabet _ _
  · intro hsteady hmore each heach
    exact enough_sections hsteady hmore heach

end Sections
end PaminMemory
