import PaminMemory.Ingest.Names
import Mathlib.Data.List.Infix
import Mathlib.Data.List.TakeWhile

/-!
# A file's name read back

What may come after a file's name in the name of one of its sections, and when the name read
back is the file's.
-/

namespace PaminMemory
namespace Ingest

structure Figures (text : List Char) : Prop where
  full : text ≠ []
  digits : forall c, c ∈ text -> c.isDigit = true

def numbersOf (figures : List (List Char)) : List Char := figures.flatMap fun text => NUMBER ++ text

structure Follows (figures : List (List Char)) (headings rest : List Char) : Prop where
  numbered : forall text, text ∈ figures -> Figures text
  headed : headings = [] ∨ SEPARATOR <+: headings
  parts : rest = numbersOf figures ++ headings

theorem separator_eq : SEPARATOR = [' ', '›', ' '] := by
  decide

theorem number_eq : NUMBER = [' ', '#'] := by
  decide

def Spaced (text : List Char) : Prop := text = [] ∨ exists more, text = ' ' :: more

theorem Follows.spaced {figures : List (List Char)} {headings rest : List Char}
    (h : Follows figures headings rest) : Spaced rest := by
  rw [h.parts]
  cases figures with
  | nil =>
      cases h.headed with
      | inl hnil => exact Or.inl hnil
      | inr hheadings =>
          rcases hheadings with ⟨more, rfl⟩
          exact Or.inr ⟨['›', ' '] ++ more, by rw [separator_eq]; rfl⟩
  | cons text figures =>
      exact Or.inr ⟨'#' :: text ++ (numbersOf figures ++ headings), by
        simp [numbersOf, number_eq]⟩

theorem Follows.tail {text : List Char} {figures : List (List Char)} {headings rest : List Char}
    (h : Follows (text :: figures) headings rest) :
    Follows figures headings (numbersOf figures ++ headings) where
  numbered other hother := h.numbered other (List.mem_cons_of_mem _ hother)
  headed := h.headed
  parts := rfl

theorem Spaced.undigited {text : List Char} (h : Spaced text) :
    text = [] ∨ exists c more, c.isDigit = false ∧ text = c :: more := by
  cases h with
  | inl hnil => exact Or.inl hnil
  | inr hspace =>
      rcases hspace with ⟨more, hmore⟩
      exact Or.inr ⟨' ', more, by decide, hmore⟩

theorem digits_some {text after : List Char} (h : digits text = some after) :
    exists figures, Figures figures ∧ text = figures ++ after := by
  unfold digits at h
  dsimp only at h
  split at h
  next hshorter =>
    cases h
    exists text.takeWhile Char.isDigit
    constructor
    · constructor
      · intro hnil
        have hlength := congrArg List.length (List.takeWhile_append_dropWhile (p := Char.isDigit)
          (l := text))
        rw [hnil, List.nil_append] at hlength
        omega
      · exact fun c hc => List.mem_takeWhile_imp hc
    · exact List.takeWhile_append_dropWhile.symm
  next => cases h

theorem digits_figures {figures after : List Char} (h : Figures figures)
    (hafter : after = [] ∨ exists c more, c.isDigit = false ∧ after = c :: more) :
    digits (figures ++ after) = some after := by
  have hdrop : (figures ++ after).dropWhile Char.isDigit = after := by
    rw [List.dropWhile_append_of_pos h.digits]
    cases hafter with
    | inl hnil =>
        rw [hnil]
        rfl
    | inr hother =>
        rcases hother with ⟨c, more, hc, rfl⟩
        exact List.dropWhile_cons_of_neg (by rw [hc]; exact Bool.false_ne_true)
  unfold digits
  rw [hdrop]
  apply if_pos
  have hpos := List.length_pos_of_ne_nil h.full
  rw [List.length_append]
  omega

theorem follows_of_endsSection {fuel : Nat} {rest : List Char}
    (h : endsSection fuel rest = true) : exists figures headings, Follows figures headings rest := by
  induction fuel generalizing rest with
  | zero =>
      have hnil : rest = [] := List.isEmpty_iff.mp h
      exact ⟨[], [], by simp, Or.inl rfl, hnil⟩
  | succ fuel ih =>
      simp only [endsSection, Bool.or_eq_true] at h
      rcases h with (hnil | hheadings) | hnumber
      · exact ⟨[], [], by simp, Or.inl rfl, List.isEmpty_iff.mp hnil⟩
      · exact ⟨[], rest, by simp, Or.inr (List.isPrefixOf_iff_prefix.mp hheadings), rfl⟩
      · cases hdrop : rest.dropPrefix? NUMBER with
        | none => simp [hdrop] at hnumber
        | some numbered =>
            cases hdigits : digits numbered with
            | none => simp [hdrop, hdigits] at hnumber
            | some after =>
                simp only [hdrop, Option.bind_some, hdigits] at hnumber
                rcases ih hnumber with ⟨figures, headings, hfollows⟩
                rcases digits_some hdigits with ⟨text, htext, rfl⟩
                exists text :: figures, headings
                constructor
                · intro other hother
                  cases List.mem_cons.mp hother with
                  | inl hsame => exact hsame ▸ htext
                  | inr hmem => exact hfollows.numbered other hmem
                · exact hfollows.headed
                · rw [dropPrefix?_chars.mp hdrop, hfollows.parts]
                  simp [numbersOf]

theorem endsSection_of_follows {figures : List (List Char)} {headings rest : List Char}
    (h : Follows figures headings rest) {fuel : Nat} (hfuel : rest.length <= fuel) :
    endsSection fuel rest = true := by
  induction figures generalizing rest fuel with
  | nil =>
      have hrest : rest = headings := h.parts
      cases h.headed with
      | inl hnil =>
          rw [hrest, hnil]
          cases fuel <;> rfl
      | inr hheadings =>
          cases fuel with
          | zero =>
              rw [List.eq_nil_of_length_eq_zero (Nat.le_zero.mp hfuel)]
              rfl
          | succ fuel =>
              rw [hrest]
              simp [endsSection, List.isPrefixOf_iff_prefix.mpr hheadings]
  | cons text figures ih =>
      have hrest : rest = NUMBER ++ (text ++ (numbersOf figures ++ headings)) := by
        rw [h.parts]
        simp [numbersOf]
      have htext := h.numbered text (List.mem_cons_self ..)
      cases fuel with
      | zero =>
          rw [hrest, number_eq] at hfuel
          simp at hfuel
      | succ fuel =>
          have hmore : (numbersOf figures ++ headings).length <= fuel := by
            rw [hrest, number_eq] at hfuel
            simp only [List.length_append, List.length_cons] at hfuel ⊢
            omega
          have hdrop : rest.dropPrefix? NUMBER = some (text ++ (numbersOf figures ++ headings)) :=
            dropPrefix?_chars.mpr hrest
          simp only [endsSection, hdrop, Option.bind_some,
            digits_figures htext h.tail.spaced.undigited, ih h.tail hmore, Bool.or_true]

theorem belongs_iff {name file : String} : belongs name file = true <->
    exists figures headings rest, name.toList = file.toList ++ rest ∧
      Follows figures headings rest := by
  unfold belongs
  constructor
  · intro h
    cases hdrop : name.toList.dropPrefix? file.toList with
    | none => simp [hdrop] at h
    | some rest =>
        rw [hdrop] at h
        rcases follows_of_endsSection h with ⟨figures, headings, hfollows⟩
        exact ⟨figures, headings, rest, dropPrefix?_chars.mp hdrop, hfollows⟩
  · intro h
    rcases h with ⟨figures, headings, rest, hname, hfollows⟩
    rw [dropPrefix?_chars.mpr hname]
    exact endsSection_of_follows hfollows (Nat.le_refl _)

/-!
# The file read back
-/

theorem splitsAt_split {pattern before text : List Char} {fuel : Nat} {start : List Char}
    (h : start ∈ splitsAt pattern fuel before text) :
    exists middle rest, start = before ++ middle ∧ text = middle ++ pattern ++ rest := by
  induction fuel generalizing before text with
  | zero => cases h
  | succ fuel ih =>
      cases text with
      | nil => cases h
      | cons c text =>
          rw [splitsAt] at h
          split at h
          next hstarts =>
            rcases List.isPrefixOf_iff_prefix.mp hstarts with ⟨rest, hrest⟩
            cases List.mem_cons.mp h with
            | inl hhere => exact ⟨[], rest, by simpa using hhere, by simpa using hrest.symm⟩
            | inr hlater =>
                rcases ih hlater with ⟨middle, more, hstart, htext⟩
                rw [← hrest, List.drop_left] at htext
                exists pattern ++ middle, more
                constructor
                · rw [hstart, List.append_assoc]
                · rw [← hrest, htext]
                  simp only [List.append_assoc]
          next =>
            rcases ih h with ⟨middle, more, hstart, htext⟩
            exact ⟨c :: middle, more, by simpa using hstart, by simp [htext]⟩

theorem mem_splitsAt_number {fuel : Nat} {before text middle rest : List Char}
    (h : text = middle ++ NUMBER ++ rest) (hfuel : text.length <= fuel) :
    before ++ middle ∈ splitsAt NUMBER fuel before text := by
  induction fuel generalizing before text middle with
  | zero =>
      rw [h, number_eq] at hfuel
      simp at hfuel
  | succ fuel ih =>
      cases middle with
      | nil =>
          rw [h, number_eq]
          simp [splitsAt]
      | cons c middle =>
          rw [List.cons_append, List.cons_append] at h
          rw [h, splitsAt]
          split
          next hstarts =>
            rw [number_eq] at hstarts h ⊢
            rw [List.isPrefixOf_iff_prefix, List.cons_prefix_cons] at hstarts
            rcases hstarts with ⟨rfl, hsharp⟩
            cases middle with
            | nil => simp at hsharp
            | cons d middle =>
                simp only [List.cons_append, List.cons_prefix_cons, List.nil_prefix,
                  and_true] at hsharp
                cases hsharp
                have hless : (middle ++ NUMBER ++ rest).length <= fuel := by
                  rw [h] at hfuel
                  rw [number_eq]
                  simp only [List.cons_append, List.length_cons, List.length_append] at hfuel ⊢
                  omega
                have hmore : before ++ [' ', '#'] ++ middle ∈
                    splitsAt NUMBER fuel (before ++ [' ', '#']) (middle ++ NUMBER ++ rest) :=
                  ih rfl hless
                rw [number_eq] at hmore
                apply List.mem_cons_of_mem
                simpa using hmore
          next =>
            have hless : (middle ++ NUMBER ++ rest).length <= fuel := by
              rw [h] at hfuel
              simp only [List.length_cons, List.length_append] at hfuel ⊢
              omega
            have hmore : before ++ [c] ++ middle ∈
                splitsAt NUMBER fuel (before ++ [c]) (middle ++ NUMBER ++ rest) := ih rfl hless
            simpa using hmore

theorem numbers_taken (fuel : Nat) (text : List Char) :
    exists figures, (forall number, number ∈ figures -> Figures number) ∧
      text.reverse = (withoutNumbers fuel text).reverse ++ numbersOf figures := by
  induction fuel generalizing text with
  | zero => exact ⟨[], by simp, by simp [withoutNumbers, numbersOf]⟩
  | succ fuel ih =>
      rw [withoutNumbers]
      split
      next before hbefore =>
        rcases Option.bind_eq_some_iff.mp hbefore with ⟨rest, hdigits, hdrop⟩
        rcases digits_some hdigits with ⟨number, hnumber, rfl⟩
        rw [dropPrefix?_chars.mp hdrop]
        rcases ih before with ⟨figures, hfigures, htaken⟩
        exists figures ++ [number.reverse]
        constructor
        · intro other hother
          cases List.mem_append.mp hother with
          | inl hmem => exact hfigures other hmem
          | inr hlast =>
              rw [List.mem_singleton.mp hlast]
              constructor
              · simpa using hnumber.full
              · exact fun c hc => hnumber.digits c (List.mem_reverse.mp hc)
        · rw [List.reverse_append, List.reverse_append, List.reverse_reverse, htaken]
          simp [numbersOf, List.append_assoc]
      next => exact ⟨[], by simp, by simp [numbersOf]⟩

theorem mem_filesOf {name file : String} (hbelongs : belongs name file = true)
    (h : file.toList ∈ splitsAt SEPARATOR name.toList.length [] name.toList ∨
      file.toList ∈ splitsAt NUMBER name.toList.length [] name.toList ∨ file = name) :
    file ∈ filesOf name := by
  unfold filesOf
  dsimp only
  rw [List.mem_filter]
  constructor
  · rw [List.mem_append, List.mem_map, List.mem_singleton]
    rcases h with hheading | hnumber | hwhole
    · apply Or.inl
      exact ⟨_, List.mem_append_left _ hheading, String.ofList_toList⟩
    · apply Or.inl
      exact ⟨_, List.mem_append_right _ hnumber, String.ofList_toList⟩
    · exact Or.inr hwhole
  · exact hbelongs

structure Start (name : String) (text rest : List Char) : Prop where
  read : (splitsAt SEPARATOR name.toList.length [] name.toList).head?.getD name.toList = text
  parts : name.toList = text ++ rest
  headed : rest = [] ∨ SEPARATOR <+: rest
  found : rest = [] ∨ text ∈ splitsAt SEPARATOR name.toList.length [] name.toList

theorem start_of (name : String) : exists text rest, Start name text rest := by
  cases hsplits : (splitsAt SEPARATOR name.toList.length [] name.toList).head? with
  | none =>
      exists name.toList, []
      exact ⟨by rw [hsplits]; rfl, by simp, Or.inl rfl, Or.inl rfl⟩
  | some text =>
      have hmem := List.mem_of_mem_head? hsplits
      rcases splitsAt_split hmem with ⟨middle, more, hstart, htext⟩
      rw [List.nil_append] at hstart
      rw [← hstart] at htext
      exists text, SEPARATOR ++ more
      constructor
      · rw [hsplits]
        rfl
      · rw [← List.append_assoc]
        exact htext
      · exact Or.inr (List.prefix_append ..)
      · exact Or.inr hmem

theorem fileOf_mem_filesOf (name : String) : fileOf name ∈ filesOf name := by
  rcases start_of name with ⟨text, rest, hstart⟩
  rcases numbers_taken text.length text.reverse with ⟨figures, hfigures, htaken⟩
  have hfile : (fileOf name).toList = (withoutNumbers text.length text.reverse).reverse := by
    unfold fileOf
    dsimp only
    rw [hstart.read, String.toList_ofList]
  rw [List.reverse_reverse, ← hfile] at htaken
  have hname : name.toList = (fileOf name).toList ++ (numbersOf figures ++ rest) := by
    rw [hstart.parts, htaken, List.append_assoc]
  have hbelongs : belongs name (fileOf name) = true :=
    belongs_iff.mpr ⟨figures, rest, _, hname, hfigures, hstart.headed, rfl⟩
  apply mem_filesOf hbelongs
  cases figures with
  | nil =>
      have hsame : (fileOf name).toList = text := by
        rw [htaken]
        exact (List.append_nil _).symm
      cases hstart.found with
      | inl hnil =>
          apply Or.inr
          apply Or.inr
          rw [← String.toList_inj, hsame, hstart.parts, hnil, List.append_nil]
      | inr hmem =>
          rw [hsame]
          exact Or.inl hmem
  | cons number figures =>
      have hparts : name.toList =
          (fileOf name).toList ++ NUMBER ++ (number ++ (numbersOf figures ++ rest)) := by
        rw [hstart.parts, htaken]
        simp [numbersOf]
      have hmem : [] ++ (fileOf name).toList ∈
          splitsAt NUMBER name.toList.length [] name.toList :=
        mem_splitsAt_number hparts (Nat.le_refl _)
      rw [List.nil_append] at hmem
      exact Or.inr (Or.inl hmem)

end Ingest
end PaminMemory
