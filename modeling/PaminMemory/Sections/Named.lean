import PaminMemory.Sections.Numbers
import PaminMemory.Sections.Claims
import Mathlib.Data.List.ReduceOption

/-!
# Names are stable

No two sections are given one name, and each is given its base or its base with a number.
Named against what they were named before, sections keep their names.
-/

namespace PaminMemory
namespace Sections

open Foundation Ingest

/-!
## The claims that are kept
-/

section Keep

variable {taken : Finset String} {claims : List (Option String)}

theorem keep_cons_taken {name : String} {rest : List (Option String)} (h : name ∈ taken) :
    keep taken (some name :: rest) = (none :: (keep taken rest).1, (keep taken rest).2) :=
  if_pos h

theorem keep_cons_new {name : String} {rest : List (Option String)} (h : name ∉ taken) :
    keep taken (some name :: rest) =
      (some name :: (keep (insert name taken) rest).1, (keep (insert name taken) rest).2) :=
  if_neg h

theorem keep_claims (taken : Finset String) (claims : List (Option String)) :
    List.Forall₂ (fun kept claim => kept = none ∨ kept = claim) (keep taken claims).1
      claims := by
  induction claims generalizing taken with
  | nil => exact List.Forall₂.nil
  | cons claim rest ih =>
      cases claim with
      | none => exact List.Forall₂.cons (Or.inl rfl) (ih taken)
      | some name =>
          by_cases hname : name ∈ taken
          · rw [keep_cons_taken hname]
            exact List.Forall₂.cons (Or.inl rfl) (ih taken)
          · rw [keep_cons_new hname]
            exact List.Forall₂.cons (Or.inr rfl) (ih _)

theorem mem_taken_keep {name : String} :
    name ∈ (keep taken claims).2 <-> name ∈ taken ∨ some name ∈ (keep taken claims).1 := by
  induction claims generalizing taken with
  | nil => simp [keep]
  | cons claim rest ih =>
      cases claim with
      | none => simp [keep, ih]
      | some other =>
          by_cases hother : other ∈ taken
          · rw [keep_cons_taken hother]
            simp [ih]
          · rw [keep_cons_new hother]
            simp only [ih, Finset.mem_insert, List.mem_cons, Option.some.injEq]
            tauto

theorem kept_apart : (keep taken claims).1.reduceOption.Nodup ∧
    forall name, some name ∈ (keep taken claims).1 -> name ∉ taken := by
  induction claims generalizing taken with
  | nil => simp [keep]
  | cons claim rest ih =>
      cases claim with
      | none => simpa [keep] using @ih taken
      | some name =>
          by_cases hname : name ∈ taken
          · rw [keep_cons_taken hname]
            simpa using @ih taken
          · rw [keep_cons_new hname]
            rcases @ih (insert name taken) with ⟨hnodup, hfree⟩
            constructor
            · rw [List.reduceOption_cons_of_some, List.nodup_cons]
              refine ⟨?_, hnodup⟩
              intro hmem
              exact hfree name (List.reduceOption_mem_iff.mp hmem) (Finset.mem_insert_self _ _)
            · intro other hother
              rcases List.mem_cons.mp hother with hfirst | hrest
              · rw [Option.some.inj hfirst]
                exact hname
              · exact fun hin => hfree other hrest (Finset.mem_insert_of_mem hin)

theorem card_keep (taken : Finset String) (claims : List (Option String)) :
    (keep taken claims).2.card + (keep taken claims).1.countP Option.isNone =
      taken.card + claims.length := by
  induction claims generalizing taken with
  | nil => rfl
  | cons claim rest ih =>
      cases claim with
      | none =>
          have hrest := ih taken
          simp only [keep, List.countP_cons, Option.isNone_none, if_true, List.length_cons]
          omega
      | some name =>
          by_cases hname : name ∈ taken
          · have hrest := ih taken
            rw [keep_cons_taken hname]
            simp only [List.countP_cons, Option.isNone_none, if_true, List.length_cons]
            omega
          · have hrest := ih (insert name taken)
            rw [Finset.card_insert_of_notMem hname] at hrest
            rw [keep_cons_new hname]
            simp only [List.countP_cons, Option.isNone_some, Bool.false_eq_true, if_false,
              List.length_cons]
            omega

theorem kept_first {i : Nat} {name : String} (hclaim : claims[i]? = some (some name))
    (hfree : name ∉ taken) (hfirst : forall j, j < i -> claims[j]? ≠ some (some name)) :
    (keep taken claims).1[i]? = some (some name) := by
  induction claims generalizing taken i with
  | nil => cases hclaim
  | cons claim rest ih =>
      cases i with
      | zero =>
          rw [List.getElem?_cons_zero] at hclaim
          rw [Option.some.inj hclaim, keep_cons_new hfree]
          rfl
      | succ i =>
          rw [List.getElem?_cons_succ] at hclaim
          have hlater : forall j, j < i -> rest[j]? ≠ some (some name) := by
            intro j hj
            have hnot := hfirst (j + 1) (Nat.succ_lt_succ hj)
            rw [List.getElem?_cons_succ] at hnot
            exact hnot
          cases claim with
          | none => exact ih hclaim hfree hlater
          | some other =>
              by_cases hother : other ∈ taken
              · rw [keep_cons_taken hother]
                exact ih hclaim hfree hlater
              · rw [keep_cons_new hother]
                apply ih hclaim ?_ hlater
                rw [Finset.mem_insert, not_or]
                refine ⟨?_, hfree⟩
                intro hsame
                exact hfirst 0 (Nat.succ_pos i) (by rw [hsame]; rfl)

theorem keep_all {names : List String} (hnodup : names.Nodup)
    (hfree : forall name, name ∈ names -> name ∉ taken) :
    (keep taken (names.map some)).1 = names.map some := by
  induction names generalizing taken with
  | nil => rfl
  | cons name rest ih =>
      rcases List.nodup_cons.mp hnodup with ⟨hnot, hrest⟩
      rw [List.map_cons, keep_cons_new (hfree name List.mem_cons_self), ih hrest]
      intro other hother hin
      rcases Finset.mem_insert.mp hin with rfl | hold
      · exact hnot hother
      · exact hfree other (List.mem_cons_of_mem _ hother) hold

end Keep

/-!
## The names that are given
-/

def Given (bound : Nat) (entry : Unnamed × Option String) (named : Section) : Prop :=
  named.content = entry.1.content ∧
    match entry.2 with
    | some name => named.name = name
    | none => exists n, 1 <= n ∧ n <= bound ∧ named.name = numbered entry.1.base n

theorem nameAll_given (taken : Finset String) (entries : List (Unnamed × Option String)) :
    List.Forall₂ (Given (taken.card + (entries.map Prod.snd).countP Option.isNone)) entries
      (nameAll taken entries) := by
  induction entries generalizing taken with
  | nil => exact List.Forall₂.nil
  | cons entry rest ih =>
      rcases entry with ⟨unnamed, claim⟩
      cases claim with
      | some name => exact List.Forall₂.cons ⟨rfl, rfl⟩ (by simpa using ih taken)
      | none =>
          rcases unique_spec taken unnamed.base with ⟨hfree, n, hn, hbound, hname⟩
          have hrest := ih (insert (unique taken unnamed.base) taken)
          rw [Finset.card_insert_of_notMem hfree] at hrest
          have hcount : taken.card + ((((unnamed, none) :: rest).map Prod.snd).countP
              Option.isNone) = taken.card + 1 + (rest.map Prod.snd).countP Option.isNone := by
            simp only [List.map_cons, List.countP_cons, Option.isNone_none, if_true]
            omega
          rw [hcount]
          exact List.Forall₂.cons ⟨rfl, n, hn, by omega, hname⟩ hrest

theorem nameAll_apart {taken : Finset String} {entries : List (Unnamed × Option String)}
    (hnodup : (entries.map Prod.snd).reduceOption.Nodup)
    (hkept : forall name, some name ∈ entries.map Prod.snd -> name ∈ taken) :
    ((nameAll taken entries).map Section.name).Nodup ∧
      forall name, name ∈ (nameAll taken entries).map Section.name ->
        some name ∈ entries.map Prod.snd ∨ name ∉ taken := by
  induction entries generalizing taken with
  | nil => simp [nameAll]
  | cons entry rest ih =>
      rcases entry with ⟨unnamed, claim⟩
      have hrest : forall name, some name ∈ rest.map Prod.snd -> name ∈ taken := by
        intro name hname
        exact hkept name (List.mem_cons_of_mem _ hname)
      cases claim with
      | some kept =>
          rw [List.map_cons, List.reduceOption_cons_of_some, List.nodup_cons] at hnodup
          rcases ih hnodup.2 hrest with ⟨hnames, hgiven⟩
          have htaken : kept ∈ taken := hkept kept List.mem_cons_self
          constructor
          · refine List.nodup_cons.mpr ⟨?_, hnames⟩
            intro hmem
            rcases hgiven kept hmem with hagain | hfree
            · exact hnodup.1 (List.reduceOption_mem_iff.mpr hagain)
            · exact hfree htaken
          · intro name hname
            rcases List.mem_cons.mp hname with rfl | hlater
            · exact Or.inl List.mem_cons_self
            · rcases hgiven name hlater with hold | hnew
              · exact Or.inl (List.mem_cons_of_mem _ hold)
              · exact Or.inr hnew
      | none =>
          rw [List.map_cons, List.reduceOption_cons_of_none] at hnodup
          have hfree := (unique_spec taken unnamed.base).1
          have hgrown : forall name, some name ∈ rest.map Prod.snd ->
              name ∈ insert (unique taken unnamed.base) taken := by
            intro name hname
            exact Finset.mem_insert_of_mem (hrest name hname)
          rcases ih hnodup hgrown with ⟨hnames, hgiven⟩
          constructor
          · refine List.nodup_cons.mpr ⟨?_, hnames⟩
            intro hmem
            rcases hgiven _ hmem with hold | hnew
            · exact hfree (hrest _ hold)
            · exact hnew (Finset.mem_insert_self _ _)
          · intro name hname
            rcases List.mem_cons.mp hname with rfl | hlater
            · exact Or.inr hfree
            · rcases hgiven name hlater with hold | hnew
              · exact Or.inl (List.mem_cons_of_mem _ hold)
              · exact Or.inr fun hin => hnew (Finset.mem_insert_of_mem hin)

/-!
## The names sections are given
-/

/-- A base, or a base followed by a number of two or more. -/
def NamedBy (base name : String) : Prop :=
  name = base ∨ exists figures, name.toList = base.toList ++ (NUMBER ++ figures) ∧
    figures ≠ [] ∧ figures.all Char.isDigit = true ∧ 2 <= Nat.ofDigitChars 10 figures 0

/-- The other name is the base followed by a number. -/
def Collides (base other : String) : Prop :=
  exists figures, other.toList = base.toList ++ (NUMBER ++ figures) ∧
    figures ≠ [] ∧ figures.all Char.isDigit = true

theorem namedBy_of_number {name base : String} (h : (number name base).isSome = true) :
    NamedBy base name := by
  rcases Option.isSome_iff_exists.mp h with ⟨n, hn⟩
  rcases number_iff.mp hn with ⟨hsame, _⟩ | ⟨figures, hname, hne, hdigits, hvalue, htwo, _⟩
  · exact Or.inl hsame
  · exact Or.inr ⟨figures, hname, hne, hdigits, by rw [hvalue]; exact htwo⟩

theorem namedBy_numbered (base : String) {n : Nat} (hn : 1 <= n) :
    NamedBy base (numbered base n) := by
  by_cases hone : n = 1
  · subst hone
    exact Or.inl (numbered_one base)
  · right
    refine ⟨Nat.toDigits 10 n, toList_numbered base hone, Nat.toDigits_ne_nil, ?_, ?_⟩
    · rw [List.all_eq_true]
      intro c hc
      exact Nat.isDigit_of_mem_toDigits (by decide) (by decide) hc
    · rw [Nat.ofDigitChars_ten_toDigits]
      omega

theorem middle_of_figures {middle figures more : List Char}
    (hfigures : figures.all Char.isDigit = true)
    (h : NUMBER ++ figures = middle ++ (NUMBER ++ more)) : middle = [] := by
  have hnumber : NUMBER = [' ', '#'] := by decide
  rw [hnumber] at h
  cases middle with
  | nil => rfl
  | cons first middle =>
      cases middle with
      | nil =>
          have hsecond : '#' = ' ' := (List.cons.inj (List.cons.inj h).2).1
          exact absurd hsecond (by decide)
      | cons second middle =>
          have hrest : figures = middle ++ ([' ', '#'] ++ more) :=
            (List.cons.inj (List.cons.inj h).2).2
          have hspace : ' ' ∈ figures := by
            rw [hrest]
            simp
          exact absurd (List.all_eq_true.mp hfigures ' ' hspace) (by decide)

theorem base_of_figures {base other figures more : List Char}
    (hfigures : figures.all Char.isDigit = true) (hmore : more.all Char.isDigit = true)
    (h : base ++ (NUMBER ++ figures) = other ++ (NUMBER ++ more)) : base = other := by
  rcases List.append_eq_append_iff.mp h with ⟨middle, hother, hlist⟩ | ⟨middle, hbase, hlist⟩
  · rw [hother, middle_of_figures hfigures hlist, List.append_nil]
  · rw [hbase, middle_of_figures hmore hlist, List.append_nil]

theorem base_of_name {name one other : String} (hone : (number name one).isSome = true)
    (hother : (number name other).isSome = true) (hapart : ¬ Collides one other)
    (hapart' : ¬ Collides other one) : one = other := by
  rcases namedBy_of_number hone with hsame | ⟨figures, hname, hne, hdigits, _⟩
  · rcases namedBy_of_number hother with hsame' | ⟨figures, hname, hne, hdigits, _⟩
    · exact hsame.symm.trans hsame'
    · rw [hsame] at hname
      exact absurd ⟨figures, hname, hne, hdigits⟩ hapart'
  · rcases namedBy_of_number hother with hsame' | ⟨more, hname', _, hmore, _⟩
    · rw [hsame'] at hname
      exact absurd ⟨figures, hname, hne, hdigits⟩ hapart
    · rw [hname] at hname'
      exact String.toList_inj.mp (base_of_figures hdigits hmore hname')

section Named

variable {alphabet : Alphabet} {sections : List Unnamed} {previous : List Section}

def keptClaims (alphabet : Alphabet) (sections : List Unnamed) (previous : List Section) :
    List (Option String) × Finset String :=
  keep ∅ (claimed alphabet sections previous)

theorem named_eq : named alphabet sections previous =
    nameAll (keptClaims alphabet sections previous).2
      (sections.zip (keptClaims alphabet sections previous).1) := rfl

theorem length_kept :
    (keptClaims alphabet sections previous).1.length = sections.length := by
  unfold keptClaims
  rw [(keep_claims ∅ _).length_eq, length_claimed]

theorem entries_snd :
    (sections.zip (keptClaims alphabet sections previous).1).map Prod.snd =
      (keptClaims alphabet sections previous).1 :=
  List.map_snd_zip (Nat.le_of_eq length_kept)

theorem named_apart (alphabet : Alphabet) (sections : List Unnamed) (previous : List Section) :
    ((named alphabet sections previous).map Section.name).Nodup := by
  rw [named_eq]
  apply (nameAll_apart ?_ ?_).1
  · rw [entries_snd]
    exact kept_apart.1
  · intro name hname
    rw [entries_snd] at hname
    exact mem_taken_keep.mpr (Or.inr hname)

theorem forall₂_getElem? {α β : Type} {R : α -> β -> Prop} {left : List α} {right : List β}
    (h : List.Forall₂ R left right) {i : Nat} {item : α} (hitem : left[i]? = some item) :
    exists other, right[i]? = some other ∧ R item other := by
  induction h generalizing i with
  | nil => cases hitem
  | cons hfirst _ ih =>
      cases i with
      | zero =>
          rw [List.getElem?_cons_zero] at hitem
          exact ⟨_, rfl, by rw [← Option.some.inj hitem]; exact hfirst⟩
      | succ i => exact ih hitem

theorem named_at (alphabet : Alphabet) (previous : List Section) {i : Nat}
    {unnamed : Unnamed} (hunnamed : sections[i]? = some unnamed) :
    exists given, (named alphabet sections previous)[i]? = some given ∧
      given.content = unnamed.content ∧
        ((keptClaims alphabet sections previous).1[i]? = some (some given.name) ∨
          ((keptClaims alphabet sections previous).1[i]? = some none ∧
            exists n, 1 <= n ∧ n <= sections.length ∧ given.name = numbered unnamed.base n)) := by
  have hkept : i < (keptClaims alphabet sections previous).1.length := by
    rw [length_kept]
    exact (List.getElem?_eq_some_iff.mp hunnamed).1
  have hentry : (sections.zip (keptClaims alphabet sections previous).1)[i]? =
      some (unnamed, (keptClaims alphabet sections previous).1[i]) :=
    List.getElem?_zip_eq_some.mpr ⟨hunnamed, List.getElem?_eq_getElem hkept⟩
  have hgiven := nameAll_given (keptClaims alphabet sections previous).2
    (sections.zip (keptClaims alphabet sections previous).1)
  have hbound : (keptClaims alphabet sections previous).2.card +
      (keptClaims alphabet sections previous).1.countP Option.isNone = sections.length := by
    have hcard := card_keep ∅ (claimed alphabet sections previous)
    rw [length_claimed, Finset.card_empty, Nat.zero_add] at hcard
    exact hcard
  rw [entries_snd, hbound] at hgiven
  rcases forall₂_getElem? hgiven hentry with ⟨given, hat, hcontent, hname⟩
  refine ⟨given, hat, hcontent, ?_⟩
  rw [List.getElem?_eq_getElem hkept]
  cases hclaim : (keptClaims alphabet sections previous).1[i] with
  | some name =>
      rw [hclaim] at hname
      left
      rw [show given.name = name from hname]
  | none =>
      rw [hclaim] at hname
      exact Or.inr ⟨rfl, hname⟩

theorem claim_of_kept {i : Nat} {unnamed : Unnamed} (hunnamed : sections[i]? = some unnamed)
    {name : String}
    (hkept : (keptClaims alphabet sections previous).1[i]? = some (some name)) :
    (i, name) ∈ claimsOf alphabet sections previous unnamed.base := by
  rcases forall₂_getElem? (keep_claims ∅ (claimed alphabet sections previous)) hkept with
    ⟨claim, hclaim, hnone | hsame⟩
  · cases hnone
  · rw [← hsame] at hclaim
    exact (claimed_iff hunnamed).mp hclaim

theorem length_named : (named alphabet sections previous).length = sections.length := by
  rw [named_eq, ← (nameAll_given _ _).length_eq, List.length_zip, length_kept, Nat.min_self]

theorem forall₂_named {R : Unnamed -> Section -> Prop}
    (h : forall (i : Nat) unnamed given, sections[i]? = some unnamed ->
      (named alphabet sections previous)[i]? = some given -> R unnamed given) :
    List.Forall₂ R sections (named alphabet sections previous) := by
  rw [List.forall₂_iff_get]
  refine ⟨length_named.symm, ?_⟩
  intro i hleft hright
  exact h i _ _ (List.getElem?_eq_getElem hleft) (List.getElem?_eq_getElem hright)

theorem named_by_bases (alphabet : Alphabet) (sections : List Unnamed)
    (previous : List Section) :
    List.Forall₂ (fun unnamed given => given.content = unnamed.content ∧
      NamedBy unnamed.base given.name) sections (named alphabet sections previous) := by
  apply forall₂_named
  intro i unnamed given hunnamed hgiven
  rcases named_at alphabet previous hunnamed with
    ⟨same, hsame, hcontent, hname⟩
  rw [hgiven] at hsame
  rw [Option.some.inj hsame]
  refine ⟨hcontent, ?_⟩
  rcases hname with hkept | ⟨_, n, hn, _, hnumbered⟩
  · rcases (section_of_claim (claim_of_kept hunnamed hkept)).2 with ⟨_, _, _, hnumber⟩
    exact namedBy_of_number hnumber
  · rw [hnumbered]
    exact namedBy_numbered unnamed.base hn

theorem named_numbered (alphabet : Alphabet) (previous : List Section)
    (hbound : sections.length < 2147483648) :
    Numbered sections (named alphabet sections previous) := by
  constructor
  case each =>
    apply forall₂_named
    intro i unnamed given hunnamed hgiven
    rcases named_at alphabet previous hunnamed with
      ⟨same, hsame, hcontent, hname⟩
    rw [hgiven] at hsame
    rw [Option.some.inj hsame]
    refine ⟨hcontent, ?_⟩
    rcases hname with hkept | ⟨_, n, hn, hle, hnumbered⟩
    · rcases (section_of_claim (claim_of_kept hunnamed hkept)).2 with ⟨_, _, _, hnumber⟩
      exact hnumber
    · rw [hnumbered, number_numbered unnamed.base hn (by omega)]
      rfl
  case apart => exact named_apart alphabet sections previous

end Named

/-!
## Named again
-/

theorem nameAll_kept (taken : Finset String) {sections : List Unnamed} {given : List Section}
    (h : List.Forall₂ (fun unnamed given : _ => Section.content given = Unnamed.content unnamed)
      sections given) :
    nameAll taken (sections.zip ((given.map Section.name).map some)) = given := by
  induction h with
  | nil => rfl
  | @cons unnamed given _ _ hcontent _ ih =>
      simp only [List.map_cons, List.zip_cons_cons, nameAll, ih, ← hcontent]

section Again

variable {alphabet : Alphabet} {sections : List Unnamed} {given : List Section}

theorem earlier_members {base : String} (whole : List Section) (start : Nat)
    (h : List.Forall₂ (fun unnamed given => Section.content given = Unnamed.content unnamed ∧
      ((number given.name base).isSome = true <-> unnamed.base = base)) sections given)
    (hwhole : forall i : Nat, given[i]? = whole[start + i]?) :
    List.Forall₂ (fun (member : Unnamed × Nat) kept => Section.content kept = member.1.content ∧
        whole[member.2]? = some kept)
      ((sections.zipIdx start).filter fun member => member.1.base = base)
      (earlierOf given base) := by
  unfold earlierOf
  induction h generalizing start with
  | nil => exact List.Forall₂.nil
  | @cons unnamed kept sections given hfirst _ ih =>
      have hrest : forall i : Nat, given[i]? = whole[start + 1 + i]? := by
        intro i
        have hlater := hwhole (i + 1)
        rw [List.getElem?_cons_succ] at hlater
        rw [hlater]
        congr 1
        omega
      have hlater := ih (start + 1) hrest
      rw [List.zipIdx_cons, List.filter_cons, List.filter_cons]
      by_cases hbase : unnamed.base = base
      · rw [if_pos (decide_eq_true hbase), if_pos (hfirst.2.mpr hbase)]
        apply List.Forall₂.cons ⟨hfirst.1, ?_⟩ hlater
        exact (hwhole 0).symm
      · rw [if_neg (by simpa using hbase), if_neg (fun hnumber => hbase (hfirst.2.mp hnumber))]
        exact hlater

theorem claims_given
    (hapart : forall one, one ∈ sections -> forall other, other ∈ sections ->
      ¬ Collides one.base other.base)
    (hgiven : Numbered sections given) {i : Nat} {unnamed : Unnamed} {kept : Section}
    (hunnamed : sections[i]? = some unnamed) (hkept : given[i]? = some kept) :
    (i, kept.name) ∈ claimsOf alphabet sections given unnamed.base := by
  have hnamed : List.Forall₂ (fun other given => Section.content given =
      Unnamed.content other ∧
        ((number given.name unnamed.base).isSome = true <-> other.base = unnamed.base))
      sections given := by
    rw [List.forall₂_iff_get]
    refine ⟨hgiven.each.length_eq, ?_⟩
    intro j hleft hright
    have heach := (List.forall₂_iff_get.mp hgiven.each).2 j hleft hright
    refine ⟨heach.1, ?_⟩
    constructor
    · intro hnumber
      have hother : sections.get ⟨j, hleft⟩ ∈ sections := List.get_mem _ _
      have hself : unnamed ∈ sections := List.mem_of_getElem? hunnamed
      exact base_of_name heach.2 hnumber (hapart _ hother _ hself) (hapart _ hself _ hother)
    · intro hbase
      rw [← hbase]
      exact heach.2
  have hmembers := earlier_members given 0 hnamed fun i => by rw [Nat.zero_add]
  have hmember : (unnamed, i) ∈ membersOf sections unnamed.base :=
    mem_membersOf.mpr ⟨hunnamed, rfl⟩
  rcases List.mem_iff_getElem?.mp hmember with ⟨place, hplace⟩
  rcases forall₂_getElem? hmembers hplace with ⟨other, hother, _, hsame⟩
  rw [hkept] at hsame
  have hcontents : (earlierOf given unnamed.base).map Section.content =
      (membersOf sections unnamed.base).map fun member => member.1.content := by
    have heq : List.Forall₂ (fun one other : String => one = other)
        ((earlierOf given unnamed.base).map Section.content)
        ((membersOf sections unnamed.base).map fun member => member.1.content) := by
      rw [List.forall₂_map_left_iff, List.forall₂_map_right_iff]
      exact (List.Forall₂.imp (fun _ _ h => h.1) hmembers).flip
    exact List.forall₂_eq_eq_eq ▸ heq
  apply mem_claimsOf.mpr
  refine ⟨place, place, (unnamed, i), other, ?_, hplace, hother, rfl, ?_⟩
  · rw [hcontents]
    apply pairs_self
    rw [List.length_map]
    exact (List.getElem?_eq_some_iff.mp hplace).1
  · rw [Option.some.inj hsame]

theorem named_given
    (hapart : forall one, one ∈ sections -> forall other, other ∈ sections ->
      ¬ Collides one.base other.base)
    (hgiven : Numbered sections given) : named alphabet sections given = given := by
  have hclaimed : claimed alphabet sections given = (given.map Section.name).map some := by
    apply List.ext_getElem?
    intro i
    rcases Nat.lt_or_ge i sections.length with hin | hout
    · have hunnamed : sections[i]? = some sections[i] := List.getElem?_eq_getElem hin
      rcases forall₂_getElem? hgiven.each hunnamed with ⟨kept, hkept, _⟩
      rw [(claimed_iff hunnamed).mpr (claims_given hapart hgiven hunnamed hkept),
        List.getElem?_map, List.getElem?_map, hkept]
      rfl
    · rw [List.getElem?_eq_none (by rw [length_claimed]; exact hout),
        List.getElem?_eq_none (by
          rw [List.length_map, List.length_map, ← hgiven.each.length_eq]
          exact hout)]
  have hkept : (keptClaims alphabet sections given).1 = (given.map Section.name).map some := by
    unfold keptClaims
    rw [hclaimed]
    apply keep_all hgiven.apart
    intro name _
    exact Finset.notMem_empty name
  rw [named_eq, hkept]
  apply nameAll_kept
  exact List.Forall₂.imp (fun _ _ h => h.1) hgiven.each

theorem place_of_record {previous : List Section} {base : String}
    (hrecorded : (previous.map Section.name).Nodup) {kept : Section} {place other : Nat}
    (hplace : (earlierOf previous base)[place]? = some kept)
    (hother : (earlierOf previous base)[other]? = some kept) : other = place := by
  have hnames : ((earlierOf previous base).map Section.name).Nodup :=
    (List.filter_sublist.map Section.name).nodup hrecorded
  have hbound : other < ((earlierOf previous base).map Section.name).length := by
    rw [List.length_map]
    exact (List.getElem?_eq_some_iff.mp hother).1
  apply (List.getElem?_inj hbound hnames).mp
  rw [List.getElem?_map, List.getElem?_map, hother, hplace]

theorem place_of_member {base : String} {one other : Nat} {member twin : Unnamed × Nat}
    (hone : (membersOf sections base)[one]? = some member)
    (hother : (membersOf sections base)[other]? = some twin) (hsame : twin.2 = member.2) :
    other = one := by
  have hbound : other < ((membersOf sections base).map Prod.snd).length := by
    rw [List.length_map]
    exact (List.getElem?_eq_some_iff.mp hother).1
  apply (List.getElem?_inj hbound (nodup_membersOf sections base)).mp
  rw [List.getElem?_map, List.getElem?_map, hother, hone, Option.map_some, Option.map_some, hsame]

theorem claims_exact {previous : List Section}
    (hrecorded : (previous.map Section.name).Nodup) {i : Nat} {unnamed : Unnamed}
    {kept : Section} (hunnamed : sections[i]? = some unnamed) (hkept : kept ∈ previous)
    (hnumber : (number kept.name unnamed.base).isSome = true)
    (hcontent : kept.content = unnamed.content)
    (honly : forall (j : Nat) other, sections[j]? = some other -> other.base = unnamed.base ->
      other.content = unnamed.content -> j = i)
    (hone : forall other, other ∈ previous -> (number other.name unnamed.base).isSome = true ->
      other.content = kept.content -> other = kept) :
    (i, kept.name) ∈ claimsOf alphabet sections previous unnamed.base := by
  have hmember : (unnamed, i) ∈ membersOf sections unnamed.base :=
    mem_membersOf.mpr ⟨hunnamed, rfl⟩
  rcases List.mem_iff_getElem?.mp hmember with ⟨at', hat⟩
  have hearlier : kept ∈ earlierOf previous unnamed.base :=
    List.mem_filter.mpr ⟨hkept, hnumber⟩
  rcases List.mem_iff_getElem?.mp hearlier with ⟨place, hplace⟩
  have hnow : ((membersOf sections unnamed.base).map fun member => member.1.content)[at']? =
      some unnamed.content := by
    rw [List.getElem?_map, hat]
    rfl
  have hbefore : ((earlierOf previous unnamed.base).map Section.content)[place]? =
      some unnamed.content := by
    rw [List.getElem?_map, hplace, ← hcontent]
    rfl
  have hsingle : forall other : Nat,
      ((membersOf sections unnamed.base).map fun member => member.1.content)[other]? =
        some unnamed.content -> other = at' := by
    intro other hother
    rw [List.getElem?_map] at hother
    rcases Option.map_eq_some_iff.mp hother with ⟨twin, htwin, hsame⟩
    rcases mem_membersOf.mp (List.mem_of_getElem? htwin) with ⟨hin, hbase⟩
    exact place_of_member hat htwin (honly twin.2 twin.1 hin hbase hsame)
  rcases pairs_exact alphabet hnow hbefore hsingle with ⟨found, hfound, hpaired⟩
  rw [List.getElem?_map] at hfound
  rcases Option.map_eq_some_iff.mp hfound with ⟨other, hother, hsame⟩
  have hin := List.mem_filter.mp (List.mem_of_getElem? hother)
  rw [hone other hin.1 hin.2 (hsame.trans hcontent.symm)] at hother
  rw [place_of_record hrecorded hplace hother] at hpaired
  exact mem_claimsOf.mpr ⟨at', place, (unnamed, i), kept, hpaired, hat, hplace, rfl, rfl⟩

theorem claims_once
    (hapart : forall one, one ∈ sections -> forall other, other ∈ sections ->
      ¬ Collides one.base other.base)
    {previous : List Section} (hrecorded : (previous.map Section.name).Nodup) {i j : Nat}
    {one other : Unnamed} {name : String} (hone : sections[i]? = some one)
    (hother : sections[j]? = some other)
    (hclaim : (i, name) ∈ claimsOf alphabet sections previous one.base)
    (hclaim' : (j, name) ∈ claimsOf alphabet sections previous other.base) : i = j := by
  rcases section_of_claim hclaim with ⟨_, _, _, _, hnumber⟩
  rcases section_of_claim hclaim' with ⟨_, _, _, _, hnumber'⟩
  have hin : one ∈ sections := List.mem_of_getElem? hone
  have hin' : other ∈ sections := List.mem_of_getElem? hother
  have hbase : other.base = one.base :=
    base_of_name hnumber' hnumber (hapart _ hin' _ hin) (hapart _ hin _ hin')
  rw [hbase] at hclaim'
  rcases mem_claimsOf.mp hclaim with ⟨at', place, member, kept, hpair, hat, hplace, hi, hname⟩
  rcases mem_claimsOf.mp hclaim' with
    ⟨at'', place', member', again, hpair', hat', hplace', hj, hname'⟩
  have hsame : again = kept := by
    have hearlier := List.mem_filter.mp (List.mem_of_getElem? hplace)
    have hearlier' := List.mem_filter.mp (List.mem_of_getElem? hplace')
    exact List.inj_on_of_nodup_map hrecorded hearlier'.1 hearlier.1 (hname'.trans hname.symm)
  rw [hsame] at hplace'
  rw [place_of_record hrecorded hplace hplace'] at hpair'
  rw [pairs_injective hpair' hpair, hat] at hat'
  rw [← hi, ← hj, Option.some.inj hat']

theorem named_exact
    (hapart : forall one, one ∈ sections -> forall other, other ∈ sections ->
      ¬ Collides one.base other.base)
    {previous : List Section} (hrecorded : (previous.map Section.name).Nodup) {i : Nat}
    {unnamed : Unnamed} {kept : Section} (hunnamed : sections[i]? = some unnamed)
    (hkept : kept ∈ previous) (hnumber : (number kept.name unnamed.base).isSome = true)
    (hcontent : kept.content = unnamed.content)
    (honly : forall (j : Nat) other, sections[j]? = some other -> other.base = unnamed.base ->
      other.content = unnamed.content -> j = i)
    (hone : forall other, other ∈ previous -> (number other.name unnamed.base).isSome = true ->
      other.content = kept.content -> other = kept) :
    (named alphabet sections previous)[i]? =
      some { name := kept.name, content := unnamed.content } := by
  have hclaim : (i, kept.name) ∈ claimsOf alphabet sections previous unnamed.base :=
    claims_exact hrecorded hunnamed hkept hnumber hcontent honly hone
  have hfirst : forall j, j < i ->
      (claimed alphabet sections previous)[j]? ≠ some (some kept.name) := by
    intro j hj hclaimed
    have hbound : j < sections.length := hj.trans (List.getElem?_eq_some_iff.mp hunnamed).1
    have hother : sections[j]? = some sections[j] := List.getElem?_eq_getElem hbound
    have hclaim' := (claimed_iff hother).mp hclaimed
    exact absurd (claims_once hapart hrecorded hother hunnamed hclaim' hclaim) (Nat.ne_of_lt hj)
  have hkeeps : (keptClaims alphabet sections previous).1[i]? = some (some kept.name) :=
    kept_first ((claimed_iff hunnamed).mpr hclaim) (Finset.notMem_empty _) hfirst
  rcases named_at alphabet previous hunnamed with ⟨given, hgiven, hsaid, hname | ⟨hnone, _⟩⟩
  · rw [hkeeps] at hname
    rw [hgiven, Option.some.inj (Option.some.inj hname), ← hsaid]
  · rw [hkeeps] at hnone
    cases hnone

end Again

/-- No two sections are given one name, and each is given its base or a number of it.  Where no
base is spelled like another's number, sections named again keep their names, and a section
that alone says what one record of its base says has that record's name.  Records are of
different names; a file's sections are fewer than the numbers their names count with. -/
theorem names_are_stable (alphabet : Alphabet) (sections : List Unnamed)
    (previous : List Section) :
    ((named alphabet sections previous).map Section.name).Nodup ∧
    List.Forall₂ (fun unnamed given => given.content = unnamed.content ∧
      NamedBy unnamed.base given.name) sections (named alphabet sections previous) ∧
    ((forall one, one ∈ sections -> forall other, other ∈ sections ->
        ¬ Collides one.base other.base) ->
      (sections.length < 2147483648 ->
        named alphabet sections (named alphabet sections previous) =
          named alphabet sections previous) ∧
      forall (i : Nat) unnamed kept, sections[i]? = some unnamed ->
        kept ∈ previous -> (previous.map Section.name).Nodup ->
        (number kept.name unnamed.base).isSome = true -> kept.content = unnamed.content ->
        (forall (j : Nat) other, sections[j]? = some other -> other.base = unnamed.base ->
          other.content = unnamed.content -> j = i) ->
        (forall other, other ∈ previous -> (number other.name unnamed.base).isSome = true ->
          other.content = kept.content -> other = kept) ->
        (named alphabet sections previous)[i]? =
          some { name := kept.name, content := unnamed.content }) := by
  refine ⟨named_apart alphabet sections previous, named_by_bases alphabet sections previous, ?_⟩
  intro hapart
  constructor
  · intro hbound
    exact named_given hapart (named_numbered alphabet previous hbound)
  · intro i unnamed kept hunnamed hkept hrecorded hnumber hcontent honly hone
    exact named_exact hapart hrecorded hunnamed hkept hnumber hcontent honly hone

def asciiAlphabet : Alphabet :=
  { isAlphanumeric := Char.isAlphanum, toLowercase := List.map Char.toLower }

def swappedSections : List Unnamed :=
  [{ base := "Usage", content := "build" }, { base := "Usage", content := "run" }]

def swappedRecords : List Section :=
  [{ name := "Usage", content := "run" }, { name := "Usage #2", content := "build" }]

theorem not_collides_self (base : String) : ¬ Collides base base := by
  rintro ⟨figures, hsame, _⟩
  cases List.self_eq_append_right.mp hsame

theorem names_are_stable_of_swapped :
    named asciiAlphabet swappedSections (named asciiAlphabet swappedSections swappedRecords) =
        named asciiAlphabet swappedSections swappedRecords ∧
      (named asciiAlphabet swappedSections swappedRecords)[0]? =
        some { name := "Usage #2", content := "build" } := by
  have hapart : forall one, one ∈ swappedSections -> forall other, other ∈ swappedSections ->
      ¬ Collides one.base other.base := by
    simp only [swappedSections, List.forall_mem_cons, List.not_mem_nil, false_implies,
      implies_true, and_true]
    exact ⟨⟨not_collides_self _, not_collides_self _⟩, not_collides_self _, not_collides_self _⟩
  have hstable := (names_are_stable asciiAlphabet swappedSections swappedRecords).2.2 hapart
  refine ⟨hstable.1 (by decide), ?_⟩
  refine hstable.2 0 { base := "Usage", content := "build" }
    { name := "Usage #2", content := "build" } rfl ?_ ?_ ?_ rfl ?_ ?_
  · exact List.mem_cons_of_mem _ List.mem_cons_self
  · decide
  · decide
  · intro j other hother _ hcontent
    rcases j with _ | _ | j
    · rfl
    · cases hother
      exact absurd hcontent (by decide)
    · cases hother
  · intro other hother _ hcontent
    simp only [swappedRecords, List.mem_cons, List.not_mem_nil, or_false] at hother
    rcases hother with rfl | rfl
    · exact absurd hcontent (by decide)
    · rfl

end Sections
end PaminMemory
