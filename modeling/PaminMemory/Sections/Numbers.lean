import PaminMemory.Sections.Naming
import Mathlib.Order.Interval.Finset.Nat

/-!
# Numbered names

A number that a base is given reads back as that number, and no two numbers give one name, so
that of as many numbers as names are taken and one more, one gives a free name.
-/

namespace PaminMemory
namespace Sections

open Foundation Ingest

theorem numbered_one (base : String) : numbered base 1 = base := if_pos rfl

theorem toList_numbered (base : String) {n : Nat} (hn : n ≠ 1) :
    (numbered base n).toList = base.toList ++ (NUMBER ++ Nat.toDigits 10 n) := by
  unfold numbered NUMBER
  rw [if_neg hn, String.toList_append, String.toList_append, Nat.toString_eq_repr,
    Nat.toList_repr, List.append_assoc]

theorem numbered_injective (base : String) : Function.Injective (numbered base) := by
  have hother : forall n, n ≠ 1 -> numbered base n ≠ base := by
    intro n hn hsame
    have hlist := toList_numbered base hn
    rw [hsame, List.self_eq_append_right] at hlist
    have hnone := (List.append_eq_nil_iff.mp hlist).2
    exact Nat.toDigits_ne_nil hnone
  intro m n hsame
  by_cases hm : m = 1
  · subst hm
    rw [numbered_one] at hsame
    by_contra hn
    exact hother n (Ne.symm hn) hsame.symm
  · by_cases hn : n = 1
    · subst hn
      rw [numbered_one] at hsame
      exact absurd hsame (hother m hm)
    · have hlists := congrArg String.toList hsame
      rw [toList_numbered base hm, toList_numbered base hn, List.append_cancel_left_eq,
        List.append_cancel_left_eq] at hlists
      have hvalues := congrArg (fun figures => Nat.ofDigitChars 10 figures 0) hlists
      simpa using hvalues

/-- What a numbered name reads as: its base, or figures after it that are two or more. -/
theorem number_iff {name base : String} {n : Nat} :
    number name base = some n <->
      (name = base ∧ n = 1) ∨
        exists figures, name.toList = base.toList ++ (NUMBER ++ figures) ∧ figures ≠ [] ∧
          figures.all Char.isDigit = true ∧ Nat.ofDigitChars 10 figures 0 = n ∧ 2 <= n ∧
            n < 4294967296 := by
  unfold number
  cases hbase : name.toList.dropPrefix? base.toList with
  | none =>
      constructor
      · intro h
        cases h
      · intro h
        rcases h with ⟨rfl, _⟩ | ⟨figures, hname, _⟩
        · rw [dropPrefix?_chars.mpr (List.append_nil _).symm] at hbase
          cases hbase
        · rw [dropPrefix?_chars.mpr hname] at hbase
          cases hbase
  | some rest =>
      have hname := dropPrefix?_chars.mp hbase
      cases rest with
      | nil =>
          rw [List.append_nil] at hname
          have hsame : name = base := String.toList_inj.mp hname
          constructor
          · intro h
            exact Or.inl ⟨hsame, (Option.some.inj h).symm⟩
          · intro h
            rcases h with ⟨_, rfl⟩ | ⟨figures, hlong, _⟩
            · rfl
            · rw [hname, List.self_eq_append_right] at hlong
              cases hlong
      | cons c rest =>
          have hother : name ≠ base := by
            intro hsame
            rw [hsame, List.self_eq_append_right] at hname
            cases hname
          simp only
          cases hnumber : (c :: rest).dropPrefix? NUMBER with
          | none =>
              constructor
              · intro h
                cases h
              · intro h
                rcases h with ⟨hsame, _⟩ | ⟨figures, hlong, _⟩
                · exact absurd hsame hother
                · rw [hname, List.append_cancel_left_eq] at hlong
                  rw [dropPrefix?_chars.mpr hlong] at hnumber
                  cases hnumber
          | some figures =>
              have hfigures := dropPrefix?_chars.mp hnumber
              simp only
              constructor
              · intro h
                split at h
                · next hvalid =>
                    right
                    refine ⟨figures, ?_, hvalid.1, hvalid.2.1, Option.some.inj h, ?_⟩
                    · rw [hname, hfigures]
                    · rw [← Option.some.inj h]
                      exact hvalid.2.2
                · cases h
              · intro h
                rcases h with ⟨hsame, _⟩ | ⟨others, hlong, hne, hdigits, hvalue, hbounds⟩
                · exact absurd hsame hother
                · rw [hname, List.append_cancel_left_eq, hfigures,
                    List.append_cancel_left_eq] at hlong
                  subst hlong
                  subst hvalue
                  exact if_pos ⟨hne, hdigits, hbounds⟩

theorem number_numbered (base : String) {n : Nat} (hn : 1 <= n) (hbound : n < 4294967296) :
    number (numbered base n) base = some n := by
  rw [number_iff]
  by_cases hone : n = 1
  · subst hone
    exact Or.inl ⟨numbered_one base, rfl⟩
  · right
    refine ⟨Nat.toDigits 10 n, toList_numbered base hone, Nat.toDigits_ne_nil, ?_,
      Nat.ofDigitChars_ten_toDigits, by omega, hbound⟩
    rw [List.all_eq_true]
    intro c hc
    exact Nat.isDigit_of_mem_toDigits (by decide) (by decide) hc

theorem firstFree_spec (taken : Finset String) (base : String) (fuel start : Nat) :
    start <= firstFree taken base fuel start ∧
      firstFree taken base fuel start <= start + fuel ∧
      (forall n, start <= n -> n < firstFree taken base fuel start ->
        numbered base n ∈ taken) ∧
      (firstFree taken base fuel start < start + fuel ->
        numbered base (firstFree taken base fuel start) ∉ taken) := by
  induction fuel generalizing start with
  | zero =>
      unfold firstFree
      exact ⟨Nat.le_refl _, Nat.le_refl _, fun n hle hless => absurd hless (by omega),
        fun hless => absurd hless (by omega)⟩
  | succ fuel ih =>
      unfold firstFree
      split
      · next htaken =>
          rcases ih (start + 1) with ⟨hle, hbound, hbefore, hfree⟩
          refine ⟨by omega, by omega, ?_, fun hless => hfree (by omega)⟩
          intro n hn hless
          rcases Nat.eq_or_lt_of_le hn with rfl | hlater
          · exact htaken
          · exact hbefore n hlater hless
      · next hfree =>
          exact ⟨Nat.le_refl _, by omega, fun n hle hless => absurd hless (by omega),
            fun _ => hfree⟩

theorem unique_spec (taken : Finset String) (base : String) :
    unique taken base ∉ taken ∧
      exists n, 1 <= n ∧ n <= taken.card + 1 ∧ unique taken base = numbered base n := by
  rcases firstFree_spec taken base taken.card 1 with ⟨hle, hbound, hbefore, hfree⟩
  refine ⟨?_, firstFree taken base taken.card 1, hle, by omega, rfl⟩
  unfold unique
  rcases Nat.lt_or_ge (firstFree taken base taken.card 1) (1 + taken.card) with hless | hlast
  · exact hfree hless
  · -- as many numbers as names are taken, and so the next cannot be
    intro htaken
    have hall : (Finset.Icc 1 (taken.card + 1)).image (numbered base) ⊆ taken := by
      intro name hname
      rcases Finset.mem_image.mp hname with ⟨n, hn, rfl⟩
      rw [Finset.mem_Icc] at hn
      rcases Nat.lt_or_ge n (firstFree taken base taken.card 1) with hearlier | hend
      · exact hbefore n hn.1 hearlier
      · rw [show n = firstFree taken base taken.card 1 by omega]
        exact htaken
    have hcard := Finset.card_le_card hall
    rw [Finset.card_image_of_injective _ (numbered_injective base), Nat.card_Icc] at hcard
    omega

end Sections
end PaminMemory
