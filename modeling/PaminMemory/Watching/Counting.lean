import PaminMemory.Watching.Book

/-!
# A directory is counted for each path that wants it

Every routine that watches or lets go of directories moves the counts and a followed path's
directories together.  So a directory has an entry as long as a followed path wants it, and
the operating system watches nothing that no entry stands for.
-/

namespace PaminMemory
namespace Watching

open Foundation (Counts each each_of_error each_of_ok)
open Foundation.Counts (Tells)

def plus (others : Path -> Nat) (dirs : Finset Path) (dir : Path) : Nat :=
  others dir + if dir ∈ dirs then 1 else 0

/-- The operating system watches only what is counted, or on macOS what is followed. -/
structure Sound (machine : Machine) (paths : List Path) (book : Book) : Prop where
  plain : machine.macos = false -> book.streams = ∅ ∧
    forall dir, dir ∈ book.registered -> book.counted dir = true
  mac : machine.macos = true -> book.registered = book.streams ∧
    forall path, path ∈ book.streams -> path ∈ paths
  off : machine.os = false -> book.registered = ∅ ∧ forall dir, book.counted dir = false

structure Fits (machine : Machine) (paths : List Path) (wanted : Path -> Nat) (book : Book) :
    Prop where
  sound : Sound machine paths book
  tells : Tells book.watches wanted

section Books

variable {machine : Machine} {paths : List Path} {wanted wanted' others : Path -> Nat}
  {book : Book} {dir synced : Path}

theorem Fits.congr (h : Fits machine paths wanted book)
    (hsame : forall dir, wanted' dir = wanted dir) : Fits machine paths wanted' book where
  sound := h.sound
  tells := h.tells.congr hsame

theorem Fits.counted (h : Fits machine paths wanted book) (dir : Path) :
    book.counted dir = true <-> 0 < wanted dir := h.tells.isSome dir

theorem counted_more {after : Book} (h : after.watches = book.watches.more dir) (other : Path) :
    after.counted other = (decide (other = dir) || book.counted other) := by
  unfold Book.counted
  rw [h]
  unfold Counts.more
  by_cases hsame : other = dir
  · rw [hsame, AList.lookup_insert, decide_eq_true rfl, Bool.true_or, Option.isSome_some]
  · rw [AList.lookup_insert_ne hsame, decide_eq_false hsame, Bool.false_or]

theorem Sound.more (h : Sound machine paths book) (hos : machine.os = true) (dir : Path) :
    Sound machine paths { book with watches := book.watches.more dir } where
  plain hplain := by
    refine ⟨(h.plain hplain).1, ?_⟩
    intro other hother
    rw [counted_more rfl, (h.plain hplain).2 other hother, Bool.or_true]
  mac := h.mac
  off hoff := by
    rw [hoff] at hos
    cases hos

theorem Fits.more (h : Fits machine paths wanted book) (hos : machine.os = true) (dir : Path) :
    Fits machine paths (Function.update wanted dir (wanted dir + 1))
      { book with watches := book.watches.more dir } where
  sound := h.sound.more hos dir
  tells := h.tells.more dir

theorem Fits.os (h : Fits machine paths wanted book) (hcounted : book.counted dir = true) :
    machine.os = true := by
  cases hos : machine.os with
  | true => rfl
  | false =>
      have hnone := (h.sound.off hos).2 dir
      rw [hcounted] at hnone
      cases hnone

/-!
## One directory
-/

theorem mem_ask {path other : Path} (h : other ∈ (book.ask machine path).1.registered) :
    other = path ∨ other ∈ book.registered := by
  unfold Book.ask at h
  simp only at h
  split at h
  · exact Finset.mem_insert.mp h
  · exact Or.inr h

theorem fits_watch (h : Fits machine paths wanted book) (hsynced : synced ∈ paths) :
    Fits machine paths
      (if (book.watch machine dir synced).2 then Function.update wanted dir (wanted dir + 1)
        else wanted) (book.watch machine dir synced).1 := by
  unfold Book.watch
  cases hos : machine.os with
  | false => exact h
  | true =>
      simp only [Bool.not_true, Bool.false_eq_true, if_false]
      cases hmac : machine.macos with
      | true =>
          simp only [if_true]
          split
          · exact h.more hos dir
          · cases hgrant : machine.grants book.asked with
            | false =>
                simp only [Book.ask, hgrant, Bool.false_eq_true, if_false]
                exact ⟨⟨h.sound.plain, h.sound.mac, h.sound.off⟩, h.tells⟩
            | true =>
                simp only [Book.ask, hgrant, if_true]
                constructor
                · constructor
                  · intro hplain
                    rw [hmac] at hplain
                    cases hplain
                  · intro _
                    refine ⟨congrArg (insert synced) (h.sound.mac hmac).1, ?_⟩
                    intro path hpath
                    rcases Finset.mem_insert.mp hpath with rfl | hthere
                    · exact hsynced
                    · exact (h.sound.mac hmac).2 path hthere
                  · intro hoff
                    rw [hos] at hoff
                    cases hoff
                · exact h.tells.more dir
      | false =>
          simp only [Bool.false_eq_true, if_false]
          split
          · exact h.more hos dir
          · next hnew =>
              have hzero : wanted dir = 0 := by
                apply Nat.eq_zero_of_not_pos
                intro hpos
                exact hnew ((h.counted dir).mpr hpos)
              cases hgrant : machine.grants book.asked with
              | false =>
                  simp only [Book.ask, hgrant, Bool.false_eq_true, if_false]
                  exact ⟨⟨h.sound.plain, h.sound.mac, h.sound.off⟩, h.tells⟩
              | true =>
                  simp only [Book.ask, hgrant, if_true]
                  have hmore : book.watches.insert dir 1 = book.watches.more dir := by
                    unfold Counts.more
                    rw [h.tells.getD, hzero]
                  rw [hmore]
                  constructor
                  · constructor
                    · intro _
                      refine ⟨(h.sound.plain hmac).1, ?_⟩
                      intro other hother
                      rw [@counted_more book dir _ rfl other]
                      rcases Finset.mem_insert.mp hother with rfl | hthere
                      · rw [decide_eq_true rfl, Bool.true_or]
                      · rw [(h.sound.plain hmac).2 other hthere, Bool.or_true]
                    · intro hmac'
                      rw [hmac] at hmac'
                      cases hmac'
                    · intro hoff
                      rw [hos] at hoff
                      cases hoff
                  · exact h.tells.more dir

theorem fits_rewatch (h : Fits machine paths wanted book) (hcounted : book.counted dir = true) :
    Fits machine paths wanted (book.rewatch machine dir).1 := by
  have hos := h.os hcounted
  unfold Book.rewatch
  cases hmac : machine.macos with
  | true => exact h
  | false =>
      simp only [Bool.false_eq_true, if_false, hos, Bool.not_true]
      constructor
      · constructor
        · intro _
          refine ⟨(h.sound.plain hmac).1, ?_⟩
          intro other hother
          rcases mem_ask hother with rfl | hthere
          · exact hcounted
          · exact (h.sound.plain hmac).2 other (Finset.mem_of_mem_erase hthere)
        · intro hmac'
          rw [hmac] at hmac'
          cases hmac'
        · intro hoff
          rw [hos] at hoff
          cases hoff
      · exact h.tells

theorem fits_unwatch (h : Fits machine paths wanted book) (hwanted : 0 < wanted dir) :
    Fits machine paths (Function.update wanted dir (wanted dir - 1))
      (book.unwatch machine dir) := by
  have hos := h.os ((h.counted dir).mpr hwanted)
  have hless := h.tells.less hwanted
  have hother : forall after : Book, after.watches = book.watches.less dir ->
      forall other, other ≠ dir -> after.counted other = book.counted other := by
    intro after hafter other hne
    unfold Book.counted
    rw [hafter, Foundation.Counts.lookup_less_of_ne hne]
  unfold Book.unwatch
  simp only
  constructor
  · constructor
    · intro hplain
      refine ⟨by split <;> exact (h.sound.plain hplain).1, ?_⟩
      intro other hthere
      split at hthere
      · next hgone =>
          rw [if_pos hgone]
          rw [hother _ rfl other (Finset.ne_of_mem_erase hthere)]
          exact (h.sound.plain hplain).2 other (Finset.mem_of_mem_erase hthere)
      · next hstays =>
          rw [if_neg hstays]
          by_cases hsame : other = dir
          · have hcounted := (h.counted dir).mpr hwanted
            rw [hcounted, hplain, hos] at hstays
            rw [hsame]
            simpa using hstays
          · rw [hother _ rfl other hsame]
            exact (h.sound.plain hplain).2 other hthere
    · intro hmac
      rw [hmac, Bool.not_true, Bool.and_false, Bool.false_and, if_neg Bool.false_ne_true]
      exact h.sound.mac hmac
    · intro hoff
      rw [hos] at hoff
      cases hoff
  · split
    · exact hless
    · exact hless

/-!
## Several directories
-/

theorem fits_unwatchAll {dirs : Finset Path} (h : Fits machine paths wanted book)
    (hwanted : forall dir, dir ∈ dirs -> 0 < wanted dir) :
    Fits machine paths (fun dir => if dir ∈ dirs then wanted dir - 1 else wanted dir)
      (book.unwatchAll machine dirs) := by
  have hall : forall (order : List Path) (book : Book) (wanted : Path -> Nat), order.Nodup ->
      Fits machine paths wanted book -> (forall dir, dir ∈ order -> 0 < wanted dir) ->
        Fits machine paths (fun dir => if dir ∈ order then wanted dir - 1 else wanted dir)
          (order.foldl (fun book dir => book.unwatch machine dir) book) := by
    intro order
    induction order with
    | nil =>
        intro book wanted _ hfits _
        exact hfits.congr fun dir => by simp
    | cons first rest ih =>
        intro book wanted hnodup hfits hpos
        rw [List.nodup_cons] at hnodup
        have hfirst := fits_unwatch hfits (hpos first (List.mem_cons_self ..))
        apply (ih _ _ hnodup.2 hfirst _).congr
        · intro dir
          by_cases hsame : dir = first
          · simp [hsame, hnodup.1]
          · simp [hsame]
        · intro dir hdir
          have hne : dir ≠ first := fun hsame => hnodup.1 (hsame ▸ hdir)
          rw [Function.update_of_ne hne]
          exact hpos dir (List.mem_cons_of_mem _ hdir)
  apply (hall (machine.order dirs) book wanted (machine.once dirs) h _).congr
  · intro dir
    simp only [machine.all]
  · intro dir hdir
    exact hwanted dir ((machine.all dirs dir).mp hdir)

theorem fits_unwatchOwn {dirs gone : Finset Path} (h : Fits machine paths (plus others dirs) book)
    (hgone : gone ⊆ dirs) :
    Fits machine paths (plus others (dirs \ gone)) (book.unwatchAll machine gone) := by
  apply (fits_unwatchAll h _).congr
  · intro dir
    unfold plus
    by_cases hdir : dir ∈ gone
    · simp [hdir, hgone hdir]
    · simp [hdir]
  · intro dir hdir
    unfold plus
    rw [if_pos (hgone hdir)]
    exact Nat.succ_pos _

theorem fits_endStream (h : Fits machine paths wanted book) {remaining : List Path}
    {path : Path} (hpaths : forall other, other ∈ paths -> other = path ∨ other ∈ remaining) :
    Fits machine remaining wanted (book.endStream machine remaining path) := by
  unfold Book.endStream
  constructor
  · split
    · next hkept =>
        constructor
        · exact h.sound.plain
        · intro hmac
          refine ⟨(h.sound.mac hmac).1, ?_⟩
          intro other hother
          rcases hpaths other ((h.sound.mac hmac).2 other hother) with rfl | hthere
          · rcases hkept with hin | hnot
            · exact hin
            · exact absurd hother hnot
          · exact hthere
        · exact h.sound.off
    · next hends =>
        constructor
        · intro hplain
          exfalso
          apply hends
          apply Or.inr
          rw [(h.sound.plain hplain).1]
          exact Finset.notMem_empty path
        · intro hmac
          have hos : machine.os = true := by
            cases hos : machine.os with
            | true => rfl
            | false =>
                exfalso
                apply hends
                apply Or.inr
                rw [← (h.sound.mac hmac).1, (h.sound.off hos).1]
                exact Finset.notMem_empty path
          simp only [hos, if_true]
          refine ⟨congrArg (Finset.erase · path) (h.sound.mac hmac).1, ?_⟩
          intro other hother
          rcases hpaths other ((h.sound.mac hmac).2 other (Finset.mem_of_mem_erase hother)) with
            rfl | hthere
          · exact absurd rfl (Finset.ne_of_mem_erase hother)
          · exact hthere
        · intro hoff
          simp only [hoff, Bool.false_eq_true, if_false]
          exact h.sound.off hoff
  · split
    · exact h.tells
    · simp only
      split
      · exact h.tells
      · exact h.tells

end Books

end Watching
end PaminMemory
