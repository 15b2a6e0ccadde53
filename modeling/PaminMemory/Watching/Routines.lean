import PaminMemory.Watching.Counting

/-!
# Every routine keeps the counts

Watching what a walk goes into, letting go of what was under a directory, adopting a new one:
each moves the counts as it moves a followed path's directories.
-/

namespace PaminMemory
namespace Watching

open Foundation (Counts each each_of_error each_of_ok)
open Foundation.Counts (Tells)

section Routines

variable {machine : Machine} {paths : List Path} {others : Path -> Nat} {book : Book}
  {followed : Followed} {outside : Outside} {dir : Path}

structure Suits (machine : Machine) (paths : List Path) (others : Path -> Nat) (book : Book)
    (followed : Followed) : Prop where
  fits : Fits machine paths (plus others followed.dirs) book
  clear : forall dir, dir ∈ followed.dirs -> machine.workspace.isPrefixOf dir = false

theorem plus_insert {dirs : Finset Path} (hnew : dir ∉ dirs) (other : Path) :
    plus others (insert dir dirs) other =
      Function.update (plus others dirs) dir (plus others dirs dir + 1) other := by
  unfold plus
  by_cases hsame : other = dir
  · rw [hsame, Function.update_self, if_pos (Finset.mem_insert_self dir dirs), if_neg hnew]
  · rw [Function.update_of_ne hsame]
    simp [Finset.mem_insert, hsame]

/-!
## Walking a followed path again
-/

structure WatchesEach (before : Finset Path) (dirs : List Path) (watched : Finset Path) :
    Prop where
  within : forall dir, dir ∈ watched -> dir ∈ dirs
  keeps : forall dir, dir ∈ dirs -> dir ∈ before -> dir ∈ watched

theorem WatchesEach.kept {before watched : Finset Path} {dirs : List Path}
    (h : WatchesEach before dirs watched) (first : Path) :
    WatchesEach before (first :: dirs) (insert first watched) where
  within := by
    intro dir hdir
    rcases Finset.mem_insert.mp hdir with rfl | hlater
    · exact List.mem_cons_self ..
    · exact List.mem_cons_of_mem _ (h.within dir hlater)
  keeps := by
    intro dir hdir hbefore
    rcases List.mem_cons.mp hdir with rfl | hlater
    · exact Finset.mem_insert_self ..
    · exact Finset.mem_insert_of_mem (h.keeps dir hlater hbefore)

theorem fits_watchEach {synced : Path} {before : Finset Path} {dirs : List Path}
    {wanted : Path -> Nat} (h : Fits machine paths wanted book) (hsynced : synced ∈ paths)
    (hnodup : dirs.Nodup) :
    WatchesEach before dirs (book.watchEach machine synced before dirs).2 ∧
      Fits machine paths (plus wanted ((book.watchEach machine synced before dirs).2 \ before))
        (book.watchEach machine synced before dirs).1 := by
  induction dirs generalizing book wanted with
  | nil =>
      refine ⟨⟨?_, ?_⟩, h.congr ?_⟩
      · intro dir hdir
        exact absurd hdir (Finset.notMem_empty dir)
      · intro dir hdir
        cases hdir
      · intro dir
        simp [Book.watchEach, plus]
  | cons first rest ih =>
      rw [List.nodup_cons] at hnodup
      unfold Book.watchEach
      split
      · next hthere =>
          rcases ih h hnodup.2 with ⟨heach, hfits⟩
          refine ⟨heach.kept first, hfits.congr ?_⟩
          intro dir
          rw [Finset.insert_sdiff_of_mem _ hthere]
      · next hnew =>
          have hone := @fits_watch machine paths wanted book first synced h hsynced
          rcases ih hone hnodup.2 with ⟨heach, hfits⟩
          have hnot : first ∉ ((book.watch machine first synced).1.watchEach machine synced
              before rest).2 := fun hin => hnodup.1 (heach.within first hin)
          cases hgrant : (book.watch machine first synced).2 with
          | false =>
              rw [hgrant, if_neg Bool.false_ne_true] at hfits
              simp only [hgrant, Bool.false_eq_true, if_false]
              refine ⟨⟨?_, ?_⟩, hfits⟩
              · intro dir hdir
                exact List.mem_cons_of_mem _ (heach.within dir hdir)
              · intro dir hdir hbefore
                rcases List.mem_cons.mp hdir with rfl | hlater
                · exact absurd hbefore hnew
                · exact heach.keeps dir hlater hbefore
          | true =>
              rw [hgrant, if_pos rfl] at hfits
              simp only [hgrant, if_true]
              refine ⟨heach.kept first, hfits.congr ?_⟩
              intro dir
              rw [Finset.insert_sdiff_of_notMem _ hnew]
              unfold plus
              by_cases hsame : dir = first
              · subst hsame
                simp [hnot]
              · simp [hsame]

theorem plus_watched {before kept watched : Finset Path} (hwithin : watched ⊆ kept)
    (hkeeps : forall dir, dir ∈ kept -> dir ∈ before -> dir ∈ watched) (dir : Path) :
    plus others watched dir =
      plus (plus others (before \ (before \ kept))) (watched \ before) dir := by
  unfold plus
  by_cases hbefore : dir ∈ before
  · by_cases hkept : dir ∈ kept
    · simp [hbefore, hkept, hkeeps dir hkept hbefore]
    · have hnot : dir ∉ watched := fun hin => hkept (hwithin hin)
      simp [hbefore, hkept, hnot]
  · simp [hbefore]

theorem watched_watchDirs {dirs : Finset Path} (h : Suits machine paths others book followed)
    (hpath : followed.path ∈ paths) :
    let watched := book.watchDirs machine followed dirs
    (followed.watchDirs machine.os machine.workspace
        { outside with watched := fun dir => dir ∈ watched.2 } dirs).dirs = watched.2 ∧
      Fits machine paths (plus others watched.2) watched.1 := by
  intro watched
  have hgone : followed.dirs \ dirs.filter (fun dir => ¬machine.workspace.isPrefixOf dir) ⊆
      followed.dirs := Finset.sdiff_subset
  rcases fits_watchEach (fits_unwatchOwn h.fits hgone) hpath (machine.once _) with
    ⟨heach, hfits⟩
  constructor
  · ext dir
    show dir ∈ (dirs.filter _).filter _ <-> dir ∈ watched.2
    simp only [Finset.mem_filter, decide_eq_true_eq]
    constructor
    · rintro ⟨hdir, hbefore | hwatched⟩
      · exact heach.keeps dir ((machine.all _ dir).mpr (Finset.mem_filter.mpr hdir)) hbefore
      · exact hwatched
    · intro hwatched
      have hwithin := (machine.all _ dir).mp (heach.within dir hwatched)
      exact ⟨Finset.mem_filter.mp hwithin, Or.inr hwatched⟩
  · apply hfits.congr
    intro dir
    apply plus_watched
    · intro other hother
      exact (machine.all _ other).mp (heach.within other hother)
    · intro other hother hbefore
      exact heach.keeps other ((machine.all _ other).mpr hother) hbefore

theorem suits_watchDirs {dirs : Finset Path} (h : Suits machine paths others book followed)
    (hpath : followed.path ∈ paths) :
    Suits machine paths others (book.watchDirs machine followed dirs).1
      (followed.watchDirs machine.os machine.workspace { outside with
        watched := fun dir => dir ∈ (book.watchDirs machine followed dirs).2 } dirs) := by
  rcases @watched_watchDirs machine paths others book followed outside dirs h hpath with
    ⟨hdirs, hfits⟩
  constructor
  · rw [hdirs]
    exact hfits
  · intro dir hdir
    exact Bool.eq_false_iff.mpr (Finset.mem_filter.mp (Finset.mem_filter.mp hdir).1).2

theorem suits_catchUp (h : Suits machine paths others book followed)
    (hpath : followed.path ∈ paths) :
    Suits machine paths others (book.catchUp machine paths followed outside).1
      (followed.catchUp machine.os machine.workspace
        (book.catchUp machine paths followed outside).2).1 := by
  unfold Book.catchUp
  cases hmeta : outside.metadata with
  | none =>
      have hgone := fits_unwatchOwn h.fits (Finset.Subset.refl followed.dirs)
      have hends : Fits machine paths (plus others (followed.dirs \ followed.dirs))
          ((book.unwatchAll machine followed.dirs).endStream machine paths followed.path) :=
        fits_endStream hgone fun other hother => Or.inr hother
      unfold Followed.catchUp
      simp only [hmeta]
      constructor
      · rw [Finset.sdiff_self] at hends
        exact hends
      · intro dir hdir
        exact absurd hdir (Finset.notMem_empty dir)
  | some isDir =>
      cases hfirst : outside.first with
      | error error =>
          unfold Followed.catchUp
          simp only [hmeta, hfirst]
          exact ⟨h.fits, h.clear⟩
      | ok found =>
          have hmoved : Suits machine paths others book { followed with file := !isDir } :=
            ⟨h.fits, h.clear⟩
          have hdirs : (if ({ followed with file := !isDir } : Followed).file then
              followed.path.parent.toFinset else found.dirs.toFinset) =
                Book.goesInto followed isDir found := by
            unfold Book.goesInto
            cases isDir with
            | true => rfl
            | false => rfl
          have hwatched := @suits_watchDirs machine paths others book
            { followed with file := !isDir } outside (Book.goesInto followed isDir found) hmoved
            hpath
          unfold Followed.catchUp
          simp only [hdirs]
          cases outside.second with
          | error error => exact hwatched
          | ok again => exact hwatched

/-!
## Adopting a directory
-/

theorem suits_forget (h : Suits machine paths others book followed) (dir : Path) :
    Suits machine paths others (book.forgetDirsUnder machine followed dir)
      (followed.forgetDirsUnder dir) := by
  have hgone : followed.dirs.filter (fun watched => dir.isPrefixOf watched) ⊆ followed.dirs :=
    Finset.filter_subset _ _
  have hleft : followed.dirs \ followed.dirs.filter (fun watched => dir.isPrefixOf watched) =
      (followed.forgetDirsUnder dir).dirs := by
    ext other
    simp only [Followed.forgetDirsUnder, Finset.mem_sdiff, Finset.mem_filter]
    tauto
  constructor
  · rw [← hleft]
    exact fits_unwatchOwn h.fits hgone
  · intro other hother
    exact h.clear other (Finset.mem_filter.mp hother).1

theorem suits_watchOne (h : Suits machine paths others book followed)
    (hpath : followed.path ∈ paths) (hnew : dir ∉ followed.dirs)
    (hclear : machine.workspace.isPrefixOf dir = false) :
    Suits machine paths others (book.watchOne machine dir followed.path).1
      (followed.watchOne (book.watchOne machine dir followed.path).2 dir) := by
  have hcases : Fits machine paths
      (if (book.watchOne machine dir followed.path).2.counted then
        plus others (insert dir followed.dirs) else plus others followed.dirs)
      (book.watchOne machine dir followed.path).1 := by
    unfold Book.watchOne
    cases hcounted : book.counted dir with
    | true =>
        have hmore := h.fits.more (h.fits.os hcounted) dir
        have hthere : ({ book with watches := book.watches.more dir } : Book).counted dir =
            true := by
          rw [counted_more rfl, decide_eq_true rfl, Bool.true_or]
        have hagain := fits_rewatch hmore hthere
        simp only [if_true]
        rw [if_pos ((hagain.counted dir).mpr (by
          rw [Function.update_self]
          exact Nat.succ_pos _))]
        exact hagain.congr (plus_insert hnew)
    | false =>
        have hwatch := @fits_watch machine paths _ book dir _ h.fits hpath
        have hzero : plus others followed.dirs dir = 0 := by
          apply Nat.eq_zero_of_not_pos
          intro hpos
          rw [(h.fits.counted dir).mpr hpos] at hcounted
          cases hcounted
        simp only [Bool.false_eq_true, if_false]
        cases hgrant : (book.watch machine dir followed.path).2 with
        | true =>
            rw [hgrant, if_pos rfl] at hwatch
            rw [if_pos ((hwatch.counted dir).mpr (by
              rw [Function.update_self]
              exact Nat.succ_pos _))]
            exact hwatch.congr (plus_insert hnew)
        | false =>
            rw [hgrant, if_neg Bool.false_ne_true] at hwatch
            rw [if_neg fun hin => Nat.lt_irrefl 0 (hzero ▸ (hwatch.counted dir).mp hin)]
            exact hwatch
  unfold Followed.watchOne
  constructor
  · split
    · next hin =>
        rw [if_pos hin] at hcases
        exact hcases
    · next hout =>
        rw [if_neg hout] at hcases
        exact hcases
  · split
    · intro other hother
      rcases Finset.mem_insert.mp hother with rfl | hthere
      · exact hclear
      · exact h.clear other hthere
    · exact h.clear

theorem Suits.same {after : Followed} (h : Suits machine paths others book followed)
    (hdirs : after.dirs = followed.dirs) : Suits machine paths others book after where
  fits := by
    rw [hdirs]
    exact h.fits
  clear := by
    rw [hdirs]
    exact h.clear

theorem path_watchOne (answer : Watched) : (followed.watchOne answer dir).path = followed.path := by
  rw [show followed.watchOne answer dir = _ from onlyDirs_watchOne]

theorem suits_watchWalked {dirs : List Path} {seen : Finset Path} {full : Path -> Watched}
    {refused : Bool} (h : Suits machine paths others book followed)
    (hpath : followed.path ∈ paths)
    (hfull : forall dir, dir ∉ seen ->
      full dir = (book.watchWalked machine followed seen dirs).2 dir)
    (hseen : forall dir, dir ∈ seen -> (full dir).counted = true -> dir ∈ followed.dirs) :
    Suits machine paths others (book.watchWalked machine followed seen dirs).1
      (followed.watchWalked machine.workspace full refused dirs).1 := by
  induction dirs generalizing book followed seen refused with
  | nil => exact h
  | cons dir rest ih =>
      unfold Book.watchWalked at hfull ⊢
      unfold Followed.watchWalked
      by_cases hguard : ¬machine.workspace.isPrefixOf dir ∧ dir ∉ followed.dirs
      · rw [if_pos hguard]
        by_cases hin : dir ∈ seen
        · have hskip : ¬(¬machine.workspace.isPrefixOf dir ∧ dir ∉ followed.dirs ∧ dir ∉ seen) :=
            fun hall => hall.2.2 hin
          rw [if_neg hskip] at hfull ⊢
          have huncounted : ¬(full dir).counted = true := fun hcounted =>
            hguard.2 (hseen dir hin hcounted)
          rw [Followed.watchOne, if_neg huncounted]
          exact ih h hpath hfull hseen
        · have htake : ¬machine.workspace.isPrefixOf dir ∧ dir ∉ followed.dirs ∧ dir ∉ seen :=
            ⟨hguard.1, hguard.2, hin⟩
          rw [if_pos htake] at hfull ⊢
          have hanswer := hfull dir hin
          simp only [Function.update_self] at hanswer
          have hone := @suits_watchOne machine paths others book followed dir h hpath hguard.2
            (Bool.eq_false_iff.mpr hguard.1)
          dsimp only at hfull ⊢
          rw [← hanswer] at hone hfull ⊢
          apply ih hone
          · rw [path_watchOne]
            exact hpath
          · intro other hother
            rw [Finset.mem_insert, not_or] at hother
            have hlater := hfull other hother.2
            rw [Function.update_of_ne hother.1] at hlater
            exact hlater
          · intro other hother hcounted
            unfold Followed.watchOne
            rcases Finset.mem_insert.mp hother with rfl | hthere
            · rw [if_pos hcounted]
              exact Finset.mem_insert_self ..
            · split
              · exact Finset.mem_insert_of_mem (hseen other hthere hcounted)
              · exact hseen other hthere hcounted
      · have hskip : ¬(¬machine.workspace.isPrefixOf dir ∧ dir ∉ followed.dirs ∧ dir ∉ seen) :=
          fun hall => hguard ⟨hall.1, hall.2.1⟩
        rw [if_neg hguard]
        rw [if_neg hskip] at hfull ⊢
        exact ih h hpath hfull hseen

theorem suits_adopt {adoption : Adoption} (h : Suits machine paths others book followed)
    (hpath : followed.path ∈ paths) (hnew : dir ∉ followed.dirs)
    (hclear : machine.workspace.isPrefixOf dir = false) :
    Suits machine paths others (book.adopt machine followed adoption dir).1
      (followed.adopt machine.os machine.workspace
        (book.adopt machine followed adoption dir).2 dir).1 := by
  have hone := @suits_watchOne machine paths others book followed dir h hpath hnew hclear
  unfold Book.adopt Followed.adopt
  cases hfirst : adoption.first with
  | error error => exact hone
  | ok found =>
      have hall := @suits_watchWalked machine paths others _ _ found.dirs ∅ _
        (!(book.watchOne machine dir followed.path).2.watched) hone
        (by rw [path_watchOne]; exact hpath) (fun _ _ => rfl)
        (fun other hother => absurd hother (Finset.notMem_empty other))
      simp only
      cases adoption.second with
      | error error => exact hall
      | ok again =>
          simp only
          split
          · exact hall.same rfl
          · exact hall

structure There (before after : Followed) : Prop where
  path : after.path = before.path
  present : before.state ≠ State.missing -> after.state ≠ State.missing

theorem there_trans {first second third : Followed} (h : There first second)
    (h' : There second third) : There first third where
  path := h'.path.trans h.path
  present := h'.present ∘ h.present

theorem there_of_onlyDirs {after : Followed} (h : OnlyDirs followed after) :
    There followed after := by
  rw [h]
  exact ⟨rfl, id⟩

theorem there_settle (refused : Bool) : There followed (followed.settle machine.os refused) where
  path := rfl
  present := by
    intro _ hmissing
    unfold Followed.settle at hmissing
    simp only at hmissing
    split at hmissing
    · cases hmissing
    · cases hmissing

theorem there_adopt {adoption : Adoption} {dir : Path} :
    There followed (followed.adopt machine.os machine.workspace adoption dir).1 := by
  have hone : There followed (followed.watchOne adoption.own dir) :=
    there_of_onlyDirs onlyDirs_watchOne
  unfold Followed.adopt
  cases adoption.first with
  | error error => exact hone
  | ok found =>
      have hwalked : There (followed.watchOne adoption.own dir)
          ((followed.watchOne adoption.own dir).watchWalked machine.workspace adoption.walked
            (!adoption.own.watched) found.dirs).1 := there_of_onlyDirs onlyDirs_watchWalked
      have hall := there_trans hone hwalked
      simp only
      cases adoption.second with
      | error error => exact hall
      | ok again =>
          simp only
          split
          · exact there_trans hall (there_settle true)
          · exact hall

theorem not_mem_forget (dir : Path) : dir ∉ (followed.forgetDirsUnder dir).dirs := by
  intro hin
  have hnot := (Finset.mem_filter.mp hin).2
  exact hnot (List.isPrefixOf_iff_prefix.mpr List.prefix_rfl)

/-!
## Sorting what changed
-/

theorem suits_takeVanished {vanished : List Path}
    (h : Suits machine paths others book followed) :
    Suits machine paths others (book.takeVanished machine followed outside vanished)
      (followed.takeVanished outside vanished).1 := by
  induction vanished generalizing book followed with
  | nil => exact h
  | cons dir rest ih =>
      have hforgot := suits_forget h dir
      unfold Book.takeVanished Followed.takeVanished
      cases hunder : followed.filesUnder outside dir with
      | error error =>
          rw [each_of_error hunder]
          exact hforgot
      | ok files =>
          rw [each_of_ok hunder]
          exact ih hforgot

theorem takeVanished_congr {answered : Outside} {vanished : List Path}
    (h : answered.under = outside.under) :
    followed.takeVanished answered vanished = followed.takeVanished outside vanished := by
  unfold Followed.takeVanished Followed.filesUnder
  rw [h]

theorem path_takeVanished {vanished : List Path} :
    (followed.takeVanished outside vanished).1.path = followed.path := by
  have hsame : OnlyDirs followed (followed.takeVanished outside vanished).1 :=
    onlyDirs_takeVanished
  exact (congrArg Followed.path hsame).trans rfl

theorem suits_takeNewDirs {newDirs : List Path} {answered : Outside}
    (h : Suits machine paths others book followed) (hpath : followed.path ∈ paths)
    (hnodup : newDirs.Nodup)
    (hclear : forall dir, dir ∈ newDirs -> machine.workspace.isPrefixOf dir = false)
    (hanswers : forall dir, dir ∈ newDirs ->
      answered.adoption dir = (book.takeNewDirs machine followed outside newDirs).2 dir) :
    Suits machine paths others (book.takeNewDirs machine followed outside newDirs).1
      (followed.takeNewDirs machine.os machine.workspace answered newDirs).1 := by
  induction newDirs generalizing book followed with
  | nil => exact h
  | cons dir rest ih =>
      rw [List.nodup_cons] at hnodup
      have hadopted := @suits_adopt machine paths others _ _ dir (outside.adoption dir)
        (suits_forget h dir) hpath (not_mem_forget dir) (hclear dir (List.mem_cons_self ..))
      have hanswer := hanswers dir (List.mem_cons_self ..)
      unfold Book.takeNewDirs at hanswers hanswer ⊢
      unfold Followed.takeNewDirs
      simp only at hanswers hanswer ⊢
      cases hafter : ((followed.forgetDirsUnder dir).adopt machine.os machine.workspace
          ((book.forgetDirsUnder machine followed dir).adopt machine
            (followed.forgetDirsUnder dir) (outside.adoption dir) dir).2 dir).2 with
      | error error =>
          rw [hafter] at hanswer
          simp only [Function.update_self] at hanswer
          have hsame := hafter
          rw [← hanswer] at hsame
          rw [each_of_error hsame]
          simp only [hanswer]
          exact hadopted
      | ok files =>
          rw [hafter] at hanswer hanswers
          simp only [Function.update_self] at hanswer
          have hsame := hafter
          rw [← hanswer] at hsame
          rw [each_of_ok hsame]
          simp only [hanswer]
          apply ih hadopted
          · rw [there_adopt.path]
            exact hpath
          · exact hnodup.2
          · intro other hother
            exact hclear other (List.mem_cons_of_mem _ hother)
          · intro other hother
            have hne : other ≠ dir := fun heq => hnodup.1 (heq ▸ hother)
            have hlater := hanswers other (List.mem_cons_of_mem _ hother)
            simp only [Function.update_of_ne hne] at hlater
            exact hlater

theorem suits_sort {changed : List Path} (h : Suits machine paths others book followed)
    (hpath : followed.path ∈ paths) (hnodup : changed.Nodup)
    (hclear : forall path, path ∈ changed -> machine.workspace.isPrefixOf path = false) :
    Suits machine paths others (book.sort machine followed outside changed).1
      (followed.sort machine.os machine.workspace
        (book.sort machine followed outside changed).2 changed).1 := by
  unfold Book.sort Followed.sort
  cases hfile : followed.file with
  | true =>
      simp only [if_true]
      exact h
  | false =>
      simp only [Bool.false_eq_true, if_false]
      cases hsorts : outside.sorts with
      | error error =>
          simp only [hsorts]
          exact h
      | ok _ =>
          have hagrees := agrees_sortBy outside.isDir outside.list followed.dirs followed.root
            changed
          have hgone := @suits_takeVanished machine paths others book followed outside
            (sortBy outside.isDir outside.list followed.dirs followed.root changed).2 h
          have hgonepath := @path_takeVanished followed outside
            (sortBy outside.isDir outside.list followed.dirs followed.root changed).2
          simp only
          rcases hvanished : followed.takeVanished outside
            (sortBy outside.isDir outside.list followed.dirs followed.root changed).2 with
            ⟨left, _ | deleted⟩
          · rw [hvanished] at hgone
            simp only [hsorts]
            rw [hvanished]
            exact hgone
          · rw [hvanished] at hgone hgonepath
            simp only
            have hnew := @suits_takeNewDirs machine paths others _ left outside
              (sortBy outside.isDir outside.list followed.dirs followed.root changed).1.newDirs
              { outside with adoption := _ } hgone
              (by rw [hgonepath]; exact hpath)
              (by rw [hagrees.newDirs]; exact hnodup.filter _)
              (by
                intro dir hdir
                rw [hagrees.newDirs] at hdir
                exact hclear dir (List.mem_filter.mp hdir).1)
              (fun _ _ => rfl)
            rw [hsorts] at hnew
            have hsame : forall answered : Outside, answered.under = outside.under ->
                followed.takeVanished answered
                  (sortBy outside.isDir outside.list followed.dirs followed.root changed).2 =
                    (left, Except.ok deleted) :=
              fun _ hunder => (takeVanished_congr hunder).trans hvanished
            rw [hsame]
            · simp only
              split
              · next hadopted =>
                  rw [hadopted] at hnew
                  exact hnew
              · next hadopted =>
                  rw [hadopted] at hnew
                  exact hnew
            · rfl

/-!
## One turn
-/

theorem gone_catchUp : (book.catchUp machine paths followed outside).2.gone = outside.gone := by
  unfold Book.catchUp
  cases outside.metadata with
  | none => rfl
  | some isDir =>
      cases outside.first with
      | error error => rfl
      | ok found => rfl

theorem gone_sort {changed : List Path} :
    (book.sort machine followed outside changed).2.gone = outside.gone := by
  unfold Book.sort
  split
  · rfl
  · cases outside.sorts with
    | error error => rfl
    | ok _ =>
        dsimp only
        split
        · rfl
        · rfl

theorem suits_turn {changed : List Path} {deleted : Finset File} {rescan : Bool}
    (h : Suits machine paths others book followed) (hpath : followed.path ∈ paths)
    (hnodup : changed.Nodup)
    (hclear : forall path, path ∈ changed -> machine.workspace.isPrefixOf path = false) :
    Suits machine paths others
      (book.turn machine paths followed rescan outside changed deleted).1
      (followed.turn machine.os machine.workspace rescan
        (book.turn machine paths followed rescan outside changed deleted).2 changed
        deleted).followed := by
  have hcatch := @suits_catchUp machine paths others book followed outside h hpath
  have hsort := @suits_sort machine paths others book followed outside changed h hpath hnodup
    hclear
  unfold Book.turn Followed.turn
  cases rescan with
  | true => exact hcatch
  | false =>
      simp only [Bool.false_eq_true, if_false]
      by_cases hnothing : changed = [] ∧ deleted = ∅
      · simp only [if_pos hnothing]
        exact h
      · simp only [if_neg hnothing]
        by_cases hafresh : outside.gone ∨
            changed.any fun path => path.fileName = some (Settings.osString ".gitignore")
        · simp only [if_pos hafresh, gone_catchUp]
          exact hcatch
        · simp only [if_neg hafresh, gone_sort]
          split
          · next hsorted =>
              rw [hsorted] at hsort
              exact hsort
          · next after changes hsorted =>
              rw [hsorted] at hsort
              unfold Followed.handle
              dsimp only
              split
              · exact hsort
              · exact hsort

end Routines

end Watching
end PaminMemory
