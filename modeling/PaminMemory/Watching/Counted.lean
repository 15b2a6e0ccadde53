import PaminMemory.Watching.Routines

/-!
# The counts in every run of the watcher

Whatever the operating system grants and the file system answers, a directory is counted for
exactly the followed paths that want it, and an operating system's watch is one the counts
stand for.
-/

namespace PaminMemory
namespace Watching

open Foundation (Counts each each_keeps)
open Foundation.Counts (Tells tells_empty)

def wantedBy (followed : List Followed) (dir : Path) : Nat :=
  followed.countP fun followed => dir ∈ followed.dirs

/-- What is watched of a followed path: nothing of the workspace's, nothing while it is missing. -/
structure Proper (machine : Machine) (followed : Followed) : Prop where
  clear : forall dir, dir ∈ followed.dirs -> machine.workspace.isPrefixOf dir = false
  idle : followed.state = State.missing -> followed.dirs = ∅

/-- What is pending: each path once, and none of the workspace's. -/
structure Outlying (machine : Machine) (pending : List Path) : Prop where
  once : pending.Nodup
  clear : forall path, path ∈ pending -> machine.workspace.isPrefixOf path = false

structure Right (machine : Machine) (keeper : Keeper) : Prop where
  fits : Fits machine keeper.paths (wantedBy keeper.followed) keeper.book
  proper : forall followed, followed ∈ keeper.followed -> Proper machine followed
  outlying : Outlying machine keeper.pending

section Paths

variable {machine : Machine} {followed : Followed} {outside : Outside}

/-!
## What a routine leaves of a followed path
-/

theorem path_catchUp :
    (followed.catchUp machine.os machine.workspace outside).1.path = followed.path := by
  unfold Followed.catchUp
  cases outside.metadata with
  | none => rfl
  | some isDir =>
      cases outside.first with
      | error error => rfl
      | ok found =>
          cases outside.second with
          | error error => rfl
          | ok again => rfl

theorem idle_catchUp (h : followed.state = State.missing -> followed.dirs = ∅) :
    (followed.catchUp machine.os machine.workspace outside).1.state = State.missing ->
      (followed.catchUp machine.os machine.workspace outside).1.dirs = ∅ := by
  have hsettled : forall (followed : Followed) (refused : Bool),
      (followed.settle machine.os refused).state ≠ State.missing := by
    intro followed refused hmissing
    unfold Followed.settle at hmissing
    simp only at hmissing
    split at hmissing
    · cases hmissing
    · cases hmissing
  unfold Followed.catchUp
  cases outside.metadata with
  | none =>
      intro _
      rfl
  | some isDir =>
      cases outside.first with
      | error error => exact h
      | ok found =>
          cases outside.second with
          | error error =>
              intro hmissing
              exact absurd hmissing (hsettled _ _)
          | ok again =>
              intro hmissing
              exact absurd hmissing (hsettled _ _)

theorem there_sort {changed : List Path} :
    There followed (followed.sort machine.os machine.workspace outside changed).1 := by
  unfold Followed.sort
  split
  · exact ⟨rfl, id⟩
  · cases outside.sorts with
    | error error => exact ⟨rfl, id⟩
    | ok _ =>
        dsimp only
        rcases sortBy outside.isDir outside.list followed.dirs followed.root changed with
          ⟨sorted, vanished⟩
        have hgone : There followed (followed.takeVanished outside vanished).1 :=
          there_of_onlyDirs onlyDirs_takeVanished
        dsimp only
        rcases hvanished : followed.takeVanished outside vanished with ⟨left, _ | deleted⟩
        · rw [hvanished] at hgone
          exact hgone
        · rw [hvanished] at hgone
          have hnew : There left
              (left.takeNewDirs machine.os machine.workspace outside sorted.newDirs).1 :=
            each_keeps (fun _ => ⟨rfl, id⟩) there_trans fun _ _ =>
              there_trans (there_of_onlyDirs onlyDirs_forget) there_adopt
          dsimp only
          rcases hadopted : left.takeNewDirs machine.os machine.workspace outside
            sorted.newDirs with ⟨after, _ | files⟩
          · rw [hadopted] at hnew
            exact there_trans hgone hnew
          · rw [hadopted] at hnew
            exact there_trans hgone hnew

/-- A turn leaves a followed path where it was; if it is missing after it, nothing is watched. -/
structure Turned (before after : Followed) : Prop where
  path : after.path = before.path
  idle : after.state = State.missing -> after.dirs = ∅

theorem turned_turn {rescan : Bool} {changed : List Path} {deleted : Finset File}
    (h : followed.state ≠ State.missing) :
    Turned followed
      (followed.turn machine.os machine.workspace rescan outside changed deleted).followed := by
  have hafresh : Turned followed
      (followed.catchUp machine.os machine.workspace outside).1 :=
    ⟨path_catchUp, idle_catchUp fun hmissing => absurd hmissing h⟩
  have hsort : There followed
      (followed.sort machine.os machine.workspace outside changed).1 := there_sort
  unfold Followed.turn
  dsimp only
  split
  · exact hafresh
  · split
    · exact ⟨rfl, fun hmissing => absurd hmissing h⟩
    · split
      · exact hafresh
      · rcases hsorted : followed.sort machine.os machine.workspace outside changed with
          ⟨after, _ | changes⟩
        · rw [hsorted] at hsort
          exact ⟨hsort.path, fun hmissing => absurd hmissing (hsort.present h)⟩
        · rw [hsorted] at hsort
          dsimp only
          unfold Followed.handle
          dsimp only
          split
          · exact ⟨hsort.path, fun hmissing => absurd hmissing (hsort.present h)⟩
          · exact ⟨hsort.path, fun hmissing => absurd hmissing (hsort.present h)⟩

end Paths

/-!
## A pass over the followed paths
-/

section Passes

variable {machine : Machine} {paths : List Path} {before : Path -> Nat} {book : Book}

theorem wantedBy_cons (followed : Followed) (rest : List Followed) (dir : Path) :
    wantedBy (followed :: rest) dir = plus (wantedBy rest) followed.dirs dir := by
  unfold wantedBy plus
  rw [List.countP_cons]
  simp only [decide_eq_true_eq]

/-- A book that fits a pass over these paths, `before` being what those already seen to want. -/
structure Passes (machine : Machine) (paths : List Path) (before : Path -> Nat)
    (book : Book) (followed : List Followed) : Prop where
  fits : Fits machine paths (fun dir => before dir + wantedBy followed dir) book
  proper : forall each, each ∈ followed -> Proper machine each

theorem Passes.suits {followed : Followed} {rest : List Followed}
    (h : Passes machine paths before book (followed :: rest)) :
    Suits machine paths (fun dir => before dir + wantedBy rest dir) book followed where
  fits := h.fits.congr fun dir => by
    rw [wantedBy_cons]
    unfold plus
    rw [Nat.add_assoc]
  clear := (h.proper followed (List.mem_cons_self ..)).clear

theorem passes_rest {after : Followed} {rest : List Followed}
    (h : Suits machine paths (fun dir => before dir + wantedBy rest dir) book after)
    (hrest : forall each, each ∈ rest -> Proper machine each) :
    Passes machine paths (plus before after.dirs) book rest where
  fits := h.fits.congr fun dir => by
    unfold plus
    rw [Nat.add_right_comm]
  proper := hrest

theorem passes_cons {after : Followed} {later : List Followed}
    (h : Passes machine paths (plus before after.dirs) book later)
    (hafter : Proper machine after) : Passes machine paths before book (after :: later) where
  fits := h.fits.congr fun dir => by
    rw [wantedBy_cons]
    unfold plus
    rw [Nat.add_right_comm, Nat.add_assoc]
  proper := List.forall_mem_cons.mpr ⟨hafter, h.proper⟩

theorem passes_turns {rescan : Bool} {outside : SyncedPath -> Outside} {pending : List Path}
    {held : Finset Held} {followed : List Followed}
    (h : Passes machine paths before book followed) (hpending : Outlying machine pending)
    (hpaths : forall each, each ∈ followed -> each.path ∈ paths) :
    Passes machine paths before
        (Keeper.turns machine paths rescan outside pending book held followed).1
        (Keeper.turns machine paths rescan outside pending book held followed).2.followed ∧
      (Keeper.turns machine paths rescan outside pending book held followed).2.followed.map
        Followed.path = followed.map Followed.path := by
  induction followed generalizing before book held with
  | nil => exact ⟨h, rfl⟩
  | cons first rest ih =>
      have hrest := (List.forall_mem_cons.mp h.proper).2
      have hthere := (List.forall_mem_cons.mp hpaths).2
      have hsuits := h.suits
      unfold Keeper.turns
      split
      · next hmissing =>
          rcases @ih _ _ held (passes_rest hsuits hrest) hthere with ⟨hlater, hmap⟩
          exact ⟨passes_cons hlater (h.proper first (List.mem_cons_self ..)),
            congrArg (first.path :: ·) hmap⟩
      · next hthere' =>
          have hchanged : (pending.filter first.covers).Nodup := hpending.once.filter _
          have hturn := @suits_turn machine paths _ book first (outside first.synced)
            (pending.filter first.covers) (heldOf held first.synced) rescan hsuits
            (hpaths first (List.mem_cons_self ..)) hchanged
            (fun path hpath => hpending.clear path (List.mem_filter.mp hpath).1)
          have hturned := @turned_turn machine first
            (book.turn machine paths first rescan (outside first.synced)
              (pending.filter first.covers) (heldOf held first.synced)).2 rescan
            (pending.filter first.covers) (heldOf held first.synced) hthere'
          rcases @ih _ _ (held.filter fun held => held.synced ≠ first.synced)
            (passes_rest hturn hrest) hthere with ⟨hlater, hmap⟩
          constructor
          · exact passes_cons hlater ⟨hturn.clear, hturned.idle⟩
          · simp only [List.map_cons, hmap, hturned.path]

theorem passes_looks {now : Nat} {outside : SyncedPath -> Outside} {followed : List Followed}
    (h : Passes machine paths before book followed)
    (hpaths : forall each, each ∈ followed -> each.path ∈ paths) :
    Passes machine paths before
        (Keeper.looks machine paths now outside book followed).1
        (Keeper.looks machine paths now outside book followed).2 ∧
      (Keeper.looks machine paths now outside book followed).2.map Followed.path =
        followed.map Followed.path := by
  induction followed generalizing before book with
  | nil => exact ⟨h, rfl⟩
  | cons first rest ih =>
      have hrest := (List.forall_mem_cons.mp h.proper).2
      have hthere := (List.forall_mem_cons.mp hpaths).2
      have hfirst := h.proper first (List.mem_cons_self ..)
      unfold Keeper.looks
      split
      · have hlook := @suits_catchUp machine paths _ book
          { first with looked := (outside first.synced).now } (outside first.synced)
          (h.suits.same rfl) (hpaths first (List.mem_cons_self ..))
        have hidle := @idle_catchUp machine
          { first with looked := (outside first.synced).now }
          (book.catchUp machine paths { first with looked := (outside first.synced).now }
            (outside first.synced)).2 hfirst.idle
        rcases ih (passes_rest hlook hrest) hthere with ⟨hlater, hmap⟩
        constructor
        · exact passes_cons hlater ⟨hlook.clear, hidle⟩
        · simp only [List.map_cons]
          unfold Keeper.caughtUp
          rw [path_catchUp]
          exact congrArg (first.path :: ·) hmap
      · rcases ih (passes_rest h.suits hrest) hthere with ⟨hlater, hmap⟩
        exact ⟨passes_cons hlater hfirst, congrArg (first.path :: ·) hmap⟩

end Passes

/-!
## What each act keeps
-/

section Acts

variable {machine : Machine} {keeper : Keeper}

theorem right_new : Right machine Keeper.new where
  fits :=
    { sound :=
        { plain := fun _ => ⟨rfl, fun dir hdir => absurd hdir (Finset.notMem_empty dir)⟩
          mac := fun _ => ⟨rfl, fun path hpath => absurd hpath (Finset.notMem_empty path)⟩
          off := fun _ => ⟨rfl, fun dir => congrArg Option.isSome (AList.lookup_empty dir)⟩ }
      tells := tells_empty }
  proper _ hfollowed := absurd hfollowed List.not_mem_nil
  outlying := ⟨List.nodup_nil, fun _ hpath => absurd hpath List.not_mem_nil⟩

theorem Right.counted (h : Right machine keeper) {followed : Followed} {dir : Path}
    (hfollowed : followed ∈ keeper.followed) (hdir : dir ∈ followed.dirs) :
    keeper.book.counted dir = true := by
  apply (h.fits.counted dir).mpr
  exact List.countP_pos_iff.mpr ⟨followed, hfollowed, decide_eq_true hdir⟩

theorem Right.pollAllUnwatched (h : Right machine keeper) : keeper.pollAllUnwatched = keeper := by
  have hsame : keeper.followed.map (Keeper.poll keeper.book) = keeper.followed := by
    apply (List.map_congr_left _).trans (List.map_id keeper.followed)
    intro followed hfollowed
    unfold Keeper.poll
    apply if_neg
    rintro ⟨_, dir, hdir, hnot⟩
    rw [h.counted hfollowed hdir] at hnot
    cases hnot
  unfold Keeper.pollAllUnwatched
  cases keeper
  simp only [Keeper.mk.injEq, and_true]
  exact hsame

theorem outlying_heard {pending : List Path} (h : Outlying machine pending) (paths : List Path) :
    Outlying machine ((paths.filter fun path => !machine.workspace.isPrefixOf path).foldl
      (fun pending path => pending.insert path) pending) := by
  induction paths generalizing pending with
  | nil => exact h
  | cons path rest ih =>
      cases hunder : machine.workspace.isPrefixOf path with
      | true =>
          rw [List.filter_cons_of_neg (by rw [hunder]; exact Bool.false_ne_true)]
          exact ih h
      | false =>
          rw [List.filter_cons_of_pos (by rw [hunder]; rfl), List.foldl_cons]
          apply ih
          constructor
          · exact h.once.insert
          · intro other hother
            rcases List.mem_insert_iff.mp hother with rfl | hthere
            · exact hunder
            · exact h.clear other hthere

theorem right_heard (h : Right machine keeper) (now : Nat) (event : Event) :
    Right machine (keeper.heard machine now event) := by
  cases event with
  | failed limit =>
      cases limit with
      | true =>
          change Right machine keeper.pollAllUnwatched
          rw [h.pollAllUnwatched]
          exact h
      | false => exact h
  | access => exact h
  | changed paths rescan =>
      have hpending := outlying_heard h.outlying paths
      unfold Keeper.heard
      dsimp only
      split
      · exact ⟨h.fits, h.proper, hpending⟩
      · exact ⟨h.fits, h.proper, hpending⟩

theorem mem_paths {followed : Followed} (h : followed ∈ keeper.followed) :
    followed.path ∈ keeper.paths := List.mem_map_of_mem h

theorem Right.passes (h : Right machine keeper) :
    Passes machine keeper.paths (fun _ => 0) keeper.book keeper.followed where
  fits := h.fits.congr fun _ => Nat.zero_add _
  proper := h.proper

theorem right_of_passes {after : Keeper}
    (h : Passes machine keeper.paths (fun _ => 0) after.book after.followed)
    (hmap : after.followed.map Followed.path = keeper.followed.map Followed.path)
    (hpending : Outlying machine after.pending) : Right machine after where
  fits := by
    have hpaths : after.paths = keeper.paths := hmap
    rw [hpaths]
    exact h.fits.congr fun _ => (Nat.zero_add _).symm
  proper := h.proper
  outlying := hpending

theorem right_flush (h : Right machine keeper) (outside : SyncedPath -> Outside) :
    Right machine (keeper.flush machine outside) := by
  rcases @passes_turns machine keeper.paths _ keeper.book keeper.rescan outside keeper.pending
    keeper.held keeper.followed h.passes h.outlying fun _ => mem_paths with ⟨hafter, hmap⟩
  exact @right_of_passes machine keeper (keeper.flush machine outside) hafter hmap
    ⟨List.nodup_nil, fun _ hpath => absurd hpath List.not_mem_nil⟩

theorem right_look (h : Right machine keeper) (now : Nat) (outside : SyncedPath -> Outside) :
    Right machine (keeper.look machine now outside) := by
  rcases @passes_looks machine keeper.paths _ keeper.book now outside keeper.followed h.passes
    fun _ => mem_paths with ⟨hafter, hmap⟩
  exact @right_of_passes machine keeper (keeper.look machine now outside) hafter hmap h.outlying

theorem right_due (h : Right machine keeper) (now : Nat)
    (flushing looking : SyncedPath -> Outside) :
    Right machine (keeper.due machine now flushing looking) := by
  unfold Keeper.due
  split
  · exact right_look (right_flush h flushing) now looking
  · exact right_look h now looking

theorem wantedBy_append (followed : List Followed) (last : Followed) (dir : Path) :
    wantedBy (followed ++ [last]) dir = plus (wantedBy followed) last.dirs dir := by
  unfold wantedBy plus
  rw [List.countP_append, List.countP_singleton]
  simp only [decide_eq_true_eq]

theorem Fits.paths {paths more : List Path} {wanted : Path -> Nat} {book : Book}
    (h : Fits machine paths wanted book) (hpaths : paths ⊆ more) :
    Fits machine more wanted book where
  sound :=
    { plain := h.sound.plain
      mac := fun hmac => ⟨(h.sound.mac hmac).1, fun path hpath =>
        hpaths ((h.sound.mac hmac).2 path hpath)⟩
      off := h.sound.off }
  tells := h.tells

theorem right_follow (h : Right machine keeper) (synced : SyncedPath) (path root : Path)
    (isDir : Bool) (now : Nat) (outside : Outside) :
    Right machine (keeper.follow machine synced path root isDir now outside) := by
  have hsuits : Suits machine (keeper.paths ++ [path]) (wantedBy keeper.followed) keeper.book
      (Keeper.followedNew synced path root isDir now) :=
    { fits := (h.fits.paths (List.subset_append_left ..)).congr fun dir => by
        unfold plus Keeper.followedNew
        rw [if_neg (Finset.notMem_empty dir), Nat.add_zero]
      clear := fun dir hdir => absurd hdir (Finset.notMem_empty dir) }
  have hcaught := @suits_catchUp machine _ _ keeper.book _ outside hsuits
    (List.mem_append_right _ (List.mem_singleton_self path))
  have hidle := @idle_catchUp machine (Keeper.followedNew synced path root isDir now)
    (keeper.book.catchUp machine (keeper.paths ++ [path])
      (Keeper.followedNew synced path root isDir now) outside).2 fun _ => rfl
  unfold Keeper.follow
  split
  · exact h
  · constructor
    · have hpaths : (keeper.followed ++ [(Keeper.caughtUp machine (keeper.paths ++ [path])
          keeper.book (Keeper.followedNew synced path root isDir now) outside).2]).map
            Followed.path = keeper.paths ++ [path] := by
        rw [List.map_append, List.map_singleton]
        unfold Keeper.caughtUp
        rw [path_catchUp]
        rfl
      change Fits machine ((keeper.followed ++ [(Keeper.caughtUp machine (keeper.paths ++ [path])
        keeper.book (Keeper.followedNew synced path root isDir now) outside).2]).map
          Followed.path) _ _
      rw [hpaths]
      exact hcaught.fits.congr (wantedBy_append _ _)
    · intro followed hfollowed
      rcases List.mem_append.mp hfollowed with hthere | hnew
      · exact h.proper followed hthere
      · rw [List.mem_singleton.mp hnew]
        exact ⟨hcaught.clear, hidle⟩
    · exact h.outlying

theorem wantedBy_eraseP {followed : List Followed} {gone : Followed} {p : Followed -> Bool}
    (h : followed.find? p = some gone) (dir : Path) :
    wantedBy followed dir = plus (wantedBy (followed.eraseP p)) gone.dirs dir := by
  induction followed with
  | nil => cases h
  | cons first rest ih =>
      cases hp : p first with
      | true =>
          rw [List.find?_cons_of_pos hp] at h
          cases h
          rw [List.eraseP_cons_of_pos hp, wantedBy_cons]
      | false =>
          have hnot : ¬p first = true := by rw [hp]; exact Bool.false_ne_true
          rw [List.find?_cons_of_neg hnot] at h
          rw [List.eraseP_cons_of_neg hnot, wantedBy_cons]
          unfold plus
          rw [wantedBy_cons, ih h]
          unfold plus
          exact Nat.add_right_comm _ _ _

theorem path_eraseP {followed : List Followed} {gone : Followed} {p : Followed -> Bool}
    (h : followed.find? p = some gone) {path : Path} (hpath : path ∈ followed.map Followed.path) :
    path = gone.path ∨ path ∈ (followed.eraseP p).map Followed.path := by
  induction followed with
  | nil => cases h
  | cons first rest ih =>
      rw [List.map_cons, List.mem_cons] at hpath
      cases hp : p first with
      | true =>
          rw [List.find?_cons_of_pos hp] at h
          cases h
          rw [List.eraseP_cons_of_pos hp]
          exact hpath
      | false =>
          have hnot : ¬p first = true := by rw [hp]; exact Bool.false_ne_true
          rw [List.find?_cons_of_neg hnot] at h
          rw [List.eraseP_cons_of_neg hnot, List.map_cons, List.mem_cons]
          rcases hpath with hfirst | hrest
          · exact Or.inr (Or.inl hfirst)
          · rcases ih h hrest with hgone | hthere
            · exact Or.inl hgone
            · exact Or.inr (Or.inr hthere)

theorem right_unfollow (h : Right machine keeper) (synced : SyncedPath) :
    Right machine (keeper.unfollow machine synced) := by
  unfold Keeper.unfollow
  split
  · exact h
  · next gone hgone =>
      have hwants : Fits machine keeper.paths
          (plus (wantedBy (keeper.followed.eraseP fun followed => followed.synced = synced))
            gone.dirs) keeper.book := h.fits.congr fun dir => (wantedBy_eraseP hgone dir).symm
      have hlets := fits_unwatchOwn hwants (Finset.Subset.refl gone.dirs)
      constructor
      · apply (fits_endStream hlets fun _ => path_eraseP hgone).congr
        intro dir
        unfold plus
        rw [Finset.sdiff_self, if_neg (Finset.notMem_empty dir), Nat.add_zero]
      · intro followed hfollowed
        exact h.proper followed (List.mem_of_mem_eraseP hfollowed)
      · exact h.outlying

theorem right_act (h : Right machine keeper) (act : Act) :
    Right machine (keeper.act machine act) := by
  cases act with
  | heard now event => exact right_heard h now event
  | follow synced path root isDir now outside =>
      exact right_follow h synced path root isDir now outside
  | unfollow synced => exact right_unfollow h synced
  | due now flushing looking => exact right_due h now flushing looking

end Acts

/-!
## Every run
-/

theorem right_run (machine : Machine) (acts : List Act) :
    Right machine (Keeper.run machine acts) := by
  have hall : forall (acts : List Act) (keeper : Keeper), Right machine keeper ->
      Right machine (acts.foldl (Keeper.act machine) keeper) := by
    intro acts
    induction acts with
    | nil => exact fun _ h => h
    | cons act rest ih => exact fun keeper h => ih (keeper.act machine act) (right_act h act)
  exact hall acts Keeper.new right_new

/-- What the books of a watcher come to, between any two steps of its task. -/
structure Kept (machine : Machine) (keeper : Keeper) : Prop where
  counts : Tells keeper.book.watches (wantedBy keeper.followed)
  registered : machine.macos = false -> forall dir, dir ∈ keeper.book.registered ->
    exists followed, followed ∈ keeper.followed ∧ dir ∈ followed.dirs
  streams : machine.macos = true -> keeper.book.registered = keeper.book.streams ∧
    forall path, path ∈ keeper.book.streams ->
      exists followed, followed ∈ keeper.followed ∧ followed.path = path
  off : machine.os = false -> keeper.book.registered = ∅ ∧
    forall followed, followed ∈ keeper.followed -> followed.dirs = ∅
  clear : forall followed, followed ∈ keeper.followed -> forall dir, dir ∈ followed.dirs ->
    machine.workspace.isPrefixOf dir = false
  missing : forall followed, followed ∈ keeper.followed ->
    followed.state = State.missing -> followed.dirs = ∅
  full : keeper.pollAllUnwatched = keeper

/-- A directory is counted for exactly the followed paths that want it, and what the operating
    system watches is wanted, whatever it grants and in whatever order things happen. -/
theorem run_counts (machine : Machine) (acts : List Act) :
    Kept machine (Keeper.run machine acts) := by
  have hright := right_run machine acts
  constructor
  · exact hright.fits.tells
  · intro hplain dir hdir
    have hcounted := (hright.fits.sound.plain hplain).2 dir hdir
    rcases List.countP_pos_iff.mp ((hright.fits.counted dir).mp hcounted) with
      ⟨followed, hfollowed, hwants⟩
    exact ⟨followed, hfollowed, of_decide_eq_true hwants⟩
  · intro hmac
    refine ⟨(hright.fits.sound.mac hmac).1, ?_⟩
    intro path hpath
    exact List.mem_map.mp ((hright.fits.sound.mac hmac).2 path hpath)
  · intro hoff
    refine ⟨(hright.fits.sound.off hoff).1, ?_⟩
    intro followed hfollowed
    apply Finset.eq_empty_of_forall_notMem
    intro dir hdir
    have hcounted := hright.counted hfollowed hdir
    rw [(hright.fits.sound.off hoff).2 dir] at hcounted
    cases hcounted
  · exact fun followed hfollowed => (hright.proper followed hfollowed).clear
  · exact fun followed hfollowed => (hright.proper followed hfollowed).idle
  · exact hright.pollAllUnwatched

end Watching
end PaminMemory
