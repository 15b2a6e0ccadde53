import PaminMemory.Foundation.Fallible
import PaminMemory.Foundation.Listing
import PaminMemory.Foundation.Runs
import PaminMemory.Hub.Pinning

/-!
# Removing a downloaded file

A downloaded file is an entry of a snapshot: a link to a blob, or the file itself.  Refs name
snapshots, and snapshots share blobs.  Calls of `remove` and `get` come one after another, and
any of them can die between two steps.
-/

namespace PaminMemory
namespace Hub
namespace Removal

open Foundation
open Spans (trimStart trimEnd)

abbrev Name := List Char

structure Blob where
  name : Name
  outside : Bool
deriving DecidableEq, Repr

inductive Entry where
  | link (blob : Blob)
  | itself
deriving DecidableEq, Repr

inductive Place where
  | blob (blob : Blob)
  | entry (path : List Name)
deriving DecidableEq, Repr

/-- A repository's part of the cache. -/
structure Cache where
  /-- What each ref holds, if it can be read. -/
  refs : Listing Name (Option (List Char))
  snapshots : Listing Name Entry
  blobs : List Blob
deriving DecidableEq, Repr

def Cache.leads (cache : Cache) (path : List Name) : Entry -> Option Place
  | Entry.link blob => if blob ∈ cache.blobs then some (Place.blob blob) else none
  | Entry.itself => some (Place.entry path)

def Cache.canonical (cache : Cache) (path : List Name) : Option Place :=
  match cache.snapshots.find path with
  | some entry => cache.leads path entry
  | none => if cache.snapshots.isDir path then some (Place.entry path) else none

def Place.outside : Place -> Bool
  | Place.blob target => target.outside
  | Place.entry _ => false

/-!
## A repository and its ref
-/

structure Repository where
  /-- The requested revision, as the path of its ref. -/
  revision : List Name
  pinned : Option Name
deriving DecidableEq, Repr

def Repository.requested (repository : Repository) : Option Name :=
  match repository.revision with
  | [commit] => if isCommit commit then some commit else none
  | _ => none

def Repository.pin (repository : Repository) (cache : Cache) : Option Name :=
  repository.pinned.or
    (repository.requested.or ((cache.refs.find repository.revision).join.bind commitOf))

structure Setting where
  hfHome : Bool
  modelsLinked : Bool
  repositoryLinked : Bool
deriving DecidableEq, Repr

def Setting.declines (setting : Setting) : Bool :=
  setting.hfHome || setting.modelsLinked || setting.repositoryLinked

def revisionReferences (cache : Cache) (own : List Name) (snapshot : Name) : Except Unit Bool :=
  cache.refs.search
    (fun path text =>
      if path = own then
        Except.ok false
      else
        match text with
        | none => Except.error ()
        | some text => Except.ok (trimEnd (trimStart text) = snapshot))
    []

def referencedElsewhere (cache : Cache) (own : List Name) (place : Place) : Except Unit Bool :=
  cache.snapshots.search
    (fun path entry => Except.ok (path ≠ own ∧ cache.leads path entry = some place)) []

/-!
## What is under way
-/

structure Removing where
  repository : Repository
  commit : Name
  file : List Name
  place : Place
  /-- The cache when it took the lock. -/
  before : Cache
deriving DecidableEq, Repr

def Removing.path (removing : Removing) : List Name := removing.commit :: removing.file

structure Fetching where
  repository : Repository
  asked : List Name
  file : List Name
  made : Bool
deriving DecidableEq, Repr

/-- How far the call that holds the lock is. -/
inductive Phase where
  | removing (removing : Removing)
  /-- The entry is removed. -/
  | unlinked (removing : Removing)
  | recording (repository : Repository) (file : List Name)
  | renaming (repository : Repository) (file : List Name) (commit : Name)
  | fetching (fetching : Fetching)
  | fetched (fetching : Fetching)
deriving DecidableEq, Repr

/-- A removal that returned `Ok`: what it removed, if it did, and the cache it found and left. -/
structure Returned where
  removed : Option Removing
  before : Cache
  after : Cache
deriving DecidableEq, Repr

structure System where
  cache : Cache
  running : Option Phase
  removals : List Returned
deriving DecidableEq, Repr

def System.begun (cache : Cache) : System :=
  { cache := cache, running := none, removals := [] }

inductive Action where
  | remove (setting : Setting) (repository : Repository) (file : List Name)
  | get (repository : Repository) (file : List Name)
  | next
  /-- What the hub says the revision names, and what is written of it before its ref is moved. -/
  | remote (commit : Option Name) (written : List Char)
  | unrecorded
  /-- The hub's client puts a blob in its place, whole. -/
  | download (blob : Blob)
  | link (commit : Name) (blob : Blob)
  /-- Where it cannot link, the client moves the blob to the entry. -/
  | move (commit : Name) (blob : Blob)
  | writeRef (text : List Char)
  /-- The call fails, or its process dies. -/
  | stop
deriving DecidableEq, Repr

section Model

-- Under which snapshot the hub's client finds a file by a ref that names no commit.
variable (lookUp : Cache -> List Name -> List Name -> Option Name)

/-!
## The steps

A removal takes the entry away first and what it led to after; a fetch pins its ref, and its
client puts a blob and an entry.
-/

def Repository.onDisk (repository : Repository) (cache : Cache) (file : List Name) : Option Name :=
  match repository.pin cache with
  | some commit => if (cache.canonical (commit :: file)).isSome then some commit else none
  | none => lookUp cache repository.revision file

def decideRemoval (cache : Cache) (repository : Repository) (file : List Name) :
    Except Unit (Option Removing) :=
  match repository.onDisk lookUp cache file with
  | none => Except.ok none
  | some commit =>
      match cache.canonical (commit :: file) with
      | none => Except.error ()
      | some place =>
          if place.outside then
            Except.ok none
          else do
            if ← revisionReferences cache repository.revision commit then
              Except.ok none
            else if ← referencedElsewhere cache (commit :: file) place then
              Except.ok none
            else
              Except.ok
                (some
                  { repository := repository, commit := commit, file := file, place := place
                    before := cache })

def System.remove (s : System) (setting : Setting) (repository : Repository) (file : List Name) :
    Option System :=
  let declined :=
    { s with removals := s.removals ++ [{ removed := none, before := s.cache, after := s.cache }] }
  if setting.declines then
    some declined
  else if s.running.isSome then
    none
  else
    match decideRemoval lookUp s.cache repository file with
    | Except.error _ => some s
    | Except.ok none => some declined
    | Except.ok (some removing) => some { s with running := some (Phase.removing removing) }

def System.get (s : System) (repository : Repository) (file : List Name) : Option System :=
  if s.running.isSome then
    none
  else if (repository.onDisk lookUp s.cache file).isSome then
    some s
  else
    some { s with running := some (Phase.recording repository file) }

/-- The fetch a `get` goes on to, at the commit pinned by now or the requested revision. -/
def System.fetch (s : System) (repository : Repository) (file : List Name) : System :=
  let asked :=
    match repository.pin s.cache with
    | some commit => [commit]
    | none => repository.revision
  let there := (s.cache.refs.find asked).isSome || s.cache.refs.isDir asked
  let made := asked ≠ repository.revision && !there
  { s with
    running :=
      some (Phase.fetching
        { repository := repository, asked := asked, file := file, made := made }) }

def withRefs (cache : Cache) (refs : Listing Name (Option (List Char))) : Cache :=
  { cache with refs := refs }

def partialOf : List Name -> List Name
  | [] => []
  | [last] => [last ++ ".partial".toList]
  | first :: rest => first :: partialOf rest

/-- Removes what an entry led to; nothing is left where the entry was the file. -/
def Cache.removePlace (cache : Cache) : Place -> Cache
  | Place.blob blob => { cache with blobs := cache.blobs.filter fun other => other ≠ blob }
  | Place.entry _ => cache

def System.next (s : System) : Option System :=
  match s.running with
  | some (Phase.removing removing) =>
      if s.cache.snapshots.isDir removing.path then
        some { s with running := none }
      else
        some
          { s with
            cache := { s.cache with snapshots := s.cache.snapshots.erase removing.path }
            running := some (Phase.unlinked removing) }
  | some (Phase.unlinked removing) =>
      let after := s.cache.removePlace removing.place
      some
        { cache := after
          running := none
          removals :=
            s.removals ++
              [{ removed := some removing, before := removing.before, after := after }] }
  | some (Phase.renaming repository file commit) =>
      let refs := s.cache.refs.erase (partialOf repository.revision)
      match refs.put (some commit) repository.revision with
      | some refs => some ({ s with cache := withRefs s.cache refs }.fetch repository file)
      | none => none
  | some (Phase.fetching fetching) => some { s with running := some (Phase.fetched fetching) }
  | some (Phase.fetched fetching) =>
      let refs := if fetching.made then s.cache.refs.erase fetching.asked else s.cache.refs
      some { s with cache := withRefs s.cache refs, running := none }
  | _ => none

def System.remote (s : System) (commit : Option Name) (written : List Char) : Option System :=
  match s.running with
  | some (Phase.recording repository file) =>
      let asked := if repository.requested.isSome then none else commit.filter isCommit
      match asked with
      | none => some (s.fetch repository file)
      | some commit =>
          (s.cache.refs.put (some written) (partialOf repository.revision)).map fun refs =>
            { s with
              cache := withRefs s.cache refs
              running := some (Phase.renaming repository file commit) }
  | _ => none

def System.unrecorded (s : System) : Option System :=
  match s.running with
  | some (Phase.recording repository file) => some (s.fetch repository file)
  | some (Phase.renaming repository file _) =>
      let refs := s.cache.refs.erase (partialOf repository.revision)
      some ({ s with cache := withRefs s.cache refs }.fetch repository file)
  | _ => none

def System.enter (s : System) (commit : Name) (entry : Entry) : Option System :=
  match s.running with
  | some (Phase.fetching fetching) =>
      if s.cache.snapshots.find (commit :: fetching.file) = none then
        (s.cache.snapshots.put entry (commit :: fetching.file)).map fun snapshots =>
          { s with cache := { s.cache with snapshots := snapshots } }
      else
        none
  | _ => none

/-- One step of a call, of the hub or of its client.  That `move` takes no blob an entry links to is
not checked by anyone: it is assumed of the client, which moves a blob only where it cannot link. -/
def step (s : System) : Action -> Option System
  | Action.remove setting repository file => s.remove lookUp setting repository file
  | Action.get repository file => s.get lookUp repository file
  | Action.next => s.next
  | Action.remote commit written => s.remote commit written
  | Action.unrecorded => s.unrecorded
  | Action.download blob =>
      match s.running with
      | some (Phase.fetching _) =>
          some { s with cache := { s.cache with blobs := s.cache.blobs ++ [blob] } }
      | _ => none
  | Action.link commit blob =>
      if blob ∈ s.cache.blobs then s.enter commit (Entry.link blob) else none
  | Action.move commit blob =>
      if forall found, found ∈ s.cache.snapshots.files -> found.2 ≠ Entry.link blob then
        { s with cache := s.cache.removePlace (Place.blob blob) }.enter commit Entry.itself
      else
        none
  | Action.writeRef text =>
      match s.running with
      | some (Phase.fetching fetching) =>
          (s.cache.refs.put (some text) fetching.asked).map fun refs =>
            { s with cache := withRefs s.cache refs }
      | _ => none
  | Action.stop => some { s with running := none }

/-!
## What a removal leaves
-/

def Cache.Holds (cache : Cache) : Place -> Prop
  | Place.blob blob => blob ∈ cache.blobs
  | Place.entry path => exists entry, (path, entry) ∈ cache.snapshots.files

def NoOtherRef (cache : Cache) (own : List Name) (snapshot : Name) : Prop :=
  forall path text, (path, text) ∈ cache.refs.files -> path ≠ own ->
    exists content, text = some content ∧ trimEnd (trimStart content) ≠ snapshot

def NoneStranded (before after : Cache) : Prop :=
  forall path entry, (path, entry) ∈ after.snapshots.files -> after.leads path entry = none ->
    (path, entry) ∈ before.snapshots.files ∧ before.leads path entry = none

structure Removed (removing : Removing) (after : Cache) : Prop where
  /-- The entry led to what was removed. -/
  led : exists entry, (removing.path, entry) ∈ removing.before.snapshots.files ∧
    removing.before.leads removing.path entry = some removing.place
  entry : forall entry, (removing.path, entry) ∉ after.snapshots.files
  place : ¬ after.Holds removing.place
  refs : NoOtherRef after removing.repository.revision removing.commit
  /-- Every other entry that led to a file leads to the same. -/
  others : forall path entry place, (path, entry) ∈ removing.before.snapshots.files ->
    path ≠ removing.path -> removing.before.leads path entry = some place ->
      (path, entry) ∈ after.snapshots.files ∧ after.leads path entry = some place ∧
        after.Holds place

structure StrandsNothing (start : Cache) (s : System) : Prop where
  removed : forall returned removing, returned ∈ s.removals ->
    returned.removed = some removing ->
      returned.before = removing.before ∧ Removed removing returned.after
  declined : forall returned, returned ∈ s.removals -> returned.removed = none ->
    returned.after = returned.before
  nowhere : NoneStranded start s.cache

end Model

section Removals

variable {lookUp : Cache -> List Name -> List Name -> Option Name} {start before after : Cache}
  {s t : System} {removing : Removing}

theorem NoneStranded.refl (cache : Cache) : NoneStranded cache cache :=
  fun _ _ hfile hnowhere => ⟨hfile, hnowhere⟩

theorem NoneStranded.trans (h : NoneStranded start before)
    (h' : NoneStranded before after) : NoneStranded start after := by
  intro path entry hfile hnowhere
  rcases h' path entry hfile hnowhere with ⟨hthere, hbefore⟩
  exact h path entry hthere hbefore

theorem noneStranded_withRefs (cache : Cache) (refs : Listing Name (Option (List Char))) :
    NoneStranded cache (withRefs cache refs) := by
  intro path entry hfile hnowhere
  refine ⟨hfile, ?_⟩
  cases entry <;> exact hnowhere

theorem noneStranded_erase (cache : Cache) (path : List Name) :
    NoneStranded cache { cache with snapshots := cache.snapshots.erase path } := by
  intro other entry hfile hnowhere
  refine ⟨(Listing.mem_files_erase.mp hfile).1, ?_⟩
  cases entry <;> exact hnowhere

theorem leads_link {cache : Cache} {path : List Name} {blob : Blob} :
    cache.leads path (Entry.link blob) = none <-> blob ∉ cache.blobs := by
  simp [Cache.leads]

theorem noneStranded_removePlace {cache : Cache} {place : Place}
    (h : forall path entry, (path, entry) ∈ cache.snapshots.files ->
      cache.leads path entry ≠ some place) : NoneStranded cache (cache.removePlace place) := by
  cases place with
  | entry path => exact NoneStranded.refl cache
  | blob blob =>
      intro path entry hfile hnowhere
      refine ⟨hfile, ?_⟩
      cases entry with
      | itself => cases hnowhere
      | link other =>
          rw [leads_link] at hnowhere ⊢
          intro hthere
          apply hnowhere
          refine List.mem_filter.mpr ⟨hthere, decide_eq_true ?_⟩
          rintro rfl
          exact h path (Entry.link other) hfile (if_pos hthere)

/-!
## What is decided
-/

structure Decided (removing : Removing) : Prop where
  canonical : removing.before.canonical removing.path = some removing.place
  refs : NoOtherRef removing.before removing.repository.revision removing.commit
  elsewhere : forall path entry, (path, entry) ∈ removing.before.snapshots.files ->
    path ≠ removing.path -> removing.before.leads path entry ≠ some removing.place

theorem noOtherRef_of_revisionReferences {cache : Cache} {own : List Name} {snapshot : Name}
    (h : revisionReferences cache own snapshot = Except.ok false) :
    NoOtherRef cache own snapshot := by
  intro path text hfile hown
  have htest := Listing.search_false h hfile
  simp only [List.nil_append, if_neg hown] at htest
  cases text with
  | none => cases htest
  | some content => exact ⟨content, rfl, of_decide_eq_false (Except.ok.inj htest)⟩

theorem decided_of_decideRemoval {cache : Cache} {repository : Repository} {file : List Name}
    (h : decideRemoval lookUp cache repository file = Except.ok (some removing)) :
    Decided removing ∧ removing.before = cache := by
  unfold decideRemoval at h
  split at h
  · cases h
  · next commit _ =>
      split at h
      · cases h
      · next place hcanonical =>
          split at h
          · cases h
          · rcases bind_eq_ok.mp h with ⟨named, hnamed, hnext⟩
            cases named with
            | true => cases hnext
            | false =>
                rcases bind_eq_ok.mp hnext with ⟨shared, hshared, hdone⟩
                cases shared with
                | true => cases hdone
                | false =>
                    cases hdone
                    refine ⟨⟨hcanonical, noOtherRef_of_revisionReferences hnamed, ?_⟩, rfl⟩
                    intro path entry hfile hne hleads
                    have htest := Listing.search_false hshared hfile
                    exact of_decide_eq_false (Except.ok.inj htest) ⟨hne, hleads⟩

def Removing.without (removing : Removing) : Cache :=
  { removing.before with snapshots := removing.before.snapshots.erase removing.path }

theorem leads_without {path : List Name} {entry : Entry} :
    removing.without.leads path entry = removing.before.leads path entry := by
  cases entry <;> rfl

theorem leads_without_ne (h : Decided removing) {path : List Name} {entry : Entry}
    (hfile : (path, entry) ∈ removing.without.snapshots.files) :
    removing.without.leads path entry ≠ some removing.place := by
  rw [leads_without]
  rcases Listing.mem_files_erase.mp hfile with ⟨hthere, hne⟩
  exact h.elsewhere path entry hthere hne

theorem removed_of_decided (h : Decided removing)
    (hfile : removing.before.snapshots.isDir removing.path = false) :
    Removed removing (removing.without.removePlace removing.place) := by
  have hentry : exists entry, (removing.path, entry) ∈ removing.before.snapshots.files ∧
      removing.before.leads removing.path entry = some removing.place := by
    have hcanonical := h.canonical
    unfold Cache.canonical at hcanonical
    split at hcanonical
    · next entry hfind => exact ⟨entry, Listing.mem_files_of_find hfind, hcanonical⟩
    · rw [hfile] at hcanonical
      cases hcanonical
  have hsnapshots : (removing.without.removePlace removing.place).snapshots =
      removing.before.snapshots.erase removing.path := by
    cases removing.place <;> rfl
  have hrefs : (removing.without.removePlace removing.place).refs = removing.before.refs := by
    cases removing.place <;> rfl
  have hgone : forall entry,
      (removing.path, entry) ∉ (removing.without.removePlace removing.place).snapshots.files := by
    intro entry hmem
    rw [hsnapshots] at hmem
    exact (Listing.mem_files_erase.mp hmem).2 rfl
  refine
    { led := hentry
      entry := hgone
      place := ?_
      refs := ?_
      others := ?_ }
  · rcases hentry with ⟨entry, _, hleads⟩
    cases entry with
    | itself =>
        have hplace : removing.place = Place.entry removing.path := (Option.some.inj hleads).symm
        rw [hplace] at hgone ⊢
        exact fun hholds => hholds.elim hgone
    | link blob =>
        have hplace : removing.place = Place.blob blob :=
          (Option.some.inj (Option.ite_none_right_eq_some.mp hleads).2).symm
        rw [hplace]
        intro hholds
        exact of_decide_eq_true (List.mem_filter.mp hholds).2 rfl
  · intro path text hmem
    rw [hrefs] at hmem
    exact h.refs path text hmem
  · intro path entry place hmem hne hleads
    have hstays : (path, entry) ∈ removing.before.snapshots.files ∧ path ≠ removing.path :=
      ⟨hmem, hne⟩
    rw [hsnapshots]
    refine ⟨Listing.mem_files_erase.mpr hstays, ?_⟩
    cases entry with
    | itself =>
        cases hleads
        refine ⟨rfl, Entry.itself, ?_⟩
        rw [hsnapshots]
        exact Listing.mem_files_erase.mpr hstays
    | link blob =>
        rcases Option.ite_none_right_eq_some.mp hleads with ⟨hthere, hsame⟩
        cases hsame
        have hkept : blob ∈ (removing.without.removePlace removing.place).blobs := by
          cases hplace : removing.place with
          | entry _ => exact hthere
          | blob target =>
              refine List.mem_filter.mpr ⟨hthere, decide_eq_true ?_⟩
              rintro rfl
              apply h.elsewhere path (Entry.link blob) hmem hne
              rw [hplace]
              exact if_pos hthere
        exact ⟨if_pos hkept, hkept⟩

/-!
## Every order of the calls
-/

def Accounts (cache : Cache) : Phase -> Prop
  | Phase.removing removing => Decided removing ∧ cache = removing.before
  | Phase.unlinked removing =>
      Decided removing ∧ removing.before.snapshots.isDir removing.path = false ∧
        cache = removing.without
  | _ => True

structure Inv (start : Cache) (s : System) : Prop where
  running : forall phase, s.running = some phase -> Accounts s.cache phase
  strands : StrandsNothing start s

theorem Inv.changed (hinv : Inv start s) (hnone : NoneStranded s.cache t.cache)
    (hremovals : t.removals = s.removals)
    (hrunning : forall phase, t.running = some phase -> Accounts t.cache phase) : Inv start t where
  running := hrunning
  strands :=
    { removed := hremovals ▸ hinv.strands.removed
      declined := hremovals ▸ hinv.strands.declined
      nowhere := hinv.strands.nowhere.trans hnone }

theorem inv_declined (hinv : Inv start s) :
    Inv start { s with
      removals := s.removals ++ [{ removed := none, before := s.cache, after := s.cache }] } where
  running := hinv.running
  strands :=
    { removed := by
        intro returned removing hreturned hremoved
        rcases List.mem_append.mp hreturned with hearlier | hnow
        · exact hinv.strands.removed returned removing hearlier hremoved
        · rw [List.mem_singleton.mp hnow] at hremoved
          cases hremoved
      declined := by
        intro returned hreturned hremoved
        rcases List.mem_append.mp hreturned with hearlier | hnow
        · exact hinv.strands.declined returned hearlier hremoved
        · rw [List.mem_singleton.mp hnow]
      nowhere := hinv.strands.nowhere }

theorem inv_remove {setting : Setting} {repository : Repository} {file : List Name}
    (hinv : Inv start s) (h : s.remove lookUp setting repository file = some t) :
    Inv start t := by
  simp only [System.remove] at h
  split at h
  · cases h
    exact inv_declined hinv
  · split at h
    · cases h
    · split at h
      · cases h
        exact hinv
      · cases h
        exact inv_declined hinv
      · next removing hdecided =>
          cases h
          rcases decided_of_decideRemoval hdecided with ⟨hholds, hbefore⟩
          refine hinv.changed (NoneStranded.refl _) rfl ?_
          rintro phase ⟨⟩
          exact ⟨hholds, hbefore.symm⟩

theorem inv_fetch {repository : Repository} {file : List Name} {cache : Cache}
    (hinv : Inv start s) (hnone : NoneStranded s.cache cache) :
    Inv start ({ s with cache := cache }.fetch repository file) := by
  refine hinv.changed hnone rfl ?_
  rintro phase ⟨⟩
  exact True.intro

theorem inv_next (hinv : Inv start s) (h : s.next = some t) : Inv start t := by
  unfold System.next at h
  split at h
  · next removing hrunning =>
      rcases hinv.running _ hrunning with ⟨hdecided, hcache⟩
      split at h
      · cases h
        exact hinv.changed (NoneStranded.refl _) rfl (fun _ hphase => nomatch hphase)
      · next hfile =>
          cases h
          refine hinv.changed (noneStranded_erase _ _) rfl ?_
          rintro phase ⟨⟩
          rw [hcache] at hfile ⊢
          exact ⟨hdecided, Bool.eq_false_iff.mpr hfile, rfl⟩
  · next removing hrunning =>
      rcases hinv.running _ hrunning with ⟨hdecided, hfile, hcache⟩
      cases h
      refine
        { running := (fun _ hphase => nomatch hphase)
          strands :=
            { removed := ?_
              declined := ?_
              nowhere := hinv.strands.nowhere.trans (noneStranded_removePlace ?_) } }
      · intro returned found hreturned hremoved
        rcases List.mem_append.mp hreturned with hearlier | hnow
        · exact hinv.strands.removed returned found hearlier hremoved
        · cases List.mem_singleton.mp hnow
          cases hremoved
          refine ⟨rfl, ?_⟩
          rw [hcache]
          exact removed_of_decided hdecided hfile
      · intro returned hreturned hremoved
        rcases List.mem_append.mp hreturned with hearlier | hnow
        · exact hinv.strands.declined returned hearlier hremoved
        · cases List.mem_singleton.mp hnow
          cases hremoved
      · rw [hcache]
        exact fun path entry hmem => leads_without_ne hdecided hmem
  · next repository file commit _ =>
      simp only at h
      split at h
      · cases h
        exact inv_fetch hinv (noneStranded_withRefs _ _)
      · cases h
  · cases h
    refine hinv.changed (NoneStranded.refl _) rfl ?_
    rintro phase ⟨⟩
    exact True.intro
  · cases h
    exact hinv.changed (noneStranded_withRefs _ _) rfl (fun _ hphase => nomatch hphase)
  · cases h

theorem inv_enter {commit : Name} {entry : Entry} {cache : Cache} (hinv : Inv start s)
    (hnone : NoneStranded s.cache cache)
    (hleads : forall path, cache.leads path entry ≠ none)
    (h : { s with cache := cache }.enter commit entry = some t) : Inv start t := by
  simp only [System.enter] at h
  split at h
  · next fetching hrunning =>
      rcases Option.ite_none_right_eq_some.mp h with ⟨_, hput⟩
      rcases Option.map_eq_some_iff.mp hput with ⟨snapshots, hsnapshots, rfl⟩
      refine hinv.changed (hnone.trans ?_) rfl ?_
      · intro path found hfile hnowhere
        have hsame : cache.leads path found = none := by
          cases found <;> exact hnowhere
        rcases Listing.mem_files_put hsnapshots hfile with hnew | hold
        · cases hnew
          exact absurd hsame (hleads _)
        · exact ⟨hold, hsame⟩
      · intro phase hphase
        rw [show phase = Phase.fetching fetching from
          (Option.some.inj (hrunning.symm.trans hphase)).symm]
        exact True.intro
  · cases h

theorem inv_step : Preserved (step lookUp) (Inv start) := by
  intro s action t hinv hstep
  cases action with
  | remove setting repository file => exact inv_remove hinv hstep
  | get repository file =>
      simp only [step, System.get] at hstep
      split at hstep
      · cases hstep
      · split at hstep
        · cases hstep
          exact hinv
        · cases hstep
          refine hinv.changed (NoneStranded.refl _) rfl ?_
          rintro phase ⟨⟩
          exact True.intro
  | next => exact inv_next hinv hstep
  | remote commit written =>
      simp only [step, System.remote] at hstep
      split at hstep
      · split at hstep
        · cases hstep
          exact inv_fetch hinv (NoneStranded.refl _)
        · rcases Option.map_eq_some_iff.mp hstep with ⟨refs, _, rfl⟩
          refine hinv.changed (noneStranded_withRefs _ _) rfl ?_
          rintro phase ⟨⟩
          exact True.intro
      · cases hstep
  | unrecorded =>
      simp only [step, System.unrecorded] at hstep
      split at hstep
      · cases hstep
        exact inv_fetch hinv (NoneStranded.refl _)
      · cases hstep
        exact inv_fetch hinv (noneStranded_withRefs _ _)
      · cases hstep
  | download blob =>
      simp only [step] at hstep
      split at hstep
      · next hrunning =>
          cases hstep
          refine hinv.changed ?_ rfl ?_
          · intro path entry hfile hnowhere
            refine ⟨hfile, ?_⟩
            cases entry with
            | itself => cases hnowhere
            | link other =>
                rw [leads_link] at hnowhere ⊢
                exact fun hthere => hnowhere (List.mem_append_left _ hthere)
          · intro phase hphase
            cases hrunning.symm.trans hphase
            exact True.intro
      · cases hstep
  | link commit blob =>
      rcases Option.ite_none_right_eq_some.mp hstep with ⟨hthere, henter⟩
      refine inv_enter hinv (NoneStranded.refl _) ?_ henter
      intro path hnowhere
      exact leads_link.mp hnowhere hthere
  | move commit blob =>
      rcases Option.ite_none_right_eq_some.mp hstep with ⟨hunlinked, henter⟩
      refine inv_enter hinv (noneStranded_removePlace ?_) ?_ henter
      · intro path entry hfile hleads
        cases entry with
        | itself => cases hleads
        | link other =>
            rcases Option.ite_none_right_eq_some.mp hleads with ⟨_, hsame⟩
            cases hsame
            exact hunlinked _ hfile rfl
      · intro path hnowhere
        cases hnowhere
  | writeRef text =>
      simp only [step] at hstep
      split at hstep
      · next hrunning =>
          rcases Option.map_eq_some_iff.mp hstep with ⟨refs, _, rfl⟩
          refine hinv.changed (noneStranded_withRefs _ _) rfl ?_
          intro phase hphase
          cases hrunning.symm.trans hphase
          exact True.intro
      · cases hstep
  | stop =>
      cases hstep
      exact hinv.changed (NoneStranded.refl _) rfl (fun _ hphase => nomatch hphase)

/-- Whatever calls come and wherever they stop, a removal strands nothing. -/
theorem strands_nothing {actions : List Action}
    (hrun : RunFrom (step lookUp) (System.begun start) actions = some t) :
    StrandsNothing start t := by
  have hbegun : Inv start (System.begun start) :=
    { running := (fun _ hphase => nomatch hphase)
      strands :=
        { removed := (fun _ _ hreturned => nomatch hreturned)
          declined := (fun _ hreturned => nomatch hreturned)
          nowhere := NoneStranded.refl start } }
  exact (runFrom_preserved inv_step hbegun hrun).strands

end Removals

def twoSnapshots : Cache where
  refs := Listing.file ['m'] (some ['a', '\n']) Listing.empty
  snapshots :=
    Listing.dir ['a']
      (Listing.dir ['o'] (Listing.file ['w'] (Entry.link ⟨['0'], false⟩) Listing.empty)
        Listing.empty)
      (Listing.dir ['b'] (Listing.file ['w'] (Entry.link ⟨['1'], false⟩) Listing.empty)
        Listing.empty)
  blobs := [⟨['0'], false⟩, ⟨['1'], false⟩]

def unlinked : Setting := { hfHome := false, modelsLinked := false, repositoryLinked := false }

def fetchedAnew : List Action :=
  let main : Repository := { revision := [['m']], pinned := some ['a'] }
  let file := [['o'], ['w']]
  [Action.remove unlinked main file, Action.next, Action.stop, Action.get main file,
    Action.remote none [], Action.download ⟨['0'], false⟩, Action.link ['a'] ⟨['0'], false⟩,
    Action.writeRef ['a'], Action.next, Action.next, Action.remove unlinked main file, Action.next,
    Action.next]

theorem strands_nothing_fetchedAnew :
    exists t, RunFrom (step fun _ _ _ => none) (System.begun twoSnapshots) fetchedAnew = some t ∧
      t.removals.length = 1 ∧ StrandsNothing twoSnapshots t := by
  have hends : (RunFrom (step fun _ _ _ => none) (System.begun twoSnapshots) fetchedAnew).any
      (fun t => t.removals.length = 1) := by decide
  rcases (Option.any_eq_true _ _).mp hends with ⟨t, hrun, hlength⟩
  exact ⟨t, hrun, of_decide_eq_true hlength, strands_nothing hrun⟩

end Removal
end Hub
end PaminMemory
