import PaminMemory.Foundation.Parties
import PaminMemory.Foundation.Runs
import PaminMemory.Spans.Text

/-!
# Pinning a commit

A repository of a model reads its files at one commit: the one its ref names when it is opened,
or the one its first download was read at.  Its calls run side by side, and other programs
change the cache between any two of their steps.
-/

namespace PaminMemory
namespace Hub

open Foundation
open Spans (trimStart trimEnd)

def isHexDigit (c : Char) : Bool :=
  c.isDigit || ('a' <= c && c <= 'f') || ('A' <= c && c <= 'F')

def isCommit (text : List Char) : Bool :=
  text.length = 40 && text.all isHexDigit

def commitOf (text : List Char) : Option (List Char) :=
  let commit := trimEnd (trimStart text)
  if isCommit commit then some commit else none

/-- A file of a snapshot, under `snapshots/<commit>/<file>`. -/
structure Path where
  snapshot : List Char
  file : List Char
deriving DecidableEq, Repr

structure Cache where
  /-- What the ref of the requested revision holds, if it can be read. -/
  ref : Option (List Char)
  entries : List Path
deriving DecidableEq, Repr

def Cache.named (cache : Cache) : Option (List Char) := cache.ref.bind commitOf

/-!
## What a call asks, and where it is
-/

structure Client where
  lookUp : Cache -> List Char -> Option Path
  /-- It finds the file under the commit the ref names. -/
  found : forall cache file path, lookUp cache file = some path ->
    cache.named = some path.snapshot ∧ path.file = file ∧ path ∈ cache.entries
  finds : forall cache commit file, cache.ref = some commit -> isCommit commit ->
    { snapshot := commit, file := file } ∈ cache.entries ->
      lookUp cache file = some { snapshot := commit, file := file }

/-- Who looks for a cached file: `on_disk`, or `get` with the lock or without. -/
inductive Seeker where
  | onDisk
  | get (locked : Bool)
deriving DecidableEq, Repr

inductive Then where
  | revision
  | cached (seeker : Seeker) (file : List Char)
  | fetch (file : List Char)
  | give (path : Path)
deriving DecidableEq, Repr

inductive Call where
  | onDisk (file : List Char)
  | get (file : List Char)
  | revision
deriving DecidableEq, Repr

/-- How far a call is. -/
inductive Phase where
  | lock (file : List Char)
  | pin (after : Then)
  | readRef (after : Then)
  | set (commit : List Char) (after : Then)
  /-- `pin` has returned. -/
  | pinned (after : Then)
  | look (commit : List Char) (seeker : Seeker) (file : List Char)
  | lookUp (seeker : Seeker) (file : List Char)
  | recordRef (file : List Char)
  | fetch (revision : List Char) (file : List Char)
  | pinFetched (path : Path)
deriving DecidableEq, Repr

inductive Answer where
  | path (path : Path)
  | missing
  | revision (text : List Char)
deriving DecidableEq, Repr

inductive Outcome where
  | next (phase : Phase)
  | returns (answer : Answer)
deriving DecidableEq, Repr

structure System where
  cache : Cache
  /-- The commit every file is read at, once known. -/
  pinned : Option (List Char)
  calls : List (Nat × Phase)
  returned : List Answer
deriving DecidableEq, Repr

def System.set (s : System) (commit : List Char) : System :=
  { s with pinned := s.pinned.or (some commit) }

def Then.locked : Then -> Bool
  | Then.revision => false
  | Then.cached (Seeker.get locked) _ => locked
  | Then.cached Seeker.onDisk _ => false
  | Then.fetch _ => true
  | Then.give _ => true

def Phase.locked : Phase -> Bool
  | Phase.lock _ => false
  | Phase.pin after => after.locked
  | Phase.readRef after => after.locked
  | Phase.set _ after => after.locked
  | Phase.pinned after => after.locked
  | Phase.look _ seeker file => (Then.cached seeker file).locked
  | Phase.lookUp seeker file => (Then.cached seeker file).locked
  | Phase.recordRef _ => true
  | Phase.fetch _ _ => true
  | Phase.pinFetched _ => true

def Call.begun : Call -> Phase
  | Call.onDisk file => Phase.pin (Then.cached Seeker.onDisk file)
  | Call.get file => Phase.lock file
  | Call.revision => Phase.pin Then.revision

def Seeker.cached (file : List Char) (found : Option Path) : Seeker -> Outcome
  | Seeker.onDisk =>
      match found with
      | some path => Outcome.returns (Answer.path path)
      | none => Outcome.returns Answer.missing
  | Seeker.get locked =>
      match found with
      | some path => Outcome.returns (Answer.path path)
      | none =>
          if locked then
            Outcome.next (Phase.recordRef file)
          else
            Outcome.returns Answer.missing

inductive Action where
  /-- Other programs change the cache. -/
  | others (cache : Cache)
  | start (id : Nat) (call : Call)
  | next (id : Nat)
  /-- A call takes the snapshot lock, or finds it cannot. -/
  | lock (id : Nat) (taken : Bool)
  /-- The commit the hub names, if it answers, and whether it could be recorded. -/
  | remote (id : Nat) (commit : Option (List Char)) (recorded : Bool)
  | fetched (id : Nat) (path : Option Path)
deriving DecidableEq, Repr

/-!
## One call after its ref
-/

section Model

variable (client : Client) (name revision : List Char)

def spelled (commit : List Char) : List Char := name ++ '@' :: commit

def System.opened (cache : Cache) : System where
  cache := cache
  pinned := if isCommit revision then some revision else cache.named
  calls := []
  returned := []

def System.at (s : System) : List Char := s.pinned.getD revision

def System.statement (s : System) : Phase -> Option (System × Outcome)
  | Phase.lock _ => none
  | Phase.pin after =>
      match s.pinned with
      | some _ => some (s, Outcome.next (Phase.pinned after))
      | none =>
          if isCommit revision then
            some (s.set revision, Outcome.next (Phase.pinned after))
          else
            some (s, Outcome.next (Phase.readRef after))
  | Phase.readRef after =>
      match s.cache.named with
      | some commit => some (s, Outcome.next (Phase.set commit after))
      | none => some (s, Outcome.next (Phase.pinned after))
  | Phase.set commit after => some (s.set commit, Outcome.next (Phase.pinned after))
  | Phase.pinned Then.revision =>
      some (s, Outcome.returns (Answer.revision (spelled name (s.at revision))))
  | Phase.pinned (Then.cached seeker file) =>
      match s.pinned with
      | some commit => some (s, Outcome.next (Phase.look commit seeker file))
      | none => some (s, Outcome.next (Phase.lookUp seeker file))
  | Phase.pinned (Then.fetch file) => some (s, Outcome.next (Phase.fetch (s.at revision) file))
  | Phase.pinned (Then.give path) => some (s, Outcome.returns (Answer.path path))
  | Phase.look commit seeker file =>
      let entry := { snapshot := commit, file := file }
      some (s, seeker.cached file (if entry ∈ s.cache.entries then some entry else none))
  | Phase.lookUp seeker file => some (s, seeker.cached file (client.lookUp s.cache file))
  | Phase.recordRef _ => none
  | Phase.fetch _ _ => none
  | Phase.pinFetched path =>
      if isCommit path.snapshot then
        some (s, Outcome.next (Phase.set path.snapshot (Then.give path)))
      else
        some (s, Outcome.next (Phase.pin (Then.give path)))

def System.advance (s : System) (id : Nat) : Outcome -> System
  | Outcome.next phase => { s with calls := setParty id phase s.calls }
  | Outcome.returns answer =>
      { s with calls := dropParty id s.calls, returned := s.returned ++ [answer] }

def System.next (s : System) (id : Nat) : Option System :=
  (partyOf s.calls id).bind fun phase =>
    (s.statement client name revision phase).map fun moved => moved.1.advance id moved.2

/-- One call at a time holds the lock; one that cannot be taken leaves what is cached. -/
def System.lock (s : System) (id : Nat) (taken : Bool) : Option System :=
  match partyOf s.calls id with
  | some (Phase.lock file) =>
      if taken ∧ s.calls.any (fun entry => entry.2.locked) then
        none
      else
        some (s.advance id (Outcome.next (Phase.pin (Then.cached (Seeker.get taken) file))))
  | _ => none

def System.remote (s : System) (id : Nat) (commit : Option (List Char)) (recorded : Bool) :
    Option System :=
  match partyOf s.calls id with
  | some (Phase.recordRef file) =>
      let asked := if isCommit revision then none else commit.filter isCommit
      let cache :=
        match asked with
        | some commit => if recorded then { s.cache with ref := some commit } else s.cache
        | none => s.cache
      some ({ s with cache := cache }.advance id (Outcome.next (Phase.pin (Then.fetch file))))
  | _ => none

/-- A fetch returns a path under the snapshot it fetched: that of the commit it asked for. -/
def Fetches (revision : List Char) (path : Path) : Prop :=
  isCommit path.snapshot ∧ (isCommit revision -> path.snapshot = revision)

instance (revision : List Char) : DecidablePred (Fetches revision) := by
  intro path
  unfold Fetches
  infer_instance

def System.fetched (s : System) (id : Nat) (path : Option Path) : Option System :=
  match partyOf s.calls id with
  | some (Phase.fetch asked _) =>
      match path with
      | none => some (s.advance id (Outcome.returns Answer.missing))
      | some path =>
          if Fetches asked path then
            some (s.advance id (Outcome.next (Phase.pinFetched path)))
          else
            none
  | _ => none

def step (s : System) : Action -> Option System
  | Action.others cache => some { s with cache := cache }
  | Action.start id call =>
      if id ∈ s.calls.map Prod.fst then
        none
      else
        some { s with calls := s.calls ++ [(id, call.begun)] }
  | Action.next id => s.next client name revision id
  | Action.lock id taken => s.lock id taken
  | Action.remote id commit recorded => s.remote revision id commit recorded
  | Action.fetched id path => s.fetched id path

/-!
## One commit
-/

/-- Every path returned is under one commit, which every revision answered later names. -/
structure OneCommit (s : System) : Prop where
  commit : forall path, Answer.path path ∈ s.returned -> isCommit path.snapshot
  same : forall path other, Answer.path path ∈ s.returned -> Answer.path other ∈ s.returned ->
    path.snapshot = other.snapshot
  named : s.returned.Pairwise fun earlier later => forall path text,
    earlier = Answer.path path -> later = Answer.revision text -> text = spelled name path.snapshot

/-- Where nothing was pinned the ref finds a file of the commit pinned by now, or none; and no
other commit is pinned when a fetched path's is. -/
def KeepsAt (s : System) : Phase -> Prop
  | Phase.lookUp _ file =>
      forall path, path ∈ client.lookUp s.cache file -> s.pinned = some path.snapshot
  | Phase.set commit (Then.give _) => forall other, other ∈ s.pinned -> other = commit
  | _ => True

def KeepsPinned (s : System) : Action -> Prop
  | Action.next id => forall phase, phase ∈ partyOf s.calls id -> KeepsAt client s phase
  | _ => True

instance (s : System) : DecidablePred (KeepsAt client s) := by
  intro phase
  unfold KeepsAt
  split <;> infer_instance

instance (s : System) : DecidablePred (KeepsPinned client s) := by
  intro action
  cases action <;> unfold KeepsPinned <;> infer_instance

end Model

/-!
## Every order of the calls
-/

section Calls

variable {client : Client} {name revision : List Char} {s t : System} {phase : Phase}

def Accounts (s : System) : Phase -> Prop
  | Phase.pin (Then.give _) => False
  | Phase.readRef (Then.give _) => False
  | Phase.set commit (Then.give path) => isCommit commit ∧ commit = path.snapshot
  | Phase.set commit _ => isCommit commit
  | Phase.pinned (Then.give path) => s.pinned = some path.snapshot
  | Phase.look commit _ _ => s.pinned = some commit
  | Phase.pinFetched path => isCommit path.snapshot
  | _ => True

def Tells (name : List Char) (s : System) : Answer -> Prop
  | Answer.path path => s.pinned = some path.snapshot
  | Answer.missing => True
  | Answer.revision text => forall commit, s.pinned = some commit -> text = spelled name commit

def Leads (name : List Char) (s : System) : Outcome -> Prop
  | Outcome.next phase => Accounts s phase
  | Outcome.returns answer => Tells name s answer

structure Inv (name : List Char) (s : System) : Prop where
  commit : forall commit, s.pinned = some commit -> isCommit commit
  calls : forall entry, entry ∈ s.calls -> Accounts s entry.2
  paths : forall path, Answer.path path ∈ s.returned -> s.pinned = some path.snapshot
  named : s.returned.Pairwise fun earlier later => forall path text,
    earlier = Answer.path path -> later = Answer.revision text -> text = spelled name path.snapshot

def Stays (s t : System) : Prop := forall commit, s.pinned = some commit -> t.pinned = some commit

theorem Stays.accounts (h : Stays s t) (haccounts : Accounts s phase) : Accounts t phase := by
  cases phase with
  | pinned after =>
      cases after with
      | give path => exact h path.snapshot haccounts
      | _ => exact True.intro
  | look commit seeker file => exact h commit haccounts
  | pin after => cases after <;> exact haccounts
  | readRef after => cases after <;> exact haccounts
  | set commit after => cases after <;> exact haccounts
  | _ => exact haccounts

theorem stays_set (s : System) (commit : List Char) : Stays s (s.set commit) := by
  intro pinned hpinned
  unfold System.set
  rw [hpinned]
  rfl

theorem pinned_set (commit : List Char) :
    (s.set commit).pinned = s.pinned ∨ s.pinned = none ∧ (s.set commit).pinned = some commit := by
  unfold System.set
  cases s.pinned with
  | none => exact Or.inr ⟨rfl, rfl⟩
  | some pinned => exact Or.inl rfl

theorem isCommit_set {commit : List Char} (hcommit : isCommit commit)
    (h : forall pinned, s.pinned = some pinned -> isCommit pinned) :
    forall pinned, (s.set commit).pinned = some pinned -> isCommit pinned := by
  intro pinned hpinned
  rcases pinned_set (s := s) commit with hsame | ⟨_, hset⟩
  · exact h pinned (hsame ▸ hpinned)
  · rw [hset] at hpinned
    cases hpinned
    exact hcommit

theorem isCommit_of_named {cache : Cache} {commit : List Char} (h : cache.named = some commit) :
    isCommit commit := by
  rcases Option.bind_eq_some_iff.mp h with ⟨text, _, hcommit⟩
  rcases Option.ite_none_right_eq_some.mp hcommit with ⟨hthere, hsame⟩
  cases hsame
  exact hthere

theorem leads_cached {seeker : Seeker} {file : List Char} {found : Option Path}
    (h : forall path, found = some path -> s.pinned = some path.snapshot) :
    Leads name s (seeker.cached file found) := by
  cases seeker with
  | onDisk =>
      cases found with
      | some path => exact h path rfl
      | none => exact True.intro
  | get locked =>
      cases found with
      | some path => exact h path rfl
      | none => cases locked <;> exact True.intro

/-- What one step of a call does: it may pin a commit, and goes on knowing what is pinned. -/
theorem statement_leads {outcome : Outcome}
    (hcommit : forall commit, s.pinned = some commit -> isCommit commit)
    (haccounts : Accounts s phase) (hkeeps : KeepsAt client s phase)
    (h : s.statement client name revision phase = some (t, outcome)) :
    Stays s t ∧ (forall commit, t.pinned = some commit -> isCommit commit) ∧
      t.calls = s.calls ∧ t.returned = s.returned ∧ Leads name t outcome := by
  have hsame : Stays s s := fun _ hpinned => hpinned
  cases phase with
  | lock file => cases h
  | pin after =>
      simp only [System.statement] at h
      have hafter : forall system, Accounts system (Phase.pinned after) := by
        intro system
        cases after with
        | give path => exact haccounts.elim
        | _ => exact True.intro
      split at h
      · cases h
        exact ⟨hsame, hcommit, rfl, rfl, hafter s⟩
      · split at h
        · next hrevision =>
            cases h
            exact ⟨stays_set s revision, isCommit_set hrevision hcommit, rfl, rfl, hafter _⟩
        · cases h
          refine ⟨hsame, hcommit, rfl, rfl, ?_⟩
          cases after with
          | give path => exact haccounts.elim
          | _ => exact True.intro
  | readRef after =>
      simp only [System.statement] at h
      split at h
      · next commit hnamed =>
          cases h
          refine ⟨hsame, hcommit, rfl, rfl, ?_⟩
          cases after with
          | give path => exact haccounts.elim
          | _ => exact isCommit_of_named hnamed
      · cases h
        refine ⟨hsame, hcommit, rfl, rfl, ?_⟩
        cases after with
        | give path => exact haccounts.elim
        | _ => exact True.intro
  | set commit after =>
      cases h
      have hthere : isCommit commit := by
        cases after with
        | give path => exact haccounts.1
        | _ => exact haccounts
      refine ⟨stays_set s commit, isCommit_set hthere hcommit, rfl, rfl, ?_⟩
      cases after with
      | give path =>
          show (s.set commit).pinned = some path.snapshot
          rw [← haccounts.2]
          rcases pinned_set (s := s) commit with hpinned | ⟨_, hset⟩
          · cases hold : s.pinned with
            | none =>
                unfold System.set
                rw [hold]
                rfl
            | some other =>
                rw [hpinned, hold, hkeeps other hold]
          · exact hset
      | _ => exact True.intro
  | pinned after =>
      cases after with
      | revision =>
          cases h
          refine ⟨hsame, hcommit, rfl, rfl, ?_⟩
          intro commit hpinned
          unfold System.at
          rw [hpinned]
          rfl
      | cached seeker file =>
          simp only [System.statement] at h
          split at h
          · next commit hpinned =>
              cases h
              exact ⟨hsame, hcommit, rfl, rfl, hpinned⟩
          · cases h
            exact ⟨hsame, hcommit, rfl, rfl, True.intro⟩
      | fetch file =>
          cases h
          exact ⟨hsame, hcommit, rfl, rfl, True.intro⟩
      | give path =>
          cases h
          exact ⟨hsame, hcommit, rfl, rfl, haccounts⟩
  | look commit seeker file =>
      cases h
      refine ⟨hsame, hcommit, rfl, rfl, leads_cached ?_⟩
      intro path hfound
      rcases Option.ite_none_right_eq_some.mp hfound with ⟨_, hentry⟩
      cases hentry
      exact haccounts
  | lookUp seeker file =>
      cases h
      exact ⟨hsame, hcommit, rfl, rfl, leads_cached hkeeps⟩
  | recordRef file => cases h
  | fetch asked file => cases h
  | pinFetched path =>
      have hthere : isCommit path.snapshot := haccounts
      simp only [System.statement] at h
      rw [if_pos hthere] at h
      cases h
      exact ⟨hsame, hcommit, rfl, rfl, hthere, rfl⟩

theorem inv_advance {id : Nat} {outcome : Outcome} (hinv : Inv name s)
    (hleads : Leads name s outcome) : Inv name (s.advance id outcome) := by
  cases outcome with
  | next phase =>
      exact
        { commit := hinv.commit
          calls := forall_moved hinv.calls hleads
          paths := hinv.paths
          named := hinv.named }
  | returns answer =>
      refine
        { commit := hinv.commit
          calls := fun entry hentry => hinv.calls entry (mem_dropParty hentry)
          paths := ?_
          named := ?_ }
      · intro path hpath
        rcases List.mem_append.mp hpath with hearlier | hnow
        · exact hinv.paths path hearlier
        · rw [← List.mem_singleton.mp hnow] at hleads
          exact hleads
      · refine List.pairwise_append.mpr ⟨hinv.named, List.pairwise_singleton _ _, ?_⟩
        rintro _ hearlier _ hnow path text rfl rfl
        rw [← List.mem_singleton.mp hnow] at hleads
        exact hleads path.snapshot (hinv.paths path hearlier)

theorem inv_stays (hinv : Inv name s) (hstays : Stays s t)
    (hcommit : forall commit, t.pinned = some commit -> isCommit commit)
    (hcalls : t.calls = s.calls) (hreturned : t.returned = s.returned) : Inv name t where
  commit := hcommit
  calls := by
    rw [hcalls]
    exact fun entry hentry => hstays.accounts (hinv.calls entry hentry)
  paths := by
    rw [hreturned]
    exact fun path hpath => hstays _ (hinv.paths path hpath)
  named := hreturned ▸ hinv.named

theorem inv_step :
    PreservedWhen (step client name revision) (KeepsPinned client) (Inv name) := by
  intro s action t hinv hkeeps hstep
  cases action with
  | others cache =>
      cases hstep
      exact inv_stays hinv (fun _ hpinned => hpinned) hinv.commit rfl rfl
  | start id call =>
      rcases Option.ite_none_left_eq_some.mp hstep with ⟨_, hnext⟩
      cases hnext
      refine { hinv with calls := ?_ }
      apply forall_joined
      · exact hinv.calls
      · cases call <;> exact True.intro
  | next id =>
      rcases Option.bind_eq_some_iff.mp hstep with ⟨phase, hphase, hmap⟩
      rcases Option.map_eq_some_iff.mp hmap with ⟨⟨moved, outcome⟩, hstatement, rfl⟩
      rcases statement_leads hinv.commit (hinv.calls _ (mem_of_partyOf hphase))
        (hkeeps phase hphase) hstatement with ⟨hstays, hcommit, hcalls, hreturned, hleads⟩
      exact inv_advance (inv_stays hinv hstays hcommit hcalls hreturned) hleads
  | lock id taken =>
      simp only [step, System.lock] at hstep
      split at hstep
      · next file _ =>
          rcases Option.ite_none_left_eq_some.mp hstep with ⟨_, hnext⟩
          cases hnext
          exact inv_advance hinv True.intro
      · cases hstep
  | remote id commit recorded =>
      simp only [step, System.remote] at hstep
      split at hstep
      · cases hstep
        refine inv_advance (inv_stays hinv ?_ hinv.commit rfl rfl) True.intro
        exact fun _ hpinned => hpinned
      · cases hstep
  | fetched id path =>
      simp only [step, System.fetched] at hstep
      split at hstep
      · next asked file _ =>
          split at hstep
          · cases hstep
            exact inv_advance hinv True.intro
          · next path =>
              rcases Option.ite_none_right_eq_some.mp hstep with ⟨hfetches, hnext⟩
              cases hnext
              exact inv_advance hinv hfetches.1
      · cases hstep

theorem inv_opened (cache : Cache) : Inv name (System.opened revision cache) where
  commit := by
    intro commit hpinned
    unfold System.opened at hpinned
    simp only at hpinned
    split at hpinned
    · next hrevision =>
        cases hpinned
        exact hrevision
    · exact isCommit_of_named hpinned
  calls := fun _ hentry => nomatch hentry
  paths := fun _ hpath => nomatch hpath
  named := List.Pairwise.nil

theorem Inv.oneCommit (h : Inv name s) : OneCommit name s where
  commit := fun path hpath => h.commit _ (h.paths path hpath)
  same := by
    intro path other hpath hother
    exact Option.some.inj ((h.paths path hpath).symm.trans (h.paths other hother))
  named := h.named

/--
In every run in which no file is found by the ref of a commit that is not pinned, and no other
commit is pinned before a fetched path's, the paths returned are under one commit.
-/
theorem one_commit {cache : Cache} {actions : List Action}
    (hkeeps : Along (step client name revision) (KeepsPinned client)
      (System.opened revision cache) actions)
    (hrun : RunFrom (step client name revision) (System.opened revision cache) actions = some t) :
    OneCommit name t :=
  (runFrom_preservedWhen inv_step (inv_opened cache) hkeeps hrun).oneCommit

end Calls

theorem isWhitespace_of_isHexDigit {c : Char} (h : isHexDigit c) :
    Topics.isWhitespace c = false := by
  have hcode : (48 <= c.toNat ∧ c.toNat <= 57) ∨ (97 <= c.toNat ∧ c.toNat <= 102) ∨
      (65 <= c.toNat ∧ c.toNat <= 70) := by
    simpa [isHexDigit, Char.isDigit, Char.le_def, UInt32.le_iff_toNat_le, or_assoc] using h
  simp only [Topics.isWhitespace, Bool.or_eq_false_iff, Bool.and_eq_false_iff,
    decide_eq_false_iff_not]
  omega

theorem commitOf_of_isCommit {commit : List Char} (h : isCommit commit) :
    commitOf commit = some commit := by
  have hdigits : forall c, c ∈ commit -> Topics.isWhitespace c = false := by
    intro c hc
    unfold isCommit at h
    exact isWhitespace_of_isHexDigit (List.all_eq_true.mp (Bool.and_eq_true_iff.mp h).2 c hc)
  have hstart : trimStart commit = commit := by
    apply List.dropWhile_eq_self_iff.mpr
    intro hlength
    rw [hdigits _ (List.getElem_mem hlength)]
    exact Bool.false_ne_true
  have hend : trimEnd commit = commit := by
    apply List.rdropWhile_eq_self_iff.mpr
    intro hne
    rw [hdigits _ (List.getLast_mem hne)]
    exact Bool.false_ne_true
  unfold commitOf
  rw [hstart, hend]
  exact if_pos h

/-!
## A ref that moves while files are looked up
-/

def plainClient : Client where
  lookUp := fun cache file =>
    (cache.named.map fun commit => { snapshot := commit, file := file }).filter
      fun path => path ∈ cache.entries
  found := by
    intro cache file path hfound
    rcases Option.filter_eq_some_iff.mp hfound with ⟨hnamed, hentry⟩
    rcases Option.map_eq_some_iff.mp hnamed with ⟨commit, hcommit, rfl⟩
    exact ⟨hcommit, rfl, of_decide_eq_true hentry⟩
  finds := by
    intro cache commit file href hcommit hentry
    have hnamed : cache.named = some commit := by
      unfold Cache.named
      rw [href]
      exact commitOf_of_isCommit hcommit
    rw [hnamed]
    exact Option.filter_eq_some_iff.mpr ⟨rfl, decide_eq_true hentry⟩

def oldCommit : List Char := List.replicate 40 'c'

def newCommit : List Char := List.replicate 40 'd'

def weights (commit : List Char) : Path := { snapshot := commit, file := ['w'] }

def tokens (commit : List Char) : Path := { snapshot := commit, file := ['t'] }

def movedSince : List Action :=
  [Action.start 0 (Call.get ['w']), Action.lock 0 true, Action.next 0, Action.next 0,
    Action.next 0, Action.next 0, Action.remote 0 (some oldCommit) true, Action.next 0,
    Action.next 0, Action.next 0, Action.next 0, Action.fetched 0 (some (weights oldCommit)),
    Action.next 0, Action.next 0, Action.next 0,
    Action.others { ref := some newCommit, entries := [weights oldCommit, tokens oldCommit] },
    Action.start 1 (Call.onDisk ['t']), Action.next 1, Action.next 1, Action.next 1,
    Action.start 2 Call.revision, Action.next 2, Action.next 2]

theorem one_commit_movedSince :
    Along (step plainClient ['m'] ['r']) (KeepsPinned plainClient)
        (System.opened ['r'] { ref := none, entries := [] }) movedSince ∧
      exists t, RunFrom (step plainClient ['m'] ['r'])
          (System.opened ['r'] { ref := none, entries := [] }) movedSince = some t ∧
        OneCommit ['m'] t :=
  have hkeeps : Along (step plainClient ['m'] ['r']) (KeepsPinned plainClient)
      (System.opened ['r'] { ref := none, entries := [] }) movedSince := by decide
  ⟨hkeeps, _, rfl, one_commit hkeeps rfl⟩

/-- A ref is written between `pin` and the client's look-up, and moves before the next file. -/
def writtenBetween : List Action :=
  [Action.start 0 (Call.onDisk ['t']), Action.next 0, Action.next 0, Action.next 0,
    Action.others { ref := some oldCommit, entries := [tokens oldCommit] }, Action.next 0,
    Action.others { ref := some newCommit, entries := [tokens oldCommit, weights newCommit] },
    Action.start 1 (Call.onDisk ['w']), Action.next 1, Action.next 1, Action.next 1,
    Action.next 1, Action.next 1]

theorem written_between_is_another_commit :
    ¬ forall actions t, RunFrom (step plainClient ['m'] ['r'])
        (System.opened ['r'] { ref := none, entries := [] }) actions = some t ->
      OneCommit ['m'] t := by
  intro hclaim
  have h := (hclaim writtenBetween _ rfl).same (tokens oldCommit) (weights newCommit)
  exact absurd (h (by decide) (by decide)) (by decide)

end Hub
end PaminMemory
