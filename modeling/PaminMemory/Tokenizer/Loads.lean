import PaminMemory.Foundation.Runs
import PaminMemory.Tokenizer.Loading

/-!
# What is loaded

Whatever processes begin, write and leave unfinished, each tokenizer that is loaded has the model
its section describes, as though no trie were stored, and a process has no two vocabularies of one
key in use.
-/

namespace PaminMemory
namespace Tokenizer

open Foundation
open Reranking (Digest NoCollision)

structure Genuine {Other : Type} (tools : Tools Other) (layout : Layout) (sections : Set Json)
    (hashed : List (List UInt8)) (key : Digest) (described : Json) (bytes : List UInt8) : Prop where
  mem : described ∈ sections
  named : tools.write described ∈ hashed
  key : tools.sha256 (tools.write described) = key
  built : Loaded.built layout described none = some bytes
  summed : bytes ∈ hashed

/-- What was put in the place of a trie is that trie, or something no beginning of which has its
own digest in front. -/
def Honest {Other : Type} (tools : Tools Other) (layout : String -> Layout) (sections : Set Json)
    (hashed : List (List UInt8)) (place : Place) (content : List UInt8) : Prop :=
  match place with
  | Place.beside _ _ _ _ => True
  | Place.trie key format =>
      (exists described bytes, Genuine tools (layout format) sections hashed key described bytes ∧
        content = sealed tools.sha256 bytes) ∨
      forall n, ¬Sealed tools.sha256 (content.take n)

/-- The section under the lock was hashed, and no vocabulary of it is in use. -/
structure Asked {Other : Type} (tools : Tools Other) (sections : Set Json)
    (hashed : List (List UInt8)) (loaded : List (Entry Other)) (model : Json) : Prop where
  mem : canonical model ∈ sections
  named : tools.write (canonical model) ∈ hashed
  missing : forall entry, entry ∈ inUse loaded -> entry.key ≠ keyOf tools model

def Listed {Other : Type} (tools : Tools Other) (layout : Layout) (sections : Set Json)
    (hashed : List (List UInt8)) (entry : Entry Other) : Prop :=
  exists described, described ∈ sections ∧ tools.write described ∈ hashed ∧
    tools.sha256 (tools.write described) = entry.key ∧
    Loaded.new tools layout described none = some entry.model

/-- What holds of a process while it loads. -/
structure Standing {Other : Type} (tools : Tools Other) (layout : String -> Layout)
    (sections : Set Json) (disk : Disk Place) (hashed : List (List UInt8)) (pid : Nat)
    (process : Process Other) : Prop where
  listed : forall entry, entry ∈ process.loaded ->
    Listed tools (layout process.format) sections hashed entry
  once : ((inUse process.loaded).map Entry.key).Nodup
  looking : forall model, process.phase = Phase.looking model ->
    canonical model ∈ sections ∧ tools.write (canonical model) ∈ hashed ∧
      (process.loaded.map Entry.key).Nodup
  missing : forall model, process.phase = Phase.missing model ->
    Asked tools sections hashed process.loaded model
  keeping : forall model bytes written, process.phase = Phase.keeping model bytes written ->
    Asked tools sections hashed process.loaded model ∧
      Genuine tools (layout process.format) sections hashed (keyOf tools model) (canonical model)
        bytes
  /-- So much of the trie is in the file beside its place, unless that was removed. -/
  beside : forall model bytes written content,
    process.phase = Phase.keeping model bytes (some written) ->
      disk.files (process.besides tools pid model) = some content ->
        content = (sealed tools.sha256 bytes).take written

/-- What is loaded is told apart by how it is written; what others put in the place of a trie,
whole or cut off, has not its own digest in front. -/
def Permitted {Other : Type} (tools : Tools Other) (sections : Set Json) : Action -> Prop
  | Action.load _ model => canonical model ∈ sections
  | Action.spoil _ _ content => forall n, ¬Sealed tools.sha256 (content.take n)
  | _ => True

structure Sound {Other : Type} (tools : Tools Other) (layout : String -> Layout)
    (sections : Set Json) (machine : Machine Other) : Prop where
  disk : machine.disk.Held (Honest tools layout sections machine.hashed)
  processes : forall pid process, machine.processes pid = some process ->
    Standing tools layout sections machine.disk machine.hashed pid process
  given : forall given, given ∈ machine.given ->
    given.result = Loaded.describedBy tools (layout given.format) given.model

/-!
## What is read from a stored trie
-/

section Reading

variable {Other : Type} {tools : Tools Other} {layout : String -> Layout} {sections : Set Json}
  {hashed : List (List UInt8)}

theorem Genuine.grown {layout : Layout} {more : List (List UInt8)} {key : Digest}
    {described : Json} {bytes : List UInt8} (hmore : hashed ⊆ more)
    (h : Genuine tools layout sections hashed key described bytes) :
    Genuine tools layout sections more key described bytes where
  mem := h.mem
  named := hmore h.named
  key := h.key
  built := h.built
  summed := hmore h.summed

theorem Honest.grown {more : List (List UInt8)} {place : Place} {content : List UInt8}
    (hmore : hashed ⊆ more) (h : Honest tools layout sections hashed place content) :
    Honest tools layout sections more place content := by
  cases place with
  | beside key stem pid number => exact True.intro
  | trie key format =>
      rcases h with ⟨described, bytes, hgenuine, hcontent⟩ | hnot
      · exact Or.inl ⟨described, bytes, hgenuine.grown hmore, hcontent⟩
      · exact Or.inr hnot

theorem Listed.grown {layout : Layout} {more : List (List UInt8)} {entry : Entry Other}
    (hmore : hashed ⊆ more) (h : Listed tools layout sections hashed entry) :
    Listed tools layout sections more entry := by
  rcases h with ⟨described, hmem, hnamed, hkey, hmodel⟩
  exact ⟨described, hmem, hmore hnamed, hkey, hmodel⟩

theorem eq_canonical (hwrite : Set.InjOn tools.write sections)
    (hapart : NoCollision tools.sha256 hashed) {described model : Json}
    (hdescribed : described ∈ sections ∧ tools.write described ∈ hashed)
    (hmodel : canonical model ∈ sections ∧ tools.write (canonical model) ∈ hashed)
    (hkey : tools.sha256 (tools.write described) = keyOf tools model) :
    described = canonical model :=
  hwrite hdescribed.1 hmodel.1 (hapart _ hdescribed.2 _ hmodel.2 hkey)

theorem bytes_of_sealed (hapart : NoCollision tools.sha256 hashed) {bytes content : List UInt8}
    (hbytes : bytes ∈ hashed) (hcontent : content.drop 32 ∈ hashed)
    (hbegins : content <+: sealed tools.sha256 bytes) (hsealed : Sealed tools.sha256 content) :
    content.drop 32 = bytes := by
  unfold Sealed at hsealed
  have hlength : (content.take 32).length = 32 := by
    rw [hsealed]
    exact (tools.sha256 (content.drop 32)).property
  have hdigest : content.take 32 = (tools.sha256 bytes).val := by
    have htake : content.take 32 <+: (tools.sha256 bytes).val :=
      List.prefix_of_prefix_length_le ((List.take_prefix 32 content).trans hbegins)
        (List.prefix_append _ _) (by rw [hlength, (tools.sha256 bytes).property])
    exact htake.eq_of_length (by rw [hlength, (tools.sha256 bytes).property])
  apply hapart _ hcontent _ hbytes
  exact Subtype.ext (hsealed.symm.trans hdigest)

theorem opened_of_readTrie (hwrite : Set.InjOn tools.write sections)
    (hapart : NoCollision tools.sha256 hashed) {disk : Disk Place} {format : String} {model : Json}
    {content : List UInt8} {trie : Trie}
    (hheld : disk.Held (Honest tools layout sections hashed))
    (hmodel : canonical model ∈ sections ∧ tools.write (canonical model) ∈ hashed)
    (hcontent : content.drop 32 ∈ hashed)
    (hfile : disk.files (Place.trie (keyOf tools model) format) = some content)
    (hread : readTrie tools.sha256 (layout format) (some content) = some trie) :
    exists bytes, Loaded.built (layout format) (canonical model) none = some bytes ∧
      (layout format).opened bytes = some trie := by
  rcases Option.ite_none_right_eq_some.mp hread with ⟨hsealed, hopened⟩
  rcases hheld.begins hfile with ⟨whole, ⟨described, bytes, hgenuine, hwhole⟩ | hnot, hbegins⟩
  · have hsame : described = canonical model :=
      eq_canonical hwrite hapart ⟨hgenuine.mem, hgenuine.named⟩ hmodel hgenuine.key
    rw [hwhole] at hbegins
    have hbytes : content.drop 32 = bytes :=
      bytes_of_sealed hapart hgenuine.summed hcontent hbegins hsealed
    rw [hbytes] at hopened
    exact ⟨bytes, hsame ▸ hgenuine.built, hopened⟩
  · have htake : content = whole.take content.length := List.prefix_iff_eq_take.mp hbegins
    rw [htake] at hsealed
    exact absurd hsealed (hnot content.length)

theorem new_found (hwrite : Set.InjOn tools.write sections)
    (hapart : NoCollision tools.sha256 hashed) {machine : Machine Other} {format : String}
    {model : Json} {keeps : Bool}
    (hheld : machine.disk.Held (Honest tools layout sections hashed))
    (hmodel : canonical model ∈ sections ∧ tools.write (canonical model) ∈ hashed)
    (hcontent : forall content, machine.found tools format model keeps = some content ->
      content.drop 32 ∈ hashed) :
    Loaded.new tools (layout format) (canonical model)
        (readTrie tools.sha256 (layout format) (machine.found tools format model keeps)) =
      Loaded.describedBy tools (layout format) model := by
  rw [← new_canonical]
  cases hread : readTrie tools.sha256 (layout format) (machine.found tools format model keeps) with
  | none => rfl
  | some trie =>
      cases hfound : machine.found tools format model keeps with
      | none =>
          rw [hfound] at hread
          cases hread
      | some content =>
          rw [hfound] at hread
          have hfile : machine.disk.files (Place.trie (keyOf tools model) format) = some content :=
            (Option.ite_none_right_eq_some.mp hfound).2
          rcases opened_of_readTrie hwrite hapart hheld hmodel (hcontent content hfound) hfile
            hread with ⟨bytes, hbuilt, hopened⟩
          exact new_stored hbuilt hopened

end Reading

/-!
## What a step leaves of a process
-/

section Processes

variable {Other : Type} {tools : Tools Other} {layout : String -> Layout} {sections : Set Json}
  {disk after : Disk Place} {hashed more : List (List UInt8)} {pid : Nat}
  {process : Process Other} {model : Json}

theorem Asked.grown {loaded : List (Entry Other)} (hmore : hashed ⊆ more)
    (h : Asked tools sections hashed loaded model) : Asked tools sections more loaded model where
  mem := h.mem
  named := hmore h.named
  missing := h.missing

theorem Standing.grown (h : Standing tools layout sections disk hashed pid process)
    (hmore : hashed ⊆ more)
    (hfiles : forall key stem number content,
      after.files (Place.beside key stem pid number) = some content ->
        disk.files (Place.beside key stem pid number) = some content) :
    Standing tools layout sections after more pid process where
  listed := fun entry hentry => (h.listed entry hentry).grown hmore
  once := h.once
  looking := by
    intro model hphase
    rcases h.looking model hphase with ⟨hmem, hnamed, honce⟩
    exact ⟨hmem, hmore hnamed, honce⟩
  missing := fun model hphase => (h.missing model hphase).grown hmore
  keeping := by
    intro model bytes written hphase
    rcases h.keeping model bytes written hphase with ⟨hasked, hgenuine⟩
    exact ⟨hasked.grown hmore, hgenuine.grown hmore⟩
  beside := by
    intro model bytes written content hphase hfile
    exact h.beside model bytes written content hphase (hfiles _ _ _ _ hfile)

theorem Standing.resting (hphase : process.phase = Phase.idle)
    (hlisted : forall entry, entry ∈ process.loaded ->
      Listed tools (layout process.format) sections hashed entry)
    (honce : ((inUse process.loaded).map Entry.key).Nodup) :
    Standing tools layout sections disk hashed pid process where
  listed := hlisted
  once := honce
  looking := by
    intro model hother
    cases hphase.symm.trans hother
  missing := by
    intro model hother
    cases hphase.symm.trans hother
  keeping := by
    intro model bytes written hother
    cases hphase.symm.trans hother
  beside := by
    intro model bytes written content hother
    cases hphase.symm.trans hother

theorem Standing.at {after : Disk Place} {phase : Phase} {writes : Nat}
    (h : Standing tools layout sections disk hashed pid process)
    (hlooking : forall model, phase ≠ Phase.looking model)
    (hmissing : forall model, phase = Phase.missing model ->
      Asked tools sections hashed process.loaded model)
    (hkeeping : forall model bytes written, phase ≠ Phase.keeping model bytes written) :
    Standing tools layout sections after hashed pid
      { process with writes := writes, phase := phase } where
  listed := h.listed
  once := h.once
  looking := fun model hphase => absurd hphase (hlooking model)
  missing := hmissing
  keeping := fun model bytes written hphase => absurd hphase (hkeeping model bytes written)
  beside := fun model bytes written _ hphase => absurd hphase (hkeeping model bytes (some written))

theorem Standing.writing {after : Disk Place} {bytes : List UInt8} {written : Option Nat}
    {more : Nat} (h : Standing tools layout sections disk hashed pid process)
    (hphase : process.phase = Phase.keeping model bytes written)
    (hfile : forall content, after.files (process.besides tools pid model) = some content ->
      content = (sealed tools.sha256 bytes).take more) :
    Standing tools layout sections after hashed pid
      { process with phase := Phase.keeping model bytes (some more) } where
  listed := h.listed
  once := h.once
  looking := by
    intro other hother
    cases hother
  missing := by
    intro other hother
    cases hother
  keeping := by
    intro other others now hnow
    cases hnow
    exact h.keeping model bytes written hphase
  beside := by
    intro other others now content hnow hthere
    cases hnow
    exact hfile content hthere

theorem inUse_append {loaded : List (Entry Other)} {entry : Entry Other}
    (h : 0 < entry.users) : inUse (loaded ++ [entry]) = inUse loaded ++ [entry] := by
  unfold inUse
  rw [List.filter_append]
  simp [h]

theorem Standing.settled {after : Disk Place} {result : Option (Loaded Other)}
    (h : Standing tools layout sections disk hashed pid process)
    (hasked : Asked tools sections hashed process.loaded model)
    (hresult : result = Loaded.new tools (layout process.format) (canonical model) none) :
    Standing tools layout sections after hashed pid
      { process with
        loaded := process.loaded ++ (result.map fun loaded =>
          ({ key := keyOf tools model, model := loaded, users := 1 } : Entry Other)).toList
        phase := Phase.idle } := by
  have hstands : Standing tools layout sections after hashed pid
      { process with phase := Phase.idle } :=
    h.at (fun _ hphase => by cases hphase) (fun _ hphase => by cases hphase)
      (fun _ _ _ hphase => by cases hphase)
  cases result with
  | none =>
      rw [Option.map_none, Option.toList_none, List.append_nil]
      exact hstands
  | some loaded =>
      rw [Option.map_some, Option.toList_some]
      apply Standing.resting rfl
      · intro entry hentry
        rcases List.mem_append.mp hentry with hbefore | hnew
        · exact h.listed entry hbefore
        · rw [List.mem_singleton.mp hnew]
          exact ⟨canonical model, hasked.mem, hasked.named, rfl, hresult.symm⟩
      · rw [inUse_append Nat.one_pos, List.map_append]
        refine List.nodup_append.mpr ⟨h.once, List.nodup_singleton _, ?_⟩
        intro key hkey new hnew hsame
        rcases List.mem_map.mp hkey with ⟨entry, hentry, rfl⟩
        rw [List.mem_singleton.mp hnew] at hsame
        exact hasked.missing entry hentry hsame

theorem mem_inUse {entry : Entry Other} {loaded : List (Entry Other)} (h : entry ∈ inUse loaded) :
    entry ∈ loaded :=
  (List.mem_filter.mp h).1

theorem Standing.looked (h : Standing tools layout sections disk hashed pid process)
    (hmodel : canonical model ∈ sections) (hnamed : tools.write (canonical model) ∈ hashed) :
    Standing tools layout sections disk hashed pid
      { process with loaded := inUse process.loaded, phase := Phase.looking model } where
  listed := fun entry hentry => h.listed entry (mem_inUse hentry)
  once := h.once.sublist (List.filter_sublist.map Entry.key)
  looking := by
    intro other hother
    cases hother
    exact ⟨hmodel, hnamed, h.once⟩
  missing := by
    intro other hother
    cases hother
  keeping := by
    intro other bytes written hother
    cases hother
  beside := by
    intro other bytes written content hother
    cases hother

/-!
## Entries of which only the users change
-/

section Counted

variable {loaded : List (Entry Other)} {users : Entry Other -> Nat} {key : Digest}

theorem keys_counted :
    (loaded.map fun entry =>
      if entry.key = key then { entry with users := users entry } else entry).map Entry.key =
      loaded.map Entry.key := by
  rw [List.map_map]
  apply List.map_congr_left
  intro entry _
  rw [Function.comp_apply]
  split
  · rfl
  · rfl

theorem listed_counted {layout : Layout}
    (h : forall entry, entry ∈ loaded -> Listed tools layout sections hashed entry) :
    forall entry, entry ∈ (loaded.map fun entry =>
      if entry.key = key then { entry with users := users entry } else entry) ->
        Listed tools layout sections hashed entry := by
  intro entry hentry
  rcases List.mem_map.mp hentry with ⟨before, hbefore, rfl⟩
  split
  · exact h before hbefore
  · exact h before hbefore

theorem inUse_released :
    ((inUse (released key loaded)).map Entry.key).Sublist ((inUse loaded).map Entry.key) := by
  have hfewer : (inUse (released key loaded)).Sublist (released key (inUse loaded)) := by
    unfold inUse released
    rw [List.filter_map]
    apply List.Sublist.map
    apply List.monotone_filter_right
    intro entry hentry
    have hleft := of_decide_eq_true hentry
    dsimp only at hleft
    split at hleft
    · exact decide_eq_true (Nat.lt_of_lt_of_le hleft (Nat.sub_le _ _))
    · exact decide_eq_true hleft
  have hkeys := hfewer.map Entry.key
  rwa [show (released key (inUse loaded)).map Entry.key = (inUse loaded).map Entry.key from
    keys_counted] at hkeys

theorem Asked.released (h : Asked tools sections hashed loaded model) :
    Asked tools sections hashed (released key loaded) model where
  mem := h.mem
  named := h.named
  missing := by
    intro entry hentry hkey
    rcases List.mem_map.mp (inUse_released.subset (List.mem_map_of_mem hentry)) with
      ⟨before, hbefore, hsame⟩
    exact h.missing before hbefore (hsame.trans hkey)

end Counted

theorem Standing.released {key : Digest}
    (h : Standing tools layout sections disk hashed pid process) :
    Standing tools layout sections disk hashed pid
      { process with loaded := released key process.loaded } where
  listed := listed_counted h.listed
  once := h.once.sublist inUse_released
  looking := by
    intro model hphase
    rcases h.looking model hphase with ⟨hmem, hnamed, honce⟩
    refine ⟨hmem, hnamed, ?_⟩
    change ((process.loaded.map _).map Entry.key).Nodup
    rwa [keys_counted]
  missing := fun model hphase => (h.missing model hphase).released
  keeping := by
    intro model bytes written hphase
    rcases h.keeping model bytes written hphase with ⟨hasked, hgenuine⟩
    exact ⟨hasked.released, hgenuine⟩
  beside := h.beside

theorem Standing.taken (h : Standing tools layout sections disk hashed pid process)
    (hphase : process.phase = Phase.looking model) :
    Standing tools layout sections disk hashed pid
      { process with
        loaded := taken (keyOf tools model) process.loaded
        phase := Phase.idle } := by
  apply Standing.resting rfl (listed_counted h.listed)
  apply List.Nodup.sublist (List.filter_sublist.map Entry.key)
  change ((process.loaded.map _).map Entry.key).Nodup
  rw [keys_counted]
  exact (h.looking model hphase).2.2

theorem Standing.asked (h : Standing tools layout sections disk hashed pid process)
    (hphase : process.phase = Phase.looking model)
    (hfind : (process.loaded.find? fun entry => entry.key = keyOf tools model).filter
      (fun entry => 0 < entry.users) = none) :
    Asked tools sections hashed process.loaded model := by
  rcases h.looking model hphase with ⟨hmem, hnamed, honce⟩
  refine ⟨hmem, hnamed, ?_⟩
  intro entry hentry hkey
  rcases List.mem_filter.mp hentry with ⟨hlisted, hheld⟩
  have hfound : (process.loaded.find? fun entry => entry.key = keyOf tools model) =
      some entry := by
    cases hfirst : process.loaded.find? fun entry => entry.key = keyOf tools model with
    | none => exact absurd (decide_eq_true hkey) (List.find?_eq_none.mp hfirst entry hlisted)
    | some first =>
        have hthere : first.key = keyOf tools model := by simpa using List.find?_some hfirst
        have hsame : first.key = entry.key := hthere.trans hkey.symm
        rw [List.inj_on_of_nodup_map honce (List.mem_of_find?_eq_some hfirst) hlisted hsame]
  exact Option.filter_eq_none_iff.mp hfind entry hfound hheld

end Processes

/-!
## What a step leaves of the machine
-/

section Steps

variable {Other : Type} {tools : Tools Other} {layout : String -> Layout} {sections : Set Json}
  {machine after : Machine Other} {pid : Nat} {process : Process Other} {model : Json}

theorem Sound.changed {new : Option (Process Other)} (h : Sound tools layout sections machine)
    (hmore : machine.hashed ⊆ after.hashed)
    (hprocesses : after.processes = Function.update machine.processes pid new)
    (hdisk : after.disk.Held (Honest tools layout sections after.hashed))
    (hfiles : forall key stem other number content, other ≠ pid ->
      after.disk.files (Place.beside key stem other number) = some content ->
        machine.disk.files (Place.beside key stem other number) = some content)
    (hnew : forall process, new = some process ->
      Standing tools layout sections after.disk after.hashed pid process)
    (hgiven : forall given, given ∈ after.given ->
      given.result = Loaded.describedBy tools (layout given.format) given.model) :
    Sound tools layout sections after where
  disk := hdisk
  processes := by
    intro other process hprocess
    rw [hprocesses, Function.update_apply] at hprocess
    split at hprocess
    · next hsame =>
        rw [hsame]
        exact hnew process hprocess
    · next hother =>
        exact (h.processes other process hprocess).grown hmore
          (fun key stem number content => hfiles key stem other number content hother)
  given := hgiven

theorem Sound.held (h : Sound tools layout sections machine) {more : List (List UInt8)}
    (hmore : machine.hashed ⊆ more) : machine.disk.Held (Honest tools layout sections more) :=
  h.disk.imp fun _ _ honest => honest.grown hmore

theorem given_cons {past : List (Given Other)} {given : Given Other}
    (h : forall given, given ∈ past ->
      given.result = Loaded.describedBy tools (layout given.format) given.model)
    (hhere : given.result = Loaded.describedBy tools (layout given.format) given.model) :
    forall other, other ∈ given :: past ->
      other.result = Loaded.describedBy tools (layout other.format) other.model := by
  intro other hother
  rcases List.mem_cons.mp hother with rfl | hbefore
  · exact hhere
  · exact h other hbefore

theorem sound_load (hmodel : canonical model ∈ sections) (h : Sound tools layout sections machine)
    (hprocess : machine.processes pid = some process) :
    Sound tools layout sections (machine.load tools pid process model) := by
  have hmore : machine.hashed ⊆ tools.write (canonical model) :: machine.hashed :=
    List.subset_cons_self _ _
  refine h.changed hmore rfl (h.held hmore) (fun _ _ _ _ _ _ hfile => hfile) ?_ h.given
  intro new hnew
  cases hnew
  exact ((h.processes pid process hprocess).grown hmore fun _ _ _ _ hfile => hfile).looked hmodel
    List.mem_cons_self

theorem sound_look (hwrite : Set.InjOn tools.write sections)
    (h : Sound tools layout sections machine) (hapart : NoCollision tools.sha256 machine.hashed)
    (hprocess : machine.processes pid = some process)
    (hphase : process.phase = Phase.looking model) :
    Sound tools layout sections (machine.look tools pid process model) := by
  have hsubset : machine.hashed ⊆ machine.hashed := List.Subset.refl _
  have hstands := h.processes pid process hprocess
  rcases hstands.looking model hphase with ⟨hmem, hnamed, _⟩
  unfold Machine.look
  cases hfind : (process.loaded.find? fun entry => entry.key = keyOf tools model).filter
      fun entry => 0 < entry.users with
  | some entry =>
      simp only [hfind]
      refine h.changed hsubset rfl h.disk (fun _ _ _ _ _ _ hfile => hfile) ?_ ?_
      · intro new hnew
        cases hnew
        exact hstands.taken hphase
      · apply given_cons h.given
        have hfirst := (Option.filter_eq_some_iff.mp hfind).1
        have hkey : entry.key = keyOf tools model := by simpa using List.find?_some hfirst
        rcases hstands.listed entry (List.mem_of_find?_eq_some hfirst) with
          ⟨described, hthere, hwritten, hsummed, hbuilt⟩
        have hsame : described = canonical model :=
          eq_canonical hwrite hapart ⟨hthere, hwritten⟩ ⟨hmem, hnamed⟩ (hsummed.trans hkey)
        rw [hsame, new_canonical] at hbuilt
        exact hbuilt.symm
  | none =>
      simp only [hfind]
      refine h.changed hsubset rfl h.disk (fun _ _ _ _ _ _ hfile => hfile) ?_ h.given
      intro new hnew
      cases hnew
      refine hstands.at (fun _ hother => by cases hother) ?_ (fun _ _ _ hother => by cases hother)
      intro other hother
      cases hother
      exact hstands.asked hphase hfind

theorem sound_settle {disk : Disk Place} {result : Option (Loaded Other)}
    (h : Sound tools layout sections machine)
    (hheld : disk.Held (Honest tools layout sections machine.hashed))
    (hfiles : forall key stem other number content, other ≠ pid ->
      disk.files (Place.beside key stem other number) = some content ->
        machine.disk.files (Place.beside key stem other number) = some content)
    (hprocess : Standing tools layout sections machine.disk machine.hashed pid process)
    (hasked : Asked tools sections machine.hashed process.loaded model)
    (hresult : result = Loaded.describedBy tools (layout process.format) model) :
    Sound tools layout sections
      ({ machine with disk := disk }.settle pid process (keyOf tools model) model result) := by
  refine h.changed (List.Subset.refl _) rfl hheld hfiles ?_ (given_cons h.given hresult)
  intro new hnew
  cases hnew
  exact hprocess.settled hasked (hresult.trans (new_canonical _ _ _).symm)

theorem Sound.summed {more : List (List UInt8)} (h : Sound tools layout sections machine)
    (hmore : machine.hashed ⊆ more) :
    Sound tools layout sections { machine with hashed := more } where
  disk := h.held hmore
  processes := fun pid process hprocess =>
    (h.processes pid process hprocess).grown hmore fun _ _ _ _ hfile => hfile
  given := h.given

theorem built_none {layout : Layout} {described : Json} {stored : Option Trie}
    {bytes : List UInt8} (h : Loaded.built layout described stored = some bytes) :
    Loaded.built layout described none = some bytes := by
  cases stored with
  | none => exact h
  | some trie =>
      unfold Loaded.built at h
      cases hheld : Described.held described with
      | none =>
          rw [hheld] at h
          cases h
      | some read =>
          rw [hheld] at h
          cases h

theorem sound_build {keeps : Bool} (hwrite : Set.InjOn tools.write sections)
    (h : Sound tools layout sections machine)
    (hapart : NoCollision tools.sha256
      (machine.build tools layout pid process model keeps).hashed)
    (hprocess : machine.processes pid = some process)
    (hphase : process.phase = Phase.missing model) :
    Sound tools layout sections (machine.build tools layout pid process model keeps) := by
  have hread : Sound tools layout sections
      (machine.summing (machine.found tools process.format model keeps)) :=
    h.summed (List.subset_append_right _ _)
  have hstands := hread.processes pid process hprocess
  have hasked := hstands.missing model hphase
  have hsettles : NoCollision tools.sha256
      (machine.summing (machine.found tools process.format model keeps)).hashed ->
        Sound tools layout sections
          ((machine.summing (machine.found tools process.format model keeps)).settle pid process
            (keyOf tools model) model
            (Loaded.new tools (layout process.format) (canonical model)
              (readTrie tools.sha256 (layout process.format)
                (machine.found tools process.format model keeps)))) := by
    intro hapart
    apply sound_settle hread hread.disk (fun _ _ _ _ _ _ hfile => hfile) hstands hasked
    refine @new_found _ _ _ _ _ hwrite hapart machine _ _ _ hread.disk ⟨hasked.mem, hasked.named⟩ ?_
    intro content hcontent
    rw [hcontent]
    exact List.mem_append_left _ (List.mem_singleton_self _)
  unfold Machine.build at hapart ⊢
  cases hbuilt : Loaded.built (layout process.format) (canonical model)
      (readTrie tools.sha256 (layout process.format)
        (machine.found tools process.format model keeps)) with
  | none =>
      simp only [hbuilt] at hapart ⊢
      exact hsettles hapart
  | some bytes =>
      cases keeps with
      | false =>
          simp only [hbuilt] at hapart ⊢
          exact hsettles hapart
      | true =>
          simp only [hbuilt] at hapart ⊢
          refine hread.changed (List.subset_cons_self _ _) rfl
            (hread.held (List.subset_cons_self _ _)) (fun _ _ _ _ _ _ hfile => hfile) ?_ h.given
          intro new hnew
          cases hnew
          have hgrown : Standing tools layout sections machine.disk
              (bytes :: (machine.summing (machine.found tools process.format model true)).hashed)
              pid process :=
            hstands.grown (List.subset_cons_self bytes _) fun _ _ _ _ hfile => hfile
          constructor
          · exact hgrown.listed
          · exact hgrown.once
          · intro other hother
            cases hother
          · intro other hother
            cases hother
          · intro other others written hother
            cases hother
            exact ⟨hasked.grown (List.subset_cons_self _ _), hasked.mem,
              List.mem_cons_of_mem _ hasked.named, rfl, built_none hbuilt, List.mem_cons_self⟩
          · intro other others written content hother
            cases hother

/-!
## What others write beside a place
-/

section Beside

variable {disk renamed : Disk Place} {key : Digest} {stem : String} {other number : Nat}
  {content found : List UInt8}

theorem put_besides (hother : other ≠ pid) :
    (disk.put (process.besides tools pid model) content).files
        (Place.beside key stem other number) = disk.files (Place.beside key stem other number) := by
  apply Disk.put_files_of_ne
  intro hsame
  cases hsame
  exact hother rfl

theorem of_remove {place target : Place} (h : (disk.remove place).files target = some found) :
    disk.files target = some found := by
  rw [Disk.remove_files] at h
  exact (Option.ite_none_left_eq_some.mp h).2

theorem of_rename {source : Place} {format : String} {target : Digest}
    (hrename : disk.rename source (Place.trie target format) = some renamed)
    (h : renamed.files (Place.beside key stem other number) = some found) :
    disk.files (Place.beside key stem other number) = some found := by
  rcases Option.map_eq_some_iff.mp hrename with ⟨moved, _, rfl⟩
  rw [Disk.put_files_of_ne (by intro hsame; cases hsame)] at h
  exact of_remove h

end Beside

theorem honest_besides {bytes content : List UInt8}
    (hstands : Standing tools layout sections machine.disk machine.hashed pid process)
    (hphase : process.phase =
      Phase.keeping model bytes (some (sealed tools.sha256 bytes).length))
    (hfile : machine.disk.files (process.besides tools pid model) = some content) :
    Honest tools layout sections machine.hashed (Place.trie (keyOf tools model) process.format)
      content := by
  have hcontent := hstands.beside model bytes _ content hphase hfile
  rw [List.take_length] at hcontent
  exact Or.inl ⟨canonical model, bytes, (hstands.keeping model bytes _ hphase).2, hcontent⟩

theorem hashed_look : (machine.look tools pid process model).hashed = machine.hashed := by
  simp only [Machine.look]
  split
  · rfl
  · rfl

theorem hashed_build {keeps : Bool} :
    machine.hashed ⊆ (machine.build tools layout pid process model keeps).hashed := by
  simp only [Machine.build]
  have hsumming : machine.hashed ⊆
      (machine.summing (machine.found tools process.format model keeps)).hashed :=
    List.subset_append_right _ _
  split
  · exact fun bytes hbytes => List.mem_cons_of_mem _ (hsumming hbytes)
  · exact hsumming

/-!
## One step
-/

/-- A step forgets nothing that was hashed, and keeps a machine sound while no two collide. -/
structure Keeps (tools : Tools Other) (layout : String -> Layout) (sections : Set Json)
    (machine after : Machine Other) : Prop where
  hashed : machine.hashed ⊆ after.hashed
  sound : Sound tools layout sections machine -> NoCollision tools.sha256 after.hashed ->
    Sound tools layout sections after

theorem advance_keeps {action : Action} (hwrite : Set.InjOn tools.write sections)
    (hallowed : Permitted tools sections action)
    (hprocess : machine.processes pid = some process)
    (hstep : advance tools layout machine pid process action = some after) :
    Keeps tools layout sections machine after := by
  have hsubset : machine.hashed ⊆ machine.hashed := List.Subset.refl _
  cases action with
  | load number model =>
      simp only [advance] at hstep
      split at hstep
      · cases hstep
        exact ⟨List.subset_cons_self _ _, fun h _ => sound_load hallowed h hprocess⟩
      · cases hstep
  | look number =>
      simp only [advance] at hstep
      split at hstep
      · next model hphase =>
          cases hstep
          refine ⟨hashed_look ▸ hsubset, fun h hapart => ?_⟩
          rw [hashed_look] at hapart
          exact sound_look hwrite h hapart hprocess hphase
      · cases hstep
  | build number keeps =>
      simp only [advance] at hstep
      split at hstep
      · next model hphase =>
          cases hstep
          exact ⟨hashed_build, fun h hapart => sound_build hwrite h hapart hprocess hphase⟩
      · cases hstep
  | create number =>
      simp only [advance] at hstep
      split at hstep
      · next model bytes hphase =>
          cases hstep
          refine ⟨hsubset, fun h _ => ?_⟩
          refine h.changed hsubset rfl (Disk.held_put h.disk True.intro) ?_ ?_ h.given
          · intro key stem other count content hother hfile
            rwa [put_besides hother] at hfile
          · intro new hnew
            cases hnew
            refine (h.processes pid process hprocess).writing hphase ?_
            intro content hfile
            rw [Process.besides, Disk.put_files_self] at hfile
            cases hfile
            rfl
      · cases hstep
  | extend number more =>
      simp only [advance] at hstep
      split at hstep
      · next model bytes written hphase =>
          cases hstep
          refine ⟨hsubset, fun h _ => ?_⟩
          have hstands := h.processes pid process hprocess
          cases hthere : machine.disk.files (process.besides tools pid model) with
          | none =>
              refine h.changed hsubset rfl ?_ ?_ ?_ h.given
              · exact h.disk
              · exact fun _ _ _ _ _ _ hfile => hfile
              · intro new hnew
                cases hnew
                refine hstands.writing hphase ?_
                simp [hthere]
          | some before =>
              refine h.changed hsubset rfl ?_ ?_ ?_ h.given
              · exact Disk.held_put h.disk True.intro
              · intro key stem other count content hother hfile
                rwa [put_besides hother] at hfile
              · intro new hnew
                cases hnew
                refine hstands.writing hphase ?_
                intro content hfile
                rw [Disk.put_files_self] at hfile
                cases hfile
                rfl
      · cases hstep
  | rename number =>
      simp only [advance] at hstep
      split at hstep
      · next model bytes written hphase =>
          rcases Option.ite_none_right_eq_some.mp hstep with ⟨rfl, hrenamed⟩
          rcases Option.map_eq_some_iff.mp hrenamed with ⟨disk, hrename, rfl⟩
          refine ⟨hsubset, fun h _ => ?_⟩
          have hstands := h.processes pid process hprocess
          refine sound_settle h ?_ ?_ hstands (hstands.keeping _ _ _ hphase).1
            (new_canonical tools (layout process.format) model)
          · exact Disk.held_rename h.disk hrename fun content hfile =>
              honest_besides hstands hphase hfile
          · exact fun _ _ _ _ _ _ hfile => of_rename hrename hfile
      · cases hstep
  | fail number removed =>
      simp only [advance] at hstep
      split at hstep
      · next model bytes written hphase =>
          cases hstep
          refine ⟨hsubset, fun h _ => ?_⟩
          have hstands := h.processes pid process hprocess
          refine sound_settle h ?_ ?_ hstands (hstands.keeping model bytes written hphase).1
            (new_canonical tools (layout process.format) model)
          · split
            · exact Disk.held_remove h.disk
            · exact h.disk
          · intro key stem other count content _ hfile
            split at hfile
            · exact of_remove hfile
            · exact hfile
      · cases hstep
  | release number key =>
      cases hstep
      refine ⟨hsubset, fun h _ => ?_⟩
      refine h.changed hsubset rfl h.disk (fun _ _ _ _ _ _ hfile => hfile) ?_ h.given
      intro new hnew
      cases hnew
      exact (h.processes pid process hprocess).released
  | die number =>
      cases hstep
      refine ⟨hsubset, fun h _ => ?_⟩
      refine h.changed hsubset rfl h.disk (fun _ _ _ _ _ _ hfile => hfile) ?_ h.given
      intro new hnew
      cases hnew
  | _ => cases hstep

theorem step_keeps {action : Action} (hwrite : Set.InjOn tools.write sections)
    (hallowed : Permitted tools sections action)
    (hstep : step tools layout machine action = some after) :
    Keeps tools layout sections machine after := by
  have hsubset : machine.hashed ⊆ machine.hashed := List.Subset.refl _
  have hadvance : forall pid, ((machine.processes pid).bind fun process =>
      advance tools layout machine pid process action) = some after ->
        Keeps tools layout sections machine after := by
    intro pid hbind
    rcases Option.bind_eq_some_iff.mp hbind with ⟨process, hprocess, hadvanced⟩
    exact advance_keeps hwrite hallowed hprocess hadvanced
  cases action with
  | start pid format =>
      simp only [step] at hstep
      split at hstep
      · cases hstep
        refine ⟨hsubset, fun h _ => ?_⟩
        refine h.changed hsubset rfl h.disk (fun _ _ _ _ _ _ hfile => hfile) ?_ h.given
        intro new hnew
        cases hnew
        apply Standing.resting rfl
        · intro entry hentry
          cases hentry
        · exact List.nodup_nil
      · cases hstep
  | spoil key format content =>
      cases hstep
      refine ⟨hsubset, fun h _ => ⟨Disk.held_put h.disk (Or.inr hallowed), ?_, h.given⟩⟩
      intro pid process hprocess
      refine (h.processes pid process hprocess).grown hsubset ?_
      intro key stem number content hfile
      rwa [Disk.put_files_of_ne (by intro hsame; cases hsame)] at hfile
  | lose place =>
      cases hstep
      refine ⟨hsubset, fun h _ => ⟨Disk.held_remove h.disk, ?_, h.given⟩⟩
      intro pid process hprocess
      exact (h.processes pid process hprocess).grown hsubset fun _ _ _ _ => of_remove
  | powerLoss left =>
      cases hstep
      refine ⟨hsubset, fun h _ => ⟨Disk.held_lost h.disk left, ?_, h.given⟩⟩
      intro pid process hprocess
      cases hprocess
  | load pid model => exact hadvance pid hstep
  | look pid => exact hadvance pid hstep
  | build pid keeps => exact hadvance pid hstep
  | create pid => exact hadvance pid hstep
  | extend pid written => exact hadvance pid hstep
  | rename pid => exact hadvance pid hstep
  | fail pid removed => exact hadvance pid hstep
  | release pid key => exact hadvance pid hstep
  | die pid => exact hadvance pid hstep

theorem sound_empty : Sound tools layout sections (Machine.empty : Machine Other) where
  disk := Disk.held_empty
  processes := by
    intro pid process hprocess
    cases hprocess
  given := by
    intro given hgiven
    cases hgiven

theorem noCollision_subset {sha256 : List UInt8 -> Digest} {hashed more : List (List UInt8)}
    (h : NoCollision sha256 more) (hmore : hashed ⊆ more) : NoCollision sha256 hashed :=
  fun x hx y hy => h x (hmore hx) y (hmore hy)

end Steps

/--
In every run of processes of any releases that load vocabularies over one directory of tries, each
of which may die at any step, and whatever a loss of power or others leave there that has not its
own digest in front: every tokenizer gets the model its section describes, as though built with no
trie stored, and no process has two vocabularies of one key in use.
-/
theorem loaded_as_described {Other : Type} {tools : Tools Other} {layout : String -> Layout}
    {sections : Set Json} (hwrite : Set.InjOn tools.write sections) {actions : List Action}
    {machine : Machine Other}
    (hrun : RunFrom (step tools layout) Machine.empty actions = some machine)
    (hallowed : Along (step tools layout) (fun _ => Permitted tools sections) Machine.empty actions)
    (hapart : NoCollision tools.sha256 machine.hashed) :
    (forall given, given ∈ machine.given ->
      given.result = Loaded.describedBy tools (layout given.format) given.model) ∧
    forall pid process, machine.processes pid = some process ->
      ((inUse process.loaded).map Entry.key).Nodup := by
  have hkeep : PreservedWhen (step tools layout) (fun _ => Permitted tools sections)
      fun machine => NoCollision tools.sha256 machine.hashed ->
        Sound tools layout sections machine := by
    intro before action after h haction hstep hapart
    have hkeeps := step_keeps hwrite haction hstep
    exact hkeeps.sound (h (noCollision_subset hapart hkeeps.hashed)) hapart
  have hsound := runFrom_preservedWhen hkeep (fun _ => sound_empty) hallowed hrun hapart
  exact ⟨hsound.given, fun pid process hprocess => (hsound.processes pid process hprocess).once⟩

/-!
## A vocabulary of one piece, loaded by two processes
-/

/-- A section that leaves out what its parser assumes. -/
def onePiece : Json :=
  Json.object [("type", Json.string "Unigram"),
    ("vocab", Json.array [Json.array [Json.string "a", Json.number (Number.negative 1)]])]

/-- The same, with what its parser assumes and a field it ignores. -/
def onePieceStated : Json :=
  Json.object [("byte_fallback", Json.bool false), ("type", Json.string "Unigram"),
    ("unk_id", Json.null), ("version", Json.string "1"),
    ("vocab", Json.array [Json.array [Json.string "a", Json.number (Number.negative 1)]])]

def onePieceLayout : Layout where
  lay := fun keys => if keys = [([97], 0)] then some [97, 0] else none
  opened := fun bytes =>
    if bytes = [97, 0] then Builder.everyKey.build [([97], 0)] else none
  holds := by
    intro keys bytes trie hlay hopened
    rcases Option.ite_none_right_eq_some.mp hlay with ⟨rfl, _⟩
    exact Builder.everyKey.holds _ trie (Option.ite_none_right_eq_some.mp hopened).2

def onePieceTools : Tools Unit where
  sha256 := fun bytes => ⟨(bytes ++ List.replicate 32 0).take 32, by simp⟩
  write := fun _ =>
    utf8 "\x7b\"byte_fallback\":false,\"type\":\"Unigram\",".toList ++
      utf8 "\"unk_id\":null,\"vocab\":[[\"a\",-1]]\x7d".toList
  deserialize := fun _ => none
  unigramFrom := fun _ _ _ => none

/-- A second process finds the trie that the first one kept before it died, and lists its
vocabulary again where the only tokenizer of it is let go before it is looked for. -/
def onePieceRun : List Action :=
  [Action.start 1 "yada-0.7.v1", Action.load 1 onePiece, Action.look 1, Action.build 1 true,
    Action.create 1, Action.extend 1 34, Action.rename 1, Action.die 1,
    Action.start 2 "yada-0.7.v1", Action.load 2 onePieceStated, Action.look 2,
    Action.build 2 true, Action.load 2 onePiece,
    Action.release 2 (keyOf onePieceTools onePiece), Action.look 2, Action.build 2 true]

theorem permitted_onePieceRun {action : Action} (h : action ∈ onePieceRun) :
    Permitted onePieceTools {canonical onePiece} action := by
  cases action with
  | load pid model =>
      simp only [onePieceRun, List.mem_cons, List.not_mem_nil, or_false, Action.load.injEq,
        reduceCtorEq, false_or] at h
      rcases h with ⟨_, rfl⟩ | ⟨_, rfl⟩ | ⟨_, rfl⟩
      · rfl
      · change canonical onePieceStated = canonical onePiece
        rfl
      · rfl
  | spoil key format content => simp [onePieceRun] at h
  | _ => exact True.intro

theorem loaded_as_described_of_one_piece :
    exists machine, RunFrom (step onePieceTools fun _ => onePieceLayout) Machine.empty
        onePieceRun = some machine ∧ machine.given.length = 3 ∧
      (forall given, given ∈ machine.given ->
        given.result = Loaded.describedBy onePieceTools onePieceLayout given.model) ∧
      exists process, machine.processes 2 = some process ∧ process.loaded.length = 2 ∧
        ((inUse process.loaded).map Entry.key).Nodup := by
  have hends : ((RunFrom (step onePieceTools fun _ => onePieceLayout) Machine.empty
      onePieceRun).any fun machine => decide (machine.given.length = 3) &&
        ((machine.processes 2).any (fun process => process.loaded.length = 2) &&
          machine.hashed.all fun first => machine.hashed.all fun second =>
            decide (onePieceTools.sha256 first = onePieceTools.sha256 second -> first = second))) =
      true := by decide
  rcases (Option.any_eq_true _ _).mp hends with ⟨machine, hrun, hmachine⟩
  rcases Bool.and_eq_true_iff.mp hmachine with ⟨hgiven, hrest⟩
  rcases Bool.and_eq_true_iff.mp hrest with ⟨hlisted, hhashed⟩
  rcases (Option.any_eq_true _ _).mp hlisted with ⟨process, hprocess, htwice⟩
  have hapart : NoCollision onePieceTools.sha256 machine.hashed := by
    intro first hfirst second hsecond
    exact of_decide_eq_true
      (List.all_eq_true.mp (List.all_eq_true.mp hhashed first hfirst) second hsecond)
  have hallowed : Along (step onePieceTools fun _ => onePieceLayout)
      (fun _ => Permitted onePieceTools {canonical onePiece}) Machine.empty onePieceRun := by
    apply along_iff_split.mpr
    intro before action after t hactions _
    apply permitted_onePieceRun
    rw [hactions]
    exact List.mem_append_right _ List.mem_cons_self
  have hsound := loaded_as_described (Set.injOn_singleton _ _) hrun hallowed hapart
  exact ⟨machine, hrun, of_decide_eq_true hgiven, hsound.1, process, hprocess,
    of_decide_eq_true htwice, hsound.2 2 process hprocess⟩

end Tokenizer
end PaminMemory
