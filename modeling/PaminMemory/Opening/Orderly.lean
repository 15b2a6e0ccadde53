import PaminMemory.Opening.Slots

/-!
# What every step keeps

A slot a caller has a reference to is the map's slot for its key; what a slot holds was
opened for that key; and a caller that opens or deletes has its slot to itself.
-/

namespace PaminMemory
namespace Opening

open Foundation

section Keeping

variable {key : Type _}

def Registry.places (s : Registry key) : List (key × Nat) :=
  s.slots.map fun row => (row.1, row.2.slot)

def Registry.Placed (s : Registry key) (call : Call key) (slot : Nat) : Prop :=
  exists k, call.request.key? = some k ∧ (k, slot) ∈ s.places

def Registry.Idle (s : Registry key) (k : key) : Prop :=
  exists slot, (k, slot) ∈ s.places ∧
    (forall row, row ∈ s.calls -> row.2.phase.slot? ≠ some slot) ∧
      forall value, (slot, value) ∈ s.contents -> value ∉ s.handles

def Registry.Fits (s : Registry key) (call : Call key) : Prop :=
  match call.phase with
  | Phase.asked => True
  | Phase.makingRoom _ idle _ =>
      (forall k, call.request.key? = some k -> k ∉ s.places.map Prod.fst) ∧
        forall k, k ∈ idle -> s.Idle k
  | Phase.closing _ idle => forall k, k ∈ idle -> s.Idle k
  | Phase.queued slot => s.Placed call slot
  | Phase.inside slot => s.Placed call slot
  | Phase.opening slot => s.Placed call slot ∧ slot ∉ s.contents.map Prod.fst
  | Phase.draining slot value =>
      s.Placed call slot ∧ slot ∉ s.contents.map Prod.fst ∧
        value ∉ s.contents.map Prod.snd ∧
          exists k, call.request.key? = some k ∧ (value, k) ∈ s.opened
  | Phase.deleting slot =>
      s.Placed call slot ∧ slot ∉ s.contents.map Prod.fst ∧
        forall k, call.request.key? = some k -> forall value, value ∈ s.handles ->
          (value, k) ∉ s.opened
  | Phase.leaving slot => s.Placed call slot

structure Apart (id : Nat) (s : Registry key) : Prop where
  keysDistinct : (s.places.map Prod.fst).Nodup
  slotsDistinct : (s.places.map Prod.snd).Nodup
  slotsOld : forall place, place ∈ s.places -> place.2 < s.nextSlot
  filled : forall row, row ∈ s.contents ->
    exists k, (k, row.1) ∈ s.places ∧ (row.2, k) ∈ s.opened
  contentsSlots : (s.contents.map Prod.fst).Nodup
  contentsValues : (s.contents.map Prod.snd).Nodup
  openedOnce : (s.opened.map Prod.fst).Nodup
  valuesOld : forall row, row ∈ s.opened -> row.1 < s.nextValue
  handlesOld : forall value, value ∈ s.handles -> value < s.nextValue
  callsDistinct : (s.calls.map Prod.fst).Nodup
  guardOnce : Exclusive (fun call slot => call.phase.guard? = some slot) s.calls
  mapOnce : Exclusive (fun call (_ : Unit) => call.phase.mapped = true) s.calls
  others : forall row, row ∈ s.calls -> row.1 ≠ id -> s.Fits row.2

structure Orderly (s : Registry key) : Prop where
  apart : forall id, Apart id s
  handled : forall value, value ∈ s.handles ->
    value ∈ s.contents.map Prod.snd ∨
      exists row, row ∈ s.calls ∧ row.2.phase.value? = some value

variable {s t : Registry key} {id : Nat} {call : Call key}

theorem orderly_empty (key : Type _) (capacity : Nat) :
    Orderly (Registry.withCapacity key capacity) where
  apart := by
    intro id
    constructor
    · exact List.nodup_nil
    · exact List.nodup_nil
    · intro place hplace
      cases hplace
    · intro row hrow
      cases hrow
    · exact List.nodup_nil
    · exact List.nodup_nil
    · exact List.nodup_nil
    · intro row hrow
      cases hrow
    · intro value hvalue
      cases hvalue
    · exact List.nodup_nil
    · intro first hfirst
      cases hfirst
    · intro first hfirst
      cases hfirst
    · intro row hrow
      cases hrow
  handled := by
    intro value hvalue
    cases hvalue

theorem fits_of_orderly (h : Orderly s) (hcall : partyOf s.calls id = some call) :
    s.Fits call :=
  (h.apart (id + 1)).others (id, call) (mem_of_partyOf hcall) (Nat.ne_of_lt (Nat.lt_succ_self id))

theorem fits_frame {call : Call key} (h : s.Fits call)
    (hplaced : forall slot, call.phase.slot? = some slot -> s.Placed call slot ->
      t.Placed call slot)
    (hempty : forall slot, call.phase.guard? = some slot -> slot ∉ s.contents.map Prod.fst ->
      slot ∉ t.contents.map Prod.fst)
    (htaken : forall value, call.phase.value? = some value ->
      (exists k, call.request.key? = some k ∧ (value, k) ∈ s.opened) ->
        value ∉ s.contents.map Prod.snd -> value ∉ t.contents.map Prod.snd)
    (hopened : forall row, row ∈ s.opened -> row ∈ t.opened)
    (hhandles : forall slot, call.phase = Phase.deleting slot -> forall k,
      call.request.key? = some k -> (k, slot) ∈ s.places ->
        (forall value, value ∈ s.handles -> (value, k) ∉ s.opened) ->
          forall value, value ∈ t.handles -> (value, k) ∉ t.opened)
    (hmapped : call.phase.mapped = true ->
      (forall k, k ∈ t.places.map Prod.fst -> k ∈ s.places.map Prod.fst) ∧
        forall k, s.Idle k -> t.Idle k) : t.Fits call := by
  unfold Registry.Fits at h ⊢
  cases hphase : call.phase with
  | asked => trivial
  | makingRoom left idle busy =>
      rw [hphase] at h hmapped
      rcases hmapped rfl with ⟨hkeys, hidle⟩
      exact ⟨fun k hk hmem => h.1 k hk (hkeys k hmem), fun k hk => hidle k (h.2 k hk)⟩
  | closing left idle =>
      rw [hphase] at h hmapped
      exact fun k hk => (hmapped rfl).2 k (h k hk)
  | queued slot =>
      rw [hphase] at h hplaced
      exact hplaced slot rfl h
  | inside slot =>
      rw [hphase] at h hplaced
      exact hplaced slot rfl h
  | opening slot =>
      rw [hphase] at h hplaced hempty
      exact ⟨hplaced slot rfl h.1, hempty slot rfl h.2⟩
  | draining slot value =>
      rw [hphase] at h hplaced hempty htaken
      rcases h with ⟨hplace, hslot, hvalue, k, hkey, hopens⟩
      exact ⟨hplaced slot rfl hplace, hempty slot rfl hslot,
        htaken value rfl ⟨k, hkey, hopens⟩ hvalue, k, hkey, hopened _ hopens⟩
  | deleting slot =>
      rw [hphase] at h hplaced hempty hhandles
      rcases h with ⟨hplace, hslot, hnone⟩
      refine ⟨hplaced slot rfl hplace, hempty slot rfl hslot, ?_⟩
      intro k hkey
      rcases hplace with ⟨k', hkey', hthere⟩
      rw [hkey] at hkey'
      cases hkey'
      exact hhandles slot rfl k hkey hthere (hnone k hkey)
  | leaving slot =>
      rw [hphase] at h hplaced
      exact hplaced slot rfl h

/-!
## A caller moves on
-/

theorem mem_setPhase {phase : Phase key} {row : Nat × Call key}
    (h : row ∈ (s.setPhase id call phase).calls) :
    row = (id, { call with phase := phase }) ∨ row ∈ s.calls ∧ row.1 ≠ id :=
  mem_setParty h

theorem idle_setPhase {phase : Phase key} (hcall : partyOf s.calls id = some call)
    (hslot : forall slot, phase.slot? = some slot -> call.phase.slot? = some slot) {k : key}
    (h : s.Idle k) : (s.setPhase id call phase).Idle k := by
  rcases h with ⟨slot, hplace, hfree, hvalue⟩
  refine ⟨slot, hplace, ?_, hvalue⟩
  intro other hother hholds
  cases mem_setPhase hother with
  | inl hmoved =>
      rw [hmoved] at hholds
      exact hfree (id, call) (mem_of_partyOf hcall) (hslot slot hholds)
  | inr hstays => exact hfree other hstays.1 hholds

theorem fits_setPhase {phase : Phase key} {row : Nat × Call key} (h : Apart id s)
    (hcall : partyOf s.calls id = some call) (hmem : row ∈ s.calls) (hne : row.1 ≠ id)
    (hslot : (forall slot, phase.slot? = some slot -> call.phase.slot? = some slot) ∨
      forall row, row ∈ s.calls -> row.1 ≠ id -> row.2.phase.mapped = false) :
    (s.setPhase id call phase).Fits row.2 := by
  apply fits_frame (h.others row hmem hne)
  · exact fun slot _ hplaced => hplaced
  · exact fun slot _ hnot => hnot
  · exact fun value _ _ hnot => hnot
  · exact fun row hrow => hrow
  · exact fun slot _ k _ _ hnone => hnone
  · intro hmapped
    refine ⟨fun k hk => hk, ?_⟩
    cases hslot with
    | inr hnobody =>
        rw [hnobody row hmem hne] at hmapped
        cases hmapped
    | inl hsame => exact fun k hidle => idle_setPhase hcall hsame hidle

theorem orderly_setPhase {phase : Phase key} (h : Apart id s)
    (hcall : partyOf s.calls id = some call)
    (hguard : forall slot, phase.guard? = some slot -> forall row, row ∈ s.calls ->
      row.2.phase.guard? = some slot -> row.1 = id)
    (hmapped : phase.mapped = true -> forall row, row ∈ s.calls ->
      row.2.phase.mapped = true -> row.1 = id)
    (hslot : (forall slot, phase.slot? = some slot -> call.phase.slot? = some slot) ∨
      forall row, row ∈ s.calls -> row.1 ≠ id -> row.2.phase.mapped = false)
    (hfits : (s.setPhase id call phase).Fits { call with phase := phase })
    (hhandled : forall value, value ∈ s.handles ->
      value ∈ s.contents.map Prod.snd ∨ phase.value? = some value ∨
        exists row, row ∈ s.calls ∧ row.1 ≠ id ∧ row.2.phase.value? = some value) :
    Orderly (s.setPhase id call phase) where
  apart := by
    intro other
    constructor
    · exact h.keysDistinct
    · exact h.slotsDistinct
    · exact h.slotsOld
    · exact h.filled
    · exact h.contentsSlots
    · exact h.contentsValues
    · exact h.openedOnce
    · exact h.valuesOld
    · exact h.handlesOld
    · exact (ids_setParty id _ s.calls).symm ▸ h.callsDistinct
    · exact exclusive_moved h.guardOnce hguard
    · exact exclusive_moved h.mapOnce fun _ => hmapped
    · intro row hrow _
      cases mem_setPhase hrow with
      | inl hmoved =>
          rw [hmoved]
          exact hfits
      | inr hstays => exact fits_setPhase h hcall hstays.1 hstays.2 hslot
  handled := by
    intro value hvalue
    have hnew : (id, { call with phase := phase }) ∈ (s.setPhase id call phase).calls :=
      List.mem_map.mpr ⟨(id, call), mem_of_partyOf hcall, if_pos rfl⟩
    rcases hhandled value hvalue with hthere | htaken | ⟨row, hrow, hne, htaken⟩
    · exact Or.inl hthere
    · exact Or.inr ⟨_, hnew, htaken⟩
    · exact Or.inr ⟨row, List.mem_map.mpr ⟨row, hrow, if_neg hne⟩, htaken⟩

theorem orderly_dismiss (h : Apart id s)
    (hhandled : forall value, value ∈ s.handles ->
      value ∈ s.contents.map Prod.snd ∨
        exists row, row ∈ s.calls ∧ row.1 ≠ id ∧ row.2.phase.value? = some value) :
    Orderly (s.dismiss id) where
  apart := by
    intro other
    constructor
    · exact h.keysDistinct
    · exact h.slotsDistinct
    · exact h.slotsOld
    · exact h.filled
    · exact h.contentsSlots
    · exact h.contentsValues
    · exact h.openedOnce
    · exact h.valuesOld
    · exact h.handlesOld
    · exact h.callsDistinct.sublist (List.filter_sublist.map _)
    · exact exclusive_dropped h.guardOnce
    · exact exclusive_dropped h.mapOnce
    · intro row hrow _
      apply fits_frame (h.others row (mem_dropParty hrow) (ne_of_mem_dropParty hrow))
      · exact fun slot _ hplaced => hplaced
      · exact fun slot _ hnot => hnot
      · exact fun value _ _ hnot => hnot
      · exact fun row hrow => hrow
      · exact fun slot _ k _ _ hnone => hnone
      · intro _
        refine ⟨fun k hk => hk, ?_⟩
        intro k hidle
        rcases hidle with ⟨slot, hplace, hfree, hvalue⟩
        exact ⟨slot, hplace, fun other hother => hfree other (mem_dropParty hother), hvalue⟩
  handled := by
    intro value hvalue
    rcases hhandled value hvalue with hthere | ⟨row, hrow, hne, htaken⟩
    · exact Or.inl hthere
    · exact Or.inr ⟨row, List.mem_filter.mpr ⟨hrow, decide_eq_true hne⟩, htaken⟩

/-!
## What is shared changes
-/

structure Alike (s t : Registry key) : Prop where
  places : t.places = s.places
  contents : t.contents = s.contents
  handles : t.handles = s.handles
  opened : t.opened = s.opened
  nextSlot : t.nextSlot = s.nextSlot
  nextValue : t.nextValue = s.nextValue
  calls : t.calls = s.calls

theorem apart_congr (h : Apart id s) (halike : Alike s t) : Apart id t := by
  rcases halike with ⟨hplaces, hcontents, hhandles, hopened, hslot, hvalue, hcalls⟩
  have hfits : forall call, s.Fits call -> t.Fits call := by
    intro call hfits
    apply fits_frame hfits
    · intro slot _ hplaced
      unfold Registry.Placed
      rw [hplaces]
      exact hplaced
    · intro slot _ hnot
      rw [hcontents]
      exact hnot
    · intro value _ _ hnot
      rw [hcontents]
      exact hnot
    · intro row hrow
      rw [hopened]
      exact hrow
    · intro slot _ k _ _ hnone
      rw [hhandles, hopened]
      exact hnone
    · intro _
      unfold Registry.Idle
      rw [hplaces, hcalls, hcontents, hhandles]
      exact ⟨fun k hk => hk, fun k hk => hk⟩
  constructor
  · rw [hplaces]
    exact h.keysDistinct
  · rw [hplaces]
    exact h.slotsDistinct
  · rw [hplaces, hslot]
    exact h.slotsOld
  · rw [hcontents, hplaces, hopened]
    exact h.filled
  · rw [hcontents]
    exact h.contentsSlots
  · rw [hcontents]
    exact h.contentsValues
  · rw [hopened]
    exact h.openedOnce
  · rw [hopened, hvalue]
    exact h.valuesOld
  · rw [hhandles, hvalue]
    exact h.handlesOld
  · rw [hcalls]
    exact h.callsDistinct
  · rw [hcalls]
    exact h.guardOnce
  · rw [hcalls]
    exact h.mapOnce
  · rw [hcalls]
    exact fun row hrow hne => hfits row.2 (h.others row hrow hne)

theorem place_of_key (h : Apart id s) {k : key} {slot slot' : Nat} (hplace : (k, slot) ∈ s.places)
    (hplace' : (k, slot') ∈ s.places) : slot = slot' :=
  congrArg Prod.snd (List.inj_on_of_nodup_map h.keysDistinct hplace hplace' rfl)

theorem key_of_place (h : Apart id s) {k k' : key} {slot : Nat} (hplace : (k, slot) ∈ s.places)
    (hplace' : (k', slot) ∈ s.places) : k = k' :=
  congrArg Prod.fst (List.inj_on_of_nodup_map h.slotsDistinct hplace hplace' rfl)

theorem key_of_value (h : Apart id s) {k k' : key} {value : Nat} (hopened : (value, k) ∈ s.opened)
    (hopened' : (value, k') ∈ s.opened) : k = k' :=
  congrArg Prod.snd (List.inj_on_of_nodup_map h.openedOnce hopened hopened' rfl)

theorem value_of_slot (h : Apart id s) {slot value value' : Nat} (hrow : (slot, value) ∈ s.contents)
    (hrow' : (slot, value') ∈ s.contents) : value = value' :=
  congrArg Prod.snd (List.inj_on_of_nodup_map h.contentsSlots hrow hrow' rfl)

theorem slot_of_value (h : Apart id s) {slot slot' value : Nat} (hrow : (slot, value) ∈ s.contents)
    (hrow' : (slot', value) ∈ s.contents) : slot = slot' :=
  congrArg Prod.fst (List.inj_on_of_nodup_map h.contentsValues hrow hrow' rfl)

theorem apart_handles (h : Apart id s) {handles : List Nat}
    (hnew : forall value, value ∈ handles -> value ∈ s.handles ∨
      exists slot row, (slot, value) ∈ s.contents ∧ row ∈ s.calls ∧
        row.2.phase.slot? = some slot) : Apart id { s with handles := handles } where
  keysDistinct := h.keysDistinct
  slotsDistinct := h.slotsDistinct
  slotsOld := h.slotsOld
  filled := h.filled
  contentsSlots := h.contentsSlots
  contentsValues := h.contentsValues
  openedOnce := h.openedOnce
  valuesOld := h.valuesOld
  handlesOld := by
    intro value hvalue
    rcases hnew value hvalue with hold | ⟨slot, row, hrow, _, _⟩
    · exact h.handlesOld value hold
    · rcases h.filled _ hrow with ⟨k, _, hopened⟩
      exact h.valuesOld _ hopened
  callsDistinct := h.callsDistinct
  guardOnce := h.guardOnce
  mapOnce := h.mapOnce
  others := by
    intro row hrow hne
    have hfits := h.others row hrow hne
    apply fits_frame hfits
    · exact fun slot _ hplaced => hplaced
    · exact fun slot _ hnot => hnot
    · exact fun value _ _ hnot => hnot
    · exact fun row hrow => hrow
    · intro slot hphase k _ hplace hnone value hvalue hopened
      unfold Registry.Fits at hfits
      rw [hphase] at hfits
      rcases hnew value hvalue with hold | ⟨slot', _, hcontent, _, _⟩
      · exact hnone value hold hopened
      · rcases h.filled _ hcontent with ⟨k', hplace', hopened'⟩
        rw [key_of_value h hopened' hopened] at hplace'
        have hsame : slot' = slot := place_of_key h hplace' hplace
        rw [hsame] at hcontent
        exact hfits.2.1 (List.mem_map_of_mem hcontent)
    · intro _
      refine ⟨fun k hk => hk, ?_⟩
      intro k hidle
      rcases hidle with ⟨slot, hplace, hfree, hvalue⟩
      refine ⟨slot, hplace, hfree, ?_⟩
      intro value hcontent hheld
      rcases hnew value hheld with hold | ⟨slot', other, hcontent', hother, hholds⟩
      · exact hvalue value hcontent hold
      · rw [slot_of_value h hcontent' hcontent] at hholds
        exact hfree other hother hholds

theorem apart_emptied (h : Apart id s) {contents : List (Nat × Nat)}
    (hsub : contents.Sublist s.contents) : Apart id { s with contents := contents } where
  keysDistinct := h.keysDistinct
  slotsDistinct := h.slotsDistinct
  slotsOld := h.slotsOld
  filled := fun row hrow => h.filled row (hsub.subset hrow)
  contentsSlots := h.contentsSlots.sublist (hsub.map _)
  contentsValues := h.contentsValues.sublist (hsub.map _)
  openedOnce := h.openedOnce
  valuesOld := h.valuesOld
  handlesOld := h.handlesOld
  callsDistinct := h.callsDistinct
  guardOnce := h.guardOnce
  mapOnce := h.mapOnce
  others := by
    intro row hrow hne
    apply fits_frame (h.others row hrow hne)
    · exact fun slot _ hplaced => hplaced
    · exact fun slot _ hnot hin => hnot ((hsub.map _).subset hin)
    · exact fun value _ _ hnot hin => hnot ((hsub.map _).subset hin)
    · exact fun row hrow => hrow
    · exact fun slot _ k _ _ hnone => hnone
    · intro _
      refine ⟨fun k hk => hk, ?_⟩
      intro k hidle
      rcases hidle with ⟨slot, hplace, hfree, hvalue⟩
      exact ⟨slot, hplace, hfree, fun value hcontent => hvalue value (hsub.subset hcontent)⟩

theorem apart_filled (h : Apart id s) (hcall : partyOf s.calls id = some call) {slot value : Nat}
    {k : key} (hguards : call.phase.guard? = some slot) (hholds : call.phase.slot? = some slot)
    (hplace : (k, slot) ∈ s.places) (hopened : (value, k) ∈ s.opened)
    (hslot : slot ∉ s.contents.map Prod.fst) (hvalue : value ∉ s.contents.map Prod.snd)
    (htaken : forall row, row ∈ s.calls -> row.1 ≠ id -> row.2.phase.value? ≠ some value) :
    Apart id { s with contents := s.contents ++ [(slot, value)] } where
  keysDistinct := h.keysDistinct
  slotsDistinct := h.slotsDistinct
  slotsOld := h.slotsOld
  filled := by
    intro row hrow
    cases List.mem_append.mp hrow with
    | inl hold => exact h.filled row hold
    | inr hlast =>
        rw [List.mem_singleton.mp hlast]
        exact ⟨k, hplace, hopened⟩
  contentsSlots := by
    rw [List.map_append]
    exact nodup_append_new h.contentsSlots hslot
  contentsValues := by
    rw [List.map_append]
    exact nodup_append_new h.contentsValues hvalue
  openedOnce := h.openedOnce
  valuesOld := h.valuesOld
  handlesOld := h.handlesOld
  callsDistinct := h.callsDistinct
  guardOnce := h.guardOnce
  mapOnce := h.mapOnce
  others := by
    intro row hrow hne
    apply fits_frame (h.others row hrow hne)
    · exact fun slot _ hplaced => hplaced
    · intro slot' hguards' hnot hin
      rw [List.map_append] at hin
      cases List.mem_append.mp hin with
      | inl hold => exact hnot hold
      | inr hlast =>
          rw [List.mem_singleton.mp hlast] at hguards'
          exact hne (h.guardOnce row hrow (id, call) (mem_of_partyOf hcall) slot hguards' hguards)
    · intro value' htakes _ hnot hin
      rw [List.map_append] at hin
      cases List.mem_append.mp hin with
      | inl hold => exact hnot hold
      | inr hlast =>
          rw [List.mem_singleton.mp hlast] at htakes
          exact htaken row hrow hne htakes
    · exact fun row hrow => hrow
    · exact fun slot _ k _ _ hnone => hnone
    · intro _
      refine ⟨fun k hk => hk, ?_⟩
      intro k' hidle
      rcases hidle with ⟨slot', hplace', hfree, hunheld⟩
      refine ⟨slot', hplace', hfree, ?_⟩
      intro value' hcontent
      cases List.mem_append.mp hcontent with
      | inl hold => exact hunheld value' hold
      | inr hlast =>
          have hsame : slot' = slot := congrArg Prod.fst (List.mem_singleton.mp hlast)
          rw [hsame] at hfree
          exact absurd hholds (hfree (id, call) (mem_of_partyOf hcall))

theorem apart_opened (h : Apart id s) (k : key) :
    Apart id { s with
      opened := s.opened ++ [(s.nextValue, k)]
      nextValue := s.nextValue + 1 } where
  keysDistinct := h.keysDistinct
  slotsDistinct := h.slotsDistinct
  slotsOld := h.slotsOld
  filled := by
    intro row hrow
    rcases h.filled row hrow with ⟨k', hplace, hopened⟩
    exact ⟨k', hplace, List.mem_append_left _ hopened⟩
  contentsSlots := h.contentsSlots
  contentsValues := h.contentsValues
  openedOnce := by
    rw [List.map_append]
    apply nodup_append_new h.openedOnce
    intro hold
    rcases List.mem_map.mp hold with ⟨row, hrow, hid⟩
    have hless := h.valuesOld row hrow
    rw [hid] at hless
    exact Nat.lt_irrefl _ hless
  valuesOld := by
    intro row hrow
    cases List.mem_append.mp hrow with
    | inl hold => exact Nat.lt_succ_of_lt (h.valuesOld row hold)
    | inr hlast =>
        rw [List.mem_singleton.mp hlast]
        exact Nat.lt_succ_self _
  handlesOld := fun value hvalue => Nat.lt_succ_of_lt (h.handlesOld value hvalue)
  callsDistinct := h.callsDistinct
  guardOnce := h.guardOnce
  mapOnce := h.mapOnce
  others := by
    intro row hrow hne
    apply fits_frame (h.others row hrow hne)
    · exact fun slot _ hplaced => hplaced
    · exact fun slot _ hnot => hnot
    · exact fun value _ _ hnot => hnot
    · exact fun row hrow => List.mem_append_left _ hrow
    · intro slot _ k' _ _ hnone value hvalue hopened
      cases List.mem_append.mp hopened with
      | inl hold => exact hnone value hvalue hold
      | inr hlast =>
          have hless := h.handlesOld value hvalue
          rw [show value = s.nextValue from congrArg Prod.fst (List.mem_singleton.mp hlast)]
            at hless
          exact Nat.lt_irrefl _ hless
    · exact fun _ => ⟨fun k hk => hk, fun k hk => hk⟩

theorem apart_inserted (h : Apart id s) {k : key} {entry : Entry}
    (hkey : k ∉ s.places.map Prod.fst) (hentry : entry.slot = s.nextSlot)
    (hmapped : forall row, row ∈ s.calls -> row.1 ≠ id -> row.2.phase.mapped = false) :
    Apart id { s with slots := s.slots ++ [(k, entry)], nextSlot := s.nextSlot + 1 } := by
  have hplaces : ({ s with slots := s.slots ++ [(k, entry)], nextSlot := s.nextSlot + 1 } :
      Registry key).places = s.places ++ [(k, s.nextSlot)] := by
    unfold Registry.places
    rw [List.map_append, ← hentry]
    rfl
  constructor
  · rw [hplaces, List.map_append]
    exact nodup_append_new h.keysDistinct hkey
  · rw [hplaces, List.map_append]
    apply nodup_append_new h.slotsDistinct
    intro hold
    rcases List.mem_map.mp hold with ⟨place, hplace, hslot⟩
    have hless := h.slotsOld place hplace
    rw [hslot] at hless
    exact Nat.lt_irrefl _ hless
  · intro place hplace
    rw [hplaces] at hplace
    cases List.mem_append.mp hplace with
    | inl hold => exact Nat.lt_succ_of_lt (h.slotsOld place hold)
    | inr hlast =>
        rw [List.mem_singleton.mp hlast]
        exact Nat.lt_succ_self _
  · intro row hrow
    rcases h.filled row hrow with ⟨k', hplace, hopened⟩
    refine ⟨k', ?_, hopened⟩
    rw [hplaces]
    exact List.mem_append_left _ hplace
  · exact h.contentsSlots
  · exact h.contentsValues
  · exact h.openedOnce
  · exact h.valuesOld
  · exact h.handlesOld
  · exact h.callsDistinct
  · exact h.guardOnce
  · exact h.mapOnce
  · intro row hrow hne
    apply fits_frame (h.others row hrow hne)
    · intro slot _ hplaced
      rcases hplaced with ⟨k', hk', hplace⟩
      refine ⟨k', hk', ?_⟩
      rw [hplaces]
      exact List.mem_append_left _ hplace
    · exact fun slot _ hnot => hnot
    · exact fun value _ _ hnot => hnot
    · exact fun row hrow => hrow
    · exact fun slot _ k _ _ hnone => hnone
    · intro hthis
      rw [hmapped row hrow hne] at hthis
      cases hthis

theorem slotCount_pos {slot : Nat} :
    0 < s.slotCount slot <->
      slot ∈ s.places.map Prod.snd ∨
        exists row, row ∈ s.calls ∧ row.2.phase.slot? = some slot := by
  unfold Registry.slotCount Registry.places
  rw [Nat.add_pos_iff_pos_or_pos, List.length_pos_iff_exists_mem, List.length_pos_iff_exists_mem,
    List.map_map]
  simp only [List.mem_filter, decide_eq_true_eq, List.mem_map, Function.comp_apply]

theorem placed_of_fits {call : Call key} (h : s.Fits call) {slot : Nat}
    (hslot : call.phase.slot? = some slot) : s.Placed call slot := by
  unfold Registry.Fits at h
  cases hphase : call.phase with
  | asked =>
      rw [hphase] at hslot
      cases hslot
  | makingRoom left idle busy =>
      rw [hphase] at hslot
      cases hslot
  | closing left idle =>
      rw [hphase] at hslot
      cases hslot
  | queued place =>
      rw [hphase] at h hslot
      cases hslot
      exact h
  | inside place =>
      rw [hphase] at h hslot
      cases hslot
      exact h
  | opening place =>
      rw [hphase] at h hslot
      cases hslot
      exact h.1
  | draining place value =>
      rw [hphase] at h hslot
      cases hslot
      exact h.1
  | deleting place =>
      rw [hphase] at h hslot
      cases hslot
      exact h.1
  | leaving place =>
      rw [hphase] at h hslot
      cases hslot
      exact h

theorem not_gone (h : Apart id s) {gone : List key} (hgone : forall k, k ∈ gone -> s.Idle k)
    {row : Nat × Call key} (hrow : row ∈ s.calls) {slot : Nat}
    (hslot : row.2.phase.slot? = some slot) {k : key} (hplace : (k, slot) ∈ s.places) :
    k ∉ gone := by
  intro hk
  rcases hgone k hk with ⟨slot', hplace', hfree, _⟩
  rw [place_of_key h hplace' hplace] at hfree
  exact hfree row hrow hslot

theorem release_of_filled (h : Apart id s) : s.release = s := by
  unfold Registry.release
  have hall : s.contents.filter (fun row => decide (0 < s.slotCount row.1)) = s.contents := by
    rw [List.filter_eq_self]
    intro row hrow
    rcases h.filled row hrow with ⟨k, hplace, _⟩
    exact decide_eq_true (slotCount_pos.mpr (Or.inl (List.mem_map_of_mem (f := Prod.snd) hplace)))
  rw [hall]

theorem contentOf_some {slot value : Nat} (h : s.contentOf slot = some value) :
    (slot, value) ∈ s.contents := by
  rcases Option.map_eq_some_iff.mp h with ⟨row, hrow, hvalue⟩
  have hslot : row.1 = slot := by simpa using List.find?_some hrow
  rw [← hslot, ← hvalue]
  exact List.mem_of_find?_eq_some hrow

theorem contentOf_none {slot : Nat} (h : s.contentOf slot = none) :
    slot ∉ s.contents.map Prod.fst := by
  intro hmem
  rcases List.mem_map.mp hmem with ⟨row, hrow, hslot⟩
  have hnone := List.find?_eq_none.mp (Option.map_eq_none_iff.mp h) row hrow
  exact hnone (decide_eq_true hslot)

theorem contentOf_of_mem (h : Apart id s) {slot value : Nat} (hmem : (slot, value) ∈ s.contents) :
    s.contentOf slot = some value := by
  cases hcontent : s.contentOf slot with
  | none => exact absurd (List.mem_map_of_mem hmem) (contentOf_none hcontent)
  | some other => rw [value_of_slot h (contentOf_some hcontent) hmem]

end Keeping

/-!
## What is idle is removed
-/

section Removing

variable {key : Type _} [DecidableEq key] {s t : Registry key} {id : Nat} {call : Call key}

theorem places_remove (gone : List key) (s : Registry key) :
    (s.remove gone).places = s.places.filter fun place => decide (place.1 ∉ gone) := by
  unfold Registry.remove Registry.release Registry.places
  rw [List.filter_map]
  rfl

theorem mem_places_remove {gone : List key} {k : key} {slot : Nat} :
    (k, slot) ∈ (s.remove gone).places <-> (k, slot) ∈ s.places ∧ k ∉ gone := by
  rw [places_remove, List.mem_filter, decide_eq_true_eq]

theorem mem_contents_remove {gone : List key} {row : Nat × Nat} :
    row ∈ (s.remove gone).contents <-> row ∈ s.contents ∧
      (row.1 ∈ (s.remove gone).places.map Prod.snd ∨
        exists other, other ∈ s.calls ∧ other.2.phase.slot? = some row.1) := by
  have hcount : row.1 ∈ (s.remove gone).places.map Prod.snd ∨
      (exists other, other ∈ s.calls ∧ other.2.phase.slot? = some row.1) <->
        0 < (s.remove gone).slotCount row.1 := slotCount_pos.symm
  rw [hcount]
  unfold Registry.remove Registry.release
  rw [List.mem_filter, decide_eq_true_eq]
  exact Iff.rfl

theorem content_remove (h : Apart id s) {gone : List key}
    (hgone : forall k, k ∈ gone -> s.Idle k) {slot value : Nat}
    (hcontent : (slot, value) ∈ s.contents) (hheld : value ∈ s.handles) :
    (slot, value) ∈ (s.remove gone).contents := by
  rcases h.filled _ hcontent with ⟨k, hplace, _⟩
  refine mem_contents_remove.mpr ⟨hcontent, Or.inl ?_⟩
  have hstays : k ∉ gone := by
    intro hk
    rcases hgone k hk with ⟨slot', hplace', _, hunheld⟩
    have hsame : slot' = slot := place_of_key h hplace' hplace
    rw [hsame] at hunheld
    exact hunheld value hcontent hheld
  exact List.mem_map_of_mem (f := Prod.snd) (mem_places_remove.mpr ⟨hplace, hstays⟩)

theorem apart_removed (h : Apart id s) {gone : List key}
    (hgone : forall k, k ∈ gone -> s.Idle k)
    (hmapped : forall row, row ∈ s.calls -> row.1 ≠ id -> row.2.phase.mapped = false) :
    Apart id (s.remove gone) := by
  have hsub : (s.remove gone).contents.Sublist s.contents := List.filter_sublist
  have hplaces : (s.remove gone).places.Sublist s.places := by
    rw [places_remove]
    exact List.filter_sublist
  have hplaced : forall row, row ∈ s.calls -> forall slot, row.2.phase.slot? = some slot ->
      s.Placed row.2 slot -> (s.remove gone).Placed row.2 slot := by
    intro row hrow slot hslot hplaced
    rcases hplaced with ⟨k, hk, hplace⟩
    exact ⟨k, hk, mem_places_remove.mpr ⟨hplace, not_gone h hgone hrow hslot hplace⟩⟩
  constructor
  · exact h.keysDistinct.sublist (hplaces.map _)
  · exact h.slotsDistinct.sublist (hplaces.map _)
  · exact fun place hplace => h.slotsOld place (hplaces.subset hplace)
  · intro row hrow
    rcases mem_contents_remove.mp hrow with ⟨hold, hreached⟩
    rcases h.filled row hold with ⟨k, hplace, hopened⟩
    refine ⟨k, ?_, hopened⟩
    cases hreached with
    | inl hthere =>
        rcases List.mem_map.mp hthere with ⟨place, hmem, hslot⟩
        have hbefore : (place.1, row.1) ∈ s.places := by
          rw [← hslot]
          exact hplaces.subset hmem
        rw [key_of_place h hplace hbefore, ← hslot]
        exact hmem
    | inr hheld =>
        rcases hheld with ⟨other, hother, hslot⟩
        exact mem_places_remove.mpr ⟨hplace, not_gone h hgone hother hslot hplace⟩
  · exact h.contentsSlots.sublist (hsub.map _)
  · exact h.contentsValues.sublist (hsub.map _)
  · exact h.openedOnce
  · exact h.valuesOld
  · exact h.handlesOld
  · exact h.callsDistinct
  · exact h.guardOnce
  · exact h.mapOnce
  · intro row hrow hne
    apply fits_frame (h.others row hrow hne)
    · exact fun slot hslot => hplaced row hrow slot hslot
    · exact fun slot _ hnot hin => hnot ((hsub.map _).subset hin)
    · exact fun value _ _ hnot hin => hnot ((hsub.map _).subset hin)
    · exact fun row hrow => hrow
    · exact fun slot _ k _ _ hnone => hnone
    · intro hthis
      rw [hmapped row hrow hne] at hthis
      cases hthis

theorem entryOf_some {k : key} {entry : Entry} (h : s.entryOf k = some entry) :
    (k, entry) ∈ s.slots := by
  rcases Option.map_eq_some_iff.mp h with ⟨row, hrow, hentry⟩
  have hk : row.1 = k := by simpa using List.find?_some hrow
  rw [← hk, ← hentry]
  exact List.mem_of_find?_eq_some hrow

theorem entryOf_none {k : key} (h : s.entryOf k = none) : k ∉ s.places.map Prod.fst := by
  intro hmem
  rcases List.mem_map.mp hmem with ⟨place, hplace, hk⟩
  rcases List.mem_map.mp hplace with ⟨row, hrow, hsame⟩
  have hnone := List.find?_eq_none.mp (Option.map_eq_none_iff.mp h) row hrow
  apply hnone
  rw [decide_eq_true_eq, ← hk, ← hsame]

theorem idle_of_unused (h : Apart id s) {k : key} (hunused : s.unused k = true) : s.Idle k := by
  unfold Registry.unused at hunused
  cases hentry : s.entryOf k with
  | none =>
      rw [hentry] at hunused
      cases hunused
  | some entry =>
      simp only [hentry] at hunused
      have hmem := entryOf_some hentry
      unfold Registry.isUnused at hunused
      split at hunused
      · cases hunused
      · next hcount =>
          rw [Decidable.not_not] at hcount
          have hself : 0 < (s.slots.filter fun row => row.2.slot = entry.slot).length :=
            List.length_pos_of_mem (List.mem_filter.mpr ⟨hmem, decide_eq_true rfl⟩)
          have hnobody : (s.calls.filter fun row =>
              row.2.phase.slot? = some entry.slot).length = 0 := by
            unfold Registry.slotCount at hcount
            omega
          refine ⟨entry.slot, List.mem_map_of_mem (f := fun row => (row.1, row.2.slot)) hmem,
            ?_, ?_⟩
          · intro row hrow hslot
            have hpos : 0 < (s.calls.filter fun row =>
                row.2.phase.slot? = some entry.slot).length :=
              List.length_pos_of_mem (List.mem_filter.mpr ⟨hrow, decide_eq_true hslot⟩)
            rw [hnobody] at hpos
            cases hpos
          · intro value hcontent hheld
            rw [contentOf_of_mem h hcontent] at hunused
            split at hunused
            · cases hunused
            · have hone := of_decide_eq_true hunused
              have hthere : 0 < (s.contents.filter fun row => row.2 = value).length :=
                List.length_pos_of_mem (List.mem_filter.mpr ⟨hcontent, decide_eq_true rfl⟩)
              have hgiven : 0 < s.handles.count value := List.count_pos_iff.mpr hheld
              unfold Registry.valueCount at hone
              omega

end Removing

end Opening
end PaminMemory
