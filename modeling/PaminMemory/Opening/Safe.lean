import PaminMemory.Opening.Orderly

/-!
# Each key is open once

Every step leaves the registry in order, and what order gives: one value of a key at a
time, opens and deletions with the key to themselves, and nobody's entry taken away.
-/

namespace PaminMemory
namespace Opening

open Foundation

section Callers

variable {key : Type _} {s : Registry key} {id : Nat} {call : Call key}

theorem handled_by_others (h : Orderly s) (hcall : partyOf s.calls id = some call)
    (hnone : call.phase.value? = none) : forall value, value ∈ s.handles ->
      value ∈ s.contents.map Prod.snd ∨
        exists row, row ∈ s.calls ∧ row.1 ≠ id ∧ row.2.phase.value? = some value := by
  intro value hvalue
  cases h.handled value hvalue with
  | inl hthere => exact Or.inl hthere
  | inr htaken =>
      rcases htaken with ⟨row, hrow, hvalue'⟩
      refine Or.inr ⟨row, hrow, ?_, hvalue'⟩
      intro hid
      rw [eq_of_partyOf (h.apart id).callsDistinct hcall hrow hid, hnone] at hvalue'
      cases hvalue'

theorem handled_moved (h : Orderly s) (hcall : partyOf s.calls id = some call)
    (hnone : call.phase.value? = none) {phase : Phase key} : forall value, value ∈ s.handles ->
      value ∈ s.contents.map Prod.snd ∨ phase.value? = some value ∨
        exists row, row ∈ s.calls ∧ row.1 ≠ id ∧ row.2.phase.value? = some value := by
  intro value hvalue
  cases handled_by_others h hcall hnone value hvalue with
  | inl hthere => exact Or.inl hthere
  | inr htaken => exact Or.inr (Or.inr htaken)

theorem others_unmapped (h : Orderly s) (hcall : partyOf s.calls id = some call)
    (hmapped : call.phase.mapped = true) :
    forall row, row ∈ s.calls -> row.1 ≠ id -> row.2.phase.mapped = false := by
  intro row hrow hne
  rw [← Bool.not_eq_true]
  intro hother
  exact hne ((h.apart id).mapOnce row hrow (id, call) (mem_of_partyOf hcall) () hother hmapped)

/-!
## What a caller does

One lemma for each phase a call goes through.
-/

theorem orderly_ask {request : Request key} (h : Orderly s) (hnew : partyOf s.calls id = none) :
    Orderly { s with
      calls := s.calls ++ [(id, { request := request, phase := Phase.asked })] } := by
  constructor
  · intro other
    have hother := h.apart other
    constructor
    · exact hother.keysDistinct
    · exact hother.slotsDistinct
    · exact hother.slotsOld
    · exact hother.filled
    · exact hother.contentsSlots
    · exact hother.contentsValues
    · exact hother.openedOnce
    · exact hother.valuesOld
    · exact hother.handlesOld
    · rw [List.map_append]
      exact nodup_append_new hother.callsDistinct (not_mem_of_partyOf hnew)
    · exact exclusive_joined hother.guardOnce (by simp [Phase.guard?])
    · exact exclusive_joined hother.mapOnce (by simp [Phase.mapped])
    · intro row hrow hne
      cases List.mem_append.mp hrow with
      | inr hlast =>
          rw [List.mem_singleton.mp hlast]
          trivial
      | inl hold =>
          apply fits_frame (hother.others row hold hne)
          · exact fun slot _ hplaced => hplaced
          · exact fun slot _ hnot => hnot
          · exact fun value _ _ hnot => hnot
          · exact fun row hrow => hrow
          · exact fun slot _ k _ _ hnone => hnone
          · intro _
            refine ⟨fun k hk => hk, ?_⟩
            intro k hidle
            rcases hidle with ⟨slot, hplace, hfree, hvalue⟩
            refine ⟨slot, hplace, ?_, hvalue⟩
            intro caller hcaller hholds
            cases List.mem_append.mp hcaller with
            | inl hthere => exact hfree caller hthere hholds
            | inr hlast =>
                rw [List.mem_singleton.mp hlast] at hholds
                cases hholds
  · intro value hvalue
    cases h.handled value hvalue with
    | inl hthere => exact Or.inl hthere
    | inr htaken =>
        rcases htaken with ⟨row, hrow, hvalue'⟩
        exact Or.inr ⟨row, List.mem_append_left _ hrow, hvalue'⟩

theorem orderly_entered {base : Registry key} {phase : Phase key} (h : Orderly s)
    (hcall : partyOf s.calls id = some call) (hphase : call.phase = Phase.asked)
    (hfree : forall row, row ∈ s.calls -> row.2.phase.mapped = false) (halike : Alike s base)
    (hnoguard : phase.guard? = none)
    (hfits : (base.setPhase id call phase).Fits { call with phase := phase }) :
    Orderly (base.setPhase id call phase) := by
  apply orderly_setPhase (apart_congr (h.apart id) halike)
  · rw [halike.calls]
    exact hcall
  · intro slot hguards
    rw [hnoguard] at hguards
    cases hguards
  · intro _ row hrow hmapped
    rw [halike.calls] at hrow
    rw [hfree row hrow] at hmapped
    cases hmapped
  · apply Or.inr
    rw [halike.calls]
    exact fun row hrow _ => hfree row hrow
  · exact hfits
  · rw [halike.handles, halike.contents, halike.calls]
    exact handled_moved h hcall (by rw [hphase]; rfl)

theorem unguarded {slot : Nat} (h : s.guarded slot = false) {row : Nat × Call key}
    (hrow : row ∈ s.calls) : row.2.phase.guard? ≠ some slot := by
  intro hguards
  exact List.any_eq_false.mp h row hrow (decide_eq_true hguards)

theorem orderly_acquire {phase : Phase key} (h : Orderly s)
    (hcall : partyOf s.calls id = some call) (hacquired : acquired s call = some phase) :
    Orderly (s.setPhase id call phase) := by
  have hfits := fits_of_orderly h hcall
  unfold acquired at hacquired
  unfold Registry.Fits at hfits
  split at hacquired
  · next slot hphase =>
      rw [hphase] at hfits
      have hnone : call.phase.value? = none := by rw [hphase]; rfl
      have hinside : s.guarded slot = false -> Orderly (s.setPhase id call (Phase.inside slot)) := by
        intro hfree
        apply orderly_setPhase (h.apart id) hcall
        · intro place hplace row hrow hguards
          cases hplace
          exact absurd hguards (unguarded hfree hrow)
        · intro hmapped
          cases hmapped
        · apply Or.inl
          intro place hplace
          rw [hphase]
          exact hplace
        · exact hfits
        · exact handled_moved h hcall hnone
      have hleaving : Orderly (s.setPhase id call (Phase.leaving slot)) := by
        apply orderly_setPhase (h.apart id) hcall
        · intro place hplace
          cases hplace
        · intro hmapped
          cases hmapped
        · apply Or.inl
          intro place hplace
          rw [hphase]
          exact hplace
        · exact hfits
        · exact handled_moved h hcall hnone
      split at hacquired
      · split at hacquired
        · cases hacquired
          exact hleaving
        · next hfree =>
            cases hacquired
            exact hinside (Bool.eq_false_iff.mpr hfree)
      · split at hacquired
        · cases hacquired
        · next hfree =>
            cases hacquired
            exact hinside (Bool.eq_false_iff.mpr hfree)
  · cases hacquired

theorem orderly_inside {base : Registry key} {slot : Nat} {phase : Phase key} (h : Orderly s)
    (hcall : partyOf s.calls id = some call) (hguards : call.phase.guard? = some slot)
    (hholds : call.phase.slot? = some slot) (hbase : Apart id base) (hcalls : base.calls = s.calls)
    (hphase : phase.slot? = some slot) (hguard : forall place, phase.guard? = some place ->
      place = slot) (hmapped : phase.mapped = false)
    (hfits : (base.setPhase id call phase).Fits { call with phase := phase })
    (hhandled : forall value, value ∈ base.handles ->
      value ∈ base.contents.map Prod.snd ∨ phase.value? = some value ∨
        exists row, row ∈ s.calls ∧ row.1 ≠ id ∧ row.2.phase.value? = some value) :
    Orderly (base.setPhase id call phase) := by
  apply orderly_setPhase hbase
  · rw [hcalls]
    exact hcall
  · intro place hplace row hrow hguards'
    rw [hcalls] at hrow
    rw [hguard place hplace] at hguards'
    exact (h.apart id).guardOnce row hrow (id, call) (mem_of_partyOf hcall) slot hguards' hguards
  · intro hmap
    rw [hmapped] at hmap
    cases hmap
  · apply Or.inl
    intro place hplace
    rw [hholds, ← hphase]
    exact hplace
  · exact hfits
  · rw [hcalls]
    exact hhandled

theorem orderly_left {base : Registry key} {slot : Nat} (h : Orderly s)
    (hcall : partyOf s.calls id = some call) (hguards : call.phase.guard? = some slot)
    (hholds : call.phase.slot? = some slot) (hbase : Apart id base)
    (hcalls : base.calls = s.calls) (hplaces : base.places = s.places)
    (hhandled : forall value, value ∈ base.handles ->
      value ∈ base.contents.map Prod.snd ∨
        exists row, row ∈ s.calls ∧ row.1 ≠ id ∧ row.2.phase.value? = some value) :
    Orderly (base.setPhase id call (Phase.leaving slot)) := by
  apply orderly_inside h hcall hguards hholds hbase hcalls rfl
  · intro place hplace
    cases hplace
  · rfl
  · rcases placed_of_fits (fits_of_orderly h hcall) hholds with ⟨k, hkey, hplace⟩
    refine ⟨k, hkey, ?_⟩
    show (k, slot) ∈ base.places
    rw [hplaces]
    exact hplace
  · intro value hvalue
    cases hhandled value hvalue with
    | inl hthere => exact Or.inl hthere
    | inr htaken => exact Or.inr (Or.inr htaken)

theorem orderly_given {slot value : Nat} (h : Orderly s) (hcall : partyOf s.calls id = some call)
    (hphase : call.phase = Phase.inside slot) (hcontent : s.contentOf slot = some value) :
    Orderly (({ s with handles := s.handles ++ [value] } : Registry key).setPhase id call
      (Phase.leaving slot)) := by
  have hmem := contentOf_some hcontent
  have hholds : call.phase.slot? = some slot := by rw [hphase]; rfl
  have hbase : Apart id { s with handles := s.handles ++ [value] } := by
    apply apart_handles (h.apart id)
    intro other hother
    cases List.mem_append.mp hother with
    | inl hold => exact Or.inl hold
    | inr hlast =>
        rw [List.mem_singleton.mp hlast]
        exact Or.inr ⟨slot, (id, call), hmem, mem_of_partyOf hcall, hholds⟩
  apply orderly_left h hcall (by rw [hphase]; rfl) hholds hbase rfl rfl
  intro other hother
  cases List.mem_append.mp hother with
  | inl hold => exact handled_by_others h hcall (by rw [hphase]; rfl) other hold
  | inr hlast =>
      rw [List.mem_singleton.mp hlast]
      exact Or.inl (List.mem_map_of_mem (f := Prod.snd) hmem)

theorem draining_of_value {phase : Phase key} {value : Nat} (h : phase.value? = some value) :
    exists slot, phase = Phase.draining slot value := by
  cases phase with
  | draining slot taken =>
      cases h
      exact ⟨slot, rfl⟩
  | asked => cases h
  | makingRoom left idle busy => cases h
  | closing left idle => cases h
  | queued slot => cases h
  | inside slot => cases h
  | opening slot => cases h
  | deleting slot => cases h
  | leaving slot => cases h

theorem drains_alone (h : Orderly s) (hcall : partyOf s.calls id = some call) {slot value : Nat}
    (hguards : call.phase.guard? = some slot) {k : key} (hplace : (k, slot) ∈ s.places)
    {row : Nat × Call key} (hrow : row ∈ s.calls) (htakes : row.2.phase.value? = some value)
    (hopened : (value, k) ∈ s.opened) : row.1 = id := by
  rcases draining_of_value htakes with ⟨slot', hphase⟩
  have hfits := (h.apart (row.1 + 1)).others row hrow (Nat.ne_of_lt (Nat.lt_succ_self _))
  unfold Registry.Fits at hfits
  rw [hphase] at hfits
  rcases hfits with ⟨⟨k', hkey, hplace'⟩, _, _, k'', hkey', hopened'⟩
  rw [hkey] at hkey'
  cases hkey'
  rw [key_of_value (h.apart id) hopened' hopened] at hplace'
  have hslot : slot' = slot := place_of_key (h.apart id) hplace' hplace
  have hguards' : row.2.phase.guard? = some slot := by rw [hphase, hslot]; rfl
  exact (h.apart id).guardOnce row hrow (id, call) (mem_of_partyOf hcall) slot hguards' hguards

theorem none_handled (h : Orderly s) (hcall : partyOf s.calls id = some call) {slot : Nat}
    (hguards : call.phase.guard? = some slot) {k : key} (hplace : (k, slot) ∈ s.places)
    (hempty : slot ∉ s.contents.map Prod.fst) {value : Nat} (hvalue : value ∈ s.handles)
    (hfree : call.phase.value? ≠ some value) : (value, k) ∉ s.opened := by
  intro hopened
  cases h.handled value hvalue with
  | inl hthere =>
      rcases List.mem_map.mp hthere with ⟨row, hrow, hsame⟩
      rcases (h.apart id).filled row hrow with ⟨k', hplace', hopened'⟩
      rw [hsame] at hopened'
      rw [key_of_value (h.apart id) hopened' hopened] at hplace'
      have hslot : row.1 = slot := place_of_key (h.apart id) hplace' hplace
      rw [← hslot] at hempty
      exact hempty (List.mem_map_of_mem hrow)
  | inr htaken =>
      rcases htaken with ⟨row, hrow, htakes⟩
      have hid := drains_alone h hcall hguards hplace hrow htakes hopened
      rw [eq_of_partyOf (h.apart id).callsDistinct hcall hrow hid] at htakes
      exact hfree htakes

theorem orderly_proceed {slot : Nat} (h : Orderly s) (hcall : partyOf s.calls id = some call)
    (hphase : call.phase = Phase.inside slot) : Orderly (s.proceed id call slot) := by
  have hguards : call.phase.guard? = some slot := by rw [hphase]; rfl
  have hholds : call.phase.slot? = some slot := by rw [hphase]; rfl
  have hnone : call.phase.value? = none := by rw [hphase]; rfl
  rcases placed_of_fits (fits_of_orderly h hcall) hholds with ⟨k, hkey, hplace⟩
  have hleaving : Orderly (s.setPhase id call (Phase.leaving slot)) :=
    orderly_left h hcall hguards hholds (h.apart id) rfl rfl (handled_by_others h hcall hnone)
  unfold Registry.proceed
  cases hcontent : s.contentOf slot with
  | none =>
      have hempty := contentOf_none hcontent
      have hopening : Orderly (s.setPhase id call (Phase.opening slot)) := by
        apply orderly_inside h hcall hguards hholds (h.apart id) rfl rfl
        · intro place hplace'
          cases hplace'
          rfl
        · rfl
        · exact ⟨⟨k, hkey, hplace⟩, hempty⟩
        · exact handled_moved h hcall hnone
      have hdeleting : Orderly (s.setPhase id call (Phase.deleting slot)) := by
        apply orderly_inside h hcall hguards hholds (h.apart id) rfl rfl
        · intro place hplace'
          cases hplace'
          rfl
        · rfl
        · refine ⟨⟨k, hkey, hplace⟩, hempty, ?_⟩
          intro k' hkey' value hvalue
          have hsame : some k = some k' := hkey.symm.trans hkey'
          cases hsame
          exact none_handled h hcall hguards hplace hempty hvalue (by rw [hnone]; simp)
        · exact handled_moved h hcall hnone
      cases call.request with
      | getOrOpen k => exact hopening
      | takeThen k => exact hdeleting
      | opened k counts => exact hleaving
      | closeIdle idle => exact hleaving
  | some value =>
      have hgiven := orderly_given h hcall hphase hcontent
      have hmem := contentOf_some hcontent
      rcases (h.apart id).filled _ hmem with ⟨k', hplace', hopened⟩
      rw [key_of_place (h.apart id) hplace' hplace] at hopened
      have hbase : Apart id { s with contents := s.contents.filter fun row => row.1 ≠ slot } :=
        apart_emptied (h.apart id) List.filter_sublist
      have hdraining : Orderly
          (({ s with contents := s.contents.filter fun row => row.1 ≠ slot } :
            Registry key).setPhase id call (Phase.draining slot value)) := by
        apply orderly_inside h hcall hguards hholds hbase rfl rfl
        · intro place hplace'
          cases hplace'
          rfl
        · rfl
        · refine ⟨⟨k, hkey, hplace⟩, ?_, ?_, k, hkey, hopened⟩
          · intro hin
            rcases List.mem_map.mp hin with ⟨row, hrow, hslot⟩
            exact of_decide_eq_true (List.mem_filter.mp hrow).2 hslot
          · intro hin
            rcases List.mem_map.mp hin with ⟨row, hrow, hsame⟩
            rcases List.mem_filter.mp hrow with ⟨hthere, hne⟩
            have hcontent' : (row.1, value) ∈ s.contents := by
              rw [← hsame]
              exact hthere
            exact of_decide_eq_true hne (slot_of_value (h.apart id) hcontent' hmem)
        · intro other hother
          cases handled_by_others h hcall hnone other hother with
          | inr htaken => exact Or.inr (Or.inr htaken)
          | inl hthere =>
              rcases List.mem_map.mp hthere with ⟨row, hrow, hsame⟩
              by_cases hslot : row.1 = slot
              · apply Or.inr
                apply Or.inl
                have hcontent' : (slot, other) ∈ s.contents := by
                  rw [← hsame, ← hslot]
                  exact hrow
                rw [value_of_slot (h.apart id) hcontent' hmem]
                rfl
              · apply Or.inl
                rw [← hsame]
                exact List.mem_map_of_mem (List.mem_filter.mpr ⟨hrow, decide_eq_true hslot⟩)
      cases call.request with
      | getOrOpen k => exact hgiven
      | takeThen k => exact hdraining
      | opened k counts => exact hgiven
      | closeIdle idle => exact hgiven

theorem orderly_fill {slot : Nat} {k : key} (h : Orderly s) (hcall : partyOf s.calls id = some call)
    (hphase : call.phase = Phase.opening slot) (hkey : call.request.key? = some k) :
    Orderly (s.fill id call k slot) := by
  have hguards : call.phase.guard? = some slot := by rw [hphase]; rfl
  have hholds : call.phase.slot? = some slot := by rw [hphase]; rfl
  have hnone : call.phase.value? = none := by rw [hphase]; rfl
  have hfits := fits_of_orderly h hcall
  unfold Registry.Fits at hfits
  rw [hphase] at hfits
  rcases hfits with ⟨⟨k', hkey', hplace⟩, hempty⟩
  have hsame : some k' = some k := hkey'.symm.trans hkey
  cases hsame
  have hfresh : forall k, (s.nextValue, k) ∉ s.opened := by
    intro k hopened
    exact Nat.lt_irrefl _ ((h.apart id).valuesOld _ hopened)
  have hnew : s.nextValue ∉ s.contents.map Prod.snd := by
    intro hin
    rcases List.mem_map.mp hin with ⟨row, hrow, hsame⟩
    rcases (h.apart id).filled row hrow with ⟨k', _, hopened⟩
    rw [hsame] at hopened
    exact hfresh k' hopened
  have htaken : forall row, row ∈ s.calls -> row.1 ≠ id ->
      row.2.phase.value? ≠ some s.nextValue := by
    intro row hrow _ htakes
    rcases draining_of_value htakes with ⟨slot', hdrains⟩
    have hother := (h.apart (row.1 + 1)).others row hrow (Nat.ne_of_lt (Nat.lt_succ_self _))
    unfold Registry.Fits at hother
    rw [hdrains] at hother
    rcases hother with ⟨_, _, _, k', _, hopened⟩
    exact hfresh k' hopened
  have hfilled := apart_filled (apart_opened (h.apart id) k) hcall hguards hholds hplace
    (List.mem_append_right _ (List.mem_singleton_self _)) hempty hnew htaken
  have hgiven : Apart id { s with
      contents := s.contents ++ [(slot, s.nextValue)]
      handles := s.handles ++ [s.nextValue]
      opened := s.opened ++ [(s.nextValue, k)]
      nextValue := s.nextValue + 1 } := by
    apply apart_handles hfilled
    intro value hvalue
    cases List.mem_append.mp hvalue with
    | inl hold => exact Or.inl hold
    | inr hlast =>
        rw [List.mem_singleton.mp hlast]
        exact Or.inr ⟨slot, (id, call), List.mem_append_right _ (List.mem_singleton_self _),
          mem_of_partyOf hcall, hholds⟩
  apply orderly_left h hcall hguards hholds hgiven rfl rfl
  intro value hvalue
  rw [List.map_append]
  cases List.mem_append.mp hvalue with
  | inr hlast =>
      rw [List.mem_singleton.mp hlast]
      exact Or.inl (List.mem_append_right _ (List.mem_singleton_self _))
  | inl hold =>
      cases handled_by_others h hcall hnone value hold with
      | inl hthere => exact Or.inl (List.mem_append_left _ hthere)
      | inr htaken => exact Or.inr htaken

theorem orderly_finish {succeeds : Bool} (h : Orderly s) (hcall : partyOf s.calls id = some call)
    (hfinished : finished s id call succeeds = some t) : Orderly t := by
  have hleave : forall slot, call.phase.guard? = some slot -> call.phase.slot? = some slot ->
      call.phase.value? = none -> Orderly (s.setPhase id call (Phase.leaving slot)) :=
    fun slot hguards hholds hnone =>
      orderly_left h hcall hguards hholds (h.apart id) rfl rfl (handled_by_others h hcall hnone)
  unfold finished at hfinished
  split at hfinished
  · next slot hphase =>
      split at hfinished
      · rcases Option.map_eq_some_iff.mp hfinished with ⟨k, hkey, heq⟩
        subst heq
        exact orderly_fill h hcall hphase hkey
      · cases hfinished
        exact hleave slot (by rw [hphase]; rfl) (by rw [hphase]; rfl) (by rw [hphase]; rfl)
  · next slot hphase =>
      cases hfinished
      exact hleave slot (by rw [hphase]; rfl) (by rw [hphase]; rfl) (by rw [hphase]; rfl)
  · cases hfinished

theorem not_handled_of_count {slot value : Nat} (hcall : partyOf s.calls id = some call)
    (hphase : call.phase = Phase.draining slot value) (hcount : s.valueCount value = 1) :
    value ∉ s.handles := by
  intro hheld
  have hself : 0 < (s.calls.filter fun row => row.2.phase.value? = some value).length :=
    List.length_pos_of_mem
      (List.mem_filter.mpr ⟨mem_of_partyOf hcall, decide_eq_true (by rw [hphase]; rfl)⟩)
  have hgiven : 0 < s.handles.count value := List.count_pos_iff.mpr hheld
  unfold Registry.valueCount at hcount
  omega

/-!
## What a closing leaves
-/

theorem orderly_drained {slot value : Nat} (h : Orderly s) (hcall : partyOf s.calls id = some call)
    (hphase : call.phase = Phase.draining slot value) (hcount : s.valueCount value = 1) :
    Orderly (s.setPhase id call (Phase.deleting slot)) := by
  have hguards : call.phase.guard? = some slot := by rw [hphase]; rfl
  have hholds : call.phase.slot? = some slot := by rw [hphase]; rfl
  have hfree := not_handled_of_count hcall hphase hcount
  have hfits := fits_of_orderly h hcall
  unfold Registry.Fits at hfits
  rw [hphase] at hfits
  rcases hfits with ⟨⟨k, hkey, hplace⟩, hempty, _, _⟩
  apply orderly_inside h hcall hguards hholds (h.apart id) rfl rfl
  · intro place hplace'
    cases hplace'
    rfl
  · rfl
  · refine ⟨⟨k, hkey, hplace⟩, hempty, ?_⟩
    intro k' hkey' other hother
    have hsame : some k = some k' := hkey.symm.trans hkey'
    cases hsame
    apply none_handled h hcall hguards hplace hempty hother
    rw [hphase]
    intro htaken
    cases htaken
    exact hfree hother
  · intro other hother
    cases h.handled other hother with
    | inl hthere => exact Or.inl hthere
    | inr htaken =>
        rcases htaken with ⟨row, hrow, htakes⟩
        refine Or.inr (Or.inr ⟨row, hrow, ?_, htakes⟩)
        intro hid
        rw [eq_of_partyOf (h.apart id).callsDistinct hcall hrow hid, hphase] at htakes
        cases htakes
        exact hfree hother

theorem orderly_giveUp {slot value : Nat} (h : Orderly s) (hcall : partyOf s.calls id = some call)
    (hphase : call.phase = Phase.draining slot value) :
    Orderly (({ s with contents := s.contents ++ [(slot, value)] } : Registry key).setPhase id call
      (Phase.leaving slot)) := by
  have hguards : call.phase.guard? = some slot := by rw [hphase]; rfl
  have hholds : call.phase.slot? = some slot := by rw [hphase]; rfl
  have hfits := fits_of_orderly h hcall
  unfold Registry.Fits at hfits
  rw [hphase] at hfits
  rcases hfits with ⟨⟨k, hkey, hplace⟩, hempty, hnew, k', hkey', hopened⟩
  rw [hkey] at hkey'
  cases hkey'
  have hfilled := apart_filled (h.apart id) hcall hguards hholds hplace hopened hempty hnew
    fun row hrow hne htakes => hne (drains_alone h hcall hguards hplace hrow htakes hopened)
  apply orderly_left h hcall hguards hholds hfilled rfl rfl
  intro other hother
  rw [List.map_append]
  cases h.handled other hother with
  | inl hthere => exact Or.inl (List.mem_append_left _ hthere)
  | inr htaken =>
      rcases htaken with ⟨row, hrow, htakes⟩
      by_cases hid : row.1 = id
      · rw [eq_of_partyOf (h.apart id).callsDistinct hcall hrow hid, hphase] at htakes
        cases htakes
        exact Or.inl (List.mem_append_right _ (List.mem_singleton_self _))
      · exact Or.inr ⟨row, hrow, hid, htakes⟩

theorem orderly_leave {slot : Nat} (h : Orderly s) (hcall : partyOf s.calls id = some call)
    (hphase : call.phase = Phase.leaving slot) : Orderly (s.dismiss id).release := by
  have hdismissed : Orderly (s.dismiss id) :=
    orderly_dismiss (h.apart id) (handled_by_others h hcall (by rw [hphase]; rfl))
  rw [release_of_filled (hdismissed.apart id)]
  exact hdismissed

theorem orderly_shared {handles : List Nat} (h : Orderly s)
    (hsub : forall value, value ∈ handles -> value ∈ s.handles) :
    Orderly { s with handles := handles } where
  apart := fun id => apart_handles (h.apart id) fun value hvalue => Or.inl (hsub value hvalue)
  handled := fun value hvalue => h.handled value (hsub value hvalue)

end Callers

section Steps

variable {key : Type _} [DecidableEq key] {s t : Registry key} {id : Nat} {call : Call key}

theorem places_stamp (k : key) (now : Nat) (s : Registry key) :
    (s.stamp k now).places = s.places := by
  unfold Registry.stamp Registry.places
  rw [List.map_map]
  apply List.map_congr_left
  intro row _
  rw [Function.comp_apply]
  split
  · rfl
  · rfl

theorem alike_counted (k : key) (now uses : Nat) (s : Registry key) :
    Alike s (Registry.stamp k now { s with uses := uses }) :=
  ⟨places_stamp _ _ _, rfl, rfl, rfl, rfl, rfl, rfl⟩

theorem orderly_enter (now : Nat) (h : Orderly s) (hcall : partyOf s.calls id = some call)
    (hphase : call.phase = Phase.asked) (hheld : s.mapHeld = false) :
    Orderly (s.enter id call now) := by
  have hfree : forall row, row ∈ s.calls -> row.2.phase.mapped = false := by
    intro row hrow
    exact Bool.eq_false_iff.mpr fun hmapped => List.any_eq_false.mp hheld row hrow hmapped
  have hplaced : forall {base : Registry key} {k entry}, Alike s base ->
      call.request.key? = some k -> s.entryOf k = some entry ->
        Orderly (base.setPhase id call (Phase.queued entry.slot)) := by
    intro base k entry halike hkey hentry
    apply orderly_entered h hcall hphase hfree halike rfl
    refine ⟨k, hkey, ?_⟩
    show (k, entry.slot) ∈ base.places
    rw [halike.places]
    exact List.mem_map_of_mem (f := fun row => (row.1, row.2.slot)) (entryOf_some hentry)
  have hroom : forall k, call.request.key? = some k -> s.entryOf k = none ->
      Orderly (({ s with uses := s.uses + 1 } : Registry key).setPhase id call
        (Phase.makingRoom s.pass [] [])) := by
    intro k hkey hentry
    have halike : Alike s ({ s with uses := s.uses + 1 } : Registry key) :=
      ⟨rfl, rfl, rfl, rfl, rfl, rfl, rfl⟩
    apply orderly_entered h hcall hphase hfree halike rfl
    refine ⟨?_, by simp⟩
    intro k' hkey'
    have hsame : some k = some k' := hkey.symm.trans hkey'
    cases hsame
    exact entryOf_none hentry
  unfold Registry.enter
  cases hrequest : call.request with
  | getOrOpen k =>
      have hkey : call.request.key? = some k := by rw [hrequest]; rfl
      simp only
      cases hentry : s.entryOf k with
      | some entry => exact hplaced (alike_counted k now _ s) hkey hentry
      | none => exact hroom k hkey hentry
  | takeThen k =>
      have hkey : call.request.key? = some k := by rw [hrequest]; rfl
      simp only
      cases hentry : s.entryOf k with
      | some entry => exact hplaced (alike_counted k now _ s) hkey hentry
      | none => exact hroom k hkey hentry
  | opened k counts =>
      have hkey : call.request.key? = some k := by rw [hrequest]; rfl
      simp only
      cases hentry : s.entryOf k with
      | none =>
          exact orderly_dismiss (h.apart id)
            (handled_by_others h hcall (by rw [hphase]; rfl))
      | some entry =>
          cases counts with
          | true => exact hplaced (alike_counted k now _ s) hkey hentry
          | false => exact hplaced ⟨rfl, rfl, rfl, rfl, rfl, rfl, rfl⟩ hkey hentry
  | closeIdle idle =>
      apply orderly_entered h hcall hphase hfree ⟨rfl, rfl, rfl, rfl, rfl, rfl, rfl⟩ rfl
      intro k hk
      cases hk

theorem orderly_inspect {now : Nat} {phase : Phase key} (h : Orderly s)
    (hcall : partyOf s.calls id = some call) (hinspected : inspected s call now = some phase) :
    Orderly (s.setPhase id call phase) := by
  have hfits := fits_of_orderly h hcall
  have hidle : forall {k}, phase.slot? = none -> s.Idle k -> (s.setPhase id call phase).Idle k := by
    intro k hnoslot hidle
    apply idle_setPhase hcall _ hidle
    intro slot hslot
    rw [hnoslot] at hslot
    cases hslot
  have hmove : call.phase.mapped = true -> call.phase.value? = none -> phase.slot? = none ->
      phase.guard? = none -> (s.setPhase id call phase).Fits { call with phase := phase } ->
        Orderly (s.setPhase id call phase) := by
    intro hmapped hnone hnoslot hnoguard hnew
    have hothers := others_unmapped h hcall hmapped
    apply orderly_setPhase (h.apart id) hcall
    · intro slot hguards
      rw [hnoguard] at hguards
      cases hguards
    · intro _ row hrow hother
      exact (h.apart id).mapOnce row hrow (id, call) (mem_of_partyOf hcall) () hother hmapped
    · exact Or.inr hothers
    · exact hnew
    · exact handled_moved h hcall hnone
  unfold inspected at hinspected
  unfold Registry.Fits at hfits
  split at hinspected
  · next k left idle busy hphase =>
      rw [hphase] at hfits hmove
      split at hinspected
      · next hunused =>
          cases hinspected
          apply hmove rfl rfl rfl rfl
          refine ⟨hfits.1, ?_⟩
          intro other hother
          apply hidle rfl
          cases List.mem_append.mp hother with
          | inl hold => exact hfits.2 other hold
          | inr hlast =>
              rw [List.mem_singleton.mp hlast]
              exact idle_of_unused (h.apart id) hunused
      · cases hinspected
        apply hmove rfl rfl rfl rfl
        exact ⟨hfits.1, fun other hother => hidle rfl (hfits.2 other hother)⟩
  · next k left idle hphase =>
      rw [hphase] at hfits hmove
      split at hinspected
      · next hunused =>
          cases hinspected
          apply hmove rfl rfl rfl rfl
          intro other hother
          apply hidle rfl
          cases List.mem_append.mp hother with
          | inl hold => exact hfits other hold
          | inr hlast =>
              rw [List.mem_singleton.mp hlast]
              exact idle_of_unused (h.apart id) (Bool.and_eq_true_iff.mp hunused).2
      · cases hinspected
        apply hmove rfl rfl rfl rfl
        exact fun other hother => hidle rfl (hfits other hother)
  · cases hinspected

theorem handled_remove {gone : List key} (h : Orderly s) (hcall : partyOf s.calls id = some call)
    (hnone : call.phase.value? = none) (hgone : forall k, k ∈ gone -> s.Idle k) :
    forall value, value ∈ s.handles ->
      value ∈ (s.remove gone).contents.map Prod.snd ∨
        exists row, row ∈ s.calls ∧ row.1 ≠ id ∧ row.2.phase.value? = some value := by
  intro value hvalue
  cases handled_by_others h hcall hnone value hvalue with
  | inr htaken => exact Or.inr htaken
  | inl hthere =>
      rcases List.mem_map.mp hthere with ⟨row, hrow, hsame⟩
      have hcontent : (row.1, value) ∈ s.contents := by
        rw [← hsame]
        exact hrow
      exact Or.inl (List.mem_map_of_mem (f := Prod.snd)
        (content_remove (h.apart id) hgone hcontent hvalue))

theorem orderly_conclude {now : Nat} (h : Orderly s) (hcall : partyOf s.calls id = some call)
    (hconcluded : concluded s id call now = some t) : Orderly t := by
  have hfits := fits_of_orderly h hcall
  unfold concluded at hconcluded
  unfold Registry.Fits at hfits
  split at hconcluded
  · next idle busy hphase =>
      rw [hphase] at hfits
      have hmapped : call.phase.mapped = true := by rw [hphase]; rfl
      have hnone : call.phase.value? = none := by rw [hphase]; rfl
      have hothers := others_unmapped h hcall hmapped
      split at hconcluded
      · next oldest holdest =>
          cases hconcluded
          have hgone : forall k, k ∈ [oldest] -> s.Idle k := by
            intro k hk
            rw [List.mem_singleton.mp hk]
            exact hfits.2 oldest (List.argmin_mem holdest)
          apply orderly_setPhase (apart_removed (h.apart id) hgone hothers) hcall
          · intro slot hguards
            cases hguards
          · intro _ row hrow hother
            exact (h.apart id).mapOnce row hrow (id, call) (mem_of_partyOf hcall) () hother hmapped
          · exact Or.inr hothers
          · refine ⟨?_, by simp⟩
            intro k hkey hmem
            rcases List.mem_map.mp hmem with ⟨place, hplace, hk⟩
            apply hfits.1 k hkey
            rw [← hk]
            exact List.mem_map_of_mem (mem_places_remove.mp hplace).1
          · intro value hvalue
            cases handled_remove h hcall hnone hgone value hvalue with
            | inl hthere => exact Or.inl hthere
            | inr htaken => exact Or.inr (Or.inr htaken)
      · rcases Option.map_eq_some_iff.mp hconcluded with ⟨k, hkey, heq⟩
        subst heq
        have hinserted : Apart id { s with
            slots := s.slots ++ [(k, { slot := s.nextSlot, used := s.uses, lastAt := now })]
            nextSlot := s.nextSlot + 1 } :=
          apart_inserted (h.apart id) (hfits.1 k hkey) rfl hothers
        apply orderly_setPhase hinserted hcall
        · intro slot hguards
          cases hguards
        · intro hqueued
          cases hqueued
        · exact Or.inr hothers
        · refine ⟨k, hkey, ?_⟩
          apply List.mem_map.mpr
          exact ⟨_, List.mem_append_right _ (List.mem_singleton_self _), rfl⟩
        · exact handled_moved h hcall hnone
  · next idle hphase =>
      rw [hphase] at hfits
      cases hconcluded
      have hmapped : call.phase.mapped = true := by rw [hphase]; rfl
      exact orderly_dismiss
        (apart_removed (h.apart id) hfits (others_unmapped h hcall hmapped))
        (handled_remove h hcall (by rw [hphase]; rfl) hfits)
  · cases hconcluded

theorem orderly_step :
    Preserved (step : Registry key -> Action key -> Option (Registry key)) Orderly := by
  intro s action t h hstep
  cases action with
  | ask id request =>
      simp only [step] at hstep
      split at hstep
      · next hnew =>
          cases hstep
          exact orderly_ask h (Option.isNone_iff_eq_none.mp hnew)
      · cases hstep
  | enter id now =>
      rcases Option.bind_eq_some_iff.mp hstep with ⟨call, hcall, hstep⟩
      split at hstep
      · next hguard =>
          cases hstep
          rw [Bool.and_eq_true, decide_eq_true_eq, Bool.not_eq_true'] at hguard
          exact orderly_enter now h hcall hguard.1 hguard.2
      · cases hstep
  | inspect id now =>
      rcases Option.bind_eq_some_iff.mp hstep with ⟨call, hcall, hstep⟩
      rcases Option.map_eq_some_iff.mp hstep with ⟨phase, hphase, heq⟩
      subst heq
      exact orderly_inspect h hcall hphase
  | conclude id now =>
      rcases Option.bind_eq_some_iff.mp hstep with ⟨call, hcall, hstep⟩
      exact orderly_conclude h hcall hstep
  | acquire id =>
      rcases Option.bind_eq_some_iff.mp hstep with ⟨call, hcall, hstep⟩
      rcases Option.map_eq_some_iff.mp hstep with ⟨phase, hphase, heq⟩
      subst heq
      exact orderly_acquire h hcall hphase
  | proceed id =>
      rcases Option.bind_eq_some_iff.mp hstep with ⟨call, hcall, hstep⟩
      split at hstep
      · next slot hphase =>
          cases hstep
          exact orderly_proceed h hcall hphase
      · cases hstep
  | finish id succeeds =>
      rcases Option.bind_eq_some_iff.mp hstep with ⟨call, hcall, hstep⟩
      exact orderly_finish h hcall hstep
  | drained id =>
      rcases Option.bind_eq_some_iff.mp hstep with ⟨call, hcall, hstep⟩
      split at hstep
      · next slot value hphase =>
          split at hstep
          · next hcount =>
              cases hstep
              exact orderly_drained h hcall hphase hcount
          · cases hstep
      · cases hstep
  | giveUp id =>
      rcases Option.bind_eq_some_iff.mp hstep with ⟨call, hcall, hstep⟩
      split at hstep
      · next slot value hphase =>
          split at hstep
          · cases hstep
            exact orderly_giveUp h hcall hphase
          · cases hstep
      · cases hstep
  | leave id =>
      rcases Option.bind_eq_some_iff.mp hstep with ⟨call, hcall, hstep⟩
      split at hstep
      · next slot hphase =>
          cases hstep
          exact orderly_leave h hcall hphase
      · cases hstep
  | clone value =>
      simp only [step] at hstep
      split at hstep
      · next hheld =>
          cases hstep
          apply orderly_shared h
          intro other hother
          cases List.mem_append.mp hother with
          | inl hold => exact hold
          | inr hlast =>
              rw [List.mem_singleton.mp hlast]
              exact hheld
      · cases hstep
  | drop value =>
      simp only [step] at hstep
      split at hstep
      · cases hstep
        exact orderly_shared h fun other hother => List.mem_of_mem_erase hother
      · cases hstep

end Steps

end Opening
end PaminMemory
