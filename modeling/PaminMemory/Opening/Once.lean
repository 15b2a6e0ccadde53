import PaminMemory.Opening.Safe

/-!
# One value of a key at a time

What the order every step keeps means to the callers: a key has one value alive, is opened
and deleted with none, and keeps its entry while somebody uses it.  How many entries there
are is bounded by what make_room found in use when it looked.
-/

namespace PaminMemory
namespace Opening

open Foundation

section Values

variable {key : Type _} {s : Registry key}

def Registry.Alive (s : Registry key) (value : Nat) : Prop :=
  value ∈ s.contents.map Prod.snd ∨ value ∈ s.handles ∨
    exists row, row ∈ s.calls ∧ row.2.phase.value? = some value

def Registry.InUse (s : Registry key) (k : key) : Prop :=
  (exists row, row ∈ s.calls ∧ row.2.request.key? = some k ∧ row.2.phase.slot?.isSome) ∨
    exists value, value ∈ s.handles ∧ (value, k) ∈ s.opened

/-- A key has one value at a time, and none while it is opened or deleted. -/
structure Once (s : Registry key) : Prop where
  single : forall value other k, s.Alive value -> s.Alive other -> (value, k) ∈ s.opened ->
    (other, k) ∈ s.opened -> value = other
  opens : forall row, row ∈ s.calls -> forall slot, row.2.phase = Phase.opening slot ->
    forall k, row.2.request.key? = some k -> forall value, s.Alive value ->
      (value, k) ∉ s.opened
  deletes : forall row, row ∈ s.calls -> forall slot, row.2.phase = Phase.deleting slot ->
    forall k, row.2.request.key? = some k -> forall value, s.Alive value ->
      (value, k) ∉ s.opened

theorem home_of_alive (h : Orderly s) {value : Nat} {k : key} (halive : s.Alive value)
    (hopened : (value, k) ∈ s.opened) :
    exists slot, (k, slot) ∈ s.places ∧
      ((slot, value) ∈ s.contents ∨
        exists row, row ∈ s.calls ∧ row.2.phase = Phase.draining slot value) := by
  have hthere : value ∈ s.contents.map Prod.snd -> exists slot, (k, slot) ∈ s.places ∧
      ((slot, value) ∈ s.contents ∨
        exists row, row ∈ s.calls ∧ row.2.phase = Phase.draining slot value) := by
    intro hin
    rcases List.mem_map.mp hin with ⟨row, hrow, hsame⟩
    rcases (h.apart 0).filled row hrow with ⟨k', hplace, hopened'⟩
    rw [hsame] at hopened'
    rw [key_of_value (h.apart 0) hopened' hopened] at hplace
    refine ⟨row.1, hplace, Or.inl ?_⟩
    rw [← hsame]
    exact hrow
  have htaken : (exists row, row ∈ s.calls ∧ row.2.phase.value? = some value) ->
      exists slot, (k, slot) ∈ s.places ∧
        ((slot, value) ∈ s.contents ∨
          exists row, row ∈ s.calls ∧ row.2.phase = Phase.draining slot value) := by
    intro hin
    rcases hin with ⟨row, hrow, htakes⟩
    rcases draining_of_value htakes with ⟨slot, hphase⟩
    have hfits := (h.apart (row.1 + 1)).others row hrow (Nat.ne_of_lt (Nat.lt_succ_self _))
    unfold Registry.Fits at hfits
    rw [hphase] at hfits
    rcases hfits with ⟨⟨k', hkey, hplace⟩, _, _, k'', hkey', hopened'⟩
    rw [hkey] at hkey'
    cases hkey'
    rw [key_of_value (h.apart 0) hopened' hopened] at hplace
    exact ⟨slot, hplace, Or.inr ⟨row, hrow, hphase⟩⟩
  rcases halive with hslot | hheld | hcaller
  · exact hthere hslot
  · exact (h.handled value hheld).elim hthere htaken
  · exact htaken hcaller

theorem guards_alone (h : Orderly s) {first second : Nat × Call key} {slot : Nat}
    (hfirst : first ∈ s.calls) (hsecond : second ∈ s.calls)
    (hguards : first.2.phase.guard? = some slot) (hguards' : second.2.phase.guard? = some slot) :
    first = second := by
  have hid := (h.apart 0).guardOnce first hfirst second hsecond slot hguards hguards'
  exact List.inj_on_of_nodup_map (h.apart 0).callsDistinct hfirst hsecond hid

theorem drained_empty (h : Orderly s) {row : Nat × Call key} {slot value : Nat}
    (hrow : row ∈ s.calls) (hphase : row.2.phase = Phase.draining slot value) :
    slot ∉ s.contents.map Prod.fst ∧ value ∉ s.contents.map Prod.snd := by
  have hfits := (h.apart (row.1 + 1)).others row hrow (Nat.ne_of_lt (Nat.lt_succ_self _))
  unfold Registry.Fits at hfits
  rw [hphase] at hfits
  exact ⟨hfits.2.1, hfits.2.2.1⟩

theorem none_alive (h : Orderly s) {row : Nat × Call key} {slot : Nat} {k : key}
    (hrow : row ∈ s.calls) (hguards : row.2.phase.guard? = some slot)
    (hnone : row.2.phase.value? = none) (hplace : (k, slot) ∈ s.places)
    (hempty : slot ∉ s.contents.map Prod.fst) {value : Nat} (halive : s.Alive value) :
    (value, k) ∉ s.opened := by
  intro hopened
  rcases home_of_alive h halive hopened with ⟨slot', hplace', hhome⟩
  have hsame : slot' = slot := place_of_key (h.apart 0) hplace' hplace
  rw [hsame] at hhome
  cases hhome with
  | inl hcontent => exact hempty (List.mem_map_of_mem (f := Prod.fst) hcontent)
  | inr hdrains =>
      rcases hdrains with ⟨other, hother, hphase⟩
      have hguards' : other.2.phase.guard? = some slot := by rw [hphase]; rfl
      rw [guards_alone h hrow hother hguards hguards', hphase] at hnone
      cases hnone

theorem once_of_orderly (h : Orderly s) : Once s where
  single := by
    intro value other k halive halive' hopened hopened'
    rcases home_of_alive h halive hopened with ⟨slot, hplace, hhome⟩
    rcases home_of_alive h halive' hopened' with ⟨slot', hplace', hhome'⟩
    have hsame : slot' = slot := place_of_key (h.apart 0) hplace' hplace
    rw [hsame] at hhome'
    rcases hhome with hcontent | ⟨row, hrow, hphase⟩
    · rcases hhome' with hcontent' | ⟨row', hrow', hphase'⟩
      · exact value_of_slot (h.apart 0) hcontent hcontent'
      · exact absurd (List.mem_map_of_mem (f := Prod.fst) hcontent) (drained_empty h hrow' hphase').1
    · rcases hhome' with hcontent' | ⟨row', hrow', hphase'⟩
      · exact absurd (List.mem_map_of_mem (f := Prod.fst) hcontent') (drained_empty h hrow hphase).1
      · have hguards : row.2.phase.guard? = some slot := by rw [hphase]; rfl
        have hguards' : row'.2.phase.guard? = some slot := by rw [hphase']; rfl
        rw [guards_alone h hrow hrow' hguards hguards', hphase'] at hphase
        cases hphase
        rfl
  opens := by
    intro row hrow slot hphase k hkey value halive
    have hfits := (h.apart (row.1 + 1)).others row hrow (Nat.ne_of_lt (Nat.lt_succ_self _))
    unfold Registry.Fits at hfits
    rw [hphase] at hfits
    rcases hfits with ⟨⟨k', hkey', hplace⟩, hempty⟩
    rw [hkey] at hkey'
    cases hkey'
    exact none_alive h hrow (by rw [hphase]; rfl) (by rw [hphase]; rfl) hplace hempty halive
  deletes := by
    intro row hrow slot hphase k hkey value halive
    have hfits := (h.apart (row.1 + 1)).others row hrow (Nat.ne_of_lt (Nat.lt_succ_self _))
    unfold Registry.Fits at hfits
    rw [hphase] at hfits
    rcases hfits with ⟨⟨k', hkey', hplace⟩, hempty, _⟩
    rw [hkey] at hkey'
    cases hkey'
    exact none_alive h hrow (by rw [hphase]; rfl) (by rw [hphase]; rfl) hplace hempty halive

theorem not_inUse_of_idle (h : Orderly s) {k : key} (hidle : s.Idle k) : ¬s.InUse k := by
  rcases hidle with ⟨slot, hplace, hfree, hunheld⟩
  intro huse
  rcases huse with ⟨row, hrow, hkey, hsome⟩ | ⟨value, hheld, hopened⟩
  · rcases Option.isSome_iff_exists.mp hsome with ⟨slot', hholds⟩
    have hfits := (h.apart (row.1 + 1)).others row hrow (Nat.ne_of_lt (Nat.lt_succ_self _))
    rcases placed_of_fits hfits hholds with ⟨k', hkey', hplace'⟩
    rw [hkey] at hkey'
    cases hkey'
    rw [place_of_key (h.apart 0) hplace' hplace] at hholds
    exact hfree row hrow hholds
  · rcases home_of_alive h (Or.inr (Or.inl hheld)) hopened with
      ⟨slot', hplace', hhome⟩
    have hsame : slot' = slot := place_of_key (h.apart 0) hplace' hplace
    rw [hsame] at hhome
    rcases hhome with hcontent | ⟨row, hrow, hphase⟩
    · exact hunheld value hcontent hheld
    · exact hfree row hrow (by rw [hphase]; rfl)

theorem slot_of_guard {phase : Phase key} {slot : Nat} (h : phase.guard? = some slot) :
    phase.slot? = some slot := by
  cases phase with
  | inside place => exact h
  | opening place => exact h
  | draining place value => exact h
  | deleting place => exact h
  | asked => cases h
  | makingRoom left idle busy => cases h
  | closing left idle => cases h
  | queued place => cases h
  | leaving place => cases h

end Values

end Opening
end PaminMemory
