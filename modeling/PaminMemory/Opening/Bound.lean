import PaminMemory.Opening.Once

/-!
# How many entries there are

make_room looks at every entry before it gives up, and an entry it leaves is one somebody
uses; so the map outgrows its capacity only by what was found in use.
-/

namespace PaminMemory
namespace Opening

open Foundation

section Using

variable {key : Type _} {s : Registry key}

theorem keys_eq (s : Registry key) : s.keys = s.places.map Prod.fst := by
  unfold Registry.keys Registry.places
  rw [List.map_map]
  rfl

theorem pass_seen (s : Registry key) :
    s.slots.length < s.capacity ∧ s.pass = [] ∨ s.pass = s.keys := by
  unfold Registry.pass
  split
  · exact Or.inr rfl
  · next hroom => exact Or.inl ⟨Nat.lt_of_not_le hroom, rfl⟩

theorem seen_pass (s : Registry key) :
    s.slots.length < s.capacity ∧ s.pass = [] ∧ ([] : List key) = [] ∨
      ([] ++ [] ++ s.pass).Perm s.keys := by
  cases pass_seen s with
  | inl hroom => exact Or.inl ⟨hroom.1, hroom.2, rfl⟩
  | inr hall =>
      rw [hall]
      exact Or.inr (List.Perm.refl _)

theorem length_keys (s : Registry key) : s.keys.length = s.slots.length := by
  unfold Registry.keys
  rw [List.length_map]

theorem length_filter_le_one {thing value : Type _} [DecidableEq value] {f : thing -> value}
    {things : List thing} (h : (things.map f).Nodup) (v : value) :
    (things.filter fun x => f x = v).length <= 1 := by
  have hcount := List.nodup_iff_count_le_one.mp h v
  rw [List.count_eq_countP, List.countP_map, List.countP_eq_length_filter] at hcount
  exact hcount

theorem inUse_of_slot (h : Orderly s) {k : key} {slot : Nat} (hplace : (k, slot) ∈ s.places)
    {row : Nat × Call key} (hrow : row ∈ s.calls) (hslot : row.2.phase.slot? = some slot) :
    s.InUse k := by
  have hfits := (h.apart (row.1 + 1)).others row hrow (Nat.ne_of_lt (Nat.lt_succ_self _))
  rcases placed_of_fits hfits hslot with ⟨k', hkey, hplace'⟩
  rw [key_of_place (h.apart 0) hplace' hplace] at hkey
  refine Or.inl ⟨row, hrow, hkey, ?_⟩
  rw [hslot]
  rfl

theorem handled_of_count (h : Orderly s) {slot value : Nat} (hcontent : (slot, value) ∈ s.contents)
    (hcount : s.valueCount value ≠ 1) : value ∈ s.handles := by
  have hthere : 0 < (s.contents.filter fun row => row.2 = value).length :=
    List.length_pos_of_mem (List.mem_filter.mpr ⟨hcontent, decide_eq_true rfl⟩)
  have honce := length_filter_le_one (h.apart 0).contentsValues value
  have huntaken : s.calls.filter (fun row => row.2.phase.value? = some value) = [] := by
    rw [List.filter_eq_nil_iff]
    intro row hrow htakes
    rcases draining_of_value (of_decide_eq_true htakes) with ⟨slot', hphase⟩
    exact (drained_empty h hrow hphase).2 (List.mem_map_of_mem (f := Prod.snd) hcontent)
  unfold Registry.valueCount at hcount
  rw [huntaken, List.length_nil] at hcount
  apply List.count_pos_iff.mp
  omega

end Using

section Busy

variable {key : Type _} [DecidableEq key] {s : Registry key}

instance (s : Registry key) (k : key) : Decidable (s.InUse k) :=
  inferInstanceAs (Decidable (_ ∨ _))

def Registry.usedKeys (s : Registry key) : List key := s.keys.filter fun k => s.InUse k

theorem inUse_of_not_unused (h : Orderly s) {k : key} (hk : k ∈ s.keys)
    (hused : s.unused k = false) : s.InUse k := by
  unfold Registry.unused at hused
  cases hentry : s.entryOf k with
  | none =>
      rw [keys_eq] at hk
      exact absurd hk (entryOf_none hentry)
  | some entry =>
      simp only [hentry] at hused
      have hmem := entryOf_some hentry
      have hplace : (k, entry.slot) ∈ s.places :=
        List.mem_map_of_mem (f := fun row => (row.1, row.2.slot)) hmem
      unfold Registry.isUnused at hused
      split at hused
      · next hcount =>
          have hself : 0 < (s.slots.filter fun row => row.2.slot = entry.slot).length :=
            List.length_pos_of_mem (List.mem_filter.mpr ⟨hmem, decide_eq_true rfl⟩)
          have hdistinct : (s.slots.map fun row => row.2.slot).Nodup := by
            have hslots := (h.apart 0).slotsDistinct
            unfold Registry.places at hslots
            rw [List.map_map] at hslots
            exact hslots
          have honce := length_filter_le_one hdistinct entry.slot
          have hsome : 0 < (s.calls.filter fun row =>
              row.2.phase.slot? = some entry.slot).length := by
            unfold Registry.slotCount at hcount
            omega
          rcases List.length_pos_iff_exists_mem.mp hsome with ⟨row, hrow⟩
          rcases List.mem_filter.mp hrow with ⟨hcall, hslot⟩
          exact inUse_of_slot h hplace hcall (of_decide_eq_true hslot)
      · split at hused
        · next hguarded =>
            rcases List.any_eq_true.mp hguarded with ⟨row, hrow, hguards⟩
            exact inUse_of_slot h hplace hrow (slot_of_guard (of_decide_eq_true hguards))
        · split at hused
          · cases hused
          · next value hcontent =>
              have hcontent' := contentOf_some hcontent
              have hheld := handled_of_count h hcontent' (of_decide_eq_false hused)
              rcases (h.apart 0).filled _ hcontent' with ⟨k', hplace', hopened⟩
              rw [key_of_place (h.apart 0) hplace' hplace] at hopened
              exact Or.inr ⟨value, hheld, hopened⟩

end Busy

/-!
## What a pass has seen
-/

section Passes

variable {key : Type _} [DecidableEq key] {s t : Registry key} {id : Nat} {call : Call key}

def Seen (s : Registry key) : Prop :=
  forall row, row ∈ s.calls -> forall left idle busy,
    row.2.phase = Phase.makingRoom left idle busy ->
      s.slots.length < s.capacity ∧ left = [] ∧ busy = [] ∨
        (idle ++ busy ++ left).Perm s.keys

def Scanned (s t : Registry key) (row : Nat × Call key) (left idle busy : List key) : Prop :=
  row ∈ s.calls ∨ left = t.pass ∧ idle = [] ∧ busy = [] ∨
    exists call k, (row.1, call) ∈ s.calls ∧
      ((exists found, call.phase = Phase.makingRoom (k :: left) found busy ∧
          idle = found ++ [k]) ∨
        exists found, call.phase = Phase.makingRoom (k :: left) idle found ∧
          busy = found ++ [k] ∧ s.unused k = false)

/-- A step that leaves the entries of the map. -/
structure Quiet (s t : Registry key) : Prop where
  capacity : t.capacity = s.capacity
  keys : t.keys = s.keys
  rows : forall row, row ∈ t.calls -> forall left idle busy,
    row.2.phase = Phase.makingRoom left idle busy -> Scanned s t row left idle busy

theorem quiet_moved {base : Registry key} {phase : Phase key}
    (hcapacity : base.capacity = s.capacity) (hkeys : base.keys = s.keys)
    (hcalls : base.calls = s.calls)
    (hnew : forall left idle busy, phase = Phase.makingRoom left idle busy ->
      Scanned s base (id, { call with phase := phase }) left idle busy) :
    Quiet s (base.setPhase id call phase) where
  capacity := hcapacity
  keys := hkeys
  rows := by
    intro row hrow left idle busy hphase
    cases mem_setParty hrow with
    | inl hthis =>
        subst hthis
        exact hnew left idle busy hphase
    | inr hother =>
        rw [hcalls] at hother
        exact Or.inl hother.1

theorem quiet_slotted {base : Registry key} {phase : Phase key} {slot : Nat}
    (hslot : phase.slot? = some slot) (hcapacity : base.capacity = s.capacity)
    (hkeys : base.keys = s.keys) (hcalls : base.calls = s.calls) :
    Quiet s (base.setPhase id call phase) := by
  apply quiet_moved hcapacity hkeys hcalls
  intro left idle busy hphase
  rw [hphase] at hslot
  cases hslot

theorem quiet_dismissed {base : Registry key} (hcapacity : base.capacity = s.capacity)
    (hkeys : base.keys = s.keys) (hcalls : base.calls = dropParty id s.calls) : Quiet s base where
  capacity := hcapacity
  keys := hkeys
  rows := by
    intro row hrow _ _ _ _
    rw [hcalls] at hrow
    exact Or.inl (mem_dropParty hrow)

theorem keys_stamp (k : key) (now : Nat) (s : Registry key) : (s.stamp k now).keys = s.keys := by
  rw [keys_eq, keys_eq, places_stamp]

theorem quiet_enter (now : Nat) : Quiet s (s.enter id call now) := by
  have hroom : Quiet s (({ s with uses := s.uses + 1 } : Registry key).setPhase id call
      (Phase.makingRoom s.pass [] [])) := by
    apply quiet_moved
    · rfl
    · rfl
    · rfl
    · intro left idle busy hphase
      cases hphase
      exact Or.inr (Or.inl ⟨rfl, rfl, rfl⟩)
  have hqueued : forall k uses slot, Quiet s ((Registry.stamp k now
      { s with uses := uses } : Registry key).setPhase id call (Phase.queued slot)) := by
    intro k uses slot
    exact quiet_slotted rfl rfl (keys_stamp k now _) rfl
  unfold Registry.enter
  cases call.request with
  | getOrOpen k =>
      simp only
      cases s.entryOf k with
      | some entry => exact hqueued k _ entry.slot
      | none => exact hroom
  | takeThen k =>
      simp only
      cases s.entryOf k with
      | some entry => exact hqueued k _ entry.slot
      | none => exact hroom
  | opened k counts =>
      simp only
      cases s.entryOf k with
      | none => exact quiet_dismissed rfl rfl rfl
      | some entry =>
          cases counts with
          | true => exact hqueued k _ entry.slot
          | false =>
              exact quiet_slotted rfl rfl rfl rfl
  | closeIdle idle =>
      apply quiet_moved rfl rfl rfl
      intro _ _ _ hphase
      cases hphase

theorem quiet_inspect {now : Nat} {phase : Phase key} (hcall : partyOf s.calls id = some call)
    (hinspected : inspected s call now = some phase) : Quiet s (s.setPhase id call phase) := by
  apply quiet_moved rfl rfl rfl
  intro left idle busy hphase
  unfold inspected at hinspected
  split at hinspected
  · next k left' idle' busy' hbefore =>
      refine Or.inr (Or.inr ⟨call, k, mem_of_partyOf hcall, ?_⟩)
      split at hinspected
      · cases hinspected
        cases hphase
        exact Or.inl ⟨idle', hbefore, rfl⟩
      · next hused =>
          cases hinspected
          cases hphase
          exact Or.inr ⟨busy', hbefore, rfl, Bool.eq_false_iff.mpr hused⟩
  · split at hinspected
    · cases hinspected
      cases hphase
    · cases hinspected
      cases hphase
  · cases hinspected

theorem quiet_acquire {phase : Phase key} (hacquired : acquired s call = some phase) :
    Quiet s (s.setPhase id call phase) := by
  unfold acquired at hacquired
  split at hacquired
  · split at hacquired
    · split at hacquired
      · cases hacquired
        exact quiet_slotted rfl rfl rfl rfl
      · cases hacquired
        exact quiet_slotted rfl rfl rfl rfl
    · split at hacquired
      · cases hacquired
      · cases hacquired
        exact quiet_slotted rfl rfl rfl rfl
  · cases hacquired

theorem quiet_proceed {slot : Nat} : Quiet s (s.proceed id call slot) := by
  unfold Registry.proceed
  split
  · exact quiet_slotted rfl rfl rfl rfl
  · exact quiet_slotted rfl rfl rfl rfl
  · exact quiet_slotted rfl rfl rfl rfl
  · exact quiet_slotted rfl rfl rfl rfl
  · exact quiet_slotted rfl rfl rfl rfl

theorem quiet_finish {succeeds : Bool} (hfinished : finished s id call succeeds = some t) :
    Quiet s t := by
  unfold finished at hfinished
  split at hfinished
  · split at hfinished
    · rcases Option.map_eq_some_iff.mp hfinished with ⟨k, _, heq⟩
      subst heq
      exact quiet_slotted rfl rfl rfl rfl
    · cases hfinished
      exact quiet_slotted rfl rfl rfl rfl
  · cases hfinished
    exact quiet_slotted rfl rfl rfl rfl
  · cases hfinished

theorem quiet_or_conclude {action : Action key} (hstep : step s action = some t) :
    Quiet s t ∨ exists id call now, action = Action.conclude id now ∧
      partyOf s.calls id = some call ∧ concluded s id call now = some t := by
  cases action with
  | ask id request =>
      simp only [step] at hstep
      split at hstep
      · cases hstep
        refine Or.inl ⟨rfl, rfl, ?_⟩
        intro row hrow left idle busy hphase
        cases List.mem_append.mp hrow with
        | inl hold => exact Or.inl hold
        | inr hlast =>
            rw [List.mem_singleton.mp hlast] at hphase
            cases hphase
      · cases hstep
  | enter id now =>
      rcases Option.bind_eq_some_iff.mp hstep with ⟨call, hcall, hstep⟩
      split at hstep
      · cases hstep
        exact Or.inl (quiet_enter now)
      · cases hstep
  | inspect id now =>
      rcases Option.bind_eq_some_iff.mp hstep with ⟨call, hcall, hstep⟩
      rcases Option.map_eq_some_iff.mp hstep with ⟨phase, hphase, heq⟩
      subst heq
      exact Or.inl (quiet_inspect hcall hphase)
  | conclude id now =>
      rcases Option.bind_eq_some_iff.mp hstep with ⟨call, hcall, hstep⟩
      exact Or.inr ⟨id, call, now, rfl, hcall, hstep⟩
  | acquire id =>
      rcases Option.bind_eq_some_iff.mp hstep with ⟨call, hcall, hstep⟩
      rcases Option.map_eq_some_iff.mp hstep with ⟨phase, hphase, heq⟩
      subst heq
      exact Or.inl (quiet_acquire hphase)
  | proceed id =>
      rcases Option.bind_eq_some_iff.mp hstep with ⟨call, hcall, hstep⟩
      split at hstep
      · cases hstep
        exact Or.inl quiet_proceed
      · cases hstep
  | finish id succeeds =>
      rcases Option.bind_eq_some_iff.mp hstep with ⟨call, hcall, hstep⟩
      exact Or.inl (quiet_finish hstep)
  | drained id =>
      rcases Option.bind_eq_some_iff.mp hstep with ⟨call, hcall, hstep⟩
      split at hstep
      · split at hstep
        · cases hstep
          exact Or.inl (quiet_slotted rfl rfl rfl rfl)
        · cases hstep
      · cases hstep
  | giveUp id =>
      rcases Option.bind_eq_some_iff.mp hstep with ⟨call, hcall, hstep⟩
      split at hstep
      · split at hstep
        · cases hstep
          exact Or.inl (quiet_slotted rfl rfl rfl rfl)
        · cases hstep
      · cases hstep
  | leave id =>
      rcases Option.bind_eq_some_iff.mp hstep with ⟨call, hcall, hstep⟩
      split at hstep
      · cases hstep
        exact Or.inl (quiet_dismissed rfl rfl rfl)
      · cases hstep
  | clone value =>
      simp only [step] at hstep
      split at hstep
      · cases hstep
        exact Or.inl ⟨rfl, rfl, fun row hrow _ _ _ _ => Or.inl hrow⟩
      · cases hstep
  | drop value =>
      simp only [step] at hstep
      split at hstep
      · cases hstep
        exact Or.inl ⟨rfl, rfl, fun row hrow _ _ _ _ => Or.inl hrow⟩
      · cases hstep

theorem concluded_cases {now : Nat} (h : concluded s id call now = some t) :
    (exists idle busy oldest, call.phase = Phase.makingRoom [] idle busy ∧ oldest ∈ idle ∧
        t = (s.remove [oldest]).setPhase id call
          (Phase.makingRoom (s.remove [oldest]).pass [] [])) ∨
      (exists busy k, call.phase = Phase.makingRoom [] [] busy ∧ call.request.key? = some k ∧
        t = s.insert id call k now) ∨
      exists idle, call.phase = Phase.closing [] idle ∧ t = (s.remove idle).dismiss id := by
  unfold concluded at h
  split at h
  · next idle busy hphase =>
      split at h
      · next oldest holdest =>
          cases h
          exact Or.inl ⟨idle, busy, oldest, hphase, List.argmin_mem holdest, rfl⟩
      · next hnone =>
          rcases Option.map_eq_some_iff.mp h with ⟨k, hkey, heq⟩
          rw [List.argmin_eq_none.mp hnone] at hphase
          exact Or.inr (Or.inl ⟨busy, k, hphase, hkey, heq.symm⟩)
  · next idle hphase =>
      cases h
      exact Or.inr (Or.inr ⟨idle, hphase, rfl⟩)
  · cases h

theorem mapped_of_concluded {now : Nat} (h : concluded s id call now = some t) :
    call.phase.mapped = true := by
  rcases concluded_cases h with ⟨_, _, _, hphase, _⟩ | ⟨_, _, hphase, _⟩ | ⟨_, hphase, _⟩
  · rw [hphase]
    rfl
  · rw [hphase]
    rfl
  · rw [hphase]
    rfl

theorem seen_quiet (hseen : Seen s) (hquiet : Quiet s t) : Seen t := by
  have hlength : t.slots.length = s.slots.length := by
    rw [← length_keys, ← length_keys, hquiet.keys]
  intro row hrow left idle busy hphase
  rcases hquiet.rows row hrow left idle busy hphase with hold | ⟨hleft, hidle, hbusy⟩ | hlook
  · rw [hquiet.capacity, hquiet.keys, hlength]
    exact hseen row hold left idle busy hphase
  · rw [hleft, hidle, hbusy]
    exact seen_pass t
  · rw [hquiet.keys]
    apply Or.inr
    rcases hlook with ⟨call, k, hcall, ⟨found, hbefore, hnow⟩ | ⟨found, hbefore, hnow, _⟩⟩
    · rcases hseen _ hcall _ _ _ hbefore with ⟨_, hnil, _⟩ | hperm
      · cases hnil
      · rw [hnow]
        refine List.Perm.trans ?_ hperm
        rw [List.append_assoc, List.append_assoc, List.append_assoc, List.singleton_append]
        refine List.Perm.append_left found ?_
        exact List.perm_middle.symm
    · rcases hseen _ hcall _ _ _ hbefore with ⟨_, hnil, _⟩ | hperm
      · cases hnil
      · rw [hnow]
        refine List.Perm.trans ?_ hperm
        rw [← List.append_assoc, List.append_assoc (idle ++ found), List.singleton_append]

theorem seen_step {action : Action key} (h : Orderly s) (hseen : Seen s)
    (hstep : step s action = some t) : Seen t := by
  rcases quiet_or_conclude hstep with hquiet | ⟨id, call, now, _, hcall, hconcluded⟩
  · exact seen_quiet hseen hquiet
  · have hothers := others_unmapped h hcall (mapped_of_concluded hconcluded)
    have hrest : forall {row : Nat × Call key} {left idle busy}, row ∈ s.calls -> row.1 ≠ id ->
        row.2.phase ≠ Phase.makingRoom left idle busy := by
      intro row left idle busy hrow hne hphase
      have hfree := hothers row hrow hne
      rw [hphase] at hfree
      cases hfree
    intro row hrow left idle busy hphase
    rcases concluded_cases hconcluded with ⟨_, _, oldest, _, _, heq⟩ | ⟨_, _, _, _, heq⟩ |
      ⟨_, _, heq⟩
    · rw [heq] at hrow ⊢
      rcases mem_setParty hrow with hthis | ⟨hold, hne⟩
      · rw [hthis] at hphase
        cases hphase
        exact seen_pass (s.remove [oldest])
      · exact absurd hphase (hrest hold hne)
    · rw [heq] at hrow
      rcases mem_setParty hrow with hthis | ⟨hold, hne⟩
      · rw [hthis] at hphase
        cases hphase
      · exact absurd hphase (hrest hold hne)
    · rw [heq] at hrow
      exact absurd hphase (hrest (mem_dropParty hrow) (ne_of_mem_dropParty hrow))

end Passes

/-!
## Every run
-/

section Runs

variable {key : Type _} [DecidableEq key] {s t : Registry key}

/-- No key leaves the map while somebody uses it. -/
def KeepsUsed (s : Registry key) (action : Action key) : Prop :=
  forall t, step s action = some t -> forall k, k ∈ s.keys -> k ∉ t.keys -> ¬s.InUse k

/-- What a caller finds busy is an entry of the map that is in use when it looks. -/
def FindsBusy (s : Registry key) (action : Action key) : Prop :=
  forall t, step s action = some t -> forall row, row ∈ t.calls -> forall left idle busy,
    row.2.phase = Phase.makingRoom left idle busy -> forall k, k ∈ busy ->
      (exists call left' idle' busy', (row.1, call) ∈ s.calls ∧
          call.phase = Phase.makingRoom left' idle' busy' ∧ k ∈ busy') ∨
        k ∈ s.keys ∧ s.InUse k

/-- An entry is added past the capacity only for those found busy, and itself. -/
def AddsWithin (s : Registry key) (action : Action key) : Prop :=
  forall t, step s action = some t -> forall k, k ∈ t.keys -> k ∉ s.keys ->
    t.InUse k ∧ exists row busy, row ∈ s.calls ∧ row.2.phase = Phase.makingRoom [] [] busy ∧
      busy.Nodup ∧ (forall other, other ∈ busy -> other ∈ s.keys) ∧
        t.slots.length <= max t.capacity (busy.length + 1)

theorem keepsUsed_of_orderly (h : Orderly s) (action : Action key) : KeepsUsed s action := by
  intro t hstep k hbefore hafter
  rcases quiet_or_conclude hstep with hquiet | ⟨id, call, now, _, hcall, hconcluded⟩
  · rw [hquiet.keys] at hafter
    exact absurd hbefore hafter
  · have hfits := fits_of_orderly h hcall
    unfold Registry.Fits at hfits
    have hgone : forall gone, (forall k, k ∈ gone -> s.Idle k) -> k ∉ (s.remove gone).keys ->
        ¬s.InUse k := by
      intro gone hidle hnot
      apply not_inUse_of_idle h
      apply hidle
      rw [keys_eq] at hbefore
      rcases List.mem_map.mp hbefore with ⟨place, hplace, hk⟩
      by_contra hstays
      apply hnot
      rw [keys_eq, places_remove]
      refine List.mem_map.mpr ⟨place, List.mem_filter.mpr ⟨hplace, ?_⟩, hk⟩
      rw [decide_eq_true_eq, hk]
      exact hstays
    rcases concluded_cases hconcluded with ⟨idle, busy, oldest, hphase, hmem, heq⟩ |
      ⟨_, _, _, _, heq⟩ | ⟨idle, hphase, heq⟩
    · rw [hphase] at hfits
      rw [heq] at hafter
      apply hgone [oldest] _ hafter
      intro other hother
      rw [List.mem_singleton.mp hother]
      exact hfits.2 oldest hmem
    · rw [heq] at hafter
      apply absurd _ hafter
      unfold Registry.keys Registry.insert
      rw [List.map_append]
      exact List.mem_append_left _ hbefore
    · rw [hphase] at hfits
      rw [heq] at hafter
      exact hgone idle hfits hafter

theorem findsBusy_of_seen (h : Orderly s) (hseen : Seen s) (action : Action key) :
    FindsBusy s action := by
  intro t hstep row hrow left idle busy hphase k hk
  rcases quiet_or_conclude hstep with hquiet | ⟨id, call, now, _, hcall, hconcluded⟩
  · rcases hquiet.rows row hrow left idle busy hphase with hold | ⟨_, _, hbusy⟩ | hlook
    · exact Or.inl ⟨row.2, left, idle, busy, hold, hphase, hk⟩
    · rw [hbusy] at hk
      cases hk
    · rcases hlook with ⟨call, looked, hcall, ⟨found, hbefore, hnow⟩ | ⟨found, hbefore, hnow, hused⟩⟩
      · exact Or.inl ⟨call, looked :: left, found, busy, hcall, hbefore, hk⟩
      · rw [hnow] at hk
        cases List.mem_append.mp hk with
        | inl hold => exact Or.inl ⟨call, looked :: left, idle, found, hcall, hbefore, hold⟩
        | inr hlast =>
            rw [List.mem_singleton.mp hlast]
            rcases hseen _ hcall _ _ _ hbefore with ⟨_, hnil, _⟩ | hperm
            · cases hnil
            · have hthere : looked ∈ s.keys :=
                hperm.subset (List.mem_append_right _ List.mem_cons_self)
              exact Or.inr ⟨hthere, inUse_of_not_unused h hthere hused⟩
  · have hothers := others_unmapped h hcall (mapped_of_concluded hconcluded)
    have hnew : row.1 ≠ id -> row ∉ s.calls := by
      intro hne hold
      have hfree := hothers row hold hne
      rw [hphase] at hfree
      cases hfree
    rcases concluded_cases hconcluded with ⟨_, _, _, _, _, heq⟩ | ⟨_, _, _, _, heq⟩ | ⟨_, _, heq⟩
    · rw [heq] at hrow
      rcases mem_setParty hrow with hthis | ⟨hold, hne⟩
      · rw [hthis] at hphase
        cases hphase
        cases hk
      · exact absurd hold (hnew hne)
    · rw [heq] at hrow
      rcases mem_setParty hrow with hthis | ⟨hold, hne⟩
      · rw [hthis] at hphase
        cases hphase
      · exact absurd hold (hnew hne)
    · rw [heq] at hrow
      exact absurd (mem_dropParty hrow) (hnew (ne_of_mem_dropParty hrow))

theorem addsWithin_of_seen (h : Orderly s) (hseen : Seen s) (action : Action key) :
    AddsWithin s action := by
  intro t hstep k hk hnew
  rcases quiet_or_conclude hstep with hquiet | ⟨id, call, now, _, hcall, hconcluded⟩
  · rw [hquiet.keys] at hk
    exact absurd hk hnew
  · have hremoved : forall gone, (s.remove gone).keys.Subset s.keys := by
      intro gone
      rw [keys_eq, keys_eq, places_remove]
      exact (List.filter_sublist.map _).subset
    rcases concluded_cases hconcluded with ⟨_, _, oldest, _, _, heq⟩ |
      ⟨busy, added, hphase, hkey, heq⟩ | ⟨idle, _, heq⟩
    · rw [heq] at hk
      exact absurd (hremoved [oldest] hk) hnew
    · have hadded : k = added := by
        rw [heq] at hk
        unfold Registry.keys Registry.insert at hk
        rw [List.map_append] at hk
        cases List.mem_append.mp hk with
        | inl hold => exact absurd hold hnew
        | inr hlast => exact List.mem_singleton.mp hlast
      constructor
      · subst hadded heq
        have hqueued : (id, { call with phase := Phase.queued s.nextSlot }) ∈
            (s.insert id call k now).calls := setParty_of_partyOf hcall
        exact Or.inl ⟨_, hqueued, hkey, rfl⟩
      · refine ⟨(id, call), busy, mem_of_partyOf hcall, hphase, ?_⟩
        have hlength : t.slots.length = s.slots.length + 1 := by
          rw [heq]
          exact List.length_append
        have hcapacity : t.capacity = s.capacity := by rw [heq]; rfl
        rw [hlength, hcapacity]
        rcases hseen _ (mem_of_partyOf hcall) _ _ _ hphase with ⟨hroom, _, hnil⟩ | hperm
        · rw [hnil]
          exact ⟨List.nodup_nil, by simp, le_max_of_le_left hroom⟩
        · rw [List.nil_append, List.append_nil] at hperm
          refine ⟨hperm.nodup_iff.mpr ?_, fun other hother => hperm.subset hother, ?_⟩
          · rw [keys_eq]
            exact (h.apart 0).keysDistinct
          · apply le_max_of_le_right
            rw [hperm.length_eq, length_keys]
    · rw [heq] at hk
      exact absurd (hremoved idle hk) hnew

theorem orderly_seen_step : Preserved (step : Registry key -> Action key -> Option (Registry key))
    (fun s => Orderly s ∧ Seen s) :=
  fun s action t h hstep =>
    ⟨orderly_step s action t h.1 hstep, seen_step h.1 h.2 hstep⟩

theorem seen_empty (key : Type _) [DecidableEq key] (capacity : Nat) :
    Seen (Registry.withCapacity key capacity) := by
  intro row hrow
  cases hrow

/--
However callers interleave, a key has one value at a time and none while it is opened or
deleted, no entry in use is taken away, and the map outgrows its capacity only by the
entries make_room found in use.
-/
theorem opened_once_and_closed_unused {capacity : Nat} {actions : List (Action key)}
    (hrun : RunFrom step (Registry.withCapacity key capacity) actions = some s) :
    Once s ∧ Along step (fun s action => KeepsUsed s action ∧ FindsBusy s action ∧
      AddsWithin s action) (Registry.withCapacity key capacity) actions := by
  constructor
  · exact once_of_orderly (runFrom_preserved orderly_step (orderly_empty key capacity) hrun)
  · apply along_of_preservedWhen (fun s action t h _ => orderly_seen_step s action t h) _
      ⟨orderly_empty key capacity, seen_empty key capacity⟩ (along_always _ _)
    intro s action h _
    exact ⟨keepsUsed_of_orderly h.1 action, findsBusy_of_seen h.1 h.2 action,
      addsWithin_of_seen h.1 h.2 action⟩

def lookingWhileHeld : List (Action Nat) :=
  [Action.ask 0 (Request.getOrOpen 0), Action.enter 0 0, Action.conclude 0 0,
    Action.acquire 0, Action.proceed 0, Action.finish 0 true, Action.leave 0,
    Action.ask 1 (Request.getOrOpen 1), Action.enter 1 0, Action.inspect 1 0, Action.drop 0]

theorem opened_once_run : exists s : Registry Nat,
    RunFrom step (Registry.withCapacity Nat 1) lookingWhileHeld = some s ∧ Once s ∧
      Along step (fun s action => KeepsUsed s action ∧ FindsBusy s action ∧
        AddsWithin s action) (Registry.withCapacity Nat 1) lookingWhileHeld := by
  rcases Option.isSome_iff_exists.mp (show (RunFrom step (Registry.withCapacity Nat 1)
    lookingWhileHeld).isSome by decide) with ⟨s, hrun⟩
  exact ⟨s, hrun, opened_once_and_closed_unused hrun⟩

def AddsWithinUse (s : Registry key) (action : Action key) : Prop :=
  forall t, step s action = some t -> forall k, k ∈ t.keys -> k ∉ s.keys ->
    t.slots.length <= max t.capacity t.usedKeys.length

/-- The value is dropped after make_room has looked at its entry, and before it gives up. -/
theorem adds_beyond_use : ¬forall (capacity : Nat) (actions : List (Action Nat)),
    1 <= capacity -> Along step AddsWithinUse (Registry.withCapacity Nat capacity) actions := by
  intro h
  have hall := along_iff_split.mp (h 1 (lookingWhileHeld ++ [Action.conclude 1 0]) (Nat.le_refl 1))
  rcases (Option.any_eq_true _ _).mp (show (RunFrom step (Registry.withCapacity Nat 1)
    lookingWhileHeld).any (fun s => (step s (Action.conclude 1 0)).any fun t =>
      1 ∈ t.keys ∧ 1 ∉ s.keys ∧ max t.capacity t.usedKeys.length < t.slots.length) by decide)
    with ⟨s, hrun, hadds⟩
  rcases (Option.any_eq_true _ _).mp hadds with ⟨t, hstep, hmore⟩
  rcases of_decide_eq_true hmore with ⟨hthere, hnew, hmore⟩
  exact absurd (hall lookingWhileHeld _ [] s rfl hrun t hstep 1 hthere hnew) (Nat.not_le_of_lt hmore)

end Runs

end Opening
end PaminMemory
