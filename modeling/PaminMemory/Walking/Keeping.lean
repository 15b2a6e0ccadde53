import PaminMemory.Foundation.Leading
import PaminMemory.Walking.Breadth

/-!
# A walk that stops at what is kept

A walk told how many neighbours are kept stops after the hop that reaches as many.  The walk
not told goes on from the same state, and reaches only what is further off, so the first of its
neighbours are the same.
-/

namespace PaminMemory
namespace Walking

open Foundation PaminMemory.Graph

def Expansion.keeping (options : Expansion) (keep : Nat) : Expansion :=
  { options with keep := some keep }

def Expansion.keepingAll (options : Expansion) : Expansion :=
  { options with keep := none }

structure Beyond (stopped going : State) : Prop where
  kept : forall topic neighbor, stopped.reached.lookup topic = some neighbor ->
    going.reached.lookup topic = some neighbor
  further : forall topic neighbor, stopped.reached.lookup topic = none ->
    going.reached.lookup topic = some neighbor ->
      forall place held, stopped.reached.lookup place = some held -> held.hops < neighbor.hops

section Hop

variable {edges : List Live} {answers : Answers edges} {options : Expansion}
  {read : Option Nat} {seeds : List TopicId} {hops keep : Nat} {s going : State}

theorem beyond_of_reached (h : going.reached = s.reached) : Beyond s going := by
  constructor
  · intro topic neighbor hheld
    rw [h]
    exact hheld
  · intro topic neighbor hnone hheld
    rw [h, hnone] at hheld
    cases hheld

theorem beyond_oneHop (h : Beyond s going) (hs : Held hops s) (hgoing : Held hops going) :
    Beyond s (oneHop answers options read going (hops + 1)) := by
  constructor
  · intro topic neighbor hheld
    have hbefore := h.kept topic neighbor hheld
    rcases lookup_oneHop read hgoing topic with hsame | ⟨hnone, _⟩
    · exact hsame.trans hbefore
    · rw [hnone] at hbefore
      cases hbefore
  · intro topic neighbor hmissing hafter place held hheld
    rcases lookup_oneHop read hgoing topic with hsame | ⟨_, other, _, hhops, hnew⟩
    · exact h.further topic neighbor hmissing (hsame.symm.trans hafter) place held hheld
    · cases Option.some.inj (hnew.symm.trans hafter)
      have hle := (hs place held hheld).2
      omega

theorem crossReading_keeping {hop : Nat}
    (hunread : forall unread,
      unread ∈ (crossReading answers (options.keeping keep) read hop s).2 ->
        unread.hops = options.depth) :
    crossReading answers (options.keeping keep) read hop s =
      crossReading answers options.keepingAll read hop s := by
  cases read with
  | none => rfl
  | some perTopic =>
      unfold crossReading at hunread ⊢
      simp only at hunread ⊢
      cases hcuts : (strongestEdges answers hop s.positions perTopic).2 with
      | nil => rfl
      | cons cut cuts =>
          have hsome : ¬cut :: cuts = [] := List.cons_ne_nil cut cuts
          rw [hcuts, if_neg hsome] at hunread
          rw [if_neg hsome, if_neg hsome]
          rcases Decidable.em (hop = options.depth) with hdepth | hbefore
          · exact (if_pos (Or.inl hdepth)).trans (if_pos (Or.inl hdepth)).symm
          · have hnot : ¬(hop = options.keepingAll.depth ∨ enough options.keepingAll.keep
                (cross hop s.frontier (strongestEdges answers hop s.positions perTopic).1 s.seen
                  s.reached).reached = true) := by
              intro hstops
              rcases hstops with hdepth | henough
              · exact hbefore hdepth
              · cases henough
            rw [if_neg hnot]
            apply if_neg
            intro hstops
            rw [if_pos hstops] at hunread
            exact hbefore (hunread _ (List.mem_map_of_mem List.mem_cons_self))

theorem keeping_oneHop (hgoing : s.stopped = false)
    (hunread : forall unread,
      unread ∈ (crossReading answers (options.keeping keep) read (hops + 1) s).2 ->
        unread.hops = options.depth) :
    let kept := oneHop answers (options.keeping keep) read s (hops + 1)
    let whole := oneHop answers options.keepingAll read s (hops + 1)
    kept = whole ∨
      (kept.stopped = true ∧ keep <= kept.reached.keys.length ∧ whole.reached = kept.reached) := by
  intro kept whole
  have hread := crossReading_keeping hunread
  have hreached : whole.reached = kept.reached := by
    rw [reached_oneHop _ hgoing, reached_oneHop _ hgoing, hread]
  cases henough : enough (options.keeping keep).keep
      (crossReading answers options.keepingAll read (hops + 1) s).1.reached with
  | true =>
      right
      have hlength : keep <= kept.reached.keys.length := by
        rw [reached_oneHop _ hgoing, hread]
        exact of_decide_eq_true henough
      refine ⟨stopped_oneHop _ hgoing ?_, hlength, hreached⟩
      rw [hread]
      exact henough
  | false =>
      left
      show oneHop answers (options.keeping keep) read s (hops + 1) =
        oneHop answers options.keepingAll read s (hops + 1)
      unfold oneHop
      rw [hgoing, hread]
      simp only [henough]
      rfl

def Ahead (answers : Answers edges) (options : Expansion) (read : Option Nat)
    (seeds : List TopicId) (keep hops : Nat) : Prop :=
  let kept := after answers (options.keeping keep) read seeds hops
  let whole := after answers options.keepingAll read seeds hops
  kept = whole ∨
    (kept.stopped = true ∧ keep <= kept.reached.keys.length ∧ Beyond kept whole)

theorem ahead_after
    (hunread : forall unread,
      unread ∈ (after answers (options.keeping keep) read seeds hops).unread ->
        unread.hops = options.depth) : Ahead answers options read seeds keep hops := by
  induction hops with
  | zero => exact Or.inl rfl
  | succ n ih =>
      have hheld := held_after answers (options.keeping keep) read seeds n
      have hwhole := held_after answers options.keepingAll read seeds n
      unfold Ahead
      rw [after_succ] at hunread
      rw [after_succ, after_succ]
      cases hstopped : (after answers (options.keeping keep) read seeds n).stopped with
      | true =>
          have hstay : oneHop answers (options.keeping keep) read
              (after answers (options.keeping keep) read seeds n) (n + 1) =
                after answers (options.keeping keep) read seeds n := if_pos hstopped
          rw [hstay] at hunread ⊢
          rcases ih hunread with hsame | ⟨_, hlength, hbeyond⟩
          · left
            rw [hsame] at hstopped ⊢
            exact (if_pos hstopped).symm
          · exact Or.inr ⟨hstopped, hlength, beyond_oneHop hbeyond hheld hwhole⟩
      | false =>
          rw [unread_oneHop _ hstopped] at hunread
          have hbefore := ih fun unread hmem => hunread unread (List.mem_append_left _ hmem)
          rcases hbefore with hsame | ⟨hended, _⟩
          · have hhop := keeping_oneHop hstopped fun unread hmem =>
              hunread unread (List.mem_append_right _ hmem)
            rw [← hsame]
            rcases hhop with honce | ⟨hstop, hlength, hreached⟩
            · exact Or.inl honce
            · exact Or.inr ⟨hstop, hlength, beyond_of_reached hreached⟩
          · exact absurd (hstopped.symm.trans hended) Bool.false_ne_true

end Hop

/-!
## The first of the neighbours
-/

instance : Std.Total listed where
  total left right := le_total (neighborKey left) (neighborKey right)

instance : IsTrans Neighbor listed where
  trans _ _ _ := le_trans

section Listed

variable {stopped going : State} {hops keep : Nat}

def State.found (s : State) : List Neighbor :=
  s.reached.entries.map Sigma.snd

theorem mem_found (h : Held hops stopped) {neighbor : Neighbor} :
    neighbor ∈ stopped.found <-> stopped.reached.lookup neighbor.topic = some neighbor := by
  have htopic : forall topic neighbor, stopped.reached.lookup topic = some neighbor ->
      neighbor.topic = topic := fun topic neighbor hheld => (h topic neighbor hheld).1
  rw [← mem_listed htopic, List.mem_insertionSort]
  rfl

theorem nodup_found (h : Held hops stopped) : stopped.found.Nodup := by
  have htopic : forall topic neighbor, stopped.reached.lookup topic = some neighbor ->
      neighbor.topic = topic := fun topic neighbor hheld => (h topic neighbor hheld).1
  have hlisted := nodup_listed htopic
  exact (List.perm_insertionSort listed _).nodup_iff.mp (List.Nodup.of_map _ hlisted)

theorem first_of_beyond (h : Beyond stopped going) (hstopped : Held hops stopped)
    (hgoing : Held hops going) (hkeep : keep <= stopped.reached.keys.length) :
    (stopped.found.insertionSort listed).take keep =
      (going.found.insertionSort listed).take keep := by
  symm
  apply leading_of_after (nodup_found hstopped) (nodup_found hgoing)
  · intro neighbor hmem
    exact (mem_found hgoing).mpr (h.kept _ _ ((mem_found hstopped).mp hmem))
  · intro one other hone hother hle hge
    have hkey : neighborKey one = neighborKey other := le_antisymm hle hge
    have htopic : one.topic = other.topic := congrArg (fun key => (ofLex (ofLex key).2).2) hkey
    have hheld := (mem_found hgoing).mp hone
    rw [htopic] at hheld
    exact Option.some.inj (hheld.symm.trans ((mem_found hgoing).mp hother))
  · unfold State.found
    rw [List.length_map]
    exact hkeep.trans_eq (List.length_map _)
  · intro neighbor held hmem hmissing hkept
    have hheld := (mem_found hstopped).mp
      ((List.mem_insertionSort listed).mp (List.mem_of_mem_take hkept))
    have hnone : stopped.reached.lookup neighbor.topic = none := by
      cases hsome : stopped.reached.lookup neighbor.topic with
      | none => rfl
      | some other =>
          have hsame := (h.kept _ _ hsome).symm.trans ((mem_found hgoing).mp hmem)
          rw [Option.some.inj hsame] at hsome
          exact absurd ((mem_found hstopped).mpr hsome) hmissing
    have hless := h.further _ _ hnone ((mem_found hgoing).mp hmem) _ _ hheld
    exact Prod.Lex.toLex_le_toLex.mpr (Or.inl hless)

end Listed

section Exact

variable {ledger : Ledger} {options : Expansion} {answers : Answers (edgesOf ledger options)}
  {seeds : List TopicId} {read : Option Nat} {keep : Nat}

theorem walk_keeping
    (hunread : forall unread,
      unread ∈ (walk ledger (options.keeping keep) answers seeds read).unread ->
        unread.hops = options.depth) :
    (walk ledger (options.keeping keep) answers seeds read).neighbors.take keep =
      (walk ledger options.keepingAll answers seeds read).neighbors.take keep := by
  rcases Decidable.em (seeds = [] ∨ options.depth = 0) with hnone | hsome
  · unfold walk
    exact congrArg _ ((congrArg Walk.neighbors (if_pos hnone)).trans
      (congrArg Walk.neighbors (if_pos hnone)).symm)
  · let within := read.filter fun _ => options.moment.isNone
    let kept := after answers (options.keeping keep) within seeds options.depth
    let whole := after answers options.keepingAll within seeds options.depth
    have hkept : walk ledger (options.keeping keep) answers seeds read =
        { neighbors := kept.found.insertionSort listed, unread := kept.unread } := if_neg hsome
    have hwhole : walk ledger options.keepingAll answers seeds read =
        { neighbors := whole.found.insertionSort listed, unread := whole.unread } := if_neg hsome
    rw [hkept] at hunread
    rw [hkept, hwhole]
    rcases ahead_after hunread with hsame | ⟨_, hlength, hbeyond⟩
    · exact congrArg (fun s => (s.found.insertionSort listed).take keep) hsame
    · exact first_of_beyond hbeyond (held_after _ _ _ _ _) (held_after _ _ _ _ _) hlength

theorem unread_every {unread : Unread}
    (h : unread ∈ (walk ledger options answers seeds none).unread) : False := by
  rcases Decidable.em (seeds = [] ∨ options.depth = 0) with hnone | hsome
  · unfold walk at h
    rw [if_pos hnone] at h
    cases h
  · have hall : forall hops, (after answers options none seeds hops).unread = [] := by
      intro hops
      induction hops with
      | zero => rfl
      | succ n ih =>
          rw [after_succ]
          cases hgoing : (after answers options none seeds n).stopped with
          | true => exact (congrArg State.unread (if_pos hgoing)).trans ih
          | false =>
              rw [unread_oneHop _ hgoing, ih]
              rfl
    unfold walk at h
    rw [if_neg hsome] at h
    have hread : (none : Option Nat).filter (fun _ => options.moment.isNone) = none := rfl
    simp only [hread, hall] at h
    cases h

end Exact

/-- The first `keep` neighbours of a walk over every edge are those of the walk told to keep so
many, and so are those of a bounded walk that the keeping did not stop short of an edge. -/
theorem keep_is_exact (ledger : Ledger) (options : Expansion)
    (answers : Answers (edgesOf ledger options)) (seeds : List TopicId) (keep : Nat) :
    (expand ledger (options.keeping keep) answers seeds).take keep =
        (expand ledger options.keepingAll answers seeds).take keep ∧
      forall perTopic,
        (forall unread,
          unread ∈ (expandReading ledger (options.keeping keep) answers seeds perTopic).unread ->
            unread.hops = options.depth) ->
        (expandReading ledger (options.keeping keep) answers seeds perTopic).neighbors.take keep =
          (expandReading ledger options.keepingAll answers seeds perTopic).neighbors.take keep := by
  constructor
  · exact walk_keeping fun unread hmem => (unread_every hmem).elim
  · intro perTopic hunread
    exact walk_keeping hunread

theorem keep_is_exact_of_chain :
    (expandReading chainLedger (twoHops.keeping 1)
        (Answers.stored (edgesOf chainLedger twoHops)) [1] 2).neighbors.take 1 =
      (expandReading chainLedger twoHops.keepingAll
        (Answers.stored (edgesOf chainLedger twoHops)) [1] 2).neighbors.take 1 :=
  (keep_is_exact chainLedger twoHops (Answers.stored (edgesOf chainLedger twoHops)) [1] 1).2 2
    (by decide)

def twoSeedLedger : Ledger :=
  [{ id := 1
     edge := { fromTopic := 1, toTopic := 10, kind := EdgeKind.supports, distinct := by decide }
     versions := [assertedVersion 1 Confidence.one] },
    { id := 2
      edge := { fromTopic := 1, toTopic := 11, kind := EdgeKind.supports, distinct := by decide }
      versions := [assertedVersion 2 Confidence.one] },
    { id := 3
      edge := { fromTopic := 2, toTopic := 20, kind := EdgeKind.supports, distinct := by decide }
      versions := [assertedVersion 3 Confidence.one] }]

/-- Told to keep two, a walk that reads one edge of each topic stops at the first of each seed's;
not told, it reads them all before it goes on, and a second of the first seed's comes sooner. -/
theorem bounded_walk_stops_short :
    ¬ forall (ledger : Ledger) (options : Expansion)
        (answers : Answers (edgesOf ledger options)) (seeds : List TopicId)
        (perTopic keep : Nat),
      (expandReading ledger (options.keeping keep) answers seeds perTopic).neighbors.take keep =
        (expandReading ledger options.keepingAll answers seeds perTopic).neighbors.take keep := by
  intro h
  have hsame := h twoSeedLedger twoHops (Answers.stored (edgesOf twoSeedLedger twoHops)) [1, 2] 1 2
  exact absurd hsame (by decide)

end Walking
end PaminMemory
