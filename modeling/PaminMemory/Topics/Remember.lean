import PaminMemory.Foundation.Parties
import PaminMemory.Topics.Saying

/-!
# Calls that remember

A call reads what its topic says and judges its content against it in one transaction, and
writes the verdict in another that takes the topic's lock but does not look again.  Any
number of calls run at once, and any of them may stop.
-/

namespace PaminMemory
namespace Topics

open Foundation

/-- What the engine brings to every call of one project. -/
structure Engine where
  segment : String -> List String
  project : ProjectId
  contentHash : String -> String
  detectLanguage : String -> Option (String × Binary32)

inductive Caller where
  | remember
  | rememberSection (root : String)
deriving DecidableEq, Repr

def Caller.kind : Caller -> SourceKind
  | Caller.remember => SourceKind.manual
  | Caller.rememberSection _ => SourceKind.file

def Caller.root : Caller -> Option String
  | Caller.remember => none
  | Caller.rememberSection root => some root

/-- What a call was asked to write. -/
structure Asked where
  caller : Caller
  topic : String
  content : String
  validFrom : Option Instant
  validTo : Option Instant
deriving DecidableEq, Repr

/-- How far a call has come. -/
inductive Phase where
  | asked
  | comparing (verdict : Option Rejection)
  | judged (verdict : Option Rejection)
deriving DecidableEq, Repr

/--
A call and its phase.  No call keeps `overtakenBy`: it is the text of the last promoted
write to the call's topic that was committed since the call read what the topic says.
-/
structure Call where
  asked : Asked
  phase : Phase
  overtakenBy : Option String
deriving DecidableEq, Repr

def reasonOf : Option Rejection -> String
  | none => "promoted to the retrieval surface"
  | some Rejection.empty => "content was empty"
  | some Rejection.tooShort => "content was too short to carry a durable claim"
  | some Rejection.restatement => "content restates the topic's current state"

def decisionOf : Option Rejection -> FilterDecision
  | none => FilterDecision.promoted
  | some _ => FilterDecision.filtered

/-- What a call leaves its first transaction to do next; `none` when it writes nothing. -/
def Asked.look (ledger : Store) (asked : Asked) : Option Phase :=
  let current := ledger.currentContent asked.topic
  let verdict := judge asked.content current
  match asked.caller with
  | Caller.remember => some (Phase.judged verdict)
  | Caller.rememberSection _ =>
      if verdict = some Rejection.restatement then
        none
      else if verdict.isSome && current.isNone then
        some (Phase.comparing verdict)
      else
        some (Phase.judged verdict)

def Asked.compare (engine : Engine) (ledger : Store) (asked : Asked)
    (verdict : Option Rejection) : Option Phase :=
  if ledger.latestHashAt (locator SourceKind.file asked.topic) =
      some (engine.contentHash asked.content) then
    none
  else
    some (Phase.judged verdict)

def record (engine : Engine) (observedAt : Instant) (asked : Asked)
    (verdict : Option Rejection) : Write :=
  { topic := asked.topic
    content := asked.content
    contentHash := engine.contentHash asked.content
    verdict := decisionOf verdict
    reason := reasonOf verdict
    promoted := verdict.isNone
    language := (engine.detectLanguage asked.content).map Prod.fst
    languageConfidence := (engine.detectLanguage asked.content).map Prod.snd
    observedAt := observedAt
    validFrom := asked.validFrom
    validTo := asked.validTo }

/-- The ledger, and the calls that have not returned. -/
structure Concurrent where
  ledger : Store
  calls : List (Nat × Call)
deriving DecidableEq, Repr

/-- One transaction of a call, or a call that starts or stops. -/
inductive Turn where
  | ask (id : Nat) (asked : Asked)
  | look (id : Nat)
  | compare (id : Nat)
  | commit (id : Nat) (observedAt now : Instant) (drawn : Drawn)
  | quit (id : Nat)

def Call.overtake (topic content : String) (call : Call) : Call :=
  if call.asked.topic = topic ∧ call.phase ≠ Phase.asked then
    { call with overtakenBy := some content }
  else
    call

def overtakeAll (asked : Asked) (verdict : Option Rejection) (calls : List (Nat × Call)) :
    List (Nat × Call) :=
  if verdict.isNone then
    calls.map fun entry => (entry.1, entry.2.overtake asked.topic asked.content)
  else
    calls

def Concurrent.move (id : Nat) (call : Call) (next : Option Phase) (s : Concurrent) :
    Concurrent :=
  match next with
  | none => { s with calls := dropParty id s.calls }
  | some phase => { s with calls := setParty id { call with phase := phase } s.calls }

def turn (engine : Engine) (s : Concurrent) : Turn -> Option Concurrent
  | Turn.ask id asked =>
      if (partyOf s.calls id).isNone then
        some { s with
          calls := s.calls ++ [(id, { asked := asked, phase := Phase.asked, overtakenBy := none })] }
      else
        none
  | Turn.look id =>
      match partyOf s.calls id with
      | none => none
      | some call =>
          match call.phase with
          | Phase.asked => some (s.move id call (call.asked.look s.ledger))
          | Phase.comparing _ => none
          | Phase.judged _ => none
  | Turn.compare id =>
      match partyOf s.calls id with
      | none => none
      | some call =>
          match call.phase with
          | Phase.asked => none
          | Phase.comparing verdict =>
              some (s.move id call (call.asked.compare engine s.ledger verdict))
          | Phase.judged _ => none
  | Turn.commit id observedAt now drawn =>
      match partyOf s.calls id with
      | none => none
      | some call =>
          match call.phase with
          | Phase.asked => none
          | Phase.comparing _ => none
          | Phase.judged verdict =>
              if Unused s.ledger drawn then
                (writeFrom engine.segment now engine.project
                    (record engine observedAt call.asked verdict) call.asked.caller.kind
                    call.asked.caller.root drawn s.ledger).map fun written =>
                  { ledger := written.1
                    calls := overtakeAll call.asked verdict (dropParty id s.calls) }
              else
                none
  | Turn.quit id => some { s with calls := dropParty id s.calls }

/-!
## What a turn does
-/

section Turns

variable {engine : Engine} {s t : Concurrent}

structure Commits (engine : Engine) (s t : Concurrent) (id : Nat) (call : Call)
    (verdict : Option Rejection) (observedAt now : Instant) (drawn : Drawn) : Prop where
  found : partyOf s.calls id = some call
  phase : call.phase = Phase.judged verdict
  unused : Unused s.ledger drawn
  written : exists recorded, writeFrom engine.segment now engine.project
    (record engine observedAt call.asked verdict) call.asked.caller.kind call.asked.caller.root
      drawn s.ledger = some (t.ledger, recorded)
  calls : t.calls = overtakeAll call.asked verdict (dropParty id s.calls)

theorem turn_commit {id : Nat} {observedAt now : Instant} {drawn : Drawn}
    (h : turn engine s (Turn.commit id observedAt now drawn) = some t) :
    exists call verdict, Commits engine s t id call verdict observedAt now drawn := by
  simp only [turn] at h
  cases hcall : partyOf s.calls id with
  | none =>
      rw [hcall] at h
      cases h
  | some call =>
      rw [hcall] at h
      simp only at h
      cases hphase : call.phase with
      | asked =>
          rw [hphase] at h
          cases h
      | comparing verdict =>
          rw [hphase] at h
          cases h
      | judged verdict =>
          rw [hphase] at h
          simp only at h
          split at h
          · next hunused =>
              rcases Option.map_eq_some_iff.mp h with ⟨written, hwritten, heq⟩
              subst heq
              exact ⟨call, verdict, hcall, hphase, hunused, ⟨written.2, hwritten⟩, rfl⟩
          · cases h

theorem turn_ledger {action : Turn}
    (hnot : forall id observedAt now drawn, action ≠ Turn.commit id observedAt now drawn)
    (h : turn engine s action = some t) : t.ledger = s.ledger := by
  have hmove : forall id call next, (s.move id call next).ledger = s.ledger := by
    intro id call next
    cases next with
    | none => rfl
    | some phase => rfl
  cases action with
  | ask id asked =>
      simp only [turn] at h
      split at h
      · cases h
        rfl
      · cases h
  | look id =>
      simp only [turn] at h
      split at h
      · cases h
      · split at h
        · cases h
          exact hmove _ _ _
        · cases h
        · cases h
  | compare id =>
      simp only [turn] at h
      split at h
      · cases h
      · split at h
        · cases h
        · cases h
          exact hmove _ _ _
        · cases h
  | commit id observedAt now drawn => exact absurd rfl (hnot id observedAt now drawn)
  | quit id =>
      cases h
      rfl

/-!
## What a call's verdict was reached over
-/

/--
A verdict is the filter's over what the topic says, while nothing overtook the call;
afterwards the topic says the last text that did.
-/
def Call.Current (ledger : Store) (call : Call) : Prop :=
  match call.overtakenBy with
  | some text => ledger.currentContent call.asked.topic = some text
  | none =>
      match call.phase with
      | Phase.asked => True
      | Phase.comparing verdict =>
          judge call.asked.content (ledger.currentContent call.asked.topic) = verdict
      | Phase.judged verdict =>
          judge call.asked.content (ledger.currentContent call.asked.topic) = verdict

structure Coherent (s : Concurrent) : Prop where
  grounded : Grounded s.ledger
  unread : forall entry, entry ∈ s.calls -> entry.2.phase = Phase.asked ->
    entry.2.overtakenBy = none
  current : forall entry, entry ∈ s.calls -> entry.2.Current s.ledger

theorem current_congr {ledger ledger' : Store} {call : Call} (h : call.Current ledger)
    (hsame : ledger'.currentContent call.asked.topic =
      ledger.currentContent call.asked.topic) : call.Current ledger' := by
  unfold Call.Current at h ⊢
  rw [hsame]
  exact h

theorem commit_leaves {id : Nat} {call : Call} {verdict : Option Rejection}
    {observedAt now : Instant} {drawn : Drawn} (hgrounded : Grounded s.ledger)
    (h : Commits engine s t id call verdict observedAt now drawn) :
    Grounded t.ledger ∧ Extends s.ledger t.ledger ∧
      ((verdict = none ∧ exists state,
          Leaves (record engine observedAt call.asked verdict) drawn s.ledger t.ledger state) ∨
        (verdict ≠ none ∧ t.ledger.states = s.ledger.states ∧
          forall name, t.ledger.currentStateOf name = s.ledger.currentStateOf name)) := by
  rcases h.written with ⟨recorded, hwritten⟩
  have hkept : Kept t.ledger := kept_writes hgrounded.kept h.unused (writeFrom_writes hwritten)
  rcases writeFrom_leaves hgrounded.kept h.unused hwritten with ⟨hextends, hleaves⟩
  refine ⟨grounded_write hgrounded hkept h.unused hwritten, hextends, ?_⟩
  cases hleaves with
  | inl hpromoted => exact Or.inl ⟨Option.isNone_iff_eq_none.mp hpromoted.1, hpromoted.2⟩
  | inr hheld =>
      apply Or.inr
      refine ⟨?_, hheld.2⟩
      intro hnone
      have hnot : verdict.isNone = false := hheld.1
      rw [hnone] at hnot
      cases hnot

theorem mem_overtakeAll {asked : Asked} {verdict : Option Rejection}
    {calls : List (Nat × Call)} {entry : Nat × Call}
    (h : entry ∈ overtakeAll asked verdict calls) :
    (verdict = none ∧ exists old, old ∈ calls ∧
        entry = (old.1, old.2.overtake asked.topic asked.content)) ∨
      (verdict ≠ none ∧ entry ∈ calls) := by
  unfold overtakeAll at h
  cases verdict with
  | none =>
      rcases List.mem_map.mp h with ⟨old, hold, heq⟩
      exact Or.inl ⟨rfl, old, hold, heq.symm⟩
  | some rejection => exact Or.inr ⟨by simp, h⟩

theorem current_overtake {ledger ledger' : Store} {call : Call} {topic content : String}
    (h : call.Current ledger) (hunread : call.phase = Phase.asked -> call.overtakenBy = none)
    (htold : forall name, ledger'.currentContent name =
      if name = topic then some content else ledger.currentContent name) :
    (call.overtake topic content).Current ledger' := by
  unfold Call.overtake
  by_cases htopic : call.asked.topic = topic
  · by_cases hphase : call.phase = Phase.asked
    · rw [if_neg fun hboth => hboth.2 hphase]
      unfold Call.Current
      rw [hunread hphase, hphase]
      trivial
    · rw [if_pos ⟨htopic, hphase⟩]
      unfold Call.Current
      rw [htold]
      exact if_pos htopic
  · rw [if_neg fun hboth => htopic hboth.1]
    apply current_congr h
    rw [htold, if_neg htopic]

theorem overtake_unread {call : Call} {topic content : String}
    (hunread : call.phase = Phase.asked -> call.overtakenBy = none)
    (hphase : (call.overtake topic content).phase = Phase.asked) :
    (call.overtake topic content).overtakenBy = none := by
  unfold Call.overtake at hphase ⊢
  split at hphase
  · next hboth => exact absurd hphase hboth.2
  · next hneither =>
      rw [if_neg hneither]
      exact hunread hphase

theorem coherent_commit {id : Nat} {call : Call} {verdict : Option Rejection}
    {observedAt now : Instant} {drawn : Drawn} (h : Coherent s)
    (hcommits : Commits engine s t id call verdict observedAt now drawn) : Coherent t := by
  rcases commit_leaves h.grounded hcommits with ⟨hgrounded, hextends, hleaves⟩
  have htold : forall name, t.ledger.currentContent name =
      if verdict = none ∧ name = call.asked.topic then some call.asked.content
      else s.ledger.currentContent name := by
    intro name
    cases hleaves with
    | inl hpromoted =>
        rcases hpromoted with ⟨hnone, state, hstate⟩
        rw [currentContent_leaves h.grounded hextends hgrounded.kept hstate name]
        simp only [hnone, true_and]
        rfl
    | inr hheld =>
        rcases hheld with ⟨hsome, hstates, hpointers⟩
        rw [if_neg fun hboth => hsome hboth.1]
        have hnone : t.ledger.states = s.ledger.states ++ [] := by rw [hstates, List.append_nil]
        exact currentContent_same h.grounded hextends hnone (hpointers name)
  have hold : forall entry, entry ∈ t.calls -> exists old, old ∈ s.calls ∧
      ((verdict = none ∧ entry = (old.1, old.2.overtake call.asked.topic call.asked.content)) ∨
        (verdict ≠ none ∧ entry = old)) := by
    intro entry hentry
    rw [hcommits.calls] at hentry
    cases mem_overtakeAll hentry with
    | inl hpromoted =>
        rcases hpromoted with ⟨hnone, old, hmem, heq⟩
        exact ⟨old, mem_dropParty hmem, Or.inl ⟨hnone, heq⟩⟩
    | inr hheld => exact ⟨entry, mem_dropParty hheld.2, Or.inr ⟨hheld.1, rfl⟩⟩
  constructor
  · exact hgrounded
  · intro entry hentry hphase
    rcases hold entry hentry with ⟨old, hmem, hcase⟩
    cases hcase with
    | inl hpromoted =>
        rw [hpromoted.2] at hphase ⊢
        exact overtake_unread (h.unread old hmem) hphase
    | inr hheld =>
        rw [hheld.2] at hphase ⊢
        exact h.unread old hmem hphase
  · intro entry hentry
    rcases hold entry hentry with ⟨old, hmem, hcase⟩
    cases hcase with
    | inl hpromoted =>
        rw [hpromoted.2]
        apply current_overtake (h.current old hmem) (h.unread old hmem)
        intro name
        rw [htold]
        simp only [hpromoted.1, true_and]
    | inr hheld =>
        rw [hheld.2]
        apply current_congr (h.current old hmem)
        rw [htold, if_neg fun hboth => hheld.1 hboth.1]

theorem look_reaches {ledger : Store} {asked : Asked} {phase : Phase}
    (h : asked.look ledger = some phase) :
    phase = Phase.comparing (judge asked.content (ledger.currentContent asked.topic)) ∨
      phase = Phase.judged (judge asked.content (ledger.currentContent asked.topic)) := by
  unfold Asked.look at h
  cases hcaller : asked.caller with
  | remember =>
      rw [hcaller] at h
      cases h
      exact Or.inr rfl
  | rememberSection root =>
      rw [hcaller] at h
      simp only at h
      split at h
      · cases h
      · split at h
        · cases h
          exact Or.inl rfl
        · cases h
          exact Or.inr rfl

theorem compare_reaches {ledger : Store} {asked : Asked} {verdict : Option Rejection}
    {phase : Phase} (h : asked.compare engine ledger verdict = some phase) :
    phase = Phase.judged verdict := by
  unfold Asked.compare at h
  split at h
  · cases h
  · cases h
    rfl

theorem coherent_move {id : Nat} {call : Call} {next : Option Phase} (h : Coherent s)
    (hread : forall phase, next = some phase -> phase ≠ Phase.asked)
    (hcurrent : forall phase, next = some phase ->
      ({ call with phase := phase } : Call).Current s.ledger) : Coherent (s.move id call next) := by
  cases next with
  | none =>
      constructor
      · exact h.grounded
      · intro entry hentry
        exact h.unread entry (mem_dropParty hentry)
      · intro entry hentry
        exact h.current entry (mem_dropParty hentry)
  | some phase =>
      constructor
      · exact h.grounded
      · exact forall_moved h.unread fun hphase => absurd hphase (hread phase rfl)
      · exact forall_moved h.current (hcurrent phase rfl)

theorem coherent_turn : Preserved (turn engine) Coherent := by
  intro s action t h hturn
  cases action with
  | ask id asked =>
      simp only [turn] at hturn
      split at hturn
      · cases hturn
        constructor
        · exact h.grounded
        · exact forall_joined h.unread fun _ => rfl
        · exact forall_joined h.current trivial
      · cases hturn
  | look id =>
      simp only [turn] at hturn
      split at hturn
      · cases hturn
      · next call hcall =>
          split at hturn
          · next hphase =>
              cases hturn
              have hnone := h.unread _ (mem_of_partyOf hcall) hphase
              apply coherent_move h
              · intro phase hnext hasked
                rcases look_reaches hnext with hphase | hphase
                · cases hphase.symm.trans hasked
                · cases hphase.symm.trans hasked
              · intro phase hnext
                unfold Call.Current
                rw [hnone]
                rcases look_reaches hnext with hphase | hphase
                · rw [hphase]
                · rw [hphase]
          · cases hturn
          · cases hturn
  | compare id =>
      simp only [turn] at hturn
      split at hturn
      · cases hturn
      · next call hcall =>
          split at hturn
          · cases hturn
          · next verdict hphase =>
              cases hturn
              have hcurrent := h.current _ (mem_of_partyOf hcall)
              unfold Call.Current at hcurrent
              rw [hphase] at hcurrent
              apply coherent_move h
              · intro phase hnext hasked
                cases (compare_reaches hnext).symm.trans hasked
              · intro phase hnext
                unfold Call.Current
                rw [compare_reaches hnext]
                exact hcurrent
          · cases hturn
  | commit id observedAt now drawn =>
      rcases turn_commit hturn with ⟨call, verdict, hcommits⟩
      exact coherent_commit h hcommits
  | quit id =>
      cases hturn
      constructor
      · exact h.grounded
      · intro entry hentry
        exact h.unread entry (mem_dropParty hentry)
      · intro entry hentry
        exact h.current entry (mem_dropParty hentry)

end Turns

/-!
## What a run leaves
-/

def Call.Unharmed (call : Call) : Prop :=
  match call.overtakenBy, call.phase with
  | some text, Phase.judged none => ¬Restates text call.asked.content
  | some text, Phase.judged (some Rejection.restatement) => Restates text call.asked.content
  | _, _ => True

def Unharmed (s : Concurrent) : Turn -> Prop
  | Turn.commit id _ _ _ => forall call, call ∈ partyOf s.calls id -> call.Unharmed
  | _ => True

instance (call : Call) : Decidable call.Unharmed := by
  unfold Call.Unharmed
  split
  · infer_instance
  · infer_instance
  · infer_instance

instance (s : Concurrent) (action : Turn) : Decidable (Unharmed s action) := by
  unfold Unharmed
  split
  · infer_instance
  · infer_instance

def HeldRestates (s : Concurrent) : Turn -> Prop
  | Turn.commit id _ _ _ => forall call, partyOf s.calls id = some call ->
      call.phase = Phase.judged (some Rejection.restatement) ->
        exists said, s.ledger.currentContent call.asked.topic = some said ∧
          Restates said call.asked.content
  | _ => True

def PromotedAnew (s : Concurrent) : Turn -> Prop
  | Turn.commit id _ _ _ => forall call, partyOf s.calls id = some call ->
      call.phase = Phase.judged none -> forall said,
        s.ledger.currentContent call.asked.topic = some said ->
          ¬Restates said call.asked.content
  | _ => True

def SaysAnew (ledger : Store) (state : TopicState) : Prop :=
  exists content, ledger.contentOf state = some content ∧
    forall replaced, state.supersedes = some replaced ->
      exists said, ledger.contentAt replaced = some said ∧ ¬Restates said content

def Grows (store t : Store) : Prop :=
  Extends store t ∧ exists new, t.states = store.states ++ new

section Runs

variable {engine : Engine} {s t : Concurrent}

theorem grows_refl (store : Store) : Grows store store :=
  ⟨extends_same rfl rfl, [], (List.append_nil _).symm⟩

theorem grows_trans {store middle t : Store} (h : Grows store middle) (h' : Grows middle t) :
    Grows store t := by
  rcases h with ⟨⟨versions, spans, hversions, hspans⟩, new, hstates⟩
  rcases h' with ⟨⟨versions', spans', hversions', hspans'⟩, new', hstates'⟩
  refine ⟨⟨versions ++ versions', spans ++ spans', ?_, ?_⟩, new ++ new', ?_⟩
  · rw [hversions', hversions, List.append_assoc]
  · rw [hspans', hspans, List.append_assoc]
  · rw [hstates', hstates, List.append_assoc]

theorem call_unharmed_iff {ledger : Store} {call : Call} (h : call.Current ledger) :
    call.Unharmed <->
      (call.phase = Phase.judged none -> forall said,
        ledger.currentContent call.asked.topic = some said ->
          ¬Restates said call.asked.content) ∧
        (call.phase = Phase.judged (some Rejection.restatement) ->
          exists said, ledger.currentContent call.asked.topic = some said ∧
            Restates said call.asked.content) := by
  unfold Call.Current at h
  unfold Call.Unharmed
  cases hover : call.overtakenBy with
  | some text =>
      rw [hover] at h
      simp only at h
      rw [h]
      cases call.phase with
      | asked => simp
      | comparing verdict => simp
      | judged verdict =>
          cases verdict with
          | none => simp
          | some rejection =>
              cases rejection with
              | empty => simp
              | tooShort => simp
              | restatement => simp
  | none =>
      rw [hover] at h
      simp only at h
      rw [iff_true_left trivial]
      constructor
      · intro hphase said hsaid
        rw [hphase, hsaid] at h
        exact not_restates_of_judge h
      · intro hphase
        rw [hphase] at h
        exact says_of_restatement h

theorem unharmed_iff (h : Coherent s) (action : Turn) :
    Unharmed s action <-> PromotedAnew s action ∧ HeldRestates s action := by
  cases action with
  | commit id observedAt now drawn =>
      have hcall : forall call, partyOf s.calls id = some call -> _ :=
        fun call hcall => call_unharmed_iff (h.current _ (mem_of_partyOf hcall))
      constructor
      · intro hunharmed
        exact ⟨fun call hfound => ((hcall call hfound).mp (hunharmed call hfound)).1,
          fun call hfound => ((hcall call hfound).mp (hunharmed call hfound)).2⟩
      · intro hboth call hfound
        exact (hcall call hfound).mpr ⟨hboth.1 call hfound, hboth.2 call hfound⟩
  | ask id asked => exact ⟨fun _ => ⟨trivial, trivial⟩, fun _ => trivial⟩
  | look id => exact ⟨fun _ => ⟨trivial, trivial⟩, fun _ => trivial⟩
  | compare id => exact ⟨fun _ => ⟨trivial, trivial⟩, fun _ => trivial⟩
  | quit id => exact ⟨fun _ => ⟨trivial, trivial⟩, fun _ => trivial⟩

theorem promotedAnew_iff {id : Nat} {call : Call} {observedAt now : Instant} {drawn : Drawn}
    {state : TopicState} (h : Coherent s)
    (hcommits : Commits engine s t id call none observedAt now drawn)
    (hextends : Extends s.ledger t.ledger)
    (hstate : Leaves (record engine observedAt call.asked none) drawn s.ledger t.ledger state) :
    PromotedAnew s (Turn.commit id observedAt now drawn) <-> SaysAnew t.ledger state := by
  have hover : forall replaced, state.supersedes = some replaced ->
      s.ledger.currentContent call.asked.topic = t.ledger.contentAt replaced ∧
        exists said, t.ledger.contentAt replaced = some said := by
    intro replaced hover
    rw [hstate.supersedes] at hover
    rcases pointed_state h.grounded.kept hover with ⟨older, holder, hid⟩
    have hsame := contentAt_extends h.grounded hextends hstate.states holder
    rw [hid] at hsame
    have hcurrent : s.ledger.currentContent call.asked.topic = s.ledger.contentAt replaced := by
      unfold Store.currentContent
      rw [show s.ledger.currentStateOf call.asked.topic = some replaced from hover]
      rfl
    rcases h.grounded.texts older holder with ⟨said, hsaid⟩
    refine ⟨hcurrent.trans hsame.symm, said, ?_⟩
    rw [hsame, ← hid, contentAt_of_mem h.grounded.kept holder]
    exact hsaid
  constructor
  · intro hanew
    refine ⟨call.asked.content, hstate.content, ?_⟩
    intro replaced hsupersedes
    rcases hover replaced hsupersedes with ⟨hcurrent, said, hsaid⟩
    exact ⟨said, hsaid, hanew call hcommits.found hcommits.phase said (hcurrent.trans hsaid)⟩
  · intro hanew other hother hphase said hsaid
    rw [hcommits.found] at hother
    cases hother
    rcases hanew with ⟨content, hcontent, hdiffers⟩
    have hsame : call.asked.content = content :=
      Option.some.inj (hstate.content.symm.trans hcontent)
    rcases Option.bind_eq_some_iff.mp hsaid with ⟨replaced, hpointer, _⟩
    have hsupersedes : state.supersedes = some replaced := hstate.supersedes.trans hpointer
    rcases hdiffers replaced hsupersedes with ⟨said', hsaid', hnot⟩
    have htext : said = said' := by
      have hcurrent := (hover replaced hsupersedes).1
      rw [hsaid, hsaid'] at hcurrent
      exact Option.some.inj hcurrent
    rw [htext, hsame]
    exact hnot

/-- The states one turn appends: one that a promoted commit wrote, or none. -/
structure Appended (s t : Concurrent) (action : Turn) (state : TopicState) : Prop where
  states : t.ledger.states = s.ledger.states ++ [state]
  superseded : forall replaced, state.supersedes = some replaced ->
    exists older, older ∈ s.ledger.states ∧ older.id = replaced
  anew : PromotedAnew s action <-> SaysAnew t.ledger state

theorem turn_appends {action : Turn} (h : Coherent s) (hturn : turn engine s action = some t) :
    Grows s.ledger t.ledger ∧
      ((t.ledger.states = s.ledger.states ∧ PromotedAnew s action) ∨
        exists state, Appended s t action state) := by
  have hstill : t.ledger = s.ledger -> PromotedAnew s action ->
      Grows s.ledger t.ledger ∧
        ((t.ledger.states = s.ledger.states ∧ PromotedAnew s action) ∨
          exists state, Appended s t action state) := by
    intro hledger hanew
    rw [hledger]
    exact ⟨grows_refl s.ledger, Or.inl ⟨rfl, hanew⟩⟩
  cases action with
  | commit id observedAt now drawn =>
      rcases turn_commit hturn with ⟨call, verdict, hcommits⟩
      rcases commit_leaves h.grounded hcommits with ⟨hgrounded, hextends, hleaves⟩
      cases hleaves with
      | inr hheld =>
          rcases hheld with ⟨hsome, hstates, _⟩
          refine ⟨⟨hextends, [], by rw [hstates, List.append_nil]⟩, Or.inl ⟨hstates, ?_⟩⟩
          intro other hother hphase
          rw [hcommits.found] at hother
          cases hother
          rw [hcommits.phase] at hphase
          exact absurd (Phase.judged.inj hphase) hsome
      | inl hpromoted =>
          rcases hpromoted with ⟨hnone, state, hstate⟩
          subst hnone
          refine ⟨⟨hextends, [state], hstate.states⟩, Or.inr ⟨state, hstate.states, ?_, ?_⟩⟩
          · intro replaced hover
            rw [hstate.supersedes] at hover
            exact pointed_state h.grounded.kept hover
          · exact promotedAnew_iff h hcommits hextends hstate
  | ask id asked => exact hstill (turn_ledger (by simp) hturn) trivial
  | look id => exact hstill (turn_ledger (by simp) hturn) trivial
  | compare id => exact hstill (turn_ledger (by simp) hturn) trivial
  | quit id => exact hstill (turn_ledger (by simp) hturn) trivial

theorem run_grows {actions : List Turn} (h : Coherent s)
    (hrun : RunFrom (turn engine) s actions = some t) : Grows s.ledger t.ledger := by
  induction actions generalizing s with
  | nil =>
      cases hrun
      exact grows_refl t.ledger
  | cons action rest ih =>
      rcases runFrom_cons_some.mp hrun with ⟨u, hturn, hrest⟩
      exact grows_trans (turn_appends h hturn).1 (ih (coherent_turn s action u h hturn) hrest)

theorem saysAnew_grows {store t : Store} {state : TopicState} (h : Grounded store)
    (hgrows : Grows store t) (hmem : state ∈ store.states)
    (hsuperseded : forall replaced, state.supersedes = some replaced ->
      exists older, older ∈ store.states ∧ older.id = replaced) :
    SaysAnew store state <-> SaysAnew t state := by
  rcases hgrows with ⟨hextends, new, hstates⟩
  rcases h.texts state hmem with ⟨text, htext⟩
  have hsame : t.contentOf state = store.contentOf state := by
    rw [contentOf_extends hextends htext, htext]
  have hovers : forall replaced, state.supersedes = some replaced ->
      t.contentAt replaced = store.contentAt replaced := by
    intro replaced hover
    rcases hsuperseded replaced hover with ⟨older, holder, hid⟩
    rw [← hid]
    exact contentAt_extends h hextends hstates holder
  unfold SaysAnew
  rw [hsame]
  apply exists_congr
  intro content
  apply and_congr_right
  intro _
  apply forall_congr'
  intro replaced
  apply imp_congr_right
  intro hover
  rw [hovers replaced hover]

theorem along_promotedAnew_iff {actions : List Turn} (h : Coherent s)
    (hrun : RunFrom (turn engine) s actions = some t) :
    Along (turn engine) PromotedAnew s actions <->
      forall state, state ∈ t.ledger.states ->
        state.id ∉ s.ledger.states.map TopicState.id -> SaysAnew t.ledger state := by
  induction actions generalizing s with
  | nil =>
      cases hrun
      rw [iff_true_left (show Along (turn engine) PromotedAnew t [] from trivial)]
      intro state hmem hnew
      exact absurd (List.mem_map_of_mem hmem) hnew
  | cons action rest ih =>
      rcases runFrom_cons_some.mp hrun with ⟨u, hturn, hrest⟩
      have hcoherent := coherent_turn s action u h hturn
      have hlater := ih hcoherent hrest
      have halong : Along (turn engine) PromotedAnew s (action :: rest) <->
          PromotedAnew s action ∧ Along (turn engine) PromotedAnew u rest := by
        constructor
        · intro hall
          exact along_cons hall hturn
        · intro hboth
          refine ⟨hboth.1, ?_⟩
          intro u' hturn'
          rw [hturn] at hturn'
          cases hturn'
          exact hboth.2
      rw [halong, hlater]
      rcases turn_appends h hturn with ⟨_, hcase⟩
      have hgrows := run_grows hcoherent hrest
      have hfinal := runFrom_preserved coherent_turn hcoherent hrest
      cases hcase with
      | inl hstill =>
          rw [hstill.1]
          exact and_iff_right hstill.2
      | inr hnew =>
          rcases hnew with ⟨state, happended⟩
          have hmem : state ∈ u.ledger.states := by
            rw [happended.states]
            exact List.mem_append_right _ (List.mem_singleton_self state)
          have hfresh : state.id ∉ s.ledger.states.map TopicState.id := by
            have hdistinct := hcoherent.grounded.kept.statesDistinct
            rw [happended.states, List.map_append, List.nodup_append] at hdistinct
            intro hold
            exact hdistinct.2.2 _ hold _ (List.mem_singleton_self _) rfl
          have htold := saysAnew_grows hcoherent.grounded hgrows hmem fun replaced hover => by
            rcases happended.superseded replaced hover with ⟨older, holder, hid⟩
            refine ⟨older, ?_, hid⟩
            rw [happended.states]
            exact List.mem_append_left _ holder
          rw [happended.anew, htold, happended.states, List.map_append]
          rcases hgrows with ⟨_, new, hstates⟩
          have hlast : state ∈ t.ledger.states := by
            rw [hstates]
            exact List.mem_append_left _ hmem
          constructor
          · intro hboth other hother hnot
            by_cases hid : other.id = state.id
            · have hsame := List.inj_on_of_nodup_map hfinal.grounded.kept.statesDistinct hother
                hlast hid
              rw [hsame]
              exact hboth.1
            · apply hboth.2 other hother
              intro hin
              cases List.mem_append.mp hin with
              | inl hold => exact hnot hold
              | inr hsingle => exact hid (List.mem_singleton.mp hsingle)
          · intro hall
            refine ⟨hall state hlast hfresh, ?_⟩
            intro other hother hnot
            apply hall other hother
            intro hold
            exact hnot (List.mem_append_left _ hold)

/--
Of the calls that run at once over a ledger: every state they promote says something else
than the state it supersedes, and every write held as a restatement restates what its topic
says when it commits, exactly when no call commits a verdict that the last promoted write
to its topic since its read would have changed.
-/
theorem writes_judged_against_what_they_supersede_iff {ledger : Store} {t : Concurrent}
    {earlier : List Action} {actions : List Turn}
    (hreached : RunFrom (step engine.segment engine.project) Store.empty earlier = some ledger)
    (hrun : RunFrom (turn engine) { ledger := ledger, calls := [] } actions = some t) :
    ((forall state, state ∈ t.ledger.states ->
          state.id ∉ ledger.states.map TopicState.id -> SaysAnew t.ledger state) ∧
        Along (turn engine) HeldRestates { ledger := ledger, calls := [] } actions) <->
      Along (turn engine) Unharmed { ledger := ledger, calls := [] } actions := by
  have hcoherent : Coherent { ledger := ledger, calls := [] } := by
    constructor
    · exact runFrom_preserved grounded_step grounded_empty hreached
    · intro entry hentry
      cases hentry
    · intro entry hentry
      cases hentry
  rw [← along_promotedAnew_iff hcoherent hrun, ← along_and]
  exact (along_iff_of_preserved coherent_turn (fun s a h => unharmed_iff h a) hcoherent
    actions).symm

end Runs

/-!
## Two calls at once
-/

def plainEngine : Engine :=
  { segment := fun _ => [], project := 0, contentHash := id, detectLanguage := fun _ => none }

def noting (content : String) : Asked :=
  { caller := Caller.remember, topic := "lamp", content := content, validFrom := none
    validTo := none }

def overlapping : List Turn :=
  [Turn.ask 0 (noting "the lamp is red"), Turn.ask 1 (noting "the lamp  is red"),
    Turn.look 0, Turn.look 1, Turn.commit 0 1 1 (drawnAt 10), Turn.commit 1 2 2 (drawnAt 20)]

/-- The second of two calls that overlap is promoted over the text it restates. -/
theorem overlapping_call_restates :
    exists t, RunFrom (turn plainEngine) { ledger := Store.empty, calls := [] } overlapping =
        some t ∧
      exists state, state ∈ t.ledger.states ∧
        state.id ∉ Store.empty.states.map TopicState.id ∧ ¬SaysAnew t.ledger state := by
  have hruns : (RunFrom (turn plainEngine) { ledger := Store.empty, calls := [] }
      overlapping).any (fun t => t.ledger.states.any fun state =>
        decide (t.ledger.contentOf state = some "the lamp  is red" ∧
          state.supersedes = some 10 ∧
            t.ledger.contentAt 10 = some "the lamp is red")) = true := by
    decide +kernel
  rcases (Option.any_eq_true _ _).mp hruns with ⟨t, hrun, hany⟩
  rcases List.any_eq_true.mp hany with ⟨state, hmem, hstate⟩
  rcases of_decide_eq_true hstate with ⟨hcontent, hover, hsaid⟩
  refine ⟨t, hrun, state, hmem, List.not_mem_nil, ?_⟩
  intro hanew
  rcases hanew with ⟨content, htold, hdiffers⟩
  rcases hdiffers 10 hover with ⟨said, hsaid', hnot⟩
  rw [hcontent] at htold
  rw [hsaid] at hsaid'
  cases htold
  cases hsaid'
  apply hnot
  decide +kernel

/-- A call that restates; a section's; two that overlap and say different things. -/
def mixed : List Turn :=
  [Turn.ask 0 (noting "the lamp  is red"), Turn.look 0, Turn.commit 0 2 2 (drawnAt 20),
    Turn.ask 1 { noting "the lamp is green" with caller := Caller.rememberSection "/r" },
    Turn.look 1, Turn.commit 1 3 3 (drawnAt 30),
    Turn.ask 2 (noting "the lamp is blue"), Turn.ask 3 (noting "the lamp is off"),
    Turn.look 2, Turn.look 3, Turn.commit 3 4 4 (drawnAt 40), Turn.commit 2 5 5 (drawnAt 50)]

def lit : List Action :=
  [Action.write 1 (record plainEngine 1 (noting "the lamp is red") none) SourceKind.manual none
    (drawnAt 10)]

def litLedger : Store :=
  (RunFrom (step plainEngine.segment plainEngine.project) Store.empty lit).getD Store.empty

theorem writes_judged_against_what_they_supersede_mixed :
    exists t, RunFrom (turn plainEngine) { ledger := litLedger, calls := [] } mixed = some t ∧
      (forall state, state ∈ t.ledger.states ->
          state.id ∉ litLedger.states.map TopicState.id -> SaysAnew t.ledger state) ∧
        Along (turn plainEngine) HeldRestates { ledger := litLedger, calls := [] } mixed := by
  have hruns : (RunFrom (turn plainEngine) { ledger := litLedger, calls := [] }
      mixed).isSome = true := by
    decide +kernel
  rcases Option.isSome_iff_exists.mp hruns with ⟨t, hrun⟩
  have hreached : RunFrom (step plainEngine.segment plainEngine.project) Store.empty lit =
      some litLedger := by
    decide +kernel
  exact ⟨t, hrun, (writes_judged_against_what_they_supersede_iff hreached hrun).mpr
    (by decide +kernel)⟩

end Topics
end PaminMemory
