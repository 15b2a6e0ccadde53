import PaminMemory.Foundation.Generations
import PaminMemory.Identifiers
import PaminMemory.Spans.Packing

/-!
# The spans memories were cut into

Cuts are kept by the state that was cut, the cap it was cut to and the name its spans were
headed with, in two generations of so many bytes each.
-/

namespace PaminMemory
namespace Spans

open Foundation

def GENERATION_BYTES : Nat := 2 ^ 25

structure CutKey where
  state : TopicStateId
  cap : Nat
  name : List Char
deriving DecidableEq, Repr

def textBytes (text : List Char) : Nat := (text.map Char.utf8Size).sum

/-- What a cut holds: each span's text and header, and the span itself. -/
def bytes (spanSize : Nat) (spans : List Span) : Nat :=
  (spans.map fun span => spanSize + textBytes span.text + textBytes span.header).sum

structure Cuts where
  held : Generations CutKey (List Span)
  budget : Nat

def Cuts.withBudget (budget : Nat) : Cuts where
  held := Generations.empty
  budget := budget

def Cuts.default : Cuts := Cuts.withBudget GENERATION_BYTES

/-!
## Two generations

What is cut goes to the current one; once that is full it is the previous one, and what was
previous is dropped.
-/

section Calls

variable (spanSize : Nat)

/-- The spans a state was cut into, from `cut` where they are not held, and the cuts after. -/
def Cuts.getOrCut (k : CutKey) (cut : List Span) (cuts : Cuts) : List Span × Cuts :=
  match cuts.held.get (bytes spanSize) cuts.budget k with
  | (some spans, held) => (spans, { cuts with held := held })
  | (none, held) =>
      (cut, { cuts with held := held.insert (bytes spanSize) cuts.budget k cut })

def Cuts.put (k : CutKey) (spans : List Span) (cuts : Cuts) : Cuts :=
  { cuts with held := cuts.held.insert (bytes spanSize) cuts.budget k spans }

inductive CutCall where
  | put (k : CutKey)
  | getOrCut (k : CutKey)
deriving DecidableEq, Repr

def Cuts.call (cutOf : CutKey -> List Span) (cuts : Cuts) : CutCall -> Cuts
  | CutCall.put k => cuts.put spanSize k (cutOf k)
  | CutCall.getOrCut k => (cuts.getOrCut spanSize k (cutOf k)).2

/-- What the cuts of a budget say of themselves, and what they answer. -/
structure Cuts.Counts (budget : Nat) (cutOf : CutKey -> List Span) (cuts : Cuts) : Prop where
  counted : cuts.held.bytes = occupied (bytes spanSize) cuts.held.current
  /-- The current generation holds a key once. -/
  once : cuts.held.current.keys.Nodup
  replaced : forall k spans, cuts.held.current.lookup k = some spans ->
    bytes spanSize spans <= cuts.held.bytes
  current : occupied (bytes spanSize) cuts.held.current <= budget
  previous : occupied (bytes spanSize) cuts.held.previous <= budget
  whole : occupied (bytes spanSize) cuts.held.current +
    occupied (bytes spanSize) cuts.held.previous <= 2 * budget
  answers : forall k, (cuts.getOrCut spanSize k (cutOf k)).1 = cutOf k

end Calls

/-!
## What the generations count
-/

section Sound

variable {spanSize budget : Nat} {cutOf : CutKey -> List Span} {cuts : Cuts}

structure Cuts.Sound (spanSize budget : Nat) (cutOf : CutKey -> List Span) (cuts : Cuts) :
    Prop where
  budgeted : cuts.budget = budget
  held : cuts.held.Sound (bytes spanSize) cuts.budget cutOf

theorem sound_getOrCut (h : cuts.Sound spanSize budget cutOf) (k : CutKey) :
    (cuts.getOrCut spanSize k (cutOf k)).1 = cutOf k ∧
      (cuts.getOrCut spanSize k (cutOf k)).2.Sound spanSize budget cutOf := by
  have hget := Generations.sound_get h.held k
  unfold Cuts.getOrCut
  cases hfound : cuts.held.get (bytes spanSize) cuts.budget k with
  | mk found generations =>
      rw [hfound] at hget
      cases found with
      | some spans => exact ⟨hget.2 spans rfl, h.budgeted, hget.1⟩
      | none => exact ⟨rfl, h.budgeted, Generations.sound_insert hget.1 k⟩

theorem sound_call (h : cuts.Sound spanSize budget cutOf) (call : CutCall) :
    (cuts.call spanSize cutOf call).Sound spanSize budget cutOf := by
  cases call with
  | put k => exact ⟨h.budgeted, Generations.sound_insert h.held k⟩
  | getOrCut k => exact (sound_getOrCut h k).2

theorem sound_calls (h : cuts.Sound spanSize budget cutOf) (calls : List CutCall) :
    (calls.foldl (Cuts.call spanSize cutOf) cuts).Sound spanSize budget cutOf := by
  induction calls generalizing cuts with
  | nil => exact h
  | cons call rest ih => exact ih (sound_call h call)

theorem Cuts.Sound.counts (h : cuts.Sound spanSize budget cutOf) :
    cuts.Counts spanSize budget cutOf where
  counted := h.held.counted
  once := cuts.held.current.keys_nodup
  replaced := by
    intro k spans hlookup
    rw [h.held.counted]
    exact Generations.size_le_occupied hlookup
  current := h.budgeted ▸ h.held.current
  previous := h.budgeted ▸ h.held.previous
  whole := by
    rw [Nat.two_mul, ← h.budgeted]
    exact Nat.add_le_add h.held.current h.held.previous
  answers := fun k => (sound_getOrCut h k).1

/-- However they are called, the cuts count what they hold and answer what cutting would. -/
theorem cuts_count (spanSize budget : Nat) (cutOf : CutKey -> List Span)
    (calls : List CutCall) :
    (calls.foldl (Cuts.call spanSize cutOf) (Cuts.withBudget budget)).Counts spanSize budget
      cutOf := by
  have hempty : (Cuts.withBudget budget).Sound spanSize budget cutOf :=
    ⟨rfl, Generations.sound_empty⟩
  exact (sound_calls hempty calls).counts

end Sound

end Spans
end PaminMemory
