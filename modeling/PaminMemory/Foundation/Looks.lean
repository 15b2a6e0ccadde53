import Mathlib.Data.Nat.Init

/-!
# Looks

A process looks at something that others change, and acts on it later.  The changes are
counted, and a look is remembered by the count it was taken at; what it saw is known for as
long as the count stays there.
-/

namespace PaminMemory
namespace Foundation

structure Seen (count looked : Nat) (fact : Prop) : Prop where
  past : looked ≤ count
  still : looked = count -> fact

namespace Seen

variable {count count' looked : Nat} {fact fact' : Prop}

theorem now (h : fact) : Seen count count fact :=
  ⟨Nat.le_refl count, fun _ => h⟩

theorem kept (h : Seen count looked fact) (himp : fact -> fact') : Seen count looked fact' :=
  ⟨h.past, fun hfresh => himp (h.still hfresh)⟩

theorem counted (h : Seen count looked fact) (hlater : count < count') :
    Seen count' looked fact' := by
  constructor
  · exact Nat.le_of_lt (Nat.lt_of_le_of_lt h.past hlater)
  · intro hfresh
    rw [← hfresh] at hlater
    exact absurd h.past (Nat.not_le_of_gt hlater)

end Seen

end Foundation
end PaminMemory
