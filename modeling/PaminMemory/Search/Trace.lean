import PaminMemory.Foundation.Binary32

/-!
# Why a result is in a list

The channels a search recalls through, and the entries its results carry.
-/

namespace PaminMemory
namespace Search

inductive Channel where
  | lexicalSegmented
  | lexicalNgram
  | vector
  | graph
deriving DecidableEq, Repr

/-- An entry of a result's trace; `num` is what the scores are computed in. -/
inductive Why (num : Type _) where
  | channel (channel : Channel) (rank : Nat) (score : Option num) (weight contribution : num)
  | path (source via : String) (hops : Nat)
  | reranked (score : num)
deriving DecidableEq, Repr

end Search
end PaminMemory
