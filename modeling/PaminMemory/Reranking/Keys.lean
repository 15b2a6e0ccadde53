import PaminMemory.Foundation.Bytes

/-!
# The names of pairs, batches and lists

A pair, a batch and a whole list are remembered under the hash of their bytes.  The bytes
say which pairs they are of, so two names are the same only where the hash collides.
-/

namespace PaminMemory
namespace Reranking

open Foundation

abbrev Digest := { bytes : List UInt8 // bytes.length = 32 }

/-- A string of the source: no longer than its length can count. -/
abbrev Text := { text : String // text.utf8ByteSize < 2 ^ 64 }

def Text.bytes (text : Text) : List UInt8 := text.val.toByteArray.data.toList

abbrev Pair := Text × Text

def pairBytes (pair : Pair) : List UInt8 :=
  [pair.1, pair.2].flatMap fun text =>
    littleEndian 8 text.val.utf8ByteSize ++ text.bytes

def batchBytes (pairs : List Digest) (logical physical : Nat × Nat) : List UInt8 :=
  [logical.1, logical.2, physical.1, physical.2].flatMap (littleEndian 8) ++
    pairs.flatMap Subtype.val

def listBytes (pairs : List Digest) (limits : UInt64 × UInt64) : List UInt8 :=
  [pairs.length, limits.1.toNat, limits.2.toNat].flatMap (littleEndian 8) ++
    pairs.flatMap Subtype.val

theorem Text.bytes_inj {first second : Text} (h : first.bytes = second.bytes) :
    first = second := by
  apply Subtype.ext
  rw [← String.toByteArray_inj]
  exact ByteArray.ext (Array.toList_inj.mp h)

theorem Text.length_bytes (text : Text) : text.bytes.length = text.val.utf8ByteSize := rfl

theorem lengthed_inj {first second : Text} {rest rest' : List UInt8}
    (h : littleEndian 8 first.val.utf8ByteSize ++ first.bytes ++ rest =
      littleEndian 8 second.val.utf8ByteSize ++ second.bytes ++ rest') :
    first = second ∧ rest = rest' := by
  rw [List.append_assoc, List.append_assoc] at h
  rcases List.append_inj h (by rw [length_littleEndian, length_littleEndian]) with
    ⟨hsize, htail⟩
  have hlength : first.bytes.length = second.bytes.length := by
    rw [Text.length_bytes, Text.length_bytes]
    exact littleEndian_inj first.property second.property hsize
  rcases List.append_inj htail hlength with ⟨hbytes, hrest⟩
  exact ⟨Text.bytes_inj hbytes, hrest⟩

theorem pairBytes_inj {first second : Pair} (h : pairBytes first = pairBytes second) :
    first = second := by
  unfold pairBytes at h
  simp only [List.flatMap_cons, List.flatMap_nil] at h
  rcases lengthed_inj h with ⟨hquery, hrest⟩
  exact Prod.ext hquery (lengthed_inj hrest).1

theorem digests_inj {first second : List Digest}
    (h : first.flatMap Subtype.val = second.flatMap Subtype.val) : first = second :=
  blocks_inj (Nat.succ_pos 31) Subtype.property (fun _ _ => Subtype.ext) h

theorem length_numbers (numbers : List Nat) :
    (numbers.flatMap (littleEndian 8)).length = 8 * numbers.length := by
  induction numbers with
  | nil => rfl
  | cons n rest ih =>
      rw [List.flatMap_cons, List.length_append, length_littleEndian, ih, List.length_cons]
      omega

theorem batchBytes_inj {first second : List Digest} {logical physical logical' physical'}
    (h : batchBytes first logical physical = batchBytes second logical' physical') :
    first = second := by
  unfold batchBytes at h
  apply digests_inj
  exact (List.append_inj h (by rw [length_numbers, length_numbers]; rfl)).2

theorem listBytes_inj {first second : List Digest} {limits limits' : UInt64 × UInt64}
    (h : listBytes first limits = listBytes second limits') :
    first = second ∧ limits = limits' := by
  unfold listBytes at h
  rcases List.append_inj h (by rw [length_numbers, length_numbers]; rfl) with
    ⟨hnumbers, hpairs⟩
  refine ⟨digests_inj hpairs, ?_⟩
  simp only [List.flatMap_cons, List.flatMap_nil, List.append_nil] at hnumbers
  have hwidth : forall m n, (littleEndian 8 m).length = (littleEndian 8 n).length := by
    intro m n
    rw [length_littleEndian, length_littleEndian]
  rcases List.append_inj (List.append_inj hnumbers (hwidth _ _)).2 (hwidth _ _) with
    ⟨hfirst, hsecond⟩
  apply Prod.ext
  · exact UInt64.toNat_inj.mp
      (littleEndian_inj limits.1.toNat_lt limits'.1.toNat_lt hfirst)
  · exact UInt64.toNat_inj.mp
      (littleEndian_inj limits.2.toNat_lt limits'.2.toNat_lt hsecond)

/-!
## A hash without collisions
-/

/-- The hash tells apart everything it was given. -/
def NoCollision (sha256 : List UInt8 -> Digest) (hashed : List (List UInt8)) : Prop :=
  forall x, x ∈ hashed -> forall y, y ∈ hashed -> sha256 x = sha256 y -> x = y

variable {sha256 : List UInt8 -> Digest} {hashed : List (List UInt8)}

def pairKey (sha256 : List UInt8 -> Digest) (pair : Pair) : Digest := sha256 (pairBytes pair)

theorem pairs_eq_of_keys (h : NoCollision sha256 hashed) :
    forall {first second : List Pair}, (forall pair, pair ∈ first -> pairBytes pair ∈ hashed) ->
      (forall pair, pair ∈ second -> pairBytes pair ∈ hashed) ->
        first.map (pairKey sha256) = second.map (pairKey sha256) -> first = second
  | [], [], _, _, _ => rfl
  | [], _ :: _, _, _, heq => by cases heq
  | _ :: _, [], _, _, heq => by cases heq
  | pair :: first, pair' :: second, hfirst, hsecond, heq => by
      injection heq with hhead htail
      have hsame := h _ (hfirst pair List.mem_cons_self) _ (hsecond pair' List.mem_cons_self) hhead
      rw [pairBytes_inj hsame, pairs_eq_of_keys h
        (fun other hother => hfirst other (List.mem_cons_of_mem _ hother))
        (fun other hother => hsecond other (List.mem_cons_of_mem _ hother)) htail]

end Reranking
end PaminMemory
