import Mathlib.Data.List.Basic

/-!
# Text as bytes

Text in UTF-8.  The bytes of one text begin those of another exactly when the text begins the
other, and a zero byte is a NUL.
-/

namespace PaminMemory
namespace Foundation

def utf8 (text : List Char) : List UInt8 :=
  text.flatMap String.utf8EncodeChar

def width (text : List Char) : Nat := (utf8 text).length

/-!
## Bytes of one text and of another
-/

section Utf8

variable {text other whole : List Char} {c : Char}

theorem utf8_cons (c : Char) (text : List Char) :
    utf8 (c :: text) = String.utf8EncodeChar c ++ utf8 text := rfl

theorem utf8_append (text other : List Char) : utf8 (text ++ other) = utf8 text ++ utf8 other :=
  List.flatMap_append

theorem width_append (text other : List Char) :
    width (text ++ other) = width text + width other := by
  unfold width
  rw [utf8_append, List.length_append]

theorem width_cons (c : Char) (text : List Char) : width (c :: text) = c.utf8Size + width text := by
  unfold width
  rw [utf8_cons, List.length_append, String.length_utf8EncodeChar]

theorem width_singleton (c : Char) : width [c] = c.utf8Size := width_cons c []

theorem width_pos (h : text ≠ []) : 0 < width text := by
  cases text with
  | nil => exact absurd rfl h
  | cons c rest =>
      rw [width_cons]
      exact Nat.add_pos_left (Char.utf8Size_pos c) _

theorem width_le_of_begins (h : text <+: whole) : width text <= width whole := by
  rcases h with ⟨rest, rfl⟩
  rw [width_append]
  exact Nat.le_add_right _ _

theorem eq_of_width (htext : text <+: whole) (hother : other <+: whole)
    (hwidth : width text = width other) : text = other := by
  have hnothing : forall short long : List Char, short <+: long -> width short = width long ->
      short = long := by
    rintro short _ ⟨rest, rfl⟩ hsame
    rw [width_append] at hsame
    have hrest : rest = [] := by
      by_contra hne
      exact absurd hsame (Nat.ne_of_lt (Nat.lt_add_of_pos_right (width_pos hne)))
    rw [hrest, List.append_nil]
  rcases List.prefix_or_prefix_of_prefix htext hother with hshort | hlong
  · exact hnothing text other hshort hwidth
  · exact (hnothing other text hlong hwidth.symm).symm

theorem toByteArray_utf8 (text : List Char) : (utf8 text).toByteArray = text.utf8Encode := rfl

theorem prefix_of_utf8 (h : utf8 text <+: utf8 whole) : text <+: whole := by
  rcases h with ⟨rest, hrest⟩
  apply List.isPrefix_of_utf8Encode_append_eq_utf8Encode rest.toByteArray
  rw [← toByteArray_utf8, ← toByteArray_utf8, ← hrest, List.toByteArray_append]

theorem utf8_inj (h : utf8 text = utf8 other) : text = other := by
  have htext : text <+: other := prefix_of_utf8 (h ▸ List.prefix_refl _)
  exact eq_of_width htext (List.prefix_refl other) (congrArg List.length h)

theorem zero_ne_ofNat {n : Nat} (hlow : 0 < n) (hhigh : n < 256) : (0 : UInt8) ≠ UInt8.ofNat n := by
  intro h
  have hnat := congrArg UInt8.toNat h
  rw [UInt8.toNat_ofNat', Nat.mod_eq_of_lt hhigh] at hnat
  exact absurd hnat (Nat.ne_of_lt hlow)

theorem zero_ne_marked (mark bits n : Nat) (hbits : 0 < bits) (hmark : 0 < mark)
    (hfits : bits + mark <= 256) : (0 : UInt8) ≠ UInt8.ofNat (n % bits + mark) := by
  have hless := Nat.mod_lt n hbits
  exact zero_ne_ofNat (by omega) (by omega)

theorem zero_mem_utf8EncodeChar (h : (0 : UInt8) ∈ String.utf8EncodeChar c) : c = Char.ofNat 0 := by
  have hlater := fun n => zero_ne_marked 128 64 n (by decide) (by decide) (by decide)
  have htwo := fun n => zero_ne_marked 192 32 n (by decide) (by decide) (by decide)
  have hthree := fun n => zero_ne_marked 224 16 n (by decide) (by decide) (by decide)
  have hfour := fun n => zero_ne_marked 240 8 n (by decide) (by decide) (by decide)
  simp only [String.utf8EncodeChar] at h
  split at h
  · next hsmall =>
      rcases Nat.eq_zero_or_pos c.val.toNat with hzero | hpos
      · exact Char.ext (UInt32.toNat_inj.mp hzero)
      · exact absurd (List.mem_singleton.mp h) (zero_ne_ofNat hpos (by omega))
  · exfalso
    split at h
    · simp only [List.mem_cons, htwo, hlater, List.not_mem_nil, or_self] at h
    · split at h
      · simp only [List.mem_cons, hthree, hlater, List.not_mem_nil, or_self] at h
      · simp only [List.mem_cons, hfour, hlater, List.not_mem_nil, or_self] at h

theorem zero_mem_utf8 : (0 : UInt8) ∈ utf8 text <-> Char.ofNat 0 ∈ text := by
  unfold utf8
  rw [List.mem_flatMap]
  constructor
  · rintro ⟨c, hc, hzero⟩
    rw [← zero_mem_utf8EncodeChar hzero]
    exact hc
  · intro hnul
    exact ⟨Char.ofNat 0, hnul, by decide⟩

end Utf8

end Foundation
end PaminMemory
