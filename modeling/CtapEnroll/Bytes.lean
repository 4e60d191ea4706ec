/-!
# Byte strings

Byte strings are lists of bytes. Numbers are written on them in network order, and text as UTF-8:
`Bytes.text?` reads back what `Bytes.ofText` writes.
-/

namespace CtapEnroll

abbrev Bytes := List UInt8

namespace Bytes

/-! ## Numbers -/

/-- The lowest `width` bytes of `n`, most significant first. -/
def bigEndian : (width : Nat) → (n : Nat) → Bytes
  | 0, _ => []
  | width + 1, n => bigEndian width (n / 256) ++ [UInt8.ofNat n]

/-- The number a byte string writes, most significant byte first. -/
def toNat (b : Bytes) : Nat := b.foldl (fun n byte => 256 * n + byte.toNat) 0

/-- A positive number on as few bytes as hold it. -/
def minimal (n : Nat) : Bytes := bigEndian (n.log2 / 8 + 1) n

@[simp] theorem length_bigEndian (width n : Nat) : (bigEndian width n).length = width := by
  induction width generalizing n with
  | zero => rfl
  | succ width ih => simp [bigEndian, ih]

theorem toNat_append_singleton (b : Bytes) (byte : UInt8) :
    toNat (b ++ [byte]) = 256 * toNat b + byte.toNat := by
  simp [toNat]

theorem toNat_bigEndian (width n : Nat) (h : n < 1 <<< (8 * width)) :
    toNat (bigEndian width n) = n := by
  rw [Nat.one_shiftLeft] at h
  induction width generalizing n with
  | zero => simp at h; simp [bigEndian, toNat, h]
  | succ width ih =>
    have hn : n / 256 < 2 ^ (8 * width) := by
      rw [Nat.mul_succ, Nat.pow_add, Nat.mul_comm] at h
      exact Nat.div_lt_of_lt_mul h
    rw [bigEndian, toNat_append_singleton, ih _ hn]
    simp only [UInt8.toNat_ofNat']
    omega

theorem lt_minimal (n : Nat) : n < 1 <<< (8 * (n.log2 / 8 + 1)) := by
  rw [Nat.one_shiftLeft]
  calc n < 2 ^ (n.log2 + 1) := Nat.lt_log2_self
    _ ≤ 2 ^ (8 * (n.log2 / 8 + 1)) := Nat.pow_le_pow_right (by omega) (by omega)

theorem toNat_minimal (n : Nat) : toNat (minimal n) = n := toNat_bigEndian _ n (lt_minimal n)

theorem length_minimal_le {n : Nat} (h : n < 1 <<< 128) : (minimal n).length ≤ 16 := by
  rw [minimal, length_bigEndian]
  by_cases h0 : n = 0
  · subst h0
    decide
  · have : n.log2 < 128 := (Nat.log2_lt h0).2 h
    omega

/-! ## Text -/

def ofText (s : String) : Bytes := s.toByteArray.data.toList

def text? (b : Bytes) : Option String := String.fromUTF8? b.toByteArray

theorem text?_ofText (s : String) : text? (ofText s) = some s := by
  unfold text? ofText
  have h : s.toByteArray.data.toList.toByteArray = s.toByteArray := by
    apply ByteArray.ext
    rw [List.data_toByteArray, Array.toArray_toList]
  rw [h, String.fromUTF8?, dif_pos s.isValidUTF8]
  rfl

end Bytes

end CtapEnroll
