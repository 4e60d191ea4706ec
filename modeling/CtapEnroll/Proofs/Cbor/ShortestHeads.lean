import CtapEnroll.Proofs.Cbor.RoundTrip
/-!
# Shortest heads

A head can be written in up to five ways, and a reader takes them all for the same. `isShortest_write` says that
the way in which heads are written is the shortest of them: no shorter bytes are read as the same head.
-/

namespace CtapEnroll.Cbor

namespace Head

/-- The number that a head tells, if it has one. -/
def number? : Head → Option Nat
  | unsigned n => some n.toNat
  | negative n => some n.toNat
  | bytes length => length
  | text length => length
  | array length => length
  | map length => length
  | tag number => some number.toNat
  | simple _ => none
  | float _ => none
  | stop => none

/-- Bytes that are read as a head, whatever follows them, and no shorter bytes are. -/
structure IsShortest (head : Head) (b : Bytes) : Prop where
  read : ∀ offset rest, Head.read ⟨offset, b ++ rest⟩ = .ok (head, ⟨offset + b.length, rest⟩)
  le : ∀ other offset j, Head.read ⟨offset, other⟩ = .ok (head, j) → b.length ≤ other.length

theorem shortest_le_of_number {width n : Nat} {i j : Input} (hwidth : width ∈ [1, 2, 4, 8])
    (h : Reader.number width i = .ok (n, j)) : n < 2 ^ 64 ∧ shortest n ≤ 1 + i.rest.length := by
  obtain ⟨b, hb, rfl⟩ := Reader.of_map_ok h
  have hle := Reader.le_of_bytes hb
  have hlt := Bytes.toNat_lt b
  rw [Reader.length_of_bytes hb] at hlt
  unfold shortest UInt8.size UInt16.size UInt32.size
  simp only [List.mem_cons, List.not_mem_nil, or_false] at hwidth
  rcases hwidth with rfl | rfl | rfl | rfl <;> exact ⟨by omega, by split_ifs <;> omega⟩

/-- An argument cannot be read from fewer bytes than its shortest form has. -/
theorem shortest_le_of_argument {low n : Nat} (hlow : low < 28) {i j : Input} (h : argument low i = .ok (n, j)) :
    n < 2 ^ 64 ∧ shortest n ≤ 1 + i.rest.length := by
  unfold argument at h
  split at h
  · exact shortest_le_of_number (by decide) h
  split at h
  · exact shortest_le_of_number (by decide) h
  split at h
  · exact shortest_le_of_number (by decide) h
  split at h
  · exact shortest_le_of_number (by decide) h
  · cases h
    unfold shortest
    rw [if_pos (by omega)]
    omega

theorem number?_ofMajor {major n : Nat} (hm : major < 7) (hn : n < 2 ^ 64) : (ofMajor major n).number? = some n := by
  have htoNat : (UInt64.ofNat n).toNat = n := UInt64.toNat_ofNat_of_lt' hn
  interval_cases major <;> first | rfl | exact congrArg some htoNat

/-- The low bits 31 stand for the lack of a number. -/
theorem ne_of_ofArgument {start major low argument n : Nat} {head : Head} {i j : Input} (hm : major < 8)
    (h : ofArgument start major low argument i = .ok (head, j)) (hnumber : head.number? = some n) : low ≠ 31 := by
  rintro rfl
  interval_cases major <;> cases h <;> cases hnumber

/-- A head that tells a number tells its argument. -/
theorem eq_of_ofArgument {start major low argument n : Nat} {head : Head} {i j : Input} (hm : major < 8)
    (hlow : low ≠ 31) (hlt : argument < 2 ^ 64) (h : ofArgument start major low argument i = .ok (head, j))
    (hnumber : head.number? = some n) : n = argument := by
  rcases Nat.lt_or_eq_of_le (Nat.le_of_lt_succ hm) with hm | rfl
  · rw [ofArgument_ofMajor hm hlow] at h
    cases h
    rw [number?_ofMajor hm hlt] at hnumber
    exact (Option.some.inj hnumber).symm
  · -- Major type 7 has simple values and floats, which tell no number.
    unfold ofArgument at h
    rw [if_neg hlow] at h
    change (if low = 25 then _ else _ : Reader Head) i = _ at h
    split_ifs at h <;> cases h <;> cases hnumber

theorem shortest_le_of_read {head : Head} {n offset : Nat} {b : Bytes} {j : Input} (hnumber : head.number? = some n)
    (h : read ⟨offset, b⟩ = .ok (head, j)) : shortest n ≤ b.length := by
  cases b with
  | nil => cases h
  | cons first rest =>
    have hfirst := first.toNat_lt
    rw [read_eq] at h
    split at h
    · cases h
    · rename_i hknown
      obtain ⟨argument, i, hargument, hhead⟩ := Reader.of_bind_ok h
      have hlow := ne_of_ofArgument (by omega) hhead hnumber
      obtain ⟨hlt, hle⟩ := shortest_le_of_argument (by omega) hargument
      obtain rfl := eq_of_ofArgument (by omega) hlow hlt hhead hnumber
      rwa [List.length_cons, Nat.add_comm]

theorem isShortest_write {major n : Nat} (hm : major < 7) (hn : n < 2 ^ 64) :
    IsShortest (ofMajor major n) (write major n) where
  read offset rest := by
    rw [length_write]
    exact read_write hm hn offset rest
  le other offset j h := by
    rw [length_write]
    exact shortest_le_of_read (number?_ofMajor hm hn) h

end Head

end CtapEnroll.Cbor
