import CtapEnroll.Cbor.Head
import CtapEnroll.Cbor.Value
/-!
# Encoding CBOR values

`Value.encode` writes a value with shortest heads, definite lengths and shortest floats, the pairs
of a map in the order they have.
-/

namespace CtapEnroll.Cbor.Value

/-! ## Parts are smaller than the whole -/

theorem sizeOf_item_lt {items : List Value} {item : Value} (h : item ∈ items) :
    sizeOf item < sizeOf (array items) := by
  have := List.sizeOf_lt_of_mem h
  rw [array.sizeOf_spec]
  omega

theorem sizeOf_pair_lt {pairs : List (Value × Value)} {pair : Value × Value} (h : pair ∈ pairs) :
    sizeOf pair.1 < sizeOf (map pairs) ∧ sizeOf pair.2 < sizeOf (map pairs) := by
  have := List.sizeOf_lt_of_mem h
  obtain ⟨key, value⟩ := pair
  rw [Prod.mk.sizeOf_spec] at this
  rw [map.sizeOf_spec]
  constructor <;> simp only <;> omega

theorem sizeOf_content_lt (number : UInt64) (content : Value) :
    sizeOf content < sizeOf (tag number content) := by
  rw [tag.sizeOf_spec]
  omega

/-! ## Encoding -/

def encode : Value → Bytes
  | unsigned n => Head.write 0 n.toNat
  | negative n => Head.write 1 n.toNat
  | bytes content => Head.write 2 content.length ++ content
  | text content => let utf8 := Bytes.ofText content; Head.write 3 utf8.length ++ utf8
  | array items => Head.write 4 items.length ++ items.flatMap fun item => encode item
  | map pairs =>
    Head.write 5 pairs.length ++ pairs.flatMap fun pair => encode pair.1 ++ encode pair.2
  | tag number content => Head.write 6 number.toNat ++ encode content
  | bool b => [if b then 0xf5 else 0xf4]
  | null => [0xf6]
  | float bits => Head.writeFloat bits
termination_by v => sizeOf v
decreasing_by
  · exact sizeOf_item_lt ‹_›
  · exact (sizeOf_pair_lt ‹_›).1
  · exact (sizeOf_pair_lt ‹_›).2
  · exact sizeOf_content_lt number content

end CtapEnroll.Cbor.Value
