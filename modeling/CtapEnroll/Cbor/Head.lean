import CtapEnroll.Bytes
import CtapEnroll.Cbor.FloatFormat
/-!
# Heads of CBOR items

An item starts with its head: a major type and an argument. `Head.write` writes a head in its
shortest form.
-/

namespace CtapEnroll.Cbor

/-- The start of an item. A missing length stands for an indefinite one. -/
inductive Head
  | unsigned (n : UInt64)
  | negative (n : UInt64)
  | bytes (length : Option Nat)
  | text (length : Option Nat)
  | array (length : Option Nat)
  | map (length : Option Nat)
  | tag (number : UInt64)
  | simple (code : UInt8)
  | float (bits : UInt64)
  | stop
  deriving DecidableEq, Repr

namespace Head

/-- A major type with an argument in the shortest of its five forms: inside the first byte, or in
one, two, four or eight bytes after it. -/
def write (major argument : Nat) : Bytes :=
  let first (low : Nat) : UInt8 := UInt8.ofNat (32 * major + low)
  if argument < 24 then [first argument]
  else if argument < UInt8.size then first 24 :: Bytes.bigEndian 1 argument
  else if argument < UInt16.size then first 25 :: Bytes.bigEndian 2 argument
  else if argument < UInt32.size then first 26 :: Bytes.bigEndian 4 argument
  else first 27 :: Bytes.bigEndian 8 argument

def shortest (argument : Nat) : Nat :=
  if argument < 24 then 1
  else if argument < UInt8.size then 2
  else if argument < UInt16.size then 3
  else if argument < UInt32.size then 5
  else 9

theorem length_write (major argument : Nat) :
    (write major argument).length = shortest argument := by
  simp only [write, shortest]
  repeat' split
  all_goals simp

def writeFloat (bits : UInt64) : Bytes :=
  match FloatFormat.half.narrow? bits with
  | some short => 0xf9 :: Bytes.bigEndian 2 short
  | none =>
    match FloatFormat.single.narrow? bits with
    | some short => 0xfa :: Bytes.bigEndian 4 short
    | none => 0xfb :: Bytes.bigEndian 8 bits.toNat

example : writeFloat 0x3ff8000000000000 = [0xf9, 0x3e, 0x00] := by decide +kernel
example : writeFloat 0x3fb999999999999a =
    [0xfb, 0x3f, 0xb9, 0x99, 0x99, 0x99, 0x99, 0x99, 0x9a] := by decide +kernel

end Head

end CtapEnroll.Cbor
