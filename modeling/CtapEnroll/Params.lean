import CtapEnroll.Cbor.Encode
import CtapEnroll.SortedMap
/-!
# Parameters

The arguments of a command: a map from small integers to CBOR values. Its encoding lists the keys
in ascending order, so it does not depend on the order of insertion.
-/

namespace CtapEnroll

/-- The arguments of a command, by key. -/
abbrev Params := SortedMap UInt8 Cbor.Value

namespace Params

open Cbor (Value)

def putBytes (m : Params) (key : UInt8) (b : Bytes) : Params := m.insert key (.bytes b)

def putUnsigned (m : Params) (key : UInt8) (n : UInt64) : Params :=
  m.insert key (.unsigned n)

def putUnsigned? (m : Params) (key : UInt8) (n : Option UInt64) : Params :=
  m.insert? key (n.map .unsigned)

def putText (m : Params) (key : UInt8) (s : String) : Params := m.insert key (.text s)

def toValue (m : Params) : Value :=
  .map (m.entries.map fun e => (.unsigned (.ofNat e.1.toNat), e.2))

/-- The bytes of the map, which are also what is signed. -/
def encode (m : Params) : Bytes := m.toValue.encode

end Params

end CtapEnroll
