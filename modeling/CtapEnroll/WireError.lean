import CtapEnroll.Cbor.Fault
import CtapEnroll.Hex
import CtapEnroll.Version
/-!
# Faults on the wire

What can be wrong with bytes that are exchanged with a device, before anything is known about the
operation they belong to.
-/

namespace CtapEnroll

/-- Why bytes or a value are no map with integer keys. -/
inductive MapFault
  | undecodable (fault : Cbor.Fault)
  | notMap
  | keyNotInteger
  | other (reason : String)
  deriving DecidableEq, Repr

def MapFault.message : MapFault → String
  | undecodable fault => fault.message
  | notMap => "expected a map"
  | keyNotInteger => "non-integer map key"
  | other reason => reason

inductive FieldType
  | bytes
  | unsigned
  | text
  | array
  | map
  | other (name : String)
  deriving DecidableEq, Repr

def FieldType.name : FieldType → String
  | bytes => "byte string"
  | unsigned => "unsigned integer"
  | text => "text string"
  | array => "array"
  | map => "map"
  | other name => name

inductive WireError
  | noStatusWord (length : Nat)
  | badMap (fault : MapFault)
  | missingField (key : Int)
  | wrongType (key : Int) (expected : FieldType)
  | bodyTooLong (length : Nat)
  | firmwareTooOld (required actual : Version)
  deriving DecidableEq, Repr

/-- The key of a field in hexadecimal; a negative one as sixteen bytes of two's complement. -/
def showKey (key : Int) : String := "0x" ++ hex 2 (key % (1 <<< 128 : Nat)).toNat

def tooShortMessage (length : Nat) : String :=
  s!"Malformed response: {length} bytes, at least 2 required"

def firmwareMessage (required actual : Version) : String :=
  s!"This action requires firmware {required.display} or later (found {actual.display})"

def WireError.message : WireError → String
  | noStatusWord length => tooShortMessage length
  | badMap fault => "Invalid CBOR: " ++ fault.message
  | missingField key => "Missing field " ++ showKey key
  | wrongType key expected =>
    "Unexpected type for field " ++ showKey key ++ ", expected " ++ expected.name
  | bodyTooLong length => s!"APDU data too long: {length} bytes"
  | firmwareTooOld required actual => firmwareMessage required actual

def Version.require (actual required : Version) : Except WireError Unit :=
  if actual.satisfies required then .ok () else .error (.firmwareTooOld required actual)

end CtapEnroll
