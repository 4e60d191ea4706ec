import CtapEnroll.AuthProtocol
import CtapEnroll.Enrollment
import CtapEnroll.WireError
/-!
# Errors

Why an operation on an authenticator failed. Each error is a cause; `Error.message` words it, and
`Error.ofWire` says which side a fault on the wire is blamed on.
-/

namespace CtapEnroll

inductive Violation
  | wire (fault : WireError)
  | modalityOutOfRange (code : UInt64)
  | valueOutOfRange (key : Int) (value : UInt64)
  | other (reason : String)
  deriving DecidableEq, Repr

def Violation.message : Violation → String
  | wire fault => fault.message
  | modalityOutOfRange code => s!"modality {code.toNat} out of range"
  | valueOutOfRange key value => s!"value {value.toNat} for key {key} out of range"
  | other reason => reason

inductive RequestFault
  | wire (fault : WireError)
  | other (reason : String)
  deriving DecidableEq, Repr

def RequestFault.message : RequestFault → String
  | wire fault => fault.message
  | other reason => reason

inductive Error
  | unreachable (reason : String)
  /-- The authenticator answered with a status other than success. -/
  | refused (status : Status)
  /-- The card answered with a status word other than success. -/
  | cardRefused (word : UInt16)
  /-- The response has no room for a status. -/
  | tooShort (length : Nat)
  | badAnswer (violation : Violation)
  | sampleRejected (status : SampleStatus)
  | firmwareTooOld (required actual : Version)
  | enrollmentOver (phase : Phase)
  | nameTooLong (length limit : Nat)
  | badRequest (fault : RequestFault)
  | badToken (fault : TokenError)
  deriving DecidableEq, Repr

namespace Error

def message : Error → String
  | unreachable reason => "Transport error: " ++ reason
  | refused status => "CTAP error: " ++ status.display
  | cardRefused word => "APDU error: SW=0x" ++ hex 4 word.toNat
  | tooShort length => tooShortMessage length
  | badAnswer violation => "Protocol violation: " ++ violation.message
  | sampleRejected status => "Fingerprint capture error: " ++ status.display
  | firmwareTooOld required actual => firmwareMessage required actual
  | enrollmentOver phase => s!"Enrollment is {phase.display}, no further captures are possible"
  | nameTooLong length limit => s!"Friendly name is {length} bytes, at most {limit} allowed"
  | badRequest fault => "Invalid request: " ++ fault.message
  | badToken fault => fault.message

def status? : Error → Option Status
  | refused status => some status
  | _ => none

/-- The error is feedback on a sample, which can be taken again. -/
def isRetryable : Error → Bool
  | sampleRejected _ => true
  | _ => false

/-- A fault on the wire as the failure of an operation: a body that cannot be sent is the request's
fault, and an answer that makes no sense the device's. -/
def ofWire : WireError → Error
  | .noStatusWord length => tooShort length
  | .firmwareTooOld required actual => firmwareTooOld required actual
  | .bodyTooLong length => badRequest (.wire (.bodyTooLong length))
  | fault => badAnswer (.wire fault)

end Error

end CtapEnroll
