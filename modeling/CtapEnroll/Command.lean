import CtapEnroll.Hex
/-!
# Commands and sub-commands

The command that bio enrollment is sent under, and its sub-commands for fingerprints.
-/

namespace CtapEnroll

/-- The command for bio enrollment, or the one that devices had before it was standard. -/
inductive BioCommand
  | standard
  | preview
  deriving DecidableEq, Repr

namespace BioCommand

def code : BioCommand → UInt8
  | standard => 0x09
  | preview => 0x40

def ofCode? : UInt8 → Option BioCommand
  | 0x09 => some standard
  | 0x40 => some preview
  | _ => none

def name : BioCommand → String
  | standard => "BioEnrollment"
  | preview => "BioEnrollmentPreview"

def display (c : BioCommand) : String := c.name ++ "(0x" ++ hex 2 c.code.toNat ++ ")"

end BioCommand

inductive SubCommand
  | beginEnrollment
  | captureNext
  | cancelEnrollment
  | listTemplates
  | renameTemplate
  | removeTemplate
  | describeSensor
  deriving DecidableEq, Repr

namespace SubCommand

def all : List SubCommand :=
  [beginEnrollment, captureNext, cancelEnrollment, listTemplates, renameTemplate, removeTemplate,
    describeSensor]

def code : SubCommand → UInt8
  | beginEnrollment => 0x01
  | captureNext => 0x02
  | cancelEnrollment => 0x03
  | listTemplates => 0x04
  | renameTemplate => 0x05
  | removeTemplate => 0x06
  | describeSensor => 0x07

def name : SubCommand → String
  | beginEnrollment => "EnrollBegin"
  | captureNext => "EnrollCaptureNextSample"
  | cancelEnrollment => "CancelCurrentEnrollment"
  | listTemplates => "EnumerateEnrollments"
  | renameTemplate => "SetFriendlyName"
  | removeTemplate => "RemoveEnrollment"
  | describeSensor => "GetFingerprintSensorInfo"

def display (c : SubCommand) : String := c.name ++ "(0x" ++ hex 2 c.code.toNat ++ ")"

end SubCommand

end CtapEnroll
