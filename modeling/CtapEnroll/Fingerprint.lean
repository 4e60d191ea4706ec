import CtapEnroll.Base64Url
import CtapEnroll.SortedMap
import CtapEnroll.Status
/-!
# Fingerprints

What an authenticator says about its sensor, about a sample, and about the templates it holds.
-/

namespace CtapEnroll

/-- The kind of biometrics. -/
inductive Modality
  | fingerprint
  | other (code : UInt8)
  deriving DecidableEq, Repr

namespace Modality

def code : Modality → UInt8
  | fingerprint => 0x01
  | other code => code

def ofCode : UInt8 → Modality := ofNamed [fingerprint] code other

theorem isCoding : IsCoding [fingerprint] code other where
  code_other _ := rfl
  named_or_other modality := by
    cases modality with
    | fingerprint => exact .inl rfl
    | other c => exact .inr ⟨c, rfl⟩

@[simp] theorem code_ofCode (c : UInt8) : (ofCode c).code = c := isCoding.code_ofNamed

def name : Modality → String
  | fingerprint => "Fingerprint"
  | other _ => "Other"

end Modality

inductive FingerprintKind
  | touch
  | swipe
  | other (code : UInt8)
  deriving DecidableEq, Repr

namespace FingerprintKind

def code : FingerprintKind → UInt8
  | touch => 1
  | swipe => 2
  | other code => code

def ofCode : UInt8 → FingerprintKind := ofNamed [touch, swipe] code other

theorem isCoding : IsCoding [touch, swipe] code other where
  code_other _ := rfl
  named_or_other kind := by
    cases kind with
    | touch => exact .inl rfl
    | swipe => exact .inl rfl
    | other c => exact .inr ⟨c, rfl⟩

@[simp] theorem code_ofCode (c : UInt8) : (ofCode c).code = c := isCoding.code_ofNamed

end FingerprintKind

/-- The properties of a sensor, as far as it tells them. -/
structure Sensor where
  kind : Option FingerprintKind
  /-- The number of good samples that a template needs. -/
  maxSamples : Option UInt32
  /-- The longest name of a template, in bytes. -/
  maxNameLength : Option UInt32
  deriving DecidableEq, Repr

/-- The identifier of a template, which the authenticator chooses. -/
abbrev TemplateId := Bytes

def TemplateId.display (id : TemplateId) : String := Base64Url.encode id

/-- What the sensor reports on a sample: its quality, and how many more are needed. -/
structure Sample where
  status : SampleStatus
  remaining : UInt32
  deriving DecidableEq, Repr

/-- The answer to the start of an enrollment: the new template and the first sample. -/
structure Beginning where
  template : TemplateId
  sample : Sample
  deriving DecidableEq, Repr

/-- The enrolled templates with their names, where they have one. -/
abbrev Listing := SortedMap TemplateId (Option String)

end CtapEnroll
