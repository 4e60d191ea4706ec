import CtapEnroll.Hex
/-!
# Status codes

The status byte of a response, and the feedback code of a fingerprint sample. A code is one of those that have
a name, or it is kept as it is.
-/

namespace CtapEnroll

/-! ## Codes with names -/

section OfNamed

variable {α : Type} {named : List α} {code : α → UInt8} {other : UInt8 → α} {a : α} {c : UInt8}

/-- What a code stands for: the named thing that has it, or else what keeps any code. -/
def ofNamed (named : List α) (code : α → UInt8) (other : UInt8 → α) (c : UInt8) : α :=
  (named.find? (code · = c)).getD (other c)

/-- What keeps its code as it is has one that nothing else has. -/
def IsProper (code : α → UInt8) (other : UInt8 → α) (a : α) : Prop := ∀ c, a = other c → ∀ b, code b = c → b = a

/-- There are the named things, each found by its code, and those that keep any code. -/
structure IsCoding (named : List α) (code : α → UInt8) (other : UInt8 → α) : Prop where
  code_other : ∀ c, code (other c) = c
  named_or_other : ∀ a, ofNamed named code other (code a) = a ∨ ∃ c, a = other c

section IsCoding

variable (h : IsCoding named code other)
include h

/-- No code is lost. -/
theorem IsCoding.code_ofNamed : code (ofNamed named code other c) = c := by
  unfold ofNamed
  cases hfind : named.find? (code · = c) with
  | none => exact h.code_other c
  | some a =>
    have ha := List.find?_some hfind
    exact of_decide_eq_true ha

/-- A code that has a name is not kept as it is. -/
theorem IsCoding.isProper_ofNamed : IsProper code other (ofNamed named code other c) := by
  intro c' hother b hb
  obtain rfl : c = c' := by rw [← h.code_ofNamed (c := c), hother, h.code_other]
  rcases h.named_or_other b with hnamed | ⟨c', rfl⟩
  · rw [← hb, hnamed]
  · rw [hother, ← hb, h.code_other]

/-- Whatever does not keep the code of something else is found by its code. -/
theorem IsCoding.ofNamed_code (ha : IsProper code other a) : ofNamed named code other (code a) = a := by
  rcases h.named_or_other a with hnamed | ⟨c, hother⟩
  · exact hnamed
  · refine ha c hother _ ?_
    rw [h.code_ofNamed, hother, h.code_other]

theorem IsCoding.ofNamed_eq_iff (ha : ∀ c, a ≠ other c) : ofNamed named code other c = a ↔ c = code a := by
  constructor
  · rintro rfl
    exact h.code_ofNamed.symm
  · rintro rfl
    exact h.ofNamed_code fun c hother => absurd hother (ha c)

end IsCoding

end OfNamed

/-! ## The status of a response -/

/-- The status at the front of a response. -/
inductive Status
  | success
  | invalidCommand
  | invalidParameter
  | invalidLength
  | invalidSeq
  | timeout
  | channelBusy
  | cborUnexpectedType
  | invalidCbor
  | missingParameter
  | limitExceeded
  | operationDenied
  | keyStoreFull
  | unsupportedOption
  | invalidOption
  | keepaliveCancel
  | noCredentials
  | userActionTimeout
  | notAllowed
  | pinInvalid
  | pinBlocked
  | pinAuthInvalid
  | pinAuthBlocked
  | pinNotSet
  | puatRequired
  | pinPolicyViolation
  | requestTooLarge
  | actionTimeout
  | upRequired
  | uvBlocked
  | unauthorizedPermission
  | uvInvalid
  | other
  | unknown (code : UInt8)
  deriving DecidableEq, Repr

namespace Status

def code : Status → UInt8
  | success => 0x00
  | invalidCommand => 0x01
  | invalidParameter => 0x02
  | invalidLength => 0x03
  | invalidSeq => 0x04
  | timeout => 0x05
  | channelBusy => 0x06
  | cborUnexpectedType => 0x11
  | invalidCbor => 0x12
  | missingParameter => 0x14
  | limitExceeded => 0x15
  | operationDenied => 0x27
  | keyStoreFull => 0x28
  | unsupportedOption => 0x2b
  | invalidOption => 0x2c
  | keepaliveCancel => 0x2d
  | noCredentials => 0x2e
  | userActionTimeout => 0x2f
  | notAllowed => 0x30
  | pinInvalid => 0x31
  | pinBlocked => 0x32
  | pinAuthInvalid => 0x33
  | pinAuthBlocked => 0x34
  | pinNotSet => 0x35
  | puatRequired => 0x36
  | pinPolicyViolation => 0x37
  | requestTooLarge => 0x39
  | actionTimeout => 0x3a
  | upRequired => 0x3b
  | uvBlocked => 0x3c
  | unauthorizedPermission => 0x40
  | uvInvalid => 0x3f
  | other => 0x7f
  | unknown code => code

def named : List Status :=
  [success, invalidCommand, invalidParameter, invalidLength, invalidSeq, timeout, channelBusy,
    cborUnexpectedType, invalidCbor, missingParameter, limitExceeded, operationDenied, keyStoreFull,
    unsupportedOption, invalidOption, keepaliveCancel, noCredentials, userActionTimeout, notAllowed,
    pinInvalid, pinBlocked, pinAuthInvalid, pinAuthBlocked, pinNotSet, puatRequired, pinPolicyViolation,
    requestTooLarge, actionTimeout, upRequired, uvBlocked, unauthorizedPermission, uvInvalid, other]

def ofCode : UInt8 → Status := ofNamed named code unknown

theorem isCoding : IsCoding named code unknown where
  code_other _ := rfl
  named_or_other s := by
    cases s with
    | unknown c => exact .inr ⟨c, rfl⟩
    | _ => exact .inl rfl

def isSuccess (s : Status) : Bool := s = success

theorem isSuccess_ofCode (c : UInt8) : (ofCode c).isSuccess = true ↔ c = 0x00 :=
  decide_eq_true_iff.trans (isCoding.ofNamed_eq_iff nofun)

def name? : Status → Option String
  | success => some "Success"
  | invalidCommand => some "InvalidCommand"
  | invalidParameter => some "InvalidParameter"
  | invalidLength => some "InvalidLength"
  | invalidSeq => some "InvalidSeq"
  | timeout => some "Timeout"
  | channelBusy => some "ChannelBusy"
  | cborUnexpectedType => some "CborUnexpectedType"
  | invalidCbor => some "InvalidCbor"
  | missingParameter => some "MissingParameter"
  | limitExceeded => some "LimitExceeded"
  | operationDenied => some "OperationDenied"
  | keyStoreFull => some "KeyStoreFull"
  | unsupportedOption => some "UnsupportedOption"
  | invalidOption => some "InvalidOption"
  | keepaliveCancel => some "KeepaliveCancel"
  | noCredentials => some "NoCredentials"
  | userActionTimeout => some "UserActionTimeout"
  | notAllowed => some "NotAllowed"
  | pinInvalid => some "PinInvalid"
  | pinBlocked => some "PinBlocked"
  | pinAuthInvalid => some "PinAuthInvalid"
  | pinAuthBlocked => some "PinAuthBlocked"
  | pinNotSet => some "PinNotSet"
  | puatRequired => some "PuatRequired"
  | pinPolicyViolation => some "PinPolicyViolation"
  | requestTooLarge => some "RequestTooLarge"
  | actionTimeout => some "ActionTimeout"
  | upRequired => some "UpRequired"
  | uvBlocked => some "UvBlocked"
  | unauthorizedPermission => some "UnauthorizedPermission"
  | uvInvalid => some "UvInvalid"
  | other => some "Other"
  | unknown _ => none

/-- A status as text: its name and code, or the code alone. -/
def display (s : Status) : String :=
  let code := "0x" ++ hex 2 s.code.toNat
  match s.name? with
  | some name => name ++ "(" ++ code ++ ")"
  | none => "CTAP error " ++ code

end Status

/-! ## The feedback on a sample -/

/-- What the sensor says about the quality of a sample. -/
inductive SampleStatus
  | good
  | tooHigh
  | tooLow
  | tooLeft
  | tooRight
  | tooFast
  | tooSlow
  | poorQuality
  | tooSkewed
  | tooShort
  | mergeFailure
  | alreadyExists
  | noUserActivity
  | noUserPresenceTransition
  | unknown (code : UInt8)
  deriving DecidableEq, Repr

namespace SampleStatus

def code : SampleStatus → UInt8
  | good => 0x00
  | tooHigh => 0x01
  | tooLow => 0x02
  | tooLeft => 0x03
  | tooRight => 0x04
  | tooFast => 0x05
  | tooSlow => 0x06
  | poorQuality => 0x07
  | tooSkewed => 0x08
  | tooShort => 0x09
  | mergeFailure => 0x0a
  | alreadyExists => 0x0b
  | noUserActivity => 0x0d
  | noUserPresenceTransition => 0x0e
  | unknown code => code

def named : List SampleStatus :=
  [good, tooHigh, tooLow, tooLeft, tooRight, tooFast, tooSlow, poorQuality, tooSkewed, tooShort, mergeFailure,
    alreadyExists, noUserActivity, noUserPresenceTransition]

def ofCode : UInt8 → SampleStatus := ofNamed named code unknown

theorem isCoding : IsCoding named code unknown where
  code_other _ := rfl
  named_or_other s := by
    cases s with
    | unknown c => exact .inr ⟨c, rfl⟩
    | _ => exact .inl rfl

@[simp] theorem code_ofCode (c : UInt8) : (ofCode c).code = c := isCoding.code_ofNamed

def isGood (s : SampleStatus) : Bool := s = good

theorem isGood_ofCode (c : UInt8) : (ofCode c).isGood = true ↔ c = 0x00 :=
  decide_eq_true_iff.trans (isCoding.ofNamed_eq_iff nofun)

def name : SampleStatus → String
  | good => "good"
  | tooHigh => "too high"
  | tooLow => "too low"
  | tooLeft => "too left"
  | tooRight => "too right"
  | tooFast => "too fast"
  | tooSlow => "too slow"
  | poorQuality => "poor quality"
  | tooSkewed => "too skewed"
  | tooShort => "too short"
  | mergeFailure => "merge failure"
  | alreadyExists => "already exists"
  | noUserActivity => "no user activity"
  | noUserPresenceTransition => "no user presence transition"
  | unknown _ => "unknown"

def display (s : SampleStatus) : String := s.name ++ " (0x" ++ hex 2 s.code.toNat ++ ")"

end SampleStatus

end CtapEnroll
