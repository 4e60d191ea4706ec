import CtapEnroll.Hmac
/-!
# Signing with a PIN/UV auth token

A command that changes the authenticator carries an authentication code over its transcript, keyed
with a token. The two protocols differ in the tokens they take and in the length of the code:
`length_tag` says what a successful signature looks like, and `sign_isOk` which tokens give one.
-/

namespace CtapEnroll

inductive TokenError
  | empty
  | wrongLength (expected actual : Nat)
  deriving DecidableEq, Repr

def TokenError.message : TokenError → String
  | empty => "Invalid PIN/UV auth token"
  | wrongLength expected actual => s!"Invalid key length: expected {expected}, got {actual}"

structure Token where
  bytes : Bytes
  deriving DecidableEq

/-- A token as text, which tells its length only. -/
def Token.redacted (t : Token) : String := s!"PinUvAuthToken([REDACTED; {t.bytes.length}])"

/-- A protocol for signing commands. -/
inductive AuthProtocol
  | one
  | two
  deriving DecidableEq, Repr

namespace AuthProtocol

/-- The number that names the protocol in a request. -/
def number : AuthProtocol → UInt8
  | one => 1
  | two => 2

def ofNumber? : UInt8 → Option AuthProtocol
  | 1 => some one
  | 2 => some two
  | _ => none

def tagLength : AuthProtocol → Nat
  | one => 16
  | two => 32

/-- Why the protocol refuses a key, if it does. -/
def refusal? (p : AuthProtocol) (key : Bytes) : Option TokenError :=
  match p with
  | one => if key.isEmpty then some .empty else none
  | two => if key.length = 32 then none else some (.wrongLength 32 key.length)

def sign (p : AuthProtocol) (key message : Bytes) : Except TokenError Bytes :=
  match p.refusal? key with
  | some e => .error e
  | none => .ok ((Hmac.sign key message).take p.tagLength)

theorem length_tag {p : AuthProtocol} {key message tag : Bytes} (h : p.sign key message = .ok tag) :
    tag.length = p.tagLength := by
  simp only [sign] at h
  split at h
  · cases h
  · cases h
    cases p <;> simp [tagLength]

theorem sign_isOk (p : AuthProtocol) (key message : Bytes) :
    (∃ tag, p.sign key message = .ok tag) ↔ p.refusal? key = none := by
  simp only [sign]
  split <;> simp_all

end AuthProtocol

end CtapEnroll
