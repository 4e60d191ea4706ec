import CtapEnroll.Client.Basic
/-!
# Parameters and fields

The parameters that a client sends, and what it reads from the fields of an answer. A field that is
absent, of the wrong type or out of range fails the operation; nothing is cut or made up.
-/

namespace CtapEnroll

inductive ParamKey
  | template
  | name
  | timeout
  deriving DecidableEq, Repr

def ParamKey.code : ParamKey → UInt8
  | template => 0x01
  | name => 0x02
  | timeout => 0x03

inductive AnswerKey
  | modality
  | kind
  | maxSamples
  | template
  | sampleStatus
  | remaining
  | templates
  | maxNameLength
  deriving DecidableEq, Repr

def AnswerKey.code : AnswerKey → Int
  | modality => 0x01
  | kind => 0x02
  | maxSamples => 0x03
  | template => 0x04
  | sampleStatus => 0x05
  | remaining => 0x06
  | templates => 0x07
  | maxNameLength => 0x08

inductive EntryKey
  | template
  | name
  deriving DecidableEq, Repr

def EntryKey.code : EntryKey → Int
  | template => 0x01
  | name => 0x02

namespace Params

def ofTemplate (id : TemplateId) : Params := putBytes .empty ParamKey.template.code id

def withTimeout (p : Params) (timeout : Option UInt32) : Params :=
  p.putUnsigned? ParamKey.timeout.code (timeout.map UInt32.toUInt64)

def withName (p : Params) (name : String) : Params := p.putText ParamKey.name.code name

end Params

/-! ## What an answer says -/

def AnswerKey.byte (key : AnswerKey) (n : UInt64) : Except Error UInt8 :=
  if n.toNat < UInt8.size then .ok n.toUInt8 else .error (.badAnswer (.valueOutOfRange key.code n))

def AnswerKey.word (key : AnswerKey) (n : UInt64) : Except Error UInt32 :=
  if n.toNat < UInt32.size then .ok n.toUInt32 else .error (.badAnswer (.valueOutOfRange key.code n))

/-- A number that an answer may leave out. -/
def AnswerKey.optional (key : AnswerKey) (narrow : AnswerKey → UInt64 → Except Error α)
    (answer : Answer) : Except Error (Option α) := do
  match ← (answer.unsigned? key.code).mapError Error.ofWire with
  | some n => some <$> narrow key n
  | none => pure none

def Modality.ofAnswer (answer : Answer) : Except Error Modality := do
  let code ← (answer.unsigned AnswerKey.modality.code).mapError Error.ofWire
  if code.toNat < UInt8.size then .ok (.ofCode code.toUInt8)
  else .error (.badAnswer (.modalityOutOfRange code))

def Sensor.ofAnswer (answer : Answer) : Except Error Sensor := do
  let kind ← AnswerKey.kind.optional AnswerKey.byte answer
  let maxSamples ← AnswerKey.maxSamples.optional AnswerKey.word answer
  let maxNameLength ← AnswerKey.maxNameLength.optional AnswerKey.word answer
  pure ⟨kind.map .ofCode, maxSamples, maxNameLength⟩

/-- The report on a sample. Both fields are there before either is checked for its range. -/
def Sample.ofAnswer (answer : Answer) : Except Error Sample := do
  let status ← (answer.unsigned AnswerKey.sampleStatus.code).mapError Error.ofWire
  let remaining ← (answer.unsigned AnswerKey.remaining.code).mapError Error.ofWire
  let status ← AnswerKey.sampleStatus.byte status
  let remaining ← AnswerKey.remaining.word remaining
  pure ⟨.ofCode status, remaining⟩

def Beginning.ofAnswer (answer : Answer) : Except Error Beginning := do
  let template ← (answer.bytes AnswerKey.template.code).mapError Error.ofWire
  let sample ← Sample.ofAnswer answer
  pure ⟨template, sample⟩

def Listing.entryOfValue (v : Cbor.Value) : Except WireError (TemplateId × Option String) := do
  let fields ← Answer.ofValue v
  let id ← fields.bytes EntryKey.template.code
  let name ← fields.text? EntryKey.name.code
  pure (id, name)

/-- The listing of an answer; the last entry of a template counts. -/
def Listing.ofAnswer (answer : Answer) : Except WireError Listing := do
  let items ← answer.array AnswerKey.templates.code
  let entries ← items.mapM entryOfValue
  pure (SortedMap.ofList entries)

end CtapEnroll
