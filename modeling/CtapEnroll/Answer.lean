import CtapEnroll.Cbor.Decode
import CtapEnroll.Cbor.Encode
import CtapEnroll.SortedMap
import CtapEnroll.WireError
/-!
# Answers

The answer to a command: a map from integers to CBOR values. Where the bytes repeat a key, the last
value counts. Each accessor tells an absent field from one that holds the wrong type; the optional
forms take absence as an answer.
-/

namespace CtapEnroll

open Cbor (Value)

/-- The fields of an answer, by key. -/
abbrev Answer := SortedMap Int Value

namespace Answer

/-- The map of a CBOR map whose keys are all integers. -/
def ofValue : Value → Except WireError Answer
  | .map pairs =>
    match pairs.mapM fun p => p.1.int?.map fun key => (key, p.2) with
    | some entries => .ok (SortedMap.ofList entries)
    | none => .error (.badMap .keyNotInteger)
  | _ => .error (.badMap .notMap)

/-- The map that bytes start with. No bytes at all are the empty map, since many commands are
answered with a bare status. -/
def decode : Bytes → Except WireError Answer
  | [] => .ok .empty
  | b =>
    match Value.decode b with
    | .ok v => ofValue v
    | .error fault => .error (.badMap (.undecodable fault))

/-- A key as a value; a number that is no plain integer has none, and stands as null. -/
def keyValue (key : Int) : Value := if Value.IsPlain key then Value.ofInt key else .null

def toValue (m : Answer) : Value := .map (m.entries.map fun e => (keyValue e.1, e.2))

def encode (m : Answer) : Bytes := m.toValue.encode

/-! ## Fields -/

/-- What a field holds, as told by `view`, which knows the values of the expected type. -/
def field (m : Answer) (key : Int) (expected : FieldType) (view : Value → Option α) :
    Except WireError α :=
  match m.get? key with
  | none => .error (.missingField key)
  | some v =>
    match view v with
    | some a => .ok a
    | none => .error (.wrongType key expected)

def optional (m : Answer) (key : Int) (get : Answer → Int → Except WireError α) :
    Except WireError (Option α) :=
  if m.contains key then (get m key).map some else .ok none

def bytes (m : Answer) (key : Int) : Except WireError Bytes :=
  m.field key .bytes fun
    | .bytes b => some b
    | _ => none

def bytes? (m : Answer) (key : Int) : Except WireError (Option Bytes) := m.optional key bytes

def unsigned (m : Answer) (key : Int) : Except WireError UInt64 :=
  m.field key .unsigned fun
    | .unsigned n => some n
    | _ => none

def unsigned? (m : Answer) (key : Int) : Except WireError (Option UInt64) :=
  m.optional key unsigned

def text (m : Answer) (key : Int) : Except WireError String :=
  m.field key .text fun
    | .text s => some s
    | _ => none

def text? (m : Answer) (key : Int) : Except WireError (Option String) := m.optional key text

def array (m : Answer) (key : Int) : Except WireError (List Value) :=
  m.field key .array fun
    | .array items => some items
    | _ => none

def map (m : Answer) (key : Int) : Except WireError Answer := do
  let v ← m.field key .map fun
    | .map pairs => some (.map pairs)
    | _ => none
  ofValue v

end Answer

end CtapEnroll
