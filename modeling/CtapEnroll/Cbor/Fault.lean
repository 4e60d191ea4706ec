import CtapEnroll.Cbor.Head
import CtapEnroll.Decimal
/-!
# Why bytes are no CBOR value

The faults of a decoder, and their wording.
-/

namespace CtapEnroll.Cbor

inductive Fault
  | endOfInput
  /-- The item that starts here, or the head here, is not well-formed. -/
  | malformed (offset : Nat)
  | unexpectedBreak
  /-- A simple value other than false, true, null and undefined. -/
  | unknownSimple
  /-- A negative bignum beyond the integers that are read as numbers. -/
  | integerTooLarge
  | tooDeep
  /-- A text string was asked for, and the item starts like this. -/
  | notText (head : Head)
  deriving DecidableEq, Repr

def Head.describe : Head → String
  | unsigned n => s!"integer `{n.toNat}`"
  | negative n => s!"integer `{(~~~n).toInt64.toInt}`"
  | bytes _ => "bytes"
  | text _ => "string"
  | array _ => "sequence"
  | map _ => "map"
  | tag _ => "tag"
  | simple 20 => "boolean `false`"
  | simple 21 => "boolean `true`"
  | simple 22 => "null"
  | simple 23 => "undefined"
  | simple _ => "simple"
  | float bits => s!"floating point `{Decimal.ofBits bits}`"
  | stop => "break"

def Fault.message : Fault → String
  | endOfInput =>
    "Io(Error \x7b kind: UnexpectedEof, message: \"failed to fill whole buffer\" \x7d)"
  | malformed offset => s!"Syntax({offset})"
  | unexpectedBreak => mismatch "break" "non-break"
  | unknownSimple => mismatch "simple" "known simple value"
  | integerTooLarge => "Semantic(None, \"integer too large\")"
  | tooDeep => "RecursionLimitExceeded"
  | notText head => mismatch head.describe "string"
where
  mismatch (found expected : String) : String :=
    s!"Semantic(None, \"invalid type: {found}, expected {expected}\")"

end CtapEnroll.Cbor
