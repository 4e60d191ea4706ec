import CtapEnroll.Cbor.Strings
import CtapEnroll.Cbor.Value
/-!
# Decoding CBOR values

`Value.decode` reads one value from the front of its bytes and ignores what follows it. Heads need
not be shortest and lengths may be indefinite. At most `maxOpen` arrays, maps and tags may be open
at once.
-/

namespace CtapEnroll.Cbor

/-- The number of arrays, maps and tags that may be open at once. -/
def maxOpen : Nat := 256

namespace Value

/-- The longest byte string under a bignum tag that is read as a number. -/
def maxBignumLength : Nat := 16

/-- The length of a byte string that is read as the number of a bignum tag. -/
def bignumLength? (number : UInt64) : Head → Option Nat
  | .bytes (some n) =>
    if (number = positiveBignum ∨ number = negativeBignum) ∧ n ≤ maxBignumLength then some n
    else none
  | _ => none

/-- The integer that a bignum tag gives the number `n`. A negative one is read as a signed number
of sixteen bytes. -/
def ofBignum (number : UInt64) (n : Nat) : Except Fault Value :=
  if number = positiveBignum then .ok (ofInt n)
  else if n < 1 <<< 127 then .ok (ofInt (.negSucc n))
  else .error .integerTooLarge

/-- What is read behind one head after the other, up to a break in place of one. -/
def untilStop (read : Head → Reader α) : (rounds : Nat) → (done : List α) → Reader (List α)
  | 0, _ => throw .endOfInput
  | rounds + 1, done => do
    let head ← Head.read
    match head with
    | .stop => pure done.reverse
    | _ => do
      let a ← read head
      untilStop read rounds (a :: done)

/-- The value behind a head, where `inside` reads the values that it holds; without it no further
array, map or tag may be opened. `rounds` bounds the number of items in anything of indefinite
length. -/
def ofHeadWith (rounds : Nat) (inside : Option (Head → Reader Value)) : Head → Reader Value
  | .unsigned n => pure (unsigned n)
  | .negative n => pure (negative n)
  | .bytes length => bytes <$> byteString rounds length
  | .text length => text <$> textString rounds length
  | .array length => do
    let read ← enter
    match length with
    | some n => array <$> Reader.times (Head.read >>= read) n []
    | none => array <$> untilStop read rounds []
  | .map length => do
    let read ← enter
    let item := Head.read >>= read
    match length with
    | some n => map <$> Reader.times (Prod.mk <$> item <*> item) n []
    | none => map <$> untilStop (fun head => Prod.mk <$> read head <*> item) rounds []
  | .tag number => do
    let head ← Head.read
    tagged number head
  | .simple 20 => pure (bool false)
  | .simple 21 => pure (bool true)
  | .simple 22 => pure null
  | .simple 23 => pure null
  | .simple _ => throw .unknownSimple
  | .float bits => pure (float bits)
  | .stop => throw .unexpectedBreak
where
  enter : Reader (Head → Reader Value) :=
    match inside with
    | some read => pure read
    | none => throw .tooDeep
  tagged (number : UInt64) (head : Head) : Reader Value :=
    match bignumLength? number head with
    | some length => do
      let n ← Reader.number length
      liftM (ofBignum number n)
    | none => do
      let read ← enter
      tag number <$> read head

def ofHead (rounds : Nat) : (budget : Nat) → Head → Reader Value
  | 0 => ofHeadWith rounds none
  | budget + 1 => ofHeadWith rounds (some (ofHead rounds budget))

def read (rounds : Nat) : Reader Value := Head.read >>= ofHead rounds maxOpen

def decode (b : Bytes) : Except Fault Value :=
  (read (b.length + 1) ⟨0, b⟩).map (·.1)

end Value

namespace Text

/-- The text string that bytes start with, behind any number of tags. -/
def decode (b : Bytes) : Except Fault String :=
  let rounds := b.length + 1
  (untag rounds rounds ⟨0, b⟩).map (·.1)
where
  untag (rounds : Nat) : (tags : Nat) → Reader String
  | 0 => throw .endOfInput
  | tags + 1 => do
    let head ← Head.read
    match head with
    | .tag _ => untag rounds tags
    | .text length => textString rounds length
    | _ => throw (.notText head)

def encode (s : String) : Bytes :=
  let utf8 := Bytes.ofText s
  Head.write 3 utf8.length ++ utf8

end Text

end CtapEnroll.Cbor
