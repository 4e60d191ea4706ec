import CtapEnroll.WireError
/-!
# Card messages

Commands and responses of smart cards. A command is four header bytes and a body, written in a
short form for up to 255 bytes of body and in an extended one for up to 65535; each asks for as
long a response as its form allows. A response is a body followed by a status word.
-/

namespace CtapEnroll.Apdu

/-! ## Status words -/

namespace StatusWord

def success : UInt16 := 0x9000

/-- There is more of the response to fetch, of which the low byte gives the length. -/
def more (remaining : UInt8) : UInt16 := 0x6100 ||| remaining.toUInt16

def hasMore (word : UInt16) : Bool := word &&& 0xff00 = 0x6100

def remaining? (word : UInt16) : Option UInt8 := if hasMore word then some word.toUInt8 else none

end StatusWord

/-! ## Responses -/

structure Response where
  body : Bytes
  word : UInt16
  deriving DecidableEq, Repr

namespace Response

/-- Splits an answer into its body and the status word at its end. -/
def parse (b : Bytes) : Except WireError Response :=
  if b.length < 2 then .error (.noStatusWord b.length)
  else
    let bodyLength := b.length - 2
    .ok ⟨b.take bodyLength, .ofNat (Bytes.toNat (b.drop bodyLength))⟩

def encode (r : Response) : Bytes := r.body ++ Bytes.bigEndian 2 r.word.toNat

end Response

/-! ## Commands -/

/-- A command to a card: class, instruction, two parameters, and a body. -/
structure Command where
  cla : UInt8
  ins : UInt8
  p1 : UInt8
  p2 : UInt8
  body : Bytes
  deriving DecidableEq, Repr

namespace Command

def header (c : Command) : Bytes := [c.cla, c.ins, c.p1, c.p2]

def maxShort : Nat := 255

def maxExtended : Nat := 65535

def encode (c : Command) : Except WireError Bytes :=
  let n := c.body.length
  if n = 0 then .ok (c.header ++ [0])
  else if n ≤ maxShort then .ok (c.header ++ Bytes.bigEndian 1 n ++ c.body ++ [0])
  else if n ≤ maxExtended then .ok (c.header ++ 0 :: Bytes.bigEndian 2 n ++ c.body ++ [0, 0])
  else .error (.bodyTooLong n)

end Command

end CtapEnroll.Apdu
