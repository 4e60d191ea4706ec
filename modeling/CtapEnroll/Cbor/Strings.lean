import CtapEnroll.Cbor.Reader
/-!
# Reading CBOR strings

A string of definite length is its bytes; one of indefinite length is a run of strings of its kind
up to a break, and these may again be of indefinite length. Text is checked for UTF-8 string by
string, in blocks of 4096 bytes, so that a fault in a block that is there wins over the end of the
input behind it.
-/

namespace CtapEnroll.Cbor

namespace Text

/-- The length of the blocks in which text is checked. -/
def blockLength : Nat := 4096

/-- How many bytes at the end of a block belong to a character that goes on behind it: the fewest,
of at most three, without which the block is text. -/
def unfinished? (block : Bytes) : Option (Fin 4) :=
  (List.finRange 4).find? fun k => (Bytes.text? (block.take (block.length - k))).isSome

/-- Some complete block shows that the bytes are no text. The bytes of a block that belong to an
unfinished character count for the next one. -/
def hasBrokenBlock (available : Bytes) : Bool :=
  if _h : available.length < blockLength then false
  else
    match unfinished? (available.take blockLength) with
    | none => true
    | some k => hasBrokenBlock (available.drop (blockLength - k))
termination_by available.length
decreasing_by
  have := k.isLt
  simp only [List.length_drop, blockLength] at *
  omega

/-- A text of `n` bytes, where `start` is the offset that a fault in it is reported at. -/
def read (start n : Nat) : Reader String := do
  let available ← Reader.peekAll
  if (available.take n).length < n then
    throw (if hasBrokenBlock available then .malformed start else .endOfInput)
  match Bytes.text? (← Reader.bytes n) with
  | some s => pure s
  | none => throw (.malformed start)

end Text

/-- The strings of a string of indefinite length, in order. `length?` knows the heads of the kind
of string and their lengths, `read` reads one of definite length from the offset of its head, and
`depth` counts the strings of indefinite length around the current one. Each round takes a head,
so the length of the input bounds their number. -/
def pieces (length? : Head → Option (Option Nat)) (read : (start n : Nat) → Reader α) :
    (rounds depth : Nat) → (done : List α) → Reader (List α)
  | 0, _, _ => throw .endOfInput
  | rounds + 1, depth, done => do
    let start ← Reader.position
    let head ← Head.read
    match head, length? head with
    | .stop, _ =>
      match depth with
      | 0 => pure done.reverse
      | depth + 1 => pieces length? read rounds depth done
    | _, some (some n) => do
      let piece ← read start n
      pieces length? read rounds depth (piece :: done)
    | _, some none => pieces length? read rounds (depth + 1) done
    | _, none => throw (.malformed start)

namespace Head

def bytesLength? : Head → Option (Option Nat)
  | bytes length => some length
  | _ => none

def textLength? : Head → Option (Option Nat)
  | text length => some length
  | _ => none

end Head

def byteString (rounds : Nat) : (length : Option Nat) → Reader Bytes
  | some n => Reader.bytes n
  | none => List.flatten <$> pieces Head.bytesLength? (fun _ n => Reader.bytes n) rounds 0 []

/-- The text behind a head with this length. A fault in a text of definite length is reported as
far before it as its shortest head would start. -/
def textString (rounds : Nat) : (length : Option Nat) → Reader String
  | some n => do
    let start ← Reader.position
    Text.read (start - Head.shortest n) n
  | none => String.join <$> pieces Head.textLength? Text.read rounds 0 []

end CtapEnroll.Cbor
