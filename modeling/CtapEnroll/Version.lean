import CtapEnroll.Bytes
import CtapEnroll.Text.Blank
/-!
# Firmware versions

A firmware version is three bytes, compared from the first to the last. `Version.parse` finds one
at the end of a device's name.
-/

namespace CtapEnroll

structure Version where
  major : UInt8
  minor : UInt8
  micro : UInt8
  deriving DecidableEq, Repr

namespace Version

/-- The version of a device that reports none. -/
def unknown : Version := ⟨0, 0, 0⟩

/-- The version in the first three bytes; bytes behind them do not matter. -/
def ofBytes : Bytes → Version
  | major :: minor :: micro :: _ => ⟨major, minor, micro⟩
  | _ => unknown

def toBytes (v : Version) : Bytes := [v.major, v.minor, v.micro]

def display (v : Version) : String := s!"{v.major.toNat}.{v.minor.toNat}.{v.micro.toNat}"

/-! ## Order -/

/-- The three bytes as one number, which orders versions. -/
def rank (v : Version) : Nat := Bytes.toNat v.toBytes

instance : Ord Version := ⟨fun a b => compare a.rank b.rank⟩
instance : LT Version := ⟨fun a b => a.rank < b.rank⟩
instance : LE Version := ⟨fun a b => a.rank ≤ b.rank⟩
instance : DecidableLT Version := fun a b => inferInstanceAs (Decidable (a.rank < b.rank))
instance : DecidableLE Version := fun a b => inferInstanceAs (Decidable (a.rank ≤ b.rank))

/-- A version is recent enough. A requirement with major number zero asks for nothing. -/
def satisfies (actual required : Version) : Bool := required.major = 0 || required ≤ actual

/-! ## Reading -/

/-- The number that decimal digits write, if there are digits and nothing else. -/
def digits? (cs : List Char) : Option Nat :=
  if !cs.isEmpty && cs.all Char.isDigit then
    some (cs.foldl (fun n c => 10 * n + (c.toNat - 48)) 0)
  else none

def integer? : List Char → Option Int
  | '-' :: cs => (digits? cs).map fun n => -(n : Int)
  | '+' :: cs => (digits? cs).map Int.ofNat
  | cs => (digits? cs).map Int.ofNat

/-- One field of a version: the low byte of a 32-bit integer, or zero for anything else. -/
def field (cs : List Char) : UInt8 :=
  match integer? cs with
  | some n => if Int32.minValue.toInt ≤ n ∧ n ≤ Int32.maxValue.toInt then UInt8.ofInt n else 0
  | none => 0

/-- The version in the last word of a text. The word has at least three fields between dots, where
empty fields at its end do not count; else the version is unknown. -/
def parse (s : String) : Version :=
  let fields := Text.splitAt '.' (Text.lastWord s.toList)
  match (fields.reverse.dropWhile List.isEmpty).reverse with
  | major :: minor :: micro :: _ => ⟨field major, field minor, field micro⟩
  | _ => unknown

example : parse "Firmware version 5.2.1" = ⟨5, 2, 1⟩ := by decide +kernel
example : parse "Firmware 1.2" = unknown := by decide +kernel
example : parse "300.-1.x" = ⟨44, 255, 0⟩ := by decide +kernel

end Version

end CtapEnroll
