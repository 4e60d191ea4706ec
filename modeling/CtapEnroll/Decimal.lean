/-!
# Shortest decimal text of a double

A double is written with the fewest decimal digits that read back as it, in positional notation
with a point. Of the numbers with so few digits the nearest is taken, and the larger one of two that
are equally near.
-/

namespace CtapEnroll.Decimal

/-- The reals that are rounded to a positive double, and the double itself, in units of
`2 ^ exponent`. The ends belong to it when the double is even. -/
structure Rounding where
  low : Nat
  middle : Nat
  high : Nat
  exponent : Int
  closed : Bool
  deriving DecidableEq, Repr

/-- The reals around a positive finite double. Below a power of two the doubles are closer. -/
def Rounding.ofFields (exponent fraction : Nat) : Rounding :=
  let m := if exponent = 0 then fraction else fraction + 1 <<< 52
  let below := if fraction = 0 ∧ 1 < exponent then 1 else 2
  ⟨4 * m - below, 4 * m, 4 * m + 2, (max exponent 1 : Nat) - 1077, m % 2 = 0⟩

/-- The multiple of `10 ^ place` that is nearest to the double among those that are rounded to it.
Only above the double can a farther multiple be rounded to it where a nearer one is not. -/
def Rounding.onGrid? (r : Rounding) (place : Int) : Option Nat :=
  let up := Nat.pow 10 (-place).toNat <<< r.exponent.toNat
  let unit := Nat.pow 10 place.toNat <<< (-r.exponent).toNat
  let nearest := (2 * r.middle * up + unit) / (2 * unit)
  [nearest, nearest + 1].find? fun n =>
    if r.closed then r.low * up ≤ n * unit ∧ n * unit ≤ r.high * up
    else r.low * up < n * unit ∧ n * unit < r.high * up

/-- The powers of ten from the coarsest grid that a double can need to the finest. -/
def places : List Int := (List.range 640).map fun (i : Nat) => (310 : Int) - i

/-- The coarsest decimal grid with a number that is rounded to the double, and the number on it. -/
def Rounding.shortest (r : Rounding) : Nat × Int :=
  (places.findSome? fun place => (r.onGrid? place).map fun n => (n, place)).getD (0, 0)

def positional (n : Nat) (place : Int) : String :=
  let digits := (Nat.toDigits 10 n).leftpad ((-place).toNat + 1) '0'
  let whole := digits.length - (-place).toNat
  let fraction := if place < 0 then digits.drop whole else ['0']
  String.ofList (digits.take whole ++ List.replicate place.toNat '0' ++ '.' :: fraction)

def ofBits (bits : UInt64) : String :=
  let fraction := bits.toNat % 1 <<< 52
  let exponent := (bits.toNat >>> 52) % 2048
  let sign := if bits.toNat >>> 63 = 1 then "-" else ""
  if exponent = 2047 then if fraction = 0 then sign ++ "inf" else "NaN"
  else if exponent = 0 ∧ fraction = 0 then sign ++ "0.0"
  else
    let (n, place) := (Rounding.ofFields exponent fraction).shortest
    sign ++ positional n place

example : ofBits 0x3fb999999999999a = "0.1" := by decide +kernel
example : ofBits 0xc08f400000000000 = "-1000.0" := by decide +kernel

end CtapEnroll.Decimal
