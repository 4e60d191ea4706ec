/-!
# Binary floating-point formats

A floating-point number is kept as the bits of its double. Shorter formats are widened to doubles,
which loses nothing; `FloatFormat.narrow?` goes back exactly where a number has a short form, and
`widen_of_narrow?` says so.
-/

namespace CtapEnroll.Cbor

/-- A binary interchange format shorter than a double. -/
inductive FloatFormat
  | half
  | single
  deriving DecidableEq, Repr

namespace FloatFormat

def fractionBits : FloatFormat → Nat
  | half => 10
  | single => 23

/-- The exponent that is written as zero is minus this number. -/
def bias : FloatFormat → Nat
  | half => 15
  | single => 127

/-- The exponent field with all bits set, which marks infinities and NaNs. -/
def topExponent (f : FloatFormat) : Nat := 2 * f.bias + 1

def byteCount : FloatFormat → Nat
  | half => 2
  | single => 4

def double (negative : Bool) (exponent fraction : Nat) : UInt64 :=
  UInt64.ofNat ((if negative then 1 <<< 63 else 0) + exponent <<< 52 + fraction)

/-- The double that equals a number of the format. A NaN keeps its payload and becomes quiet. -/
def widen (f : FloatFormat) (bits : Nat) : UInt64 :=
  let fraction := bits % 1 <<< f.fractionBits
  let exponent := (bits >>> f.fractionBits) % (f.topExponent + 1)
  let negative := (bits >>> f.fractionBits) / (f.topExponent + 1) % 2 = 1
  let scaled := fraction <<< (52 - f.fractionBits)
  if exponent = f.topExponent then
    double negative 2047 (if fraction = 0 then 0 else scaled % 1 <<< 51 + 1 <<< 51)
  else if exponent = 0 then
    if fraction = 0 then double negative 0 0
    else
      let leading := fraction.log2
      double negative (leading + 1024 - f.bias - f.fractionBits)
        (fraction <<< (52 - leading) - 1 <<< 52)
  else double negative (exponent + 1023 - f.bias) scaled

/-- The bits that the format would give a double, rounded toward zero; only a double that the
format holds exactly is widened back to itself. -/
def truncate (f : FloatFormat) (bits : UInt64) : Nat :=
  let fraction := bits.toNat % 1 <<< 52
  let exponent := (bits.toNat >>> 52) % 2048
  let sign := ((bits.toNat >>> 63) * (f.topExponent + 1)) <<< f.fractionBits
  let scaled := fraction >>> (52 - f.fractionBits)
  if exponent = 2047 then sign + f.topExponent <<< f.fractionBits + scaled
  else if 1023 < exponent + f.bias then
    sign + (exponent + f.bias - 1023) <<< f.fractionBits + scaled
  else sign + (1 <<< 52 + fraction) >>> (53 - f.fractionBits + (1023 - exponent - f.bias))

def narrow? (f : FloatFormat) (bits : UInt64) : Option Nat :=
  let short := f.truncate bits
  if short < 1 <<< (8 * f.byteCount) ∧ f.widen short = bits then some short else none

theorem widen_of_narrow? {f : FloatFormat} {bits : UInt64} {short : Nat}
    (h : f.narrow? bits = some short) : f.widen short = bits := by
  simp only [narrow?] at h
  split at h
  · rename_i hs
    cases h
    exact hs.2
  · cases h

theorem lt_of_narrow? {f : FloatFormat} {bits : UInt64} {short : Nat}
    (h : f.narrow? bits = some short) : short < 1 <<< (8 * f.byteCount) := by
  simp only [narrow?] at h
  split at h
  · rename_i hs
    cases h
    exact hs.1
  · cases h

end FloatFormat

end CtapEnroll.Cbor
