/-!
# Hexadecimal text

Numbers are shown in lower-case hexadecimal, padded with zeros to a least width.
-/

namespace CtapEnroll

/-- `n` in lower-case hexadecimal, with zeros in front up to `width` digits. -/
def hex (width n : Nat) : String :=
  String.ofList ((Nat.toDigits 16 n).leftpad width '0')

end CtapEnroll
