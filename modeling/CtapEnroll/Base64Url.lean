import CtapEnroll.Bytes
/-!
# URL-safe Base64

Byte strings as text over letters, digits, `-` and `_`, without padding: three bytes make four
digits, and one or two bytes left over make two or three.
-/

namespace CtapEnroll.Base64Url

/-- The digit for the lowest six bits of `n`. -/
def digit (n : Nat) : Char :=
  let n := n % 64
  if n < 26 then Char.ofNat (n + 65)
  else if n < 52 then Char.ofNat (n + 71)
  else if n < 62 then Char.ofNat (n - 4)
  else if n = 62 then '-' else '_'

def digits : Bytes → List Char
  | [] => []
  | [a] => [digit (a.toNat / 4), digit (16 * a.toNat)]
  | [a, b] =>
    let n := 256 * a.toNat + b.toNat
    [digit (n / 1024), digit (n / 16), digit (4 * n)]
  | a :: b :: c :: rest =>
    let n := 256 * (256 * a.toNat + b.toNat) + c.toNat
    digit (n / 262144) :: digit (n / 4096) :: digit (n / 64) :: digit n :: digits rest

def encode (b : Bytes) : String := String.ofList (digits b)

example : encode [0xfb, 0xff, 0x00, 0x01] = "-_8AAQ" := rfl

end CtapEnroll.Base64Url
