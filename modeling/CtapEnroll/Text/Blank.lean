/-!
# Blank characters

The characters with the Unicode property White_Space, and the words between them.
-/

namespace CtapEnroll.Text

/-- The character has the Unicode property White_Space. -/
def isBlank (c : Char) : Bool :=
  let n := c.toNat
  (9 ≤ n && n ≤ 13) || n = 0x20 || n = 0x85 || n = 0xa0 || n = 0x1680 ||
    (0x2000 ≤ n && n ≤ 0x200a) || n = 0x2028 || n = 0x2029 || n = 0x202f || n = 0x205f || n = 0x3000

/-- The last word of a text, a word being a longest run of characters that are not blank; empty if
there is none. -/
def lastWord (cs : List Char) : List Char :=
  ((cs.reverse.dropWhile isBlank).takeWhile (!isBlank ·)).reverse

def splitAt (separator : Char) (cs : List Char) : List (List Char) :=
  cs.foldr (fun c fields =>
    if c = separator then [] :: fields
    else
      match fields with
      | [] => [[c]]
      | field :: rest => (c :: field) :: rest) [[]]

end CtapEnroll.Text
