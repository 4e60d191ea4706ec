import CtapEnroll.Bytes
/-!
# CBOR values

The data model of CBOR. Integers come in two kinds, as on the wire: `unsigned n` is `n` and
`negative n` is `-1 - n`, so every value of the type is an integer of CBOR. Larger integers are
byte strings under tag 2 or 3; `Value.ofInt` chooses.
-/

namespace CtapEnroll.Cbor

/-- A CBOR value. A map keeps the order of its pairs and any repeated key; a float is the bits of
its double. -/
inductive Value
  | unsigned (n : UInt64)
  | negative (n : UInt64)
  | bytes (content : Bytes)
  | text (content : String)
  | array (items : List Value)
  | map (pairs : List (Value × Value))
  | tag (number : UInt64) (content : Value)
  | bool (b : Bool)
  | null
  | float (bits : UInt64)
  deriving Inhabited

namespace Value

/-- The tag of a byte string that writes a number `n` for the integer `n`. -/
def positiveBignum : UInt64 := 2

/-- The tag of a byte string that writes a number `n` for the integer `-1 - n`. -/
def negativeBignum : UInt64 := 3

/-- An integer as a value: a plain integer where CBOR has one, else a tagged byte string without
leading zeros. -/
def ofInt : Int → Value
  | .ofNat n =>
    if n < UInt64.size then .unsigned (.ofNat n) else .tag positiveBignum (.bytes (Bytes.minimal n))
  | .negSucc n =>
    if n < UInt64.size then .negative (.ofNat n) else .tag negativeBignum (.bytes (Bytes.minimal n))

def int? : Value → Option Int
  | unsigned n => some n.toNat
  | negative n => some (.negSucc n.toNat)
  | _ => none

/-- The plain integers run from `-2^64` to `2^64 - 1`. -/
def IsPlain (i : Int) : Prop := -(UInt64.size : Int) ≤ i ∧ i < UInt64.size

instance (i : Int) : Decidable (IsPlain i) := inferInstanceAs (Decidable (_ ∧ _))

theorem int?_ofInt {i : Int} (h : IsPlain i) : (ofInt i).int? = some i := by
  obtain ⟨hlo, hhi⟩ := h
  cases i with
  | ofNat n =>
    have hn : n < UInt64.size := Int.ofNat_lt.1 hhi
    simp only [ofInt, hn, if_true, int?]
    simp [UInt64.toNat_ofNat_of_lt' hn]
  | negSucc n =>
    have hn : n < UInt64.size := by rw [Int.negSucc_eq] at hlo; omega
    simp only [ofInt, hn, if_true, int?]
    simp [UInt64.toNat_ofNat_of_lt' hn]

theorem ofInt_of_int? {v : Value} {i : Int} (h : v.int? = some i) : ofInt i = v := by
  cases v with
  | unsigned n =>
    cases h
    exact (if_pos n.toNat_lt).trans (congrArg unsigned UInt64.ofNat_toNat)
  | negative n =>
    cases h
    exact (if_pos n.toNat_lt).trans (congrArg negative UInt64.ofNat_toNat)
  | _ => cases h

theorem isPlain_of_int? {v : Value} {i : Int} (h : v.int? = some i) : IsPlain i := by
  unfold IsPlain UInt64.size
  cases v with
  | unsigned n =>
    have := n.toNat_lt
    simp only [int?, Option.some.injEq] at h
    constructor <;> omega
  | negative n =>
    have := n.toNat_lt
    simp only [int?, Option.some.injEq] at h
    constructor <;> omega
  | _ => cases h

end Value

end CtapEnroll.Cbor
