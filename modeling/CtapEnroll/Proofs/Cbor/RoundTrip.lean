import Mathlib.Data.List.Induction
import Mathlib.Tactic.IntervalCases
import CtapEnroll.Cbor.Decode
import CtapEnroll.Cbor.Encode
/-!
# Reading back what was written

A decoder takes exactly the encoding of a value off the front of its input and finds that value,
whatever follows: `read_encode`. It does so for the values in `Readable`, which leaves out what no
decoder could tell apart or would open: values nested too deeply, strings longer than a head can
say, and byte strings under a tag that makes a number of them.
-/

namespace CtapEnroll

theorem Bytes.toNat_lt (b : Bytes) : toNat b < 1 <<< (8 * b.length) := by
  rw [Nat.one_shiftLeft]
  induction b using List.reverseRecOn with
  | nil => exact Nat.one_pos
  | append_singleton b byte ih =>
    have hbyte := byte.toNat_lt
    rw [toNat_append_singleton, List.length_append, List.length_singleton, Nat.mul_add, Nat.pow_add]
    omega

namespace Cbor

/-! ## Heads -/

namespace Head

def ofMajor (major n : Nat) : Head :=
  match major with
  | 0 => unsigned (.ofNat n)
  | 1 => negative (.ofNat n)
  | 2 => bytes (some n)
  | 3 => text (some n)
  | 4 => array (some n)
  | 5 => map (some n)
  | _ => tag (.ofNat n)

theorem ofArgument_ofMajor {major low : Nat} (hm : major < 7) (hl : low ≠ 31) (start n : Nat) (i : Input) :
    ofArgument start major low n i = .ok (ofMajor major n, i) := by
  unfold ofArgument
  rw [if_neg hl]
  interval_cases major <;> rfl

theorem read_eq (b : UInt8) (offset : Nat) (rest : Bytes) :
    read ⟨offset, b :: rest⟩ =
      if 28 ≤ b.toNat % 32 ∧ b.toNat % 32 ≤ 30 then .error (.malformed offset)
      else (argument (b.toNat % 32) >>= ofArgument offset (b.toNat / 32) (b.toNat % 32)) ⟨offset + 1, rest⟩ := by
  unfold read
  rw [Reader.bind_ok (show Reader.position ⟨offset, b :: rest⟩ = .ok (offset, ⟨offset, b :: rest⟩) from rfl),
    Reader.bind_ok (show Reader.byte ⟨offset, b :: rest⟩ = .ok (b, ⟨offset + 1, rest⟩) from rfl)]
  dsimp only
  split <;> rfl

theorem read_cons {b : UInt8} (major low : Nat) (hb : b.toNat = 32 * major + low) (hl : low < 28)
    (offset : Nat) (rest : Bytes) :
    read ⟨offset, b :: rest⟩ = (argument low >>= ofArgument offset major low) ⟨offset + 1, rest⟩ := by
  have hlow : b.toNat % 32 = low := by omega
  have hmajor : b.toNat / 32 = major := by omega
  rw [read_eq, hlow, hmajor, if_neg (by omega)]

theorem toNat_first {major low : Nat} (hm : major < 7) (hl : low < 28) :
    (UInt8.ofNat (32 * major + low)).toNat = 32 * major + low := by
  rw [UInt8.toNat_ofNat']
  omega

/-- The argument of a written head stands in the first byte, or in `width` bytes behind it. -/
theorem write_cases {n : Nat} (hn : n < 2 ^ 64) :
    (n < 24 ∧ shortest n = 1 ∧ ∀ major, write major n = [UInt8.ofNat (32 * major + n)]) ∨
      ∃ low width, low < 28 ∧ argument low = Reader.number width ∧ n < 1 <<< (8 * width) ∧
        shortest n = 1 + width ∧
        ∀ major, write major n = UInt8.ofNat (32 * major + low) :: Bytes.bigEndian width n := by
  unfold write shortest
  split
  · rename_i h
    exact .inl ⟨h, rfl, fun _ => rfl⟩
  · refine .inr ?_
    split
    · exact ⟨24, 1, by omega, rfl, by omega, rfl, fun _ => rfl⟩
    · split
      · exact ⟨25, 2, by omega, rfl, by omega, rfl, fun _ => rfl⟩
      · split
        · exact ⟨26, 4, by omega, rfl, by omega, rfl, fun _ => rfl⟩
        · exact ⟨27, 8, by omega, rfl, by omega, rfl, fun _ => rfl⟩

theorem argument_of_lt {n : Nat} (h : n < 24) : argument n = pure n := by
  unfold argument
  rw [if_neg (by omega), if_neg (by omega), if_neg (by omega), if_neg (by omega)]

theorem read_write {major n : Nat} (hm : major < 7) (hn : n < 2 ^ 64) (offset : Nat) (rest : Bytes) :
    read ⟨offset, write major n ++ rest⟩ = .ok (ofMajor major n, ⟨offset + shortest n, rest⟩) := by
  rcases write_cases hn with ⟨hlt, hshort, hwrite⟩ | ⟨low, width, hl, hargument, hlt, hshort, hwrite⟩
  · have hread : argument n ⟨offset + 1, rest⟩ = .ok (n, ⟨offset + 1, rest⟩) := by
      rw [argument_of_lt hlt]
      rfl
    rw [hwrite, hshort, List.singleton_append, read_cons major n (toNat_first hm (by omega)) (by omega),
      Reader.bind_ok hread]
    exact ofArgument_ofMajor hm (by omega) _ _ _
  · rw [hwrite, hshort, List.cons_append, read_cons major low (toNat_first hm hl) hl, hargument,
      Reader.bind_ok (Reader.number_bigEndian hlt _ _), ← Nat.add_assoc]
    exact ofArgument_ofMajor hm (by omega) _ _ _

theorem read_writeFloat (bits : UInt64) (offset : Nat) (rest : Bytes) :
    read ⟨offset, writeFloat bits ++ rest⟩ =
      .ok (float bits, ⟨offset + (writeFloat bits).length, rest⟩) := by
  unfold writeFloat
  split
  · rename_i short hs
    have hlt : short < 1 <<< (8 * 2) := FloatFormat.lt_of_narrow? hs
    rw [List.cons_append, read_cons 7 25 rfl (by omega),
      show argument 25 = Reader.number 2 from rfl, Reader.bind_ok (Reader.number_bigEndian hlt _ _),
      List.length_cons, Bytes.length_bigEndian, ← FloatFormat.widen_of_narrow? hs]
    rfl
  · split
    · rename_i short hs
      have hlt : short < 1 <<< (8 * 4) := FloatFormat.lt_of_narrow? hs
      rw [List.cons_append, read_cons 7 26 rfl (by omega),
        show argument 26 = Reader.number 4 from rfl, Reader.bind_ok (Reader.number_bigEndian hlt _ _),
        List.length_cons, Bytes.length_bigEndian, ← FloatFormat.widen_of_narrow? hs]
      rfl
    · have hlt : bits.toNat < 1 <<< (8 * 8) := bits.toNat_lt
      rw [List.cons_append, read_cons 7 27 rfl (by omega),
        show argument 27 = Reader.number 8 from rfl, Reader.bind_ok (Reader.number_bigEndian hlt _ _),
        List.length_cons, Bytes.length_bigEndian]
      have : UInt64.ofNat bits.toNat = bits := UInt64.ofNat_toNat
      change Except.ok (float (UInt64.ofNat bits.toNat), _) = _
      rw [this]
end Head

/-! ## Strings -/

theorem Text.read_ofText (s : String) (start offset : Nat) (rest : Bytes) :
    Text.read start (Bytes.ofText s).length ⟨offset, Bytes.ofText s ++ rest⟩ =
      .ok (s, ⟨offset + (Bytes.ofText s).length, rest⟩) := by
  unfold Text.read
  rw [Reader.bind_ok (show Reader.peekAll ⟨offset, Bytes.ofText s ++ rest⟩ =
    .ok (Bytes.ofText s ++ rest, ⟨offset, Bytes.ofText s ++ rest⟩) from rfl)]
  rw [if_neg (by simp)]
  dsimp only
  rw [Reader.bind_ok (Reader.bytes_append offset (Bytes.ofText s) rest), Bytes.text?_ofText]
  rfl

/-! ## Values -/

namespace Value

/-- A tag with a byte string right under it that is short enough to be read as a number. -/
def IsShortBignum (number : UInt64) : Value → Prop
  | bytes content => (number = positiveBignum ∨ number = negativeBignum) ∧ content.length ≤ maxBignumLength
  | _ => False

/-- A value that is read back as it was written when `budget` more arrays, maps and tags may be
opened. A byte string under a bignum tag is a number, so only the form that `ofInt` gives it comes
back. -/
inductive Readable : (budget : Nat) → Value → Prop
  | unsigned {budget : Nat} (n : UInt64) : Readable budget (.unsigned n)
  | negative {budget : Nat} (n : UInt64) : Readable budget (.negative n)
  | bytes {budget : Nat} {content : Bytes} (hlen : content.length < 2 ^ 64) :
    Readable budget (.bytes content)
  | text {budget : Nat} {content : String} (hlen : (Bytes.ofText content).length < 2 ^ 64) :
    Readable budget (.text content)
  | array {budget : Nat} {items : List Value} (hlen : items.length < 2 ^ 64)
    (h : ∀ item ∈ items, Readable budget item) : Readable (budget + 1) (.array items)
  | map {budget : Nat} {pairs : List (Value × Value)} (hlen : pairs.length < 2 ^ 64)
    (hkeys : ∀ pair ∈ pairs, Readable budget pair.1)
    (hvalues : ∀ pair ∈ pairs, Readable budget pair.2) : Readable (budget + 1) (.map pairs)
  | tag {budget : Nat} {number : UInt64} {content : Value} (hnumber : ¬ IsShortBignum number content)
    (h : Readable budget content) : Readable (budget + 1) (.tag number content)
  | bignum {budget : Nat} {number : UInt64} {content : Value} {i : Int} (hlo : -2 ^ 127 ≤ i)
    (hhi : i < 2 ^ 128) (h : ofInt i = .tag number content) : Readable budget (.tag number content)
  | bool {budget : Nat} (b : Bool) : Readable budget (.bool b)
  | null {budget : Nat} : Readable budget .null
  | float {budget : Nat} (bits : UInt64) : Readable budget (.float bits)

def insideOf (rounds : Nat) : (budget : Nat) → Option (Head → Reader Value)
  | 0 => none
  | budget + 1 => some (ofHead rounds budget)

theorem ofHead_eq (rounds budget : Nat) :
    ofHead rounds budget = ofHeadWith rounds (insideOf rounds budget) := by
  cases budget <;> rfl

/-! ### Numbers under tags -/

theorem of_bignumLength? {number : UInt64} {head : Head} {n : Nat} (h : bignumLength? number head = some n) :
    (number = positiveBignum ∨ number = negativeBignum) ∧ head = .bytes (some n) ∧ n ≤ maxBignumLength := by
  unfold bignumLength? at h
  split at h
  · split at h
    · rename_i hshort
      cases h
      exact ⟨hshort.1, rfl, hshort.2⟩
    · cases h
  · cases h

theorem toNat_lt_of_length_le {b : Bytes} (h : b.length ≤ maxBignumLength) : Bytes.toNat b < 2 ^ 128 := by
  refine Nat.lt_of_lt_of_le (Bytes.toNat_lt b) ?_
  rw [Nat.one_shiftLeft]
  exact Nat.pow_le_pow_right (by omega) (Nat.mul_le_mul_left 8 h)

/-- What a bignum tag makes of a number is an integer, within the bounds of the numbers that are read. -/
theorem exists_ofInt_of_ofBignum {number : UInt64} {n : Nat} {v : Value} (hn : n < 2 ^ 128)
    (h : ofBignum number n = .ok v) : ∃ i : Int, -2 ^ 127 ≤ i ∧ i < 2 ^ 128 ∧ ofInt i = v := by
  unfold ofBignum at h
  split_ifs at h with hpositive hsmall
  · cases h
    exact ⟨n, by omega, by omega, rfl⟩
  · cases h
    exact ⟨.negSucc n, by omega, by omega, rfl⟩

/-- An integer is a plain one, or a byte string under a tag. -/
theorem ofInt_cases (i : Int) :
    (∃ n, ofInt i = .unsigned n) ∨ (∃ n, ofInt i = .negative n) ∨
      ∃ number content, ofInt i = .tag number (.bytes content) := by
  cases i <;> simp only [ofInt] <;> split
  · exact .inl ⟨_, rfl⟩
  · exact .inr (.inr ⟨_, _, rfl⟩)
  · exact .inr (.inl ⟨_, rfl⟩)
  · exact .inr (.inr ⟨_, _, rfl⟩)

theorem ofInt_ne_bytes (i : Int) (c : Bytes) : ofInt i ≠ .bytes c := by
  rcases ofInt_cases i with ⟨n, hi⟩ | ⟨n, hi⟩ | ⟨number, content, hi⟩ <;> simp [hi]

theorem ofBignum_ne_bytes (number : UInt64) (n : Nat) (c : Bytes) : ofBignum number n ≠ .ok (.bytes c) := by
  unfold ofBignum
  split_ifs <;> simp [ofInt_ne_bytes]

/-- An integer beyond the plain ones is a byte string of at most sixteen bytes under a tag. -/
theorem ofInt_eq_tag {i : Int} (hlo : -2 ^ 127 ≤ i) (hhi : i < 2 ^ 128) {number : UInt64} {content : Value}
    (h : ofInt i = .tag number content) :
    ∃ n, content = .bytes (Bytes.minimal n) ∧ (Bytes.minimal n).length ≤ maxBignumLength ∧
      Bytes.toNat (Bytes.minimal n) = n ∧ (number = positiveBignum ∨ number = negativeBignum) ∧
      ofBignum number n = .ok (.tag number content) := by
  cases i with
  | ofNat n =>
    have hn : n < 2 ^ 128 := by
      have : (n : Int) < 2 ^ 128 := hhi
      omega
    have h0 := h
    simp only [ofInt] at h
    split at h
    · cases h
    · injection h with h1 h2
      subst h1 h2
      refine ⟨n, rfl, Bytes.length_minimal_le hn, Bytes.toNat_minimal n, .inl rfl, ?_⟩
      rw [← h0]
      rfl
  | negSucc n =>
    have hn : n < 2 ^ 127 := by
      rw [Int.negSucc_eq] at hlo
      omega
    have h0 := h
    simp only [ofInt] at h
    split at h
    · cases h
    · injection h with h1 h2
      subst h1 h2
      refine ⟨n, rfl, Bytes.length_minimal_le (by omega), Bytes.toNat_minimal n, .inr rfl, ?_⟩
      unfold ofBignum
      rw [if_neg (by decide), if_pos (by omega), h0]

/-! ### Byte strings are read behind their heads -/

theorem bytes_of_ofHead {rounds budget n : Nat} {v : Value} {i j : Input}
    (h : ofHead rounds budget (.bytes (some n)) i = .ok (v, j)) : ∃ c, v = .bytes c ∧ c.length = n := by
  rw [ofHead_eq] at h
  obtain ⟨c, hc, rfl⟩ := Reader.of_map_ok (show (Value.bytes <$> Reader.bytes n) i = .ok (v, j) from h)
  exact ⟨c, rfl, Reader.length_of_bytes hc⟩

theorem ofHeadWith_simple (rounds : Nat) (inside : Option (Head → Reader Value)) (code : UInt8) :
    (∃ b, ofHeadWith rounds inside (.simple code) = pure (.bool b)) ∨
      ofHeadWith rounds inside (.simple code) = pure .null ∨
      ofHeadWith rounds inside (.simple code) = throw .unknownSimple := by
  unfold ofHeadWith
  split
  case h_8 => exact .inl ⟨false, rfl⟩
  case h_9 => exact .inl ⟨true, rfl⟩
  case h_10 => exact .inr (.inl rfl)
  case h_11 => exact .inr (.inl rfl)
  case h_12 => exact .inr (.inr rfl)
  all_goals contradiction

/-- Only behind the head of a byte string is a byte string read. -/
theorem exists_bytes_of_ofHead {rounds budget : Nat} {head : Head} {c : Bytes} {i j : Input}
    (h : ofHead rounds budget head i = .ok (.bytes c, j)) : ∃ length, head = .bytes length := by
  rw [ofHead_eq] at h
  cases head with
  | bytes length => exact ⟨length, rfl⟩
  | unsigned n => cases h
  | negative n => cases h
  | text length =>
    obtain ⟨s, -, hs⟩ := Reader.of_map_ok h
    cases hs
  | array length =>
    obtain ⟨read, k, -, h⟩ := Reader.of_bind_ok h
    cases length <;>
    · obtain ⟨items, -, hitems⟩ := Reader.of_map_ok h
      cases hitems
  | map length =>
    obtain ⟨read, k, -, h⟩ := Reader.of_bind_ok h
    cases length <;>
    · obtain ⟨pairs, -, hpairs⟩ := Reader.of_map_ok h
      cases hpairs
  | tag number =>
    obtain ⟨inner, k, -, h⟩ := Reader.of_bind_ok h
    rw [ofHeadWith.tagged] at h
    cases hlength : bignumLength? number inner with
    | some n =>
      rw [hlength] at h
      obtain ⟨n, k, -, h⟩ := Reader.of_bind_ok h
      exact absurd (Reader.of_liftM_ok h).1 (ofBignum_ne_bytes number n c)
    | none =>
      rw [hlength] at h
      obtain ⟨read, k, -, h⟩ := Reader.of_bind_ok h
      obtain ⟨content, -, hcontent⟩ := Reader.of_map_ok h
      cases hcontent
  | simple code =>
    obtain ⟨b, hsimple⟩ | hsimple | hsimple := ofHeadWith_simple rounds (insideOf rounds budget) code <;>
    · rw [hsimple] at h
      cases h
  | float bits => cases h
  | stop => cases h

/-- A byte string of definite length that a tag makes no number of is no short one. -/
theorem not_isShortBignum_of_ofHead {rounds budget : Nat} {number : UInt64} {head : Head} {content : Value}
    {i j : Input} (hnone : bignumLength? number head = none) (hdefinite : head ≠ .bytes none)
    (h : ofHead rounds budget head i = .ok (content, j)) : ¬ IsShortBignum number content := by
  intro hshort
  cases content with
  | bytes c =>
    obtain ⟨length, rfl⟩ := exists_bytes_of_ofHead h
    cases length with
    | none => exact hdefinite rfl
    | some n =>
      obtain ⟨_, ⟨⟩, hlen⟩ := bytes_of_ofHead h
      have hsome : bignumLength? number (.bytes (some c.length)) = some c.length := if_pos hshort
      rw [hlen, hnone] at hsome
      cases hsome
  | _ => exact hshort.elim

/-! ### Reading back -/

theorem read_of_write {major n : Nat} (hm : major < 7) (hn : n < 2 ^ 64) {rounds budget offset : Nat}
    {body : Bytes} {v : Value} {i : Input}
    (h : ofHeadWith rounds (insideOf rounds budget) (Head.ofMajor major n) ⟨offset + Head.shortest n, body⟩ =
      .ok (v, i)) :
    (Head.read >>= ofHead rounds budget) ⟨offset, Head.write major n ++ body⟩ = .ok (v, i) := by
  rw [Reader.bind_ok (Head.read_write hm hn offset body), ofHead_eq, h]

/-- The encoding of a value is read as that value, wherever it starts, and what follows it is left. -/
def IsReadBack (rounds budget : Nat) (v : Value) : Prop :=
  ∀ (offset : Nat) (rest : Bytes), (Head.read >>= ofHead rounds budget) ⟨offset, v.encode ++ rest⟩ =
    .ok (v, ⟨offset + v.encode.length, rest⟩)

theorem IsReadBack.tag {rounds budget : Nat} {number : UInt64} {content : Value}
    (h : IsReadBack rounds budget content) (hnumber : ¬ IsShortBignum number content) :
    IsReadBack rounds (budget + 1) (.tag number content) := by
  intro offset rest
  rw [encode, List.length_append, Head.length_write, List.append_assoc]
  apply read_of_write (by omega) number.toNat_lt
  obtain ⟨head, i, hread, hbody⟩ := Reader.of_bind_ok (h (offset + Head.shortest number.toNat) rest)
  -- The head behind the tag does not make a number of the content, which is read like any other.
  have hnone : bignumLength? number head = none := by
    unfold bignumLength?
    split
    · rename_i n
      rw [if_neg]
      intro hn
      obtain ⟨c, rfl, hc⟩ := bytes_of_ofHead hbody
      exact hnumber ⟨hn.1, by omega⟩
    · rfl
  change ofHeadWith rounds _ (.tag (.ofNat number.toNat)) _ = _
  rw [UInt64.ofNat_toNat, ofHeadWith, Reader.bind_ok hread, ofHeadWith.tagged, hnone]
  refine (Reader.map_ok hbody).trans ?_
  rw [Nat.add_assoc]

theorem isReadBack_bignum {number : UInt64} {content : Value} {i : Int} (hlo : -2 ^ 127 ≤ i)
    (hhi : i < 2 ^ 128) (h : ofInt i = .tag number content) (rounds budget : Nat) :
    IsReadBack rounds budget (.tag number content) := by
  intro offset rest
  obtain ⟨n, rfl, hlen, hn, hnumber, hval⟩ := ofInt_eq_tag hlo hhi h
  rw [encode, encode, List.length_append, List.length_append, Head.length_write, Head.length_write,
    List.append_assoc, List.append_assoc]
  apply read_of_write (by omega) number.toNat_lt
  change ofHeadWith rounds _ (.tag (.ofNat number.toNat)) _ = _
  -- The head behind the tag makes a number of the content, which is written as this tag and content.
  have hsome : bignumLength? number (.bytes (some (Bytes.minimal n).length)) =
      some (Bytes.minimal n).length := if_pos ⟨hnumber, hlen⟩
  rw [UInt64.ofNat_toNat, ofHeadWith,
    Reader.bind_ok (Head.read_write (by omega) (Nat.lt_of_le_of_lt hlen (by decide)) _ _)]
  change ofHeadWith.tagged _ number (.bytes (some (Bytes.minimal n).length)) _ = _
  rw [ofHeadWith.tagged, hsome]
  dsimp only
  rw [Reader.bind_ok (Reader.number_bytes _ (Bytes.minimal n) rest), hn, hval, Nat.add_assoc, Nat.add_assoc]
  rfl

theorem read_encode {budget : Nat} {v : Value} (h : Readable budget v) (rounds : Nat) :
    IsReadBack rounds budget v := by
  -- On what makes the value readable; where the value starts and what follows it change on the way.
  induction h with
  | unsigned n =>
    intro offset rest
    rw [encode, Head.length_write]
    apply read_of_write (by omega) n.toNat_lt
    change Except.ok (Value.unsigned (UInt64.ofNat n.toNat), _) = _
    rw [UInt64.ofNat_toNat]
  | negative n =>
    intro offset rest
    rw [encode, Head.length_write]
    apply read_of_write (by omega) n.toNat_lt
    change Except.ok (Value.negative (UInt64.ofNat n.toNat), _) = _
    rw [UInt64.ofNat_toNat]
  | @bytes _ content hlen =>
    intro offset rest
    rw [encode, List.length_append, Head.length_write, List.append_assoc]
    apply read_of_write (by omega) hlen
    exact (Reader.map_ok (Reader.bytes_append _ content rest)).trans (by rw [Nat.add_assoc])
  | @text _ content hlen =>
    intro offset rest
    rw [encode, List.length_append, Head.length_write, List.append_assoc]
    apply read_of_write (by omega) hlen
    refine (Reader.map_ok (a := content) (j := ⟨_, rest⟩) ?_).trans (by rw [← Nat.add_assoc])
    exact Text.read_ofText content _ _ rest
  | @array budget items hlen _ ih =>
    intro offset rest
    rw [encode, List.length_append, Head.length_write, List.append_assoc]
    apply read_of_write (by omega) hlen
    refine (Reader.map_ok (Reader.times_flatMap items (fun item hi => ih item hi) [] _ rest)).trans ?_
    rw [Nat.add_assoc]
    rfl
  | @map budget pairs hlen _ _ ihk ihv =>
    intro offset rest
    rw [encode, List.length_append, Head.length_write, List.append_assoc]
    apply read_of_write (by omega) hlen
    refine (Reader.map_ok (Reader.times_flatMap pairs (fun pair hp offset rest => ?_) [] _ rest)).trans ?_
    · rw [List.append_assoc, List.length_append, ← Nat.add_assoc]
      exact Reader.seq_ok (ihk pair hp offset _) (ihv pair hp _ rest)
    · rw [Nat.add_assoc]
      rfl
  | tag hnumber _ ih => exact ih.tag hnumber
  | bignum hlo hhi h => exact isReadBack_bignum hlo hhi h rounds _
  | bool b =>
    intro offset rest
    rw [encode]
    cases b <;> rw [ofHead_eq] <;> rfl
  | null =>
    intro offset rest
    rw [encode, ofHead_eq]
    rfl
  | float bits =>
    intro offset rest
    rw [encode, Reader.bind_ok (Head.read_writeFloat bits offset rest), ofHead_eq]
    rfl

theorem exists_read_of_decode {b : Bytes} {v : Value} (h : decode b = .ok v) :
    ∃ j, read (b.length + 1) ⟨0, b⟩ = .ok (v, j) := by
  unfold decode at h
  cases hread : read (b.length + 1) ⟨0, b⟩ with
  | error fault =>
    rw [hread] at h
    cases h
  | ok r =>
    rw [hread] at h
    cases h
    exact ⟨r.2, rfl⟩

/-- A readable value is decoded from its encoding, and bytes behind it do not matter. -/
theorem decode_encode {v : Value} (h : Readable maxOpen v) (rest : Bytes) :
    decode (v.encode ++ rest) = .ok v := by
  unfold decode read
  rw [read_encode h]
  rfl

end Value

end Cbor

end CtapEnroll
