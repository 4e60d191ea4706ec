import Mathlib.Algebra.Group.Int.Defs
import Mathlib.Data.List.DropRight
import CtapEnroll.Version
/-!
# Versions in text

A version is found at the end of a text, whatever stands before it and whatever further fields follow it:
`parse_exact`. A last word with fewer than three fields tells no version.
-/

namespace CtapEnroll

/-! ## Words -/

namespace Text

/-- A word can start behind the text, which is empty or ends in a blank. -/
def EndsBlank (cs : List Char) : Prop := ∀ c ∈ cs.getLast?, isBlank c = true

def IsWord (cs : List Char) : Prop := cs ≠ [] ∧ ∀ c ∈ cs, isBlank c = false

theorem isBlank_of_isDigit {c : Char} (h : c.isDigit = true) : isBlank c = false := by
  have hrange : 48 ≤ c.toNat ∧ c.toNat ≤ 57 := by simpa [Char.isDigit, UInt32.le_iff_toNat_le] using h
  simp [isBlank]
  omega

theorem lastWord_of_blank {blanks : List Char} (h : ∀ c ∈ blanks, isBlank c = true) : lastWord blanks = [] := by
  have hdrop : blanks.reverse.dropWhile isBlank = [] := by simpa [List.dropWhile_eq_nil_iff] using h
  simp [lastWord, hdrop]

/-- The last word is the one with a blank or nothing before it, and only blanks behind. -/
theorem lastWord_append {before word blanks : List Char} (hbefore : EndsBlank before) (hword : IsWord word)
    (hblanks : ∀ c ∈ blanks, isBlank c = true) : lastWord (before ++ word ++ blanks) = word := by
  obtain ⟨hne, hchars⟩ := hword
  obtain ⟨front, last, rfl⟩ := (List.eq_nil_or_concat' word).resolve_left hne
  have hlast : isBlank last = false := hchars last (by simp)
  have hdrop : (before ++ (front ++ [last]) ++ blanks).reverse.dropWhile isBlank =
      (front ++ [last]).reverse ++ before.reverse := by
    rw [List.reverse_append, List.dropWhile_append_of_pos (by simpa using hblanks)]
    simp [hlast]
  have htake : before.reverse.takeWhile (!isBlank ·) = [] := by
    unfold EndsBlank at hbefore
    rw [← List.head?_reverse] at hbefore
    cases h : before.reverse with
    | nil => rfl
    | cons c rest => simp [h] at hbefore; simp [hbefore]
  have hword : ∀ c ∈ (front ++ [last]).reverse, (!isBlank c) = true := by
    intro c hc
    rw [hchars c (List.mem_reverse.1 hc)]
    rfl
  rw [lastWord, hdrop, List.takeWhile_append_of_pos hword, htake, List.append_nil, List.reverse_reverse]

theorem splitAt_eq_splitOn (separator : Char) (cs : List Char) : splitAt separator cs = cs.splitOn separator := by
  induction cs with
  | nil => rfl
  | cons c cs ih =>
    obtain ⟨field, rest, hfields⟩ := List.exists_cons_of_ne_nil (List.splitOn_ne_nil separator cs)
    unfold splitAt at ih ⊢
    simp [List.splitOn_cons_eq_if_modifyHead, ih, hfields]

/-- Fields are found as they were joined. -/
theorem splitAt_intercalate {separator : Char} {fields : List (List Char)} (hne : fields ≠ [])
    (h : ∀ field ∈ fields, separator ∉ field) : splitAt separator ([separator].intercalate fields) = fields := by
  rw [splitAt_eq_splitOn, List.splitOn_intercalate separator h hne]

end Text

namespace Version

/-! ## Numbers -/

/-- The ways to write an integer in decimal: an optional sign, and its digits behind any number of zeros. -/
inductive IsDecimal : List Char → Int → Prop
  | plain (zeros n : Nat) : IsDecimal (List.replicate zeros '0' ++ Nat.toDigits 10 n) n
  | plus (zeros n : Nat) : IsDecimal ('+' :: (List.replicate zeros '0' ++ Nat.toDigits 10 n)) n
  | minus (zeros n : Nat) : IsDecimal ('-' :: (List.replicate zeros '0' ++ Nat.toDigits 10 n)) (-n)

theorem isDecimal_toString (i : Int) : IsDecimal (toString i).toList i := by
  cases i with
  | ofNat n =>
    have := IsDecimal.plain 0 n
    simpa [toString, Int.repr] using this
  | negSucc n =>
    have := IsDecimal.minus 0 (n + 1)
    simpa [toString, Int.repr, Int.negSucc_eq] using this

theorem isDigit_of_mem {zeros n : Nat} {c : Char} (h : c ∈ List.replicate zeros '0' ++ Nat.toDigits 10 n) :
    c.isDigit = true := by
  rcases List.mem_append.1 h with h | h
  · obtain ⟨-, rfl⟩ := List.mem_replicate.1 h
    rfl
  · exact Nat.isDigit_of_mem_toDigits (by omega) (by omega) h

theorem digits?_decimal (zeros n : Nat) :
    digits? (List.replicate zeros '0' ++ Nat.toDigits 10 n) = some n := by
  have hvalue : Nat.ofDigitChars 10 (List.replicate zeros '0' ++ Nat.toDigits 10 n) 0 = n := by
    simp [Nat.ofDigitChars_append, Nat.ofDigitChars_replicate_zero]
  rw [Nat.ofDigitChars_eq_foldl] at hvalue
  have hdigits : (!(List.replicate zeros '0' ++ Nat.toDigits 10 n).isEmpty &&
      (List.replicate zeros '0' ++ Nat.toDigits 10 n).all Char.isDigit) = true := by
    simp only [Bool.and_eq_true, List.all_eq_true]
    exact ⟨by simp [Nat.toDigits_ne_nil], fun c hc => isDigit_of_mem hc⟩
  rw [digits?, if_pos hdigits]
  exact congrArg some hvalue

theorem integer?_of_isDecimal {cs : List Char} {i : Int} (h : IsDecimal cs i) : integer? cs = some i := by
  cases h with
  | plain zeros n =>
    have hsign : ∀ sign rest, List.replicate zeros '0' ++ Nat.toDigits 10 n = sign :: rest → sign.isDigit = true :=
      fun sign rest h => isDigit_of_mem (h ▸ List.mem_cons_self)
    unfold integer?
    split
    · rename_i rest hcs
      cases hsign _ _ hcs
    · rename_i rest hcs
      cases hsign _ _ hcs
    · rw [digits?_decimal]
      rfl
  | plus zeros n => simp [integer?, digits?_decimal]
  | minus zeros n => simp [integer?, digits?_decimal]

theorem toNat_field {cs : List Char} {i : Int} (h : IsDecimal cs i) (hlo : -2 ^ 31 ≤ i) (hhi : i < 2 ^ 31) :
    ((field cs).toNat : Int) = i % 256 := by
  have hmax : Int32.maxValue.toInt = 2 ^ 31 - 1 := rfl
  have hrange : Int32.minValue.toInt ≤ i ∧ i ≤ Int32.maxValue.toInt := ⟨hlo, by omega⟩
  have hlow : (i % 2 ^ 8).toNat < 2 ^ 8 := by omega
  rw [field, integer?_of_isDecimal h]
  simp only [hrange, and_self, if_true, UInt8.ofInt]
  rw [UInt8.toNat_ofNat_of_lt' hlow]
  omega

theorem IsDecimal.isWord {cs : List Char} {i : Int} (h : IsDecimal cs i) : Text.IsWord cs ∧ '.' ∉ cs := by
  have hchars : ∀ c ∈ cs, c = '+' ∨ c = '-' ∨ c.isDigit = true := by
    intro c hc
    cases h with
    | plain zeros n => exact .inr (.inr (isDigit_of_mem hc))
    | plus zeros n =>
      rcases List.mem_cons.1 hc with rfl | hc
      · exact .inl rfl
      · exact .inr (.inr (isDigit_of_mem hc))
    | minus zeros n =>
      rcases List.mem_cons.1 hc with rfl | hc
      · exact .inr (.inl rfl)
      · exact .inr (.inr (isDigit_of_mem hc))
  refine ⟨⟨?_, fun c hc => ?_⟩, fun hdot => ?_⟩
  · cases h <;> simp [Nat.toDigits_ne_nil]
  · rcases hchars c hc with rfl | rfl | hdigit
    · rfl
    · rfl
    · exact Text.isBlank_of_isDigit hdigit
  · simpa using hchars _ hdot

/-! ## Fields -/

theorem rdropWhile_append_cons {α : Type} {p : α → Bool} {a : α} (ha : p a = false) (front rest : List α) :
    (front ++ a :: rest).rdropWhile p = front ++ a :: rest.rdropWhile p := by
  induction rest using List.reverseRecOn with
  | nil => rw [List.rdropWhile_concat_neg _ _ _ (by simp [ha])]; rfl
  | append_singleton rest b ih =>
    rw [← List.cons_append, ← List.append_assoc, List.rdropWhile_concat, List.rdropWhile_concat, ih]
    split <;> simp

theorem rdropWhile_map {α β : Type} (p : β → Bool) (f : α → β) (l : List α) :
    (l.map f).rdropWhile p = (l.rdropWhile (p ∘ f)).map f := by
  simp [List.rdropWhile, ← List.map_reverse, List.dropWhile_map]

theorem parse_of_fields {s : String} {major minor micro : List Char} {rest : List (List Char)}
    (h : Text.splitAt '.' (Text.lastWord s.toList) = major :: minor :: micro :: rest) (hmicro : micro ≠ []) :
    parse s = ⟨field major, field minor, field micro⟩ := by
  have hfields : (major :: minor :: micro :: rest).rdropWhile List.isEmpty =
      major :: minor :: micro :: rest.rdropWhile List.isEmpty :=
    rdropWhile_append_cons (by simpa using hmicro) [major, minor] rest
  unfold List.rdropWhile at hfields
  unfold parse
  simp only [h, hfields]

theorem parse_of_few_fields {s : String}
    (h : ((Text.splitAt '.' (Text.lastWord s.toList)).rdropWhile List.isEmpty).length < 3) : parse s = unknown := by
  unfold List.rdropWhile at h
  unfold parse
  dsimp only
  split
  · rename_i major minor micro rest hfields
    rw [hfields] at h
    simp only [List.length_cons] at h
    omega
  · rfl

/-- What follows the third field: nothing, or a dot and any text without blanks. -/
def IsTail (cs : List Char) : Prop := cs = [] ∨ ∃ rest, cs = '.' :: rest ∧ ∀ c ∈ rest, Text.isBlank c = false

theorem IsTail.not_isBlank {cs : List Char} (h : IsTail cs) : ∀ c ∈ cs, Text.isBlank c = false := by
  rcases h with rfl | ⟨rest, rfl, hrest⟩
  · simp
  · exact List.forall_mem_cons.2 ⟨rfl, hrest⟩

theorem splitAt_three {major minor micro tail : List Char} (hmajor : '.' ∉ major) (hminor : '.' ∉ minor)
    (hmicro : '.' ∉ micro) (htail : IsTail tail) :
    ∃ rest, Text.splitAt '.' (major ++ '.' :: (minor ++ '.' :: (micro ++ tail))) = major :: minor :: micro :: rest := by
  simp only [Text.splitAt_eq_splitOn, List.splitOn_append_cons_self_of_not_mem hmajor,
    List.splitOn_append_cons_self_of_not_mem hminor]
  rcases htail with rfl | ⟨rest, rfl, -⟩
  · exact ⟨[], by rw [List.append_nil, List.splitOn_eq_singleton hmicro]⟩
  · exact ⟨_, by rw [List.splitOn_append_cons_self_of_not_mem hmicro]⟩

theorem parse_decimals {before major minor micro tail blanks : String} {a b c : Int}
    (hbefore : Text.EndsBlank before.toList) (htail : IsTail tail.toList)
    (hblanks : ∀ c ∈ blanks.toList, Text.isBlank c = true) (hmajor : IsDecimal major.toList a)
    (hminor : IsDecimal minor.toList b) (hmicro : IsDecimal micro.toList c) :
    parse (before ++ major ++ "." ++ minor ++ "." ++ micro ++ tail ++ blanks) =
      ⟨field major.toList, field minor.toList, field micro.toList⟩ := by
  obtain ⟨⟨hne, hma⟩, hdota⟩ := hmajor.isWord
  obtain ⟨⟨-, hmi⟩, hdoti⟩ := hminor.isWord
  obtain ⟨⟨hmicrone, hmc⟩, hdotc⟩ := hmicro.isWord
  have hword : Text.IsWord (major.toList ++ '.' :: (minor.toList ++ '.' :: (micro.toList ++ tail.toList))) := by
    refine ⟨by simp, ?_⟩
    simp only [List.forall_mem_append, List.forall_mem_cons]
    exact ⟨hma, rfl, hmi, rfl, hmc, htail.not_isBlank⟩
  obtain ⟨rest, hrest⟩ := splitAt_three hdota hdoti hdotc htail
  rw [← Text.lastWord_append hbefore hword hblanks] at hrest
  refine parse_of_fields (Eq.trans ?_ hrest) hmicrone
  simp

theorem isDecimal_toString_nat (n : Nat) : IsDecimal (toString n).toList n := isDecimal_toString n

theorem field_toString (b : UInt8) : field (toString b.toNat).toList = b := by
  have hlt := b.toNat_lt
  have h := toNat_field (isDecimal_toString_nat b.toNat) (by omega) (by omega)
  rw [Int.emod_eq_of_lt (by omega) (by omega)] at h
  exact UInt8.toNat_inj.1 (Int.ofNat.inj h)

theorem parse_display {before tail blanks : String} (hbefore : Text.EndsBlank before.toList)
    (htail : IsTail tail.toList) (hblanks : ∀ c ∈ blanks.toList, Text.isBlank c = true) (v : Version) :
    parse (before ++ v.display ++ tail ++ blanks) = v := by
  have h := parse_decimals hbefore htail hblanks (isDecimal_toString_nat v.major.toNat)
    (isDecimal_toString_nat v.minor.toNat) (isDecimal_toString_nat v.micro.toNat)
  have hdisplay : v.display =
      toString v.major.toNat ++ "." ++ toString v.minor.toNat ++ "." ++ toString v.micro.toNat := rfl
  rw [hdisplay]
  simpa only [String.append_assoc, field_toString] using h

/-- Empty fields at the end of the last word do not count. -/
theorem parse_intercalate {before blanks : String} (hbefore : Text.EndsBlank before.toList)
    (hblanks : ∀ c ∈ blanks.toList, Text.isBlank c = true) {fields : List String} (hne : fields ≠ [])
    (hdots : ∀ f ∈ fields, '.' ∉ f.toList) (hword : Text.IsWord (".".intercalate fields).toList)
    (hfew : (fields.rdropWhile (· = "")).length < 3) :
    parse (before ++ ".".intercalate fields ++ blanks) = unknown := by
  apply parse_of_few_fields
  have hlast : Text.lastWord (before ++ ".".intercalate fields ++ blanks).toList =
      ['.'].intercalate (fields.map String.toList) := by
    rw [String.toList_append, String.toList_append, Text.lastWord_append hbefore hword hblanks]
    simp
  have hempty : List.isEmpty ∘ String.toList = fun s => decide (s = "") := by
    funext s
    rw [Bool.eq_iff_iff]
    simp
  rw [hlast, Text.splitAt_intercalate (by simpa using hne) (by simpa using hdots), rdropWhile_map, hempty,
    List.length_map]
  exact hfew

/-- A version stands at the end of a text, behind any words and before any blanks. Its three fields may be any
32-bit integers, of which the low bytes count, and further fields may follow them. So a version is read back from
its own text. A last word whose fields, without the empty ones at its end, are fewer than three is no version,
and neither is a text without words. -/
theorem parse_exact {before tail blanks : String} (hbefore : Text.EndsBlank before.toList)
    (htail : IsTail tail.toList) (hblanks : ∀ c ∈ blanks.toList, Text.isBlank c = true) :
    (∀ (a b c : Int) (major minor micro : String), (∀ i ∈ [a, b, c], -2 ^ 31 ≤ i ∧ i < 2 ^ 31) →
      IsDecimal major.toList a → IsDecimal minor.toList b → IsDecimal micro.toList c →
      let v := parse (before ++ major ++ "." ++ minor ++ "." ++ micro ++ tail ++ blanks)
      (v.major.toNat : Int) = a % 256 ∧ (v.minor.toNat : Int) = b % 256 ∧ (v.micro.toNat : Int) = c % 256) ∧
    (∀ v : Version, parse (before ++ v.display ++ tail ++ blanks) = v) ∧
    (∀ fields : List String, fields ≠ [] → (∀ f ∈ fields, '.' ∉ f.toList) →
      Text.IsWord (".".intercalate fields).toList → (fields.rdropWhile (· = "")).length < 3 →
      parse (before ++ ".".intercalate fields ++ blanks) = unknown) ∧
    parse blanks = unknown := by
  refine ⟨?_, parse_display hbefore htail hblanks, ?_, ?_⟩
  · intro a b c major minor micro hrange hmajor hminor hmicro
    have ha := hrange a (by simp)
    have hb := hrange b (by simp)
    have hc := hrange c (by simp)
    rw [parse_decimals hbefore htail hblanks hmajor hminor hmicro]
    exact ⟨toNat_field hmajor ha.1 ha.2, toNat_field hminor hb.1 hb.2, toNat_field hmicro hc.1 hc.2⟩
  · intro fields hne hdots hword hfew
    exact parse_intercalate hbefore hblanks hne hdots hword hfew
  · apply parse_of_few_fields
    rw [Text.lastWord_of_blank hblanks]
    decide

/-- Behind a word with a version of its own and a blank beyond ASCII: the least 32-bit integer, a number with a
sign and zeros that is too large for a byte, and a pre-release behind the third field. -/
theorem parse_exact_of_low_bytes :
    let before := "Key 9.9.9\u00a0"
    let tail := ".rc-1.."
    let blanks := "\u2003\n"
    let v := parse (before ++ "-2147483648" ++ "." ++ "+00300" ++ "." ++ "7" ++ tail ++ blanks)
    Text.EndsBlank before.toList ∧ IsTail tail.toList ∧ (∀ c ∈ blanks.toList, Text.isBlank c = true) ∧
      (∀ i ∈ [-2147483648, 300, (7 : Int)], -2 ^ 31 ≤ i ∧ i < 2 ^ 31) ∧
      ((v.major.toNat : Int) = 0 ∧ (v.minor.toNat : Int) = 44 ∧ (v.micro.toNat : Int) = 7) ∧
      parse (before ++ display ⟨0, 44, 7⟩ ++ tail ++ blanks) = ⟨0, 44, 7⟩ ∧
      parse (before ++ ".".intercalate ["5", "2", "", ""] ++ blanks) = unknown := by
  intro before tail blanks v
  have hbefore : Text.EndsBlank before.toList := by simp [before, Text.EndsBlank, Text.isBlank]
  have htail : IsTail tail.toList := .inr ⟨"rc-1..".toList, by simp [tail], by simp [Text.isBlank]⟩
  have hblanks : ∀ c ∈ "\u2003\n".toList, Text.isBlank c = true := by simp [Text.isBlank]
  have hrange : ∀ i ∈ [-2147483648, 300, (7 : Int)], -2 ^ 31 ≤ i ∧ i < 2 ^ 31 := by simp
  have hmajor : IsDecimal "-2147483648".toList (-2147483648) := .minus 0 2147483648
  have hminor : IsDecimal "+00300".toList 300 := .plus 2 300
  have hmicro : IsDecimal "7".toList 7 := .plain 0 7
  have hword : Text.IsWord (".".intercalate ["5", "2", "", ""]).toList := by simp [Text.IsWord, Text.isBlank]
  obtain ⟨hnumbers, hdisplayed, hfew, -⟩ := parse_exact hbefore htail hblanks
  refine ⟨hbefore, htail, hblanks, hrange, ?_, hdisplayed _, ?_⟩
  · exact hnumbers _ _ _ _ _ _ hrange hmajor hminor hmicro
  · exact hfew ["5", "2", "", ""] (by simp) (by simp) hword (by decide)

end Version

end CtapEnroll
