import CtapEnroll.Apdu
/-!
# Card messages as their receiver unwraps them

A receiver tells the form of a command by its fifth byte: a body length that is not zero for the short
form, and zero before two length bytes for the extended one. A command without a body ends at that
byte. `decode?_encode` says that the receiver recovers every command from its message, and
`unwrapped_unambiguously` which commands have one and which messages are theirs.
-/

namespace CtapEnroll.Apdu.Command

/-- The body of a known length, with the expected end right after it. -/
def bodyBefore? (trailer : Bytes) (length : Nat) (b : Bytes) : Option Bytes :=
  if b.drop length = trailer then some (b.take length) else none

/-- The body of what follows a zero fifth byte: nothing, or a length on two bytes and the body. -/
def longBody? : Bytes → Option Bytes
  | [] => some []
  | high :: low :: rest => bodyBefore? [0, 0] (Bytes.toNat [high, low]) rest
  | _ => none

def body? : Bytes → Option Bytes
  | [] => none
  | n :: rest => if n = 0 then longBody? rest else bodyBefore? [0] n.toNat rest

def decode? : Bytes → Option Command
  | cla :: ins :: p1 :: p2 :: rest => (body? rest).map fun body => ⟨cla, ins, p1, p2, body⟩
  | _ => none

theorem bodyBefore?_append (trailer body : Bytes) :
    bodyBefore? trailer body.length (body ++ trailer) = some body := by
  unfold bodyBefore?
  rw [List.drop_left, if_pos rfl, List.take_left]

theorem ofNat_ne_zero {n : Nat} (h0 : n ≠ 0) (hle : n ≤ maxShort) : UInt8.ofNat n ≠ 0 := by
  intro h
  have hn : (UInt8.ofNat n).toNat = n := UInt8.toNat_ofNat_of_lt' (Nat.lt_succ_of_le hle)
  rw [h] at hn
  exact h0 hn.symm

theorem body?_short {body : Bytes} (hne : body.length ≠ 0) (hle : body.length ≤ maxShort) :
    body? (UInt8.ofNat body.length :: (body ++ [0])) = some body := by
  have hlt : body.length < 256 := Nat.lt_of_le_of_lt hle (by decide)
  -- The length byte is not the zero that announces the extended form.
  have hn : (UInt8.ofNat body.length).toNat = body.length := UInt8.toNat_ofNat_of_lt' hlt
  have h0 : UInt8.ofNat body.length ≠ 0 := ofNat_ne_zero hne hle
  rw [body?, if_neg h0, hn]
  exact bodyBefore?_append [0] body

theorem body?_extended {body : Bytes} (hle : body.length ≤ maxExtended) :
    body? (0 :: (Bytes.bigEndian 2 body.length ++ (body ++ [0, 0]))) = some body := by
  have hlength : Bytes.toNat (Bytes.bigEndian 2 body.length) = body.length :=
    Bytes.toNat_bigEndian 2 _ (Nat.lt_of_le_of_lt hle (by decide))
  rw [body?, if_pos rfl]
  change bodyBefore? [0, 0] (Bytes.toNat (Bytes.bigEndian 2 body.length)) (body ++ [0, 0]) = some body
  rw [hlength]
  exact bodyBefore?_append [0, 0] body

/-- The message of a command, by the length of its body. -/
inductive Encoded (c : Command) : Except WireError Bytes → Prop
  | bare (h : c.body = []) : Encoded c (.ok (c.header ++ [0]))
  | short (h : c.body.length ≠ 0) (hle : c.body.length ≤ maxShort) :
      Encoded c (.ok (c.header ++ UInt8.ofNat c.body.length :: (c.body ++ [0])))
  | extended (h : maxShort < c.body.length) (hle : c.body.length ≤ maxExtended) :
      Encoded c (.ok (c.header ++ 0 :: (Bytes.bigEndian 2 c.body.length ++ (c.body ++ [0, 0]))))
  | tooLong (h : maxExtended < c.body.length) : Encoded c (.error (.bodyTooLong c.body.length))

theorem encoded (c : Command) : Encoded c c.encode := by
  unfold encode
  by_cases h0 : c.body.length = 0
  · rw [if_pos h0]
    exact .bare (List.length_eq_zero_iff.1 h0)
  by_cases hshort : c.body.length ≤ maxShort
  · rw [if_neg h0, if_pos hshort]
    simpa [Bytes.bigEndian] using Encoded.short h0 hshort
  by_cases hextended : c.body.length ≤ maxExtended
  · rw [if_neg h0, if_neg hshort, if_pos hextended]
    simpa using Encoded.extended (Nat.lt_of_not_le hshort) hextended
  · rw [if_neg h0, if_neg hshort, if_neg hextended]
    exact .tooLong (Nat.lt_of_not_le hextended)

theorem decode?_encode {c : Command} {b : Bytes} (h : c.encode = .ok b) : decode? b = some c := by
  have henc := encoded c
  rw [h] at henc
  cases henc with
  | bare hbody =>
    obtain ⟨cla, ins, p1, p2, body⟩ := c
    obtain rfl : body = [] := hbody
    rfl
  | short hne hle =>
    simp only [header, List.cons_append, List.nil_append, decode?, body?_short hne hle, Option.map_some]
  | extended _ hle =>
    simp only [header, List.cons_append, List.nil_append, decode?, body?_extended hle, Option.map_some]

theorem exists_encode {c : Command} (h : c.body.length ≤ maxExtended) : ∃ b, c.encode = .ok b := by
  have henc := encoded c
  cases hb : c.encode with
  | ok b => exact ⟨b, rfl⟩
  | error e =>
    rw [hb] at henc
    cases henc with
    | tooLong hlong => exact absurd h (Nat.not_le_of_lt hlong)

/-! ## What the receiver accepts -/

/-- The length of the body, where the fifth byte leaves it to the two bytes after it. -/
def extendedLength? : Bytes → Option Nat
  | _ :: _ :: _ :: _ :: n :: high :: low :: _ => if n = 0 then some (Bytes.toNat [high, low]) else none
  | _ => none

theorem bodyBefore?_eq_some_iff {trailer b body : Bytes} {length : Nat} (htrailer : trailer ≠ []) :
    bodyBefore? trailer length b = some body ↔ b = body ++ trailer ∧ body.length = length := by
  unfold bodyBefore?
  constructor
  · intro h
    split at h
    · rename_i hdrop
      cases h
      have hlt : length < b.length := by
        refine Nat.lt_of_not_le fun hle => htrailer ?_
        rw [← hdrop, List.drop_eq_nil_of_le hle]
      refine ⟨?_, by rw [List.length_take]; omega⟩
      rw [← hdrop, List.take_append_drop]
    · cases h
  · rintro ⟨rfl, rfl⟩
    simp

/-- A message that the receiver takes for one of a command, by its form. -/
inductive Unwraps (c : Command) : Bytes → Prop
  | bare (h : c.body = []) : Unwraps c (c.header ++ [0])
  | short {n : UInt8} (hn : n ≠ 0) (hlength : c.body.length = n.toNat) :
      Unwraps c (c.header ++ n :: (c.body ++ [0]))
  | extended {high low : UInt8} (hlength : c.body.length = Bytes.toNat [high, low]) :
      Unwraps c (c.header ++ 0 :: high :: low :: (c.body ++ [0, 0]))

theorem unwraps_of_decode? {c : Command} {b : Bytes} (h : decode? b = some c) : Unwraps c b := by
  unfold decode? at h
  split at h
  · rename_i cla ins p1 p2 rest
    obtain ⟨body, hbody, rfl⟩ := Option.map_eq_some_iff.1 h
    unfold body? at hbody
    split at hbody
    · cases hbody
    · rename_i n rest
      split at hbody
      · subst n
        unfold longBody? at hbody
        split at hbody
        · cases hbody
          exact .bare rfl
        · obtain ⟨rfl, hlength⟩ := (bodyBefore?_eq_some_iff (by simp)).1 hbody
          exact .extended hlength
        · cases hbody
      · rename_i hn
        obtain ⟨rfl, hlength⟩ := (bodyBefore?_eq_some_iff (by simp)).1 hbody
        exact .short hn hlength
  · cases h

theorem bigEndian_toNat_pair (high low : UInt8) : Bytes.bigEndian 2 (Bytes.toNat [high, low]) = [high, low] := by
  have hlow := low.toNat_lt
  have hquotient : (256 * high.toNat + low.toNat) / 256 = high.toNat := by omega
  simp [Bytes.bigEndian, Bytes.toNat, hquotient]

/-- Of the messages that are unwrapped to a command, only an extended form for a short body is not its own. -/
theorem Unwraps.encode_eq {c : Command} {b : Bytes} (h : Unwraps c b)
    (hlong : ∀ n, extendedLength? b = some n → maxShort < n) : c.encode = .ok b := by
  cases h with
  | bare hbody => simp [encode, hbody]
  | @short n hn hlength =>
    have hlt := n.toNat_lt
    have h0 : n.toNat ≠ 0 := fun h => hn (UInt8.toNat_inj.1 h)
    have hle : n.toNat ≤ maxShort := Nat.le_of_lt_succ hlt
    simp [encode, hlength, h0, hle, Bytes.bigEndian]
  | @extended high low hlength =>
    have hhigh := high.toNat_lt
    have hlow := low.toNat_lt
    have hshort : maxShort < c.body.length := by
      rw [hlength]
      exact hlong _ rfl
    have hle : c.body.length ≤ maxExtended := by
      simp only [hlength, Bytes.toNat, List.foldl_cons, List.foldl_nil, maxExtended]
      omega
    have h0 : c.body.length ≠ 0 := by omega
    rw [encode, if_neg h0, if_neg (Nat.not_le_of_lt hshort), if_pos hle, hlength, bigEndian_toNat_pair]
    simp

theorem extendedLength?_eq_some {c : Command} {n : UInt8} {rest : Bytes} {length : Nat}
    (h : extendedLength? (c.header ++ n :: rest) = some length) :
    n = 0 ∧ ∃ high low back, rest = high :: low :: back ∧ length = Bytes.toNat [high, low] := by
  match rest with
  | [] => cases h
  | [_] => cases h
  | high :: low :: back =>
    change (if n = 0 then some _ else none) = _ at h
    split at h
    · rename_i hn
      cases h
      exact ⟨hn, high, low, back, rfl, rfl⟩
    · cases h

/-- The extended form announces the length of the body it has, which is none that the short form can say. -/
theorem extendedLength?_encode {c : Command} {b : Bytes} {n : Nat} (h : c.encode = .ok b)
    (hn : extendedLength? b = some n) : n = c.body.length ∧ maxShort < n := by
  have henc := encoded c
  rw [h] at henc
  cases henc with
  | bare hbody => cases hn
  | short hne hle => exact absurd (extendedLength?_eq_some hn).1 (ofNat_ne_zero hne hle)
  | extended hlt hle =>
    have hlength : Bytes.toNat (Bytes.bigEndian 2 c.body.length) = c.body.length :=
      Bytes.toNat_bigEndian 2 _ (Nat.lt_of_le_of_lt hle (by decide))
    obtain ⟨-, high, low, back, hrest, rfl⟩ := extendedLength?_eq_some hn
    cases hrest
    rw [show Bytes.toNat [_, _] = c.body.length from hlength]
    exact ⟨rfl, hlt⟩

theorem encode_eq_error_iff {c : Command} {e : WireError} :
    c.encode = .error e ↔ e = .bodyTooLong c.body.length ∧ maxExtended < c.body.length := by
  have henc := encoded c
  constructor
  · intro h
    rw [h] at henc
    cases henc with
    | tooLong hlong => exact ⟨rfl, hlong⟩
  · rintro ⟨rfl, hlong⟩
    cases h : c.encode with
    | ok b =>
      rw [h] at henc
      cases henc with
      | bare hbody => simp [hbody] at hlong
      | short hne hle => unfold maxShort at hle; unfold maxExtended at hlong; omega
      | extended hlt hle => exact absurd hlong (Nat.not_lt_of_le hle)
    | error e =>
      rw [h] at henc
      cases henc
      rfl

/-- A command is written unless its body has more than 65535 bytes. The receiver accepts what is written and
finds in it the command, and a length of at least 256 wherever the extended form is used; and it does so with no
other bytes. So a message belongs to one command only. -/
theorem unwrapped_unambiguously (c : Command) :
    (∀ e, c.encode = .error e ↔ e = .bodyTooLong c.body.length ∧ 65535 < c.body.length) ∧
      (c.body.length ≤ 65535 → ∃ b, c.encode = .ok b) ∧
      (∀ b, c.encode = .ok b ↔
        decode? b = some c ∧ ∀ n, extendedLength? b = some n → n = c.body.length ∧ 256 ≤ n) ∧
      ∀ b other, c.encode = .ok b → other.encode = .ok b → other = c := by
  refine ⟨fun e => encode_eq_error_iff, exists_encode, fun b => ⟨fun h => ?_, ?_⟩, ?_⟩
  · exact ⟨decode?_encode h, fun n hn => extendedLength?_encode h hn⟩
  · rintro ⟨hdecode, hlong⟩
    exact (unwraps_of_decode? hdecode).encode_eq fun n hn => (hlong n hn).2
  · intro b other h hother
    have hsame := (decode?_encode hother).symm.trans (decode?_encode h)
    exact Option.some.inj hsame

end CtapEnroll.Apdu.Command
