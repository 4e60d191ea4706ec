import CtapEnroll.Client.Operations
import CtapEnroll.Proofs.Answers
/-!
# Reading answers

What an answer is read as, and what is wrong with one that is not read. For each reading there is an `ok_iff`,
which says exactly when it succeeds and with what, and a `failsWith`, which says how it fails otherwise.
-/

namespace CtapEnroll

variable {ε ε' α β : Type}

/-! ## Results -/

theorem bind_eq_ok_iff {x : Except ε α} {f : α → Except ε β} {b : β} :
    (x >>= f) = .ok b ↔ ∃ a, x = .ok a ∧ f a = .ok b := by
  cases x with
  | error e => exact ⟨nofun, nofun⟩
  | ok a =>
    constructor
    · intro h
      exact ⟨a, rfl, h⟩
    · rintro ⟨_, ⟨⟩, h⟩
      exact h

theorem mapError_eq_ok_iff {x : Except ε α} {f : ε → ε'} {a : α} : x.mapError f = .ok a ↔ x = .ok a := by
  cases x with
  | error e => exact ⟨nofun, nofun⟩
  | ok b => exact ⟨fun h => congrArg Except.ok (Except.ok.inj h), fun h => congrArg Except.ok (Except.ok.inj h)⟩

/-- Where a sequence yields something only if each of its steps does, a list is read only if each thing in it is. -/
theorem forall₂_of_mapM {m : Type → Type} [Monad m] [LawfulMonad m]
    (hinj : ∀ {α : Type} {a b : α}, (pure a : m α) = pure b → a = b)
    (hbind : ∀ {α β : Type} {x : m α} {f : α → m β} {b : β}, x >>= f = pure b → ∃ a, x = pure a ∧ f a = pure b)
    {read : β → m α} {l : List α} {l' : List β} (h : l'.mapM read = pure l) :
    List.Forall₂ (fun a b => read b = pure a) l l' := by
  induction l' generalizing l with
  | nil =>
    cases hinj h
    exact .nil
  | cons b rest ih =>
    rw [List.mapM_cons] at h
    obtain ⟨a, ha, h⟩ := hbind h
    obtain ⟨more, hmore, h⟩ := hbind h
    cases hinj h
    exact .cons ha (ih hmore)

theorem exists_of_mem_forall₂ {R : α → β → Prop} {l : List α} {l' : List β} (h : List.Forall₂ R l l') {b : β}
    (hb : b ∈ l') : ∃ a ∈ l, R a b := by
  induction h with
  | nil => cases hb
  | @cons a d l l' hab _ ih =>
    rcases List.mem_cons.1 hb with rfl | hb
    · exact ⟨a, List.mem_cons_self, hab⟩
    · obtain ⟨a', ha', hb⟩ := ih hb
      exact ⟨a', List.mem_cons_of_mem a ha', hb⟩

theorem exists_forall₂ {R : α → β → Prop} {l' : List β} (h : ∀ b ∈ l', ∃ a, R a b) : ∃ l, List.Forall₂ R l l' := by
  induction l' with
  | nil => exact ⟨[], .nil⟩
  | cons b rest ih =>
    obtain ⟨a, hab⟩ := h b List.mem_cons_self
    obtain ⟨l, hl⟩ := ih fun d hd => h d (List.mem_cons_of_mem b hd)
    exact ⟨a :: l, .cons hab hl⟩

/-- What is found in lists whose members stand for each other. -/
theorem map_find?_of_forall₂ {γ : Type} {p : α → Bool} {q : β → Bool} {f : α → γ} {g : β → γ} {l : List α}
    {l' : List β} (h : List.Forall₂ (fun a b => p a = q b ∧ f a = g b) l l') :
    (l.find? p).map f = (l'.find? q).map g := by
  induction h with
  | nil => rfl
  | @cons a b l l' hab _ ih =>
    obtain ⟨hp, hf⟩ := hab
    rw [List.find?_cons, List.find?_cons, hp]
    cases q b with
    | true => exact congrArg some hf
    | false => exact ih

/-! ### Failures of a kind -/

/-- Every error that can come of this is of a kind. -/
def FailsWith (P : ε → Prop) (x : Except ε α) : Prop := ∀ e, x = .error e → P e

namespace FailsWith

variable {P : ε → Prop} {Q : ε' → Prop}

theorem ok (a : α) : FailsWith P (.ok a : Except ε α) := nofun

theorem error {e : ε} (h : P e) : FailsWith P (.error e : Except ε α) := by
  rintro _ ⟨⟩
  exact h

theorem imp {P' : ε → Prop} {x : Except ε α} (hx : FailsWith P x) (h : ∀ e, P e → P' e) : FailsWith P' x :=
  fun e he => h e (hx e he)

theorem bind {x : Except ε α} {f : α → Except ε β} (hx : FailsWith P x) (hf : ∀ a, FailsWith P (f a)) :
    FailsWith P (x >>= f) := by
  cases x with
  | error e => exact error (hx e rfl)
  | ok a => exact hf a

theorem map {x : Except ε α} (hx : FailsWith P x) (f : α → β) : FailsWith P (x.map f) := by
  cases x with
  | error e => exact error (hx e rfl)
  | ok a => exact ok (f a)

theorem mapError {x : Except ε α} {f : ε → ε'} (hx : FailsWith P x) (hf : ∀ e, P e → Q (f e)) :
    FailsWith Q (x.mapError f) := by
  cases x with
  | error e => exact error (hf e (hx e rfl))
  | ok a => exact ok a

theorem mapM {f : α → Except ε β} (hf : ∀ a, FailsWith P (f a)) (items : List α) :
    FailsWith P (items.mapM f) := by
  induction items with
  | nil => exact ok []
  | cons a items ih =>
    rw [List.mapM_cons]
    exact (hf a).bind fun b => ih.bind fun bs => ok (b :: bs)

end FailsWith

/-! ## Fields -/

/-- What can be wrong with the fields of an answer. -/
inductive WireError.OfFields : WireError → Prop
  | badMap (fault : MapFault) : OfFields (.badMap fault)
  | missingField (key : Int) : OfFields (.missingField key)
  | wrongType (key : Int) (expected : FieldType) : OfFields (.wrongType key expected)

inductive Error.IsViolation : Error → Prop
  | badAnswer (violation : Violation) : IsViolation (.badAnswer violation)

theorem WireError.OfFields.isViolation {fault : WireError} (h : fault.OfFields) :
    (Error.ofWire fault).IsViolation := by
  cases h <;> exact .badAnswer _

namespace Answer

variable {m m' : Answer} {key : Int}

section Field
variable {expected : FieldType} {view : Cbor.Value → Option α}

/-- A field is read from a value of its type, and from no other. -/
theorem field_eq_ok_iff {make : α → Cbor.Value} (hview : ∀ v a, view v = some a ↔ v = make a) {a : α} :
    m.field key expected view = .ok a ↔ m.get? key = some (make a) := by
  have hbind : m.field key expected view = .ok a ↔ ∃ v, m.get? key = some v ∧ view v = some a := by
    unfold field
    cases m.get? key with
    | none => exact ⟨nofun, nofun⟩
    | some v => cases hv : view v <;> simp [hv]
  simp only [hbind, hview, exists_eq_right]

theorem failsWith_field (m : Answer) (key : Int) :
    FailsWith WireError.OfFields (m.field key expected view) := by
  unfold field
  split
  · exact .error (.missingField key)
  · split
    · exact .ok _
    · exact .error (.wrongType key expected)

theorem field_congr (h : m.get? key = m'.get? key) : m.field key expected view = m'.field key expected view := by
  simp only [field, h]

end Field

theorem unsigned_eq_ok_iff {n : UInt64} : m.unsigned key = .ok n ↔ m.get? key = some (.unsigned n) :=
  field_eq_ok_iff fun v n => by cases v <;> simp

theorem bytes_eq_ok_iff {b : Bytes} : m.bytes key = .ok b ↔ m.get? key = some (.bytes b) :=
  field_eq_ok_iff fun v b => by cases v <;> simp

theorem text_eq_ok_iff {s : String} : m.text key = .ok s ↔ m.get? key = some (.text s) :=
  field_eq_ok_iff fun v s => by cases v <;> simp

theorem array_eq_ok_iff {items : List Cbor.Value} : m.array key = .ok items ↔ m.get? key = some (.array items) :=
  field_eq_ok_iff fun v items => by cases v <;> simp

section Optional
variable {get : Answer → Int → Except WireError α}

/-- The optional form of an accessor takes absence as an answer, and nothing else that is no value of its type. -/
theorem optional_eq_ok_iff {make : α → Cbor.Value} (hget : ∀ a, get m key = .ok a ↔ m.get? key = some (make a))
    {a : Option α} : m.optional key get = .ok a ↔ m.get? key = a.map make := by
  unfold optional SortedMap.contains
  cases hv : m.get? key with
  | none => cases a <;> simp
  | some v =>
    simp only [hv] at hget
    cases hread : get m key with
    | error e => cases a <;> simp [Except.map, hread, ← hget]
    | ok b => cases a <;> simp [Except.map, hread, ← hget]

theorem failsWith_optional (m : Answer) (key : Int) (h : FailsWith WireError.OfFields (get m key)) :
    FailsWith WireError.OfFields (m.optional key get) := by
  unfold optional
  split
  · exact h.map some
  · exact .ok none

theorem optional_congr (h : m.get? key = m'.get? key) (hget : get m key = get m' key) :
    m.optional key get = m'.optional key get := by
  unfold optional SortedMap.contains
  rw [h, hget]

end Optional

theorem unsigned?_eq_ok_iff {n : Option UInt64} : m.unsigned? key = .ok n ↔ m.get? key = n.map .unsigned :=
  optional_eq_ok_iff fun _ => unsigned_eq_ok_iff

theorem bytes?_eq_ok_iff {b : Option Bytes} : m.bytes? key = .ok b ↔ m.get? key = b.map .bytes :=
  optional_eq_ok_iff fun _ => bytes_eq_ok_iff

theorem text?_eq_ok_iff {s : Option String} : m.text? key = .ok s ↔ m.get? key = s.map .text :=
  optional_eq_ok_iff fun _ => text_eq_ok_iff

theorem map_of_get? {pairs : List (Cbor.Value × Cbor.Value)} (h : m.get? key = some (.map pairs)) :
    m.map key = ofValue (.map pairs) := by
  simp only [map, field, h]
  rfl

theorem failsWith_ofValue (v : Cbor.Value) : FailsWith WireError.OfFields (ofValue v) := by
  unfold ofValue
  split
  · split
    · exact .ok _
    · exact .error (.badMap _)
  · exact .error (.badMap _)

theorem failsWith_unsigned (m : Answer) (key : Int) :
    FailsWith Error.IsViolation ((m.unsigned key).mapError Error.ofWire) :=
  (m.failsWith_field key).mapError fun _ h => h.isViolation

/-! ### Numbers -/

/-- The integer under a key, if there is one. -/
def int? (m : Answer) (key : Int) : Option Int := (m.get? key).bind Cbor.Value.int?

theorem int?_eq_natCast_iff {n : Nat} :
    m.int? key = some (n : Int) ↔ ∃ u : UInt64, m.get? key = some (.unsigned u) ∧ u.toNat = n := by
  rw [int?, Option.bind_eq_some_iff]
  constructor
  · rintro ⟨v, hget, hv⟩
    cases v with
    | unsigned u => exact ⟨u, hget, Int.ofNat.inj (Option.some.inj hv)⟩
    | _ => cases hv
  · rintro ⟨u, hget, rfl⟩
    exact ⟨_, hget, rfl⟩

theorem get?_eq_unsigned_iff {u : UInt64} : m.get? key = some (.unsigned u) ↔ m.int? key = some (u.toNat : Int) := by
  rw [int?_eq_natCast_iff]
  constructor
  · intro hget
    exact ⟨u, hget, rfl⟩
  · rintro ⟨u', hget, hu⟩
    rw [hget, UInt64.toNat_inj.1 hu]

/-- Under a key there is this number, or nothing at all. -/
def Tells (m : Answer) (key : Int) : Option Nat → Prop
  | none => m.get? key = none
  | some n => m.int? key = some (n : Int)

/-- Under a key there is an integer from 0 up to a bound. -/
def HasNumber (m : Answer) (key : Int) (bound : Nat) : Prop := ∃ n : Nat, n < bound ∧ m.int? key = some (n : Int)

/-- A type with as many values as there are numbers below a bound can hold those numbers and no others. -/
theorem exists_int?_iff {number : α → Nat} {bound : Nat} (hnumber : ∀ n, (∃ a, number a = n) ↔ n < bound) :
    (∃ a, m.int? key = some (number a : Int)) ↔ m.HasNumber key bound := by
  constructor
  · rintro ⟨a, h⟩
    exact ⟨number a, (hnumber _).1 ⟨a, rfl⟩, h⟩
  · rintro ⟨n, hn, h⟩
    obtain ⟨a, rfl⟩ := (hnumber n).2 hn
    exact ⟨a, h⟩

theorem exists_tells_iff {number : α → Nat} {bound : Nat} (hnumber : ∀ n, (∃ a, number a = n) ↔ n < bound) :
    (∃ a : Option α, m.Tells key (a.map number)) ↔ m.get? key = none ∨ m.HasNumber key bound := by
  rw [Option.exists]
  exact or_congr Iff.rfl (exists_int?_iff hnumber)

end Answer

theorem exists_toNat_eq_iff_byte (n : Nat) : (∃ b : UInt8, b.toNat = n) ↔ n < 0x100 := by
  constructor
  · rintro ⟨b, rfl⟩
    exact b.toNat_lt
  · intro h
    exact ⟨.ofNat n, UInt8.toNat_ofNat_of_lt' h⟩

theorem exists_toNat_eq_iff_word (n : Nat) : (∃ w : UInt32, w.toNat = n) ↔ n < 0x100000000 := by
  constructor
  · rintro ⟨w, rfl⟩
    exact w.toNat_lt
  · intro h
    exact ⟨.ofNat n, UInt32.toNat_ofNat_of_lt' h⟩

namespace AnswerKey

theorem byte_eq_ok_iff {key : AnswerKey} {n : UInt64} {b : UInt8} : key.byte n = .ok b ↔ n.toNat = b.toNat := by
  have hb : b.toNat < UInt8.size := b.toNat_lt
  unfold byte
  split
  · rename_i hn
    rw [Except.ok.injEq, ← UInt8.toNat_inj, UInt64.toNat_toUInt8, Nat.mod_eq_of_lt hn]
  · rename_i hn
    exact ⟨nofun, fun h => absurd (h ▸ hb) hn⟩

theorem word_eq_ok_iff {key : AnswerKey} {n : UInt64} {w : UInt32} : key.word n = .ok w ↔ n.toNat = w.toNat := by
  have hw : w.toNat < UInt32.size := w.toNat_lt
  unfold word
  split
  · rename_i hn
    rw [Except.ok.injEq, ← UInt32.toNat_inj, UInt64.toNat_toUInt32, Nat.mod_eq_of_lt hn]
  · rename_i hn
    exact ⟨nofun, fun h => absurd (h ▸ hw) hn⟩

theorem failsWith_byte (key : AnswerKey) (n : UInt64) : FailsWith Error.IsViolation (key.byte n) := by
  unfold byte
  split
  · exact .ok _
  · exact .error (.badAnswer _)

theorem failsWith_word (key : AnswerKey) (n : UInt64) : FailsWith Error.IsViolation (key.word n) := by
  unfold word
  split
  · exact .ok _
  · exact .error (.badAnswer _)

section Optional
variable {key : AnswerKey} {narrow : AnswerKey → UInt64 → Except Error α} {m m' : Answer}

theorem optional_eq_ok_iff {number : α → Nat} (hnarrow : ∀ n a, narrow key n = .ok a ↔ n.toNat = number a)
    {a : Option α} : key.optional narrow m = .ok a ↔ m.Tells key.code (a.map number) := by
  simp only [optional, bind_eq_ok_iff, mapError_eq_ok_iff, Answer.unsigned?_eq_ok_iff]
  have hsome : ∀ n : UInt64, some <$> narrow key n = .ok a ↔ ∃ b, n.toNat = number b ∧ some b = a := by
    intro n
    simp only [← hnarrow]
    cases narrow key n <;> simp [Functor.map, Except.map]
  constructor
  · rintro ⟨_ | n, hget, hread⟩
    · cases hread
      exact hget
    · obtain ⟨b, hn, rfl⟩ := (hsome n).1 hread
      exact Answer.int?_eq_natCast_iff.2 ⟨n, hget, hn⟩
  · intro h
    cases a with
    | none => exact ⟨none, h, rfl⟩
    | some b =>
      obtain ⟨n, hget, hn⟩ := Answer.int?_eq_natCast_iff.1 h
      exact ⟨some n, hget, (hsome n).2 ⟨b, hn, rfl⟩⟩

theorem failsWith_optional (h : ∀ n, FailsWith Error.IsViolation (narrow key n)) (m : Answer) :
    FailsWith Error.IsViolation (key.optional narrow m) := by
  have hfield : FailsWith WireError.OfFields (m.unsigned? key.code) :=
    m.failsWith_optional key.code (m.failsWith_field key.code)
  refine (hfield.mapError fun _ h => h.isViolation).bind ?_
  rintro (_ | n)
  · exact .ok none
  · exact (h n).map some

theorem optional_congr (h : m.get? key.code = m'.get? key.code) : key.optional narrow m = key.optional narrow m' := by
  have hfield : m.unsigned? key.code = m'.unsigned? key.code := Answer.optional_congr h (Answer.field_congr h)
  rw [optional, hfield, optional]

end Optional

end AnswerKey

/-! ## Typed results -/

namespace Modality

/-- What an answer says about the kind of biometrics: its code, and by that its name if the code has one. -/
structure IsTold (modality : Modality) (m : Answer) : Prop where
  code : m.int? 0x01 = some (modality.code.toNat : Int)
  proper : IsProper Modality.code .other modality

theorem ofAnswer_eq_ok_iff {m : Answer} {modality : Modality} : ofAnswer m = .ok modality ↔ modality.IsTold m := by
  have hcode : ∀ n : UInt64, (if n.toNat < UInt8.size then .ok (ofCode n.toUInt8) else
      .error (.badAnswer (.modalityOutOfRange n)) : Except Error Modality) = .ok modality ↔
        ∃ code, AnswerKey.modality.byte n = .ok code ∧ ofCode code = modality := by
    intro n
    unfold AnswerKey.byte
    split <;> simp
  simp only [ofAnswer, bind_eq_ok_iff, mapError_eq_ok_iff, Answer.unsigned_eq_ok_iff, hcode,
    AnswerKey.byte_eq_ok_iff]
  constructor
  · rintro ⟨n, hget, c, hn, rfl⟩
    refine ⟨Answer.int?_eq_natCast_iff.2 ⟨n, hget, ?_⟩, isCoding.isProper_ofNamed⟩
    rw [hn, code_ofCode]
  · rintro ⟨hcode, hproper⟩
    obtain ⟨n, hget, hn⟩ := Answer.int?_eq_natCast_iff.1 hcode
    exact ⟨n, hget, _, hn, isCoding.ofNamed_code hproper⟩

theorem failsWith_ofAnswer (answer : Answer) : FailsWith Error.IsViolation (ofAnswer answer) := by
  refine (answer.failsWith_unsigned _).bind fun code => ?_
  split
  · exact .ok _
  · exact .error (.badAnswer _)

theorem ofAnswer_congr {m m' : Answer} (h : m.get? 0x01 = m'.get? 0x01) : ofAnswer m = ofAnswer m' := by
  have hcode : m.unsigned AnswerKey.modality.code = m'.unsigned AnswerKey.modality.code := Answer.field_congr h
  rw [ofAnswer, hcode, ofAnswer]

end Modality

namespace FingerprintKind

theorem map_code_map_ofCode (c : Option UInt8) : (c.map ofCode).map code = c := by
  cases c with
  | none => rfl
  | some c => exact congrArg some (code_ofCode c)

theorem map_ofCode_map_code {kind : Option FingerprintKind}
    (h : ∀ k, kind = some k → IsProper code other k) : (kind.map code).map ofCode = kind := by
  cases kind with
  | none => rfl
  | some k => exact congrArg some (isCoding.ofNamed_code (h k rfl))

theorem isProper_of_map_ofCode {c : Option UInt8} {kind : FingerprintKind} (h : c.map ofCode = some kind) :
    IsProper code other kind := by
  obtain ⟨c, -, rfl⟩ := Option.map_eq_some_iff.1 h
  exact isCoding.isProper_ofNamed

end FingerprintKind

namespace Sensor

/-- What an answer says about a sensor. -/
structure IsTold (sensor : Sensor) (m : Answer) : Prop where
  kind : m.Tells 0x02 (sensor.kind.map fun kind => kind.code.toNat)
  proper : ∀ kind, sensor.kind = some kind → IsProper FingerprintKind.code .other kind
  maxSamples : m.Tells 0x03 (sensor.maxSamples.map UInt32.toNat)
  maxNameLength : m.Tells 0x08 (sensor.maxNameLength.map UInt32.toNat)

theorem ofAnswer_eq_ok_iff {m : Answer} {sensor : Sensor} : ofAnswer m = .ok sensor ↔ sensor.IsTold m := by
  simp only [ofAnswer, bind_eq_ok_iff, AnswerKey.optional_eq_ok_iff fun _ _ => AnswerKey.byte_eq_ok_iff,
    AnswerKey.optional_eq_ok_iff fun _ _ => AnswerKey.word_eq_ok_iff]
  constructor
  · rintro ⟨c, hkind, maxSamples, hsamples, maxNameLength, hlength, ⟨⟩⟩
    rw [← FingerprintKind.map_code_map_ofCode c, Option.map_map] at hkind
    exact ⟨hkind, fun _ => FingerprintKind.isProper_of_map_ofCode, hsamples, hlength⟩
  · obtain ⟨kind, maxSamples, maxNameLength⟩ := sensor
    rintro ⟨hkind, hproper, hsamples, hlength⟩
    refine ⟨kind.map FingerprintKind.code, ?_, _, hsamples, _, hlength, ?_⟩
    · rwa [Option.map_map]
    · rw [FingerprintKind.map_ofCode_map_code hproper]
      rfl

theorem failsWith_ofAnswer (answer : Answer) : FailsWith Error.IsViolation (ofAnswer answer) :=
  (AnswerKey.failsWith_optional AnswerKey.kind.failsWith_byte answer).bind fun _ =>
    (AnswerKey.failsWith_optional AnswerKey.maxSamples.failsWith_word answer).bind fun _ =>
      (AnswerKey.failsWith_optional AnswerKey.maxNameLength.failsWith_word answer).bind fun _ => .ok _

theorem ofAnswer_congr {m m' : Answer} (hkind : m.get? 0x02 = m'.get? 0x02)
    (hsamples : m.get? 0x03 = m'.get? 0x03) (hlength : m.get? 0x08 = m'.get? 0x08) : ofAnswer m = ofAnswer m' := by
  have htwo : AnswerKey.kind.optional AnswerKey.byte m = AnswerKey.kind.optional AnswerKey.byte m' :=
    AnswerKey.optional_congr hkind
  have hthree : AnswerKey.maxSamples.optional AnswerKey.word m = AnswerKey.maxSamples.optional AnswerKey.word m' :=
    AnswerKey.optional_congr hsamples
  have height : AnswerKey.maxNameLength.optional AnswerKey.word m =
      AnswerKey.maxNameLength.optional AnswerKey.word m' :=
    AnswerKey.optional_congr hlength
  rw [ofAnswer, htwo, hthree, height, ofAnswer]

end Sensor

namespace Sample

/-- What an answer says about a sample. -/
structure IsTold (sample : Sample) (m : Answer) : Prop where
  status : m.int? 0x05 = some (sample.status.code.toNat : Int)
  proper : IsProper SampleStatus.code .unknown sample.status
  remaining : m.int? 0x06 = some (sample.remaining.toNat : Int)

theorem ofAnswer_eq_ok_iff {m : Answer} {sample : Sample} : ofAnswer m = .ok sample ↔ sample.IsTold m := by
  simp only [ofAnswer, bind_eq_ok_iff, mapError_eq_ok_iff, Answer.unsigned_eq_ok_iff, AnswerKey.byte_eq_ok_iff,
    AnswerKey.word_eq_ok_iff]
  constructor
  · rintro ⟨n, hstatus, k, hremaining, b, hb, w, hw, ⟨⟩⟩
    refine ⟨Answer.int?_eq_natCast_iff.2 ⟨n, hstatus, ?_⟩, SampleStatus.isCoding.isProper_ofNamed,
      Answer.int?_eq_natCast_iff.2 ⟨k, hremaining, hw⟩⟩
    rw [hb, SampleStatus.code_ofCode]
  · obtain ⟨status, remaining⟩ := sample
    rintro ⟨hstatus, hproper, hremaining⟩
    obtain ⟨n, hstatus, hb⟩ := Answer.int?_eq_natCast_iff.1 hstatus
    obtain ⟨k, hremaining, hw⟩ := Answer.int?_eq_natCast_iff.1 hremaining
    refine ⟨n, hstatus, k, hremaining, _, hb, _, hw, ?_⟩
    rw [SampleStatus.ofCode, SampleStatus.isCoding.ofNamed_code hproper]
    rfl

theorem failsWith_ofAnswer (answer : Answer) : FailsWith Error.IsViolation (ofAnswer answer) :=
  (answer.failsWith_unsigned _).bind fun _ => (answer.failsWith_unsigned _).bind fun _ =>
    (AnswerKey.failsWith_byte _ _).bind fun _ => (AnswerKey.failsWith_word _ _).bind fun _ => .ok _

theorem ofAnswer_congr {m m' : Answer} (hstatus : m.get? 0x05 = m'.get? 0x05)
    (hremaining : m.get? 0x06 = m'.get? 0x06) : ofAnswer m = ofAnswer m' := by
  have hfive : m.unsigned AnswerKey.sampleStatus.code = m'.unsigned AnswerKey.sampleStatus.code :=
    Answer.field_congr hstatus
  have hsix : m.unsigned AnswerKey.remaining.code = m'.unsigned AnswerKey.remaining.code :=
    Answer.field_congr hremaining
  rw [ofAnswer, hfive, hsix, ofAnswer]

end Sample

namespace Beginning

/-- What an answer says about the beginning of an enrollment. -/
structure IsTold (begun : Beginning) (m : Answer) : Prop where
  template : m.get? 0x04 = some (.bytes begun.template)
  sample : begun.sample.IsTold m

theorem ofAnswer_eq_ok_iff {m : Answer} {begun : Beginning} : ofAnswer m = .ok begun ↔ begun.IsTold m := by
  simp only [ofAnswer, bind_eq_ok_iff, mapError_eq_ok_iff, Answer.bytes_eq_ok_iff, Sample.ofAnswer_eq_ok_iff]
  constructor
  · rintro ⟨id, hid, sample, hsample, ⟨⟩⟩
    exact ⟨hid, hsample⟩
  · rintro ⟨hid, hsample⟩
    exact ⟨_, hid, _, hsample, rfl⟩

theorem failsWith_ofAnswer (answer : Answer) : FailsWith Error.IsViolation (ofAnswer answer) := by
  have htemplate : FailsWith WireError.OfFields (answer.bytes AnswerKey.template.code) := answer.failsWith_field _
  exact (htemplate.mapError fun _ h => h.isViolation).bind fun _ =>
    (Sample.failsWith_ofAnswer answer).bind fun _ => .ok _

theorem ofAnswer_congr {m m' : Answer} (hid : m.get? 0x04 = m'.get? 0x04) (hstatus : m.get? 0x05 = m'.get? 0x05)
    (hremaining : m.get? 0x06 = m'.get? 0x06) : ofAnswer m = ofAnswer m' := by
  have htemplate : m.bytes AnswerKey.template.code = m'.bytes AnswerKey.template.code := Answer.field_congr hid
  rw [ofAnswer, htemplate, Sample.ofAnswer_congr hstatus hremaining, ofAnswer]

end Beginning

namespace Listing

theorem ofAnswer_eq_ok_iff {m : Answer} {listing : Listing} :
    ofAnswer m = .ok listing ↔ ∃ items entries, m.get? 0x07 = some (.array items) ∧
      List.Forall₂ (fun e v => entryOfValue v = .ok e) entries items ∧ SortedMap.ofList entries = listing := by
  simp only [ofAnswer, bind_eq_ok_iff, Answer.array_eq_ok_iff]
  constructor
  · rintro ⟨items, hget, entries, hread, ⟨⟩⟩
    exact ⟨items, entries, hget, forall₂_of_mapM Except.ok.inj bind_eq_ok_iff.1 hread, rfl⟩
  · rintro ⟨items, entries, hget, hentries, rfl⟩
    exact ⟨items, hget, entries, mapM_eq_pure_of_forall₂ hentries, rfl⟩

theorem failsWith_entryOfValue (v : Cbor.Value) : FailsWith WireError.OfFields (entryOfValue v) :=
  (Answer.failsWith_ofValue v).bind fun fields => (fields.failsWith_field _).bind fun _ =>
    (fields.failsWith_optional _ (fields.failsWith_field _)).bind fun _ => .ok _

theorem failsWith_ofAnswer (answer : Answer) : FailsWith WireError.OfFields (ofAnswer answer) :=
  (answer.failsWith_field _).bind fun items =>
    (FailsWith.mapM failsWith_entryOfValue items).bind fun _ => .ok _

end Listing

end CtapEnroll
