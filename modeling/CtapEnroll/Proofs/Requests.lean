import Mathlib.Data.Fintype.Card
import CtapEnroll.Client.Fields
import CtapEnroll.Proofs.Answers
import CtapEnroll.Proofs.SortedMaps
/-!
# Requests as their receiver decodes them

A receiver decodes the bytes of a request to a map in which it finds every field of the request
under its number and nothing else: `decode_encode` and `get?_toMap`. Decoding needs values that are
readable; the parameters of the client are scalars, which are.
-/

namespace CtapEnroll

open Cbor (Value)

/-! ## Scalars -/

namespace Cbor.Value

def IsScalar : Value → Prop
  | bytes _ => True
  | text _ => True
  | unsigned _ => True
  | _ => False

theorem readable_of_isScalar {v : Value} (h : v.IsScalar) (hsized : v.Sized) (budget : Nat) :
    Readable budget v := by
  cases v with
  | bytes b => exact .bytes hsized.self
  | text s => exact .text hsized.self
  | unsigned n => exact .unsigned n
  | _ => exact h.elim

theorem sized_unsigned (n : UInt64) : Sized (unsigned n) :=
  throughout_of_isLeaf trivial (Nat.two_pow_pos 64)

end Cbor.Value

/-! ## Parameters -/

namespace Params

/-- The map as its receiver sees it. -/
def toAnswer (m : Params) : Answer := .ofList (m.entries.map fun e => ((e.1.toNat : Int), e.2))

theorem entries_toAnswer (m : Params) :
    m.toAnswer.entries = m.entries.map fun e => ((e.1.toNat : Int), e.2) := by
  refine SortedMap.entries_ofList ?_
  rw [List.pairwise_map]
  refine m.sorted.imp ?_
  intro a b h
  exact Int.ofNat_lt.2 (UInt8.lt_iff_toNat_lt.1 h)

theorem get?_toAnswer (m : Params) (key : UInt8) : m.toAnswer.get? key.toNat = m.get? key := by
  unfold SortedMap.get?
  rw [entries_toAnswer, List.find?_map, Option.map_map]
  have hkey : (fun e : Int × Value => decide (e.1 = key.toNat)) ∘
      (fun e : UInt8 × Value => ((e.1.toNat : Int), e.2)) = fun e => decide (e.1 = key) := by
    funext e
    simp [UInt8.toNat_inj]
  rw [hkey]
  rfl

theorem exists_of_get?_toAnswer {m : Params} {k : Int} {v : Value} (h : m.toAnswer.get? k = some v) :
    ∃ key : UInt8, k = key.toNat ∧ m.get? key = some v := by
  have hmem := SortedMap.get?_eq_some_iff.1 h
  rw [entries_toAnswer] at hmem
  obtain ⟨e, -, he⟩ := List.mem_map.1 hmem
  obtain rfl : (e.1.toNat : Int) = k := congrArg Prod.fst he
  exact ⟨e.1, rfl, by rwa [get?_toAnswer] at h⟩

theorem isPlain_toNat (key : UInt8) : Value.IsPlain key.toNat := by
  have := key.toNat_lt
  unfold Value.IsPlain UInt64.size
  omega

/-- The receiver's map is written as the parameters are. -/
theorem toValue_toAnswer (m : Params) : m.toAnswer.toValue = m.toValue := by
  have hkey : ∀ key : UInt8, Answer.keyValue key.toNat = .unsigned (.ofNat key.toNat) := by
    intro key
    have hlt : key.toNat < UInt64.size := Nat.lt_trans key.toNat_lt (by decide)
    rw [Answer.keyValue_of_isPlain (isPlain_toNat key)]
    exact if_pos hlt
  unfold Answer.toValue toValue
  rw [entries_toAnswer, List.map_map]
  refine congrArg Value.map (List.map_congr_left fun e _ => ?_)
  exact congrArg (·, e.2) (hkey e.1)

theorem isPlain_of_mem_toAnswer {m : Params} {e : Int × Value} (he : e ∈ m.toAnswer.entries) :
    Value.IsPlain e.1 := by
  rw [entries_toAnswer] at he
  obtain ⟨d, -, rfl⟩ := List.mem_map.1 he
  exact isPlain_toNat d.1

theorem ofValue_toValue (m : Params) : Answer.ofValue m.toValue = .ok m.toAnswer := by
  rw [← toValue_toAnswer]
  exact Answer.ofValue_toValue fun _ => isPlain_of_mem_toAnswer

theorem decode_encode {m : Params} (h : m.toValue.Readable Cbor.maxOpen) (rest : Bytes) :
    Answer.decode (m.encode ++ rest) = .ok m.toAnswer := by
  have hencode : m.toAnswer.encode = m.encode := congrArg Value.encode m.toValue_toAnswer
  rw [← toValue_toAnswer] at h
  rw [← hencode]
  exact Answer.decode_of_readable (fun _ => isPlain_of_mem_toAnswer) h rest

def encodeEntry (e : UInt8 × Value) : Bytes := Cbor.Head.write 0 e.1.toNat ++ e.2.encode

theorem encode_eq (m : Params) :
    m.encode = Cbor.Head.write 5 m.entries.length ++ m.entries.flatMap encodeEntry := by
  have hentry : ∀ e : UInt8 × Value, (Value.unsigned (.ofNat e.1.toNat)).encode ++ e.2.encode = encodeEntry e := by
    intro e
    have hlt : e.1.toNat < UInt64.size := Nat.lt_trans e.1.toNat_lt (by decide)
    rw [Value.encode, UInt64.toNat_ofNat_of_lt' hlt, encodeEntry]
  rw [encode, toValue, Value.encode, List.length_map, List.flatMap_map]
  simp only [hentry]

/-! ### Sizes -/

/-- There are no more parameters than keys for them. -/
theorem size_le (m : Params) : m.size ≤ 256 := by
  have hkeys : (m.entries.map fun e => e.1.toFin).Nodup := by
    refine List.Pairwise.map _ ?_ m.sorted
    intro e d h heq
    exact UInt8.ne_of_lt h (UInt8.toFin_inj.1 heq)
  have hle := hkeys.length_le_card
  rwa [List.length_map, Fintype.card_fin] at hle

/-- Every length in the values of parameters fits a head. -/
def Sized (m : Params) : Prop := ∀ e ∈ m.entries, e.2.Sized

theorem sized_toValue {m : Params} : m.toValue.Sized ↔ m.Sized := by
  unfold toValue Sized Value.Sized
  rw [Value.throughout_map]
  constructor
  · intro h e he
    exact (h.2 _ (List.mem_map_of_mem he)).2
  · intro h
    refine ⟨?_, ?_⟩
    · have := m.size_le
      rw [Value.length, List.length_map]
      exact Nat.lt_of_le_of_lt this (by decide)
    · intro pair hp
      obtain ⟨e, he, rfl⟩ := List.mem_map.1 hp
      exact ⟨Value.sized_unsigned _, h e he⟩

/-- A map is readable if its values are, with one opening less. -/
theorem readable_toValue {m : Params} {budget : Nat} (h : ∀ e ∈ m.entries, e.2.Readable budget) :
    m.toValue.Readable (budget + 1) := by
  refine .map ?_ ?_ ?_
  · rw [List.length_map]
    exact Nat.lt_of_le_of_lt m.size_le (by decide)
  · intro pair hp
    obtain ⟨e, -, rfl⟩ := List.mem_map.1 hp
    exact .unsigned _
  · intro pair hp
    obtain ⟨e, he, rfl⟩ := List.mem_map.1 hp
    exact h e he

/-! ### Parameters of scalars -/

def IsFlat (m : Params) : Prop := ∀ e ∈ m.entries, e.2.IsScalar

theorem isFlat_empty : IsFlat .empty := by
  intro e he
  cases he

theorem isFlat_insert {m : Params} (h : m.IsFlat) (key : UInt8) {v : Value} (hv : v.IsScalar) :
    IsFlat (m.insert key v) := by
  intro e he
  rcases SortedMap.mem_insertEntry he with rfl | he
  · exact hv
  · exact h e he

theorem isFlat_ofTemplate (id : TemplateId) : IsFlat (ofTemplate id) :=
  isFlat_insert isFlat_empty _ trivial

theorem isFlat_withName {m : Params} (h : m.IsFlat) (name : String) : IsFlat (m.withName name) :=
  isFlat_insert h _ trivial

theorem isFlat_withTimeout {m : Params} (h : m.IsFlat) (timeout : Option UInt32) :
    IsFlat (m.withTimeout timeout) := by
  cases timeout with
  | none => exact h
  | some n => exact isFlat_insert h _ trivial

theorem readable_of_isFlat {m : Params} (h : m.IsFlat) (hsized : m.Sized) (budget : Nat) :
    m.toValue.Readable (budget + 1) :=
  readable_toValue fun e he => Value.readable_of_isScalar (h e he) (hsized e he) budget

end Params

/-! ## Requests -/

namespace Request

/-- The value of a field of a request, by its number. -/
def field? (r : Request) : (key : UInt8) → Option Value
  | 1 => r.modality.map fun n => .unsigned n.toUInt64
  | 2 => r.subCommand.map fun n => .unsigned n.toUInt64
  | 3 => r.params.map Params.toValue
  | 4 => r.authProtocol.map fun n => .unsigned n.toUInt64
  | 5 => r.authParam.map .bytes
  | 6 => if r.getModality then some (.bool true) else none
  | _ => none

theorem get?_toMap (r : Request) (key : UInt8) : r.toMap.get? key = r.field? key := by
  unfold toMap
  simp only [SortedMap.get?_insert?, SortedMap.get?_empty, Option.or_none]
  fun_cases field? r key with
  | case8 _ h1 h2 h3 h4 h5 h6 =>
    rw [if_neg (Ne.symm h6), if_neg (Ne.symm h5), if_neg (Ne.symm h4), if_neg (Ne.symm h3),
      if_neg (Ne.symm h2), if_neg (Ne.symm h1)]
  | _ => simp_all

theorem get?_toAnswer (r : Request) (key : UInt8) : r.toMap.toAnswer.get? key.toNat = r.field? key := by
  rw [Params.get?_toAnswer, get?_toMap]

/-- A field of a request is a number, the parameters, the tag, or the truth value that asks for the
modality. -/
theorem field?_cases {r : Request} {key : UInt8} {v : Value} (h : r.field? key = some v) :
    (∃ n, v = .unsigned n) ∨ (∃ p, r.params = some p ∧ v = p.toValue) ∨
      (∃ tag, r.authParam = some tag ∧ v = .bytes tag) ∨ v = .bool true := by
  unfold field? at h
  split at h
  case h_3 =>
    obtain ⟨p, hp, rfl⟩ := Option.map_eq_some_iff.1 h
    exact .inr (.inl ⟨p, hp, rfl⟩)
  case h_5 =>
    obtain ⟨tag, htag, rfl⟩ := Option.map_eq_some_iff.1 h
    exact .inr (.inr (.inl ⟨tag, htag, rfl⟩))
  case h_6 =>
    split at h
    · exact .inr (.inr (.inr (Option.some.inj h).symm))
    · cases h
  case h_7 => cases h
  all_goals
    obtain ⟨n, -, rfl⟩ := Option.map_eq_some_iff.1 h
    exact .inl ⟨_, rfl⟩

theorem field?_of_mem_toMap {r : Request} {e : UInt8 × Value} (h : e ∈ r.toMap.entries) :
    r.field? e.1 = some e.2 := by
  rw [← get?_toMap]
  exact SortedMap.get?_eq_some_iff.2 h

theorem readable_toMap {r : Request} (hparams : ∀ p, r.params = some p → p.IsFlat)
    (hsized : r.toMap.Sized) : r.toMap.toValue.Readable Cbor.maxOpen := by
  refine Params.readable_toValue ?_
  rintro ⟨key, v⟩ he
  have hv : v.Sized := hsized _ he
  rcases field?_cases (field?_of_mem_toMap he) with ⟨n, rfl⟩ | ⟨p, hp, rfl⟩ | ⟨tag, -, rfl⟩ | rfl
  · exact .unsigned n
  · exact Params.readable_of_isFlat (hparams p hp) (Params.sized_toValue.1 hv) _
  · exact .bytes hv.self
  · exact .bool true

theorem decode_of_sized {r : Request} (hparams : ∀ p, r.params = some p → p.IsFlat)
    (hsized : r.toMap.Sized) : Answer.decode r.encode = .ok r.toMap.toAnswer := by
  have h := Params.decode_encode (readable_toMap hparams hsized) []
  rwa [List.append_nil] at h

theorem decode_encode {r : Request} (hparams : ∀ p, r.params = some p → p.IsFlat)
    (hlen : r.encode.length < 2 ^ 64) : Answer.decode r.encode = .ok r.toMap.toAnswer :=
  decode_of_sized hparams (Params.sized_toValue.1 (Value.sized_of_length_encode hlen))

end Request

end CtapEnroll
