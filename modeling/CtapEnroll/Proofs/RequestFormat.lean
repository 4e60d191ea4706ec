import CtapEnroll.Proofs.Readings
import CtapEnroll.Proofs.Requests
/-!
# The format of requests

A receiver that decodes a request finds what was put into it: every field under its number, the
parameters under theirs, and nothing else. `decoded_request_shows` says so for every combination of
fields, and that no two requests are written alike.
-/

namespace CtapEnroll

open Cbor (Value)

namespace Params

/-- Parameters as a client puts them together, one after the other. -/
inductive Built : Params → Prop
  | empty : Built .empty
  | putBytes {m : Params} (h : Built m) (key : UInt8) (b : Bytes) : Built (m.putBytes key b)
  | putUnsigned {m : Params} (h : Built m) (key : UInt8) (n : UInt64) : Built (m.putUnsigned key n)
  | putUnsigned? {m : Params} (h : Built m) (key : UInt8) (n : Option UInt64) :
    Built (m.putUnsigned? key n)
  | putText {m : Params} (h : Built m) (key : UInt8) (s : String) : Built (m.putText key s)

theorem isFlat_of_built {m : Params} (h : m.Built) : m.IsFlat := by
  induction h with
  | empty => exact isFlat_empty
  | putBytes _ key b ih => exact isFlat_insert ih key trivial
  | putUnsigned _ key n ih => exact isFlat_insert ih key trivial
  | putUnsigned? _ key n ih =>
    cases n with
    | none => exact ih
    | some n => exact isFlat_insert ih key trivial
  | putText _ key s ih => exact isFlat_insert ih key trivial

end Params

/-- What a decoded request shows of the request that was sent. -/
structure Answer.Shows (m : Answer) (r : Request) : Prop where
  modality_eq : m.unsigned? 0x01 = .ok (r.modality.map UInt8.toUInt64)
  subCommand_eq : m.unsigned? 0x02 = .ok (r.subCommand.map UInt8.toUInt64)
  authProtocol_eq : m.unsigned? 0x04 = .ok (r.authProtocol.map UInt8.toUInt64)
  authParam_eq : m.bytes? 0x05 = .ok r.authParam
  /-- Empty parameters are there, absent ones are not. -/
  contains_params : m.contains 0x03 = r.params.isSome
  params_eq : ∀ p, r.params = some p → ∃ inner, m.map 0x03 = .ok inner ∧
    (∀ key : UInt8, inner.get? key.toNat = p.get? key) ∧
      ∀ key v, inner.get? key = some v → ∃ n : UInt8, key = n.toNat
  getModality_eq : m.get? 0x06 = if r.getModality then some (.bool true) else none
  le_of_get? : ∀ key v, m.get? key = some v → 0x01 ≤ key ∧ key ≤ 0x06

namespace Request

/-- Every string in a request is short enough for a head, as any string in memory is. -/
structure Sized (r : Request) : Prop where
  authParam : ∀ tag, r.authParam = some tag → tag.length < 2 ^ 64
  params : ∀ p, r.params = some p → p.Sized

theorem sized_toMap {r : Request} (h : r.Sized) : r.toMap.Sized := by
  rintro ⟨key, v⟩ he
  rcases field?_cases (field?_of_mem_toMap he) with ⟨n, rfl⟩ | ⟨p, hp, rfl⟩ | ⟨tag, htag, rfl⟩ | rfl
  · exact Value.sized_unsigned n
  · exact Params.sized_toValue.2 (h.params p hp)
  · exact Value.throughout_of_isLeaf trivial (h.authParam tag htag)
  · exact Value.throughout_of_isLeaf trivial (Nat.two_pow_pos 64)

theorem shows_toAnswer (r : Request) : r.toMap.toAnswer.Shows r := by
  have hnumber : ∀ (key : UInt8) (n : Option UInt8),
      r.field? key = n.map (fun n => Value.unsigned n.toUInt64) →
        r.toMap.toAnswer.unsigned? key.toNat = .ok (n.map UInt8.toUInt64) := by
    intro key n hkey
    apply Answer.unsigned?_eq_ok_iff.2
    rw [get?_toAnswer, hkey, Option.map_map]
    rfl
  have hthree : r.toMap.toAnswer.get? 0x03 = r.params.map Params.toValue := r.get?_toAnswer 0x03
  constructor
  case modality_eq => exact hnumber 0x01 _ rfl
  case subCommand_eq => exact hnumber 0x02 _ rfl
  case authProtocol_eq => exact hnumber 0x04 _ rfl
  case authParam_eq => exact Answer.bytes?_eq_ok_iff.2 (r.get?_toAnswer 0x05)
  case contains_params => rw [SortedMap.contains, hthree, Option.isSome_map]
  case params_eq =>
    intro p hp
    rw [hp] at hthree
    refine ⟨p.toAnswer, ?_, p.get?_toAnswer, ?_⟩
    · exact (Answer.map_of_get? hthree).trans p.ofValue_toValue
    · intro key v h
      obtain ⟨n, hn, -⟩ := Params.exists_of_get?_toAnswer h
      exact ⟨n, hn⟩
  case getModality_eq => exact r.get?_toAnswer 0x06
  case le_of_get? =>
    intro key v hkey
    obtain ⟨n, rfl, hn⟩ := Params.exists_of_get?_toAnswer hkey
    rw [get?_toMap] at hn
    revert hn
    fun_cases Request.field? r n with
    | case8 => intro hn; cases hn
    | _ => intro hn; decide

/-- A decoded request shows one request only. -/
theorem eq_of_shows {m : Answer} {r r' : Request} (h : m.Shows r) (h' : m.Shows r') : r = r' := by
  have hnumber : ∀ {n n' : Option UInt8}, n.map UInt8.toUInt64 = n'.map UInt8.toUInt64 → n = n' :=
    fun heq => Option.map_injective (fun _ _ => UInt8.toUInt64_inj.1) heq
  have hmodality := hnumber (Except.ok.inj (h.modality_eq.symm.trans h'.modality_eq))
  have hsubCommand := hnumber (Except.ok.inj (h.subCommand_eq.symm.trans h'.subCommand_eq))
  have hauthProtocol := hnumber (Except.ok.inj (h.authProtocol_eq.symm.trans h'.authProtocol_eq))
  have hauthParam := Except.ok.inj (h.authParam_eq.symm.trans h'.authParam_eq)
  have hparams : r.params = r'.params := by
    have hsome : r.params.isSome = r'.params.isSome := h.contains_params.symm.trans h'.contains_params
    cases hp : r.params with
    | none =>
      cases hp' : r'.params with
      | none => rfl
      | some p' => simp [hp, hp'] at hsome
    | some p =>
      cases hp' : r'.params with
      | none => simp [hp, hp'] at hsome
      | some p' =>
        obtain ⟨inner, hinner, hget, -⟩ := h.params_eq p hp
        obtain ⟨inner', hinner', hget', -⟩ := h'.params_eq p' hp'
        obtain rfl : inner = inner' := Except.ok.inj (hinner.symm.trans hinner')
        exact congrArg some (SortedMap.ext_get? fun key => (hget key).symm.trans (hget' key))
  have hgetModality : r.getModality = r'.getModality := by
    have hsix := h.getModality_eq.symm.trans h'.getModality_eq
    cases hr : r.getModality <;> cases hr' : r'.getModality <;> simp [hr, hr'] at hsix ⊢
  cases r
  cases r'
  rw [Request.mk.injEq]
  exact ⟨hmodality, hsubCommand, hparams, hauthProtocol, hauthParam, hgetModality⟩

/-- A request is decoded to what it was put together from, whatever fields it has, and no other request
is written the same. -/
theorem decoded_request_shows {r : Request} (hbuilt : ∀ p, r.params = some p → p.Built)
    (hsized : r.Sized) :
    (∃ m, Answer.decode r.encode = .ok m ∧ m.Shows r) ∧
      ∀ r' : Request, (∀ p, r'.params = some p → p.Built) → r'.Sized → r'.encode = r.encode → r' = r := by
  have hdecode : ∀ {r : Request}, (∀ p, r.params = some p → p.Built) → r.Sized →
      Answer.decode r.encode = .ok r.toMap.toAnswer := fun hbuilt hsized =>
    decode_of_sized (fun p hp => Params.isFlat_of_built (hbuilt p hp)) (sized_toMap hsized)
  refine ⟨⟨_, hdecode hbuilt hsized, shows_toAnswer r⟩, ?_⟩
  intro r' hbuilt' hsized' hencode
  have hsame := hdecode hbuilt' hsized'
  rw [hencode, hdecode hbuilt hsized] at hsame
  have hshows := shows_toAnswer r
  rw [Except.ok.inj hsame] at hshows
  exact eq_of_shows (shows_toAnswer r') hshows

/-- A request with an empty tag and with parameters of which one was put in twice. With empty parameters
in their place it is written in another way. -/
theorem decoded_request_shows_empty_tag :
    let p := ((Params.putText .empty 0x02 "a").putUnsigned? 0x03 none).putBytes 0x02 [0xaa]
    let r : Request := ⟨none, some 0x06, some p, some 0x02, some [], true⟩
    (∀ q, r.params = some q → q.Built) ∧ r.Sized ∧ (∃ m, Answer.decode r.encode = .ok m ∧ m.Shows r) ∧
      Request.encode { r with params := some .empty } ≠ r.encode := by
  intro p r
  have hbuilt : ∀ q, r.params = some q → q.Built := by
    rintro q ⟨⟩
    exact .putBytes (.putUnsigned? (.putText .empty 0x02 "a") 0x03 none) 0x02 [0xaa]
  have hsized : r.Sized := by
    constructor
    · rintro tag ⟨⟩
      exact Nat.two_pow_pos 64
    · rintro q ⟨⟩
      exact Params.sized_toValue.1 (Value.sized_of_length_encode (by decide +kernel))
  obtain ⟨hdecode, hunique⟩ := decoded_request_shows hbuilt hsized
  refine ⟨hbuilt, hsized, hdecode, ?_⟩
  intro hencode
  have hbuilt' : ∀ q : Params, some .empty = some q → q.Built := by
    rintro q ⟨⟩
    exact .empty
  have hsized' : Sized { r with params := some .empty } := by
    refine ⟨hsized.authParam, ?_⟩
    rintro q ⟨⟩ e he
    cases he
  have hsize := congrArg (fun r => r.params.map SortedMap.size) (hunique _ hbuilt' hsized' hencode)
  exact absurd hsize (by decide)

end Request

end CtapEnroll
