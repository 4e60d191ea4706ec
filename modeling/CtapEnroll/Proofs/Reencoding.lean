import CtapEnroll.Proofs.AnswerMaps
import CtapEnroll.Proofs.Cbor.Accepted
import CtapEnroll.Proofs.Cbor.Spans
/-!
# Writing what was read

An answer need not be read from its own encoding, but it is read again from it. The one exception is a bignum tag
on a byte string that came in pieces: it is kept as it is and written in one piece, and then it is a number.
`reencoding_preserves` says so, and that nothing changes from the second reading on.
-/

namespace CtapEnroll

open Cbor (Value HasPiecedNumber maxOpen)

namespace Answer

/-- The pairs that an answer is written as. -/
def pairs (m : Answer) : List (Value × Value) := m.entries.map fun e => (keyValue e.1, e.2)

theorem pairs_subset {m : Answer} {pairs : List (Value × Value)} (h : m.IsMapOf pairs) : m.pairs ⊆ pairs := by
  intro p hp
  obtain ⟨⟨key, v⟩, he, rfl⟩ := List.mem_map.1 hp
  have hget : m.get? key = some v := SortedMap.get?_eq_some_iff.2 he
  rw [h.last] at hget
  obtain ⟨q, hq, rfl⟩ := Option.map_eq_some_iff.1 hget
  have hkey : q.1.int? = some key := by simpa using List.find?_some hq
  have hpair : (keyValue key, q.2) = q := by
    rw [keyValue_of_isPlain (Value.isPlain_of_int? hkey), Value.ofInt_of_int? hkey]
  rw [hpair]
  exact List.mem_reverse.1 (List.mem_of_find?_eq_some hq)

/-- Every key is written once, so the pairs are no more than those that were read. -/
theorem length_pairs_le {m : Answer} {pairs : List (Value × Value)} (h : m.IsMapOf pairs) :
    m.pairs.length ≤ pairs.length := by
  have hkeys : m.pairs.map (·.1.int?) = (m.entries.map (·.1)).map some := by
    rw [Answer.pairs, List.map_map, List.map_map]
    apply List.map_congr_left
    intro e he
    have hplain := isPlain_of_isMapOf h e he
    rw [Function.comp_apply, Function.comp_apply, keyValue_of_isPlain hplain, Value.int?_ofInt hplain]
  have hnodup : (m.pairs.map (·.1.int?)).Nodup := by
    rw [hkeys]
    exact m.nodup_keys.map (Option.some_injective _)
  exact (List.subperm_of_subset hnodup.of_map (pairs_subset h)).length_le

theorem exists_pairs_of_decode {b : Bytes} {m : Answer} (h : decode b = .ok m) (hb : b ≠ []) :
    ∃ pairs, Value.decode b = .ok (.map pairs) ∧ m.IsMapOf pairs := by
  unfold decode at h
  split at h
  · exact absurd rfl hb
  · cases hv : Value.decode b with
    | error fault =>
      rw [hv] at h
      cases h
    | ok v =>
      rw [hv] at h
      cases v with
      | map pairs => exact ⟨pairs, rfl, ofValue_map_iff_isMapOf.1 h⟩
      | _ => cases h

/-- An answer that is read could have been read from what it is written as, and has plain integers for keys. -/
theorem accepted_of_decode {b : Bytes} {m : Answer} (h : decode b = .ok m) :
    (∀ e ∈ m.entries, Value.IsPlain e.1) ∧
      Value.Accepted maxOpen b (Value.places (b.length + 1) maxOpen ⟨0, b⟩) m.toValue := by
  by_cases hb : b = []
  · subst hb
    cases h
    exact ⟨nofun, Value.accepted_map (Nat.zero_le _) nofun⟩
  · obtain ⟨pairs, hpairs, hm⟩ := exists_pairs_of_decode h hb
    exact ⟨isPlain_of_isMapOf hm,
      (Value.accepted_of_decode hpairs).map_of_subset (pairs_subset hm) (length_pairs_le hm)⟩

theorem encode_ne_nil (m : Answer) : m.encode ≠ [] := List.ne_nil_of_length_pos m.toValue.length_encode_pos

/-- What is read from the encoding of an answer can be written and read again, even if the answer cannot. -/
theorem isWritable_of_decode_encode {m again : Answer} (hsized : m.toValue.Sized)
    (h : decode m.encode = .ok again) : again.toValue.IsWritable := by
  obtain ⟨pairs, hpairs, hm⟩ := exists_pairs_of_decode h m.encode_ne_nil
  have hwritable : (Value.map pairs).IsWritable := Value.isWritable_of_decode_encode hsized hpairs
  obtain ⟨⟨hlen, -⟩, hparts⟩ := Value.throughout_map.1 hwritable
  refine Value.throughout_map.2 ⟨⟨Nat.lt_of_le_of_lt (length_pairs_le hm) hlen, nofun⟩, ?_⟩
  exact fun pair hp => hparts pair (pairs_subset hm hp)

theorem keyValue_ne_null {key : Int} (h : Value.IsPlain key) : keyValue key ≠ .null := by
  intro hnull
  have hkey := Value.int?_ofInt h
  rw [← keyValue_of_isPlain h, hnull] at hkey
  cases hkey

theorem decode_encode_of_settled {m : Answer} (hkeys : ∀ e ∈ m.entries, Value.IsPlain e.1)
    (hsized : m.toValue.Sized) (hsettled : m.toValue.Settled) (hopens : m.toValue.Opens maxOpen) :
    decode m.encode = .ok m := by
  rw [← List.append_nil m.encode]
  exact decode_of_readable hkeys (Value.readable_of_opens hsized hsettled hopens) []

/-- An answer that was read is written without a key as null, and is read again as it is if and only if its tagged
numbers are what they are read as. They are if no number came in pieces. Whatever is read from what was
written, is written and read again with no further change. -/
theorem reencoding_preserves {b : Bytes} {m : Answer} (hlen : b.length < 2 ^ 64) (h : decode b = .ok m) :
    (∀ e ∈ m.entries, keyValue e.1 ≠ .null) ∧
      (decode m.encode = .ok m ↔ m.toValue.Settled) ∧
      (¬ HasPiecedNumber b → m.toValue.Settled) ∧
      ∀ again, decode m.encode = .ok again → decode again.encode = .ok again ∧
        (m.toValue.Settled → (∀ key, again.get? key = m.get? key) ∧ again.encode = m.encode) := by
  obtain ⟨hkeys, haccepted⟩ := accepted_of_decode h
  have hsized : m.toValue.Sized := haccepted.sized hlen
  have hback : m.toValue.Settled → decode m.encode = .ok m := by
    intro hsettled
    exact decode_encode_of_settled hkeys hsized hsettled haccepted.opens
  refine ⟨fun e he => keyValue_ne_null (hkeys e he), ⟨fun hm => ?_, hback⟩, fun hno => ?_, fun again hagain => ?_⟩
  · exact (isWritable_of_decode_encode hsized hm).settled
  · exact haccepted.settled fun i hi hpieced => hno ⟨i, hi, hpieced⟩
  · have hwritable := isWritable_of_decode_encode hsized hagain
    obtain ⟨hkeys', haccepted'⟩ := accepted_of_decode hagain
    refine ⟨decode_encode_of_settled hkeys' hwritable.sized hwritable.settled haccepted'.opens, fun hsettled => ?_⟩
    rw [hback hsettled] at hagain
    cases hagain
    exact ⟨fun key => rfl, rfl⟩

/-- A map of indefinite length that repeats a key, gives another one in a longer head, and has its keys out of order:
an array of indefinite length, numbers under both bignum tags, one of them small and the other with zeros in front,
a tagged float, and a byte string that holds the heads of a number in pieces, as do the bytes behind the map. -/
theorem reencoding_preserves_repeated_key :
    let b : Bytes := [0xbf, 0x18, 0x02, 0x9f, 0x01, 0xff, 0x01, 0xc2, 0x4a, 0x00, 0x01, 0x00, 0x00, 0x00, 0x00, 0x00,
      0x00, 0x00, 0x00, 0x20, 0xc3, 0x41, 0x05, 0x02, 0xc1, 0xfa, 0x3f, 0x80, 0x00, 0x00, 0x04,
      0x42, 0xc2, 0x5f, 0xff, 0xc2, 0x5f]
    let m : Answer := ⟨[(-1, .negative 5), (1, .tag 2 (.bytes [0x01, 0, 0, 0, 0, 0, 0, 0, 0])),
      (2, .tag 1 (.float 0x3ff0000000000000)), (4, .bytes [0xc2, 0x5f])], by decide⟩
    b.length < 2 ^ 64 ∧ ¬ HasPiecedNumber b ∧ decode b = .ok m ∧ decode m.encode = .ok m := by
  intro b m
  have hlen : b.length < 2 ^ 64 := by decide
  have hdecode : decode b = .ok m := by rfl
  have hno : ¬ HasPiecedNumber b := by decide +kernel
  obtain ⟨-, hback, hsettled, -⟩ := reencoding_preserves hlen hdecode
  exact ⟨hlen, hno, hdecode, hback.2 (hsettled hno)⟩

/-- A number that came in pieces is kept as a byte string under its tag, and is an integer when it is read again. -/
theorem reencoding_changes_pieced_number :
    let b : Bytes := [0xa1, 0x01, 0xc2, 0x5f, 0x41, 0x01, 0xff]
    let m : Answer := ⟨[(1, .tag 2 (.bytes [0x01]))], by simp⟩
    let again : Answer := ⟨[(1, .unsigned 1)], by simp⟩
    decode b = .ok m ∧ decode m.encode = .ok again ∧ again ≠ m ∧ again.encode ≠ m.encode ∧
      m.unsigned 1 = .error (.wrongType 1 .unsigned) ∧ again.unsigned 1 = .ok 1 := by
  intro b m again
  have hencode : m.encode = [0xa1, 0x01, 0xc2, 0x41, 0x01] := by
    simp [m, encode, toValue, keyValue, Value.IsPlain, Value.ofInt, Value.encode, Cbor.Head.write]
  have hagain : again.encode = [0xa1, 0x01, 0x01] := by
    simp [again, encode, toValue, keyValue, Value.IsPlain, Value.ofInt, Value.encode, Cbor.Head.write]
  have hne : again.encode ≠ m.encode := by
    rw [hencode, hagain]
    decide
  refine ⟨rfl, ?_, fun hsame => hne (by rw [hsame]), hne, rfl, rfl⟩
  rw [hencode]
  rfl

end Answer

end CtapEnroll
