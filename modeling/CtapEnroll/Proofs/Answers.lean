import Mathlib.Data.List.Forall2
import CtapEnroll.Answer
import CtapEnroll.Proofs.Cbor.Parts
/-!
# Answers that are read back

An answer whose keys are plain integers and whose value is readable is decoded from its encoding,
whatever follows: `decode_of_readable`. Its keys are in order and none is there twice, so nothing is lost
when the pairs are put into a map again.
-/

namespace CtapEnroll

/-- Things that are each read as the one in the same place of a list are together read as the list. -/
theorem mapM_eq_pure_of_forall₂ {m : Type → Type} [Monad m] [LawfulMonad m] {α β : Type} {read : β → m α}
    {l : List α} {l' : List β} (h : List.Forall₂ (fun a b => read b = pure a) l l') :
    l'.mapM read = pure l := by
  induction h with
  | nil => rfl
  | cons hread _ ih => rw [List.mapM_cons, hread, ih, pure_bind, pure_bind]

open Cbor (Value)

namespace Answer

theorem keyValue_of_isPlain {key : Int} (h : Value.IsPlain key) : keyValue key = Value.ofInt key :=
  if_pos h

theorem ofValue_toValue {m : Answer} (hkeys : ∀ e ∈ m.entries, Value.IsPlain e.1) :
    ofValue m.toValue = .ok m := by
  have hpairs : (m.entries.map fun e => (keyValue e.1, e.2)).mapM
      (fun p => p.1.int?.map fun key => (key, p.2)) = some m.entries := by
    refine mapM_eq_pure_of_forall₂ (List.forall₂_map_right_iff.2 (List.forall₂_same.2 ?_))
    intro e he
    rw [keyValue_of_isPlain (hkeys e he), Value.int?_ofInt (hkeys e he)]
    rfl
  have hmap : SortedMap.ofList m.entries = m := SortedMap.ext_entries (SortedMap.entries_ofList m.sorted)
  unfold toValue ofValue
  simp only [hpairs, hmap]

theorem encode_append_ne_nil (m : Answer) (rest : Bytes) : m.encode ++ rest ≠ [] :=
  List.append_ne_nil_of_left_ne_nil (List.ne_nil_of_length_pos m.toValue.length_encode_pos) rest

theorem decode_of_readable {m : Answer} (hkeys : ∀ e ∈ m.entries, Value.IsPlain e.1)
    (h : m.toValue.Readable Cbor.maxOpen) (rest : Bytes) : decode (m.encode ++ rest) = .ok m := by
  have hvalue : Value.decode (m.encode ++ rest) = .ok m.toValue := Value.decode_encode h rest
  unfold decode
  split
  · rename_i hnil
    exact absurd hnil (encode_append_ne_nil m rest)
  · rw [hvalue]
    exact ofValue_toValue hkeys

/-- An answer is decoded from its encoding, and bytes behind it do not matter. Its keys must be plain
integers and its lengths fit a head; no more than 256 arrays, maps and tags may be open at once, the
outer map among them; and no bignum tag may stand around a byte string short enough to be read as a
number. Floats come back with their bits, and maps inside with the pairs they have, in their order. -/
theorem decode_encode_eq_self {m : Answer} (hkeys : ∀ e ∈ m.entries, Value.IsPlain e.1)
    (hsized : m.toValue.Sized) (hdepth : m.toValue.depth ≤ 256) (htags : m.toValue.HasNoTaggedNumber) :
    decode m.encode = .ok m ∧ ∀ rest, decode (m.encode ++ rest) = .ok m := by
  have hreadable : m.toValue.Readable Cbor.maxOpen := Value.readable_of_depth hsized htags hdepth
  have happend := decode_of_readable hkeys hreadable
  refine ⟨?_, happend⟩
  rw [← happend [], List.append_nil]

/-- The least key there is, a bignum tag on a byte string that is one byte too long for a number, and a
map inside that repeats a key: all of it comes back, with a byte behind it. -/
theorem decode_encode_repeated_key :
    let m : Answer := ⟨[(-0x10000000000000000, .tag 2 (.bytes (List.replicate 17 0xff))),
      (7, .array [.map [(.bytes [0x6b], .float 0x7ff8000000000000), (.bytes [0x6b], .null)]])], by simp⟩
    (∀ e ∈ m.entries, Value.IsPlain e.1) ∧ m.toValue.Sized ∧ m.toValue.depth ≤ 256 ∧
      m.toValue.HasNoTaggedNumber ∧ decode (m.encode ++ [0x00]) = .ok m := by
  intro m
  have hkeys : ∀ e ∈ m.entries, Value.IsPlain e.1 := by decide
  have hvalue : m.toValue = .map [
      (.negative 0xffffffffffffffff, .tag 2 (.bytes (List.replicate 17 0xff))),
      (.unsigned 7, .array [.map [(.bytes [0x6b], .float 0x7ff8000000000000), (.bytes [0x6b], .null)]])] :=
    rfl
  have hsized : m.toValue.Sized := by
    rw [hvalue]
    simp [Value.Sized, Value.Throughout, Value.length]
  have hdepth : m.toValue.depth ≤ 256 := by
    rw [hvalue]
    simp [Value.depth]
  have htags : m.toValue.HasNoTaggedNumber := by
    rw [hvalue]
    simp [Value.HasNoTaggedNumber, Value.Throughout, Value.IsTaggedNumber, Value.IsShortBignum,
      Value.maxBignumLength]
  exact ⟨hkeys, hsized, hdepth, htags, (decode_encode_eq_self hkeys hsized hdepth htags).2 _⟩

end Answer

end CtapEnroll
