import CtapEnroll.Link
import CtapEnroll.Proofs.Apdu
import CtapEnroll.Proofs.Requests
/-!
# Where a tag stands

The tag of a request is one byte string in the encoding of the request, and in the card message that carries
it. What stands in front of it and after it depends on its length, but not on its bytes: `exists_frame` says
so for encodings, and `Link.message_frame` for messages.
-/

namespace CtapEnroll

/-! ## Requests -/

namespace Request

/-- The request with this tag in place of its own. -/
def withTag (r : Request) (tag : Bytes) : Request := { r with authParam := some tag }

theorem withTag_self {r : Request} {tag : Bytes} (h : r.authParam = some tag) : r.withTag tag = r := by
  simp only [withTag, ← h]

/-- The fields in front of the tag. -/
def front (r : Request) : Params :=
  let number (n : UInt8) : Cbor.Value := .unsigned n.toUInt64
  SortedMap.empty
    |>.insert? 0x01 (r.modality.map number)
    |>.insert? 0x02 (r.subCommand.map number)
    |>.insert? 0x03 (r.params.map Params.toValue)
    |>.insert? 0x04 (r.authProtocol.map number)

theorem lt_of_mem_front (r : Request) : ∀ e ∈ r.front.entries, e.1 < 0x05 := by
  have hempty : ∀ e ∈ (SortedMap.empty : Params).entries, e.1 < 0x05 := nofun
  exact SortedMap.lt_of_mem_insert? (SortedMap.lt_of_mem_insert? (SortedMap.lt_of_mem_insert?
    (SortedMap.lt_of_mem_insert? hempty (by decide) _) (by decide) _) (by decide) _) (by decide) _

/-- The fields after the tag. -/
def back (r : Request) : List (UInt8 × Cbor.Value) := if r.getModality then [(0x06, .bool true)] else []

theorem entries_toMap_withTag (r : Request) (tag : Bytes) :
    (r.withTag tag).toMap.entries = r.front.entries ++ (0x05, .bytes tag) :: r.back := by
  have htag := SortedMap.entries_insert?_of_forall_lt r.lt_of_mem_front (some (.bytes tag))
  have hlt : ∀ e ∈ (r.front.insert? 0x05 (some (.bytes tag))).entries, e.1 < 0x06 := by
    refine SortedMap.lt_of_mem_insert? ?_ (by decide) _
    intro e he
    exact UInt8.lt_trans (r.lt_of_mem_front e he) (by decide)
  change ((r.front.insert? 0x05 (some (.bytes tag))).insert? 0x06
    (if r.getModality then some (.bool true) else none)).entries = _
  rw [SortedMap.entries_insert?_of_forall_lt hlt, htag, back]
  cases r.getModality <;> simp

/-- The encoding of a request stands around its tag, and knows nothing of it but its length. -/
theorem exists_frame (r : Request) (n : Nat) :
    ∃ before after, ∀ tag : Bytes, tag.length = n → (r.withTag tag).encode = before ++ tag ++ after := by
  refine ⟨Cbor.Head.write 5 (r.front.entries.length + (r.back.length + 1)) ++
    (r.front.entries.flatMap Params.encodeEntry ++ (Cbor.Head.write 0 5 ++ Cbor.Head.write 2 n)),
    r.back.flatMap Params.encodeEntry, ?_⟩
  intro tag htag
  have hentry : Params.encodeEntry (0x05, .bytes tag) = Cbor.Head.write 0 5 ++ (Cbor.Head.write 2 n ++ tag) := by
    rw [Params.encodeEntry, Cbor.Value.encode, htag]
    rfl
  rw [encode, Params.encode_eq, entries_toMap_withTag, List.length_append, List.length_cons, List.flatMap_append,
    List.flatMap_cons, hentry]
  simp only [List.append_assoc]

end Request

/-! ## Messages -/

/-- The message of a command stands around its body, and whether it has one depends on the length of that. -/
theorem Apdu.Command.encode_frame (cla ins p1 p2 : UInt8) (n : Nat) :
    (∃ before after, ∀ body : Bytes, body.length = n →
      encode ⟨cla, ins, p1, p2, body⟩ = .ok (before ++ body ++ after)) ∨
    ∀ body : Bytes, body.length = n → encode ⟨cla, ins, p1, p2, body⟩ = .error (.bodyTooLong n) := by
  by_cases h0 : n = 0
  · refine .inl ⟨[cla, ins, p1, p2], [0], ?_⟩
    rintro body rfl
    rw [encode, if_pos h0, List.length_eq_zero_iff.1 h0]
    rfl
  by_cases hshort : n ≤ maxShort
  · refine .inl ⟨[cla, ins, p1, p2] ++ Bytes.bigEndian 1 n, [0], ?_⟩
    rintro body rfl
    rw [encode, if_neg h0, if_pos hshort]
    rfl
  by_cases hextended : n ≤ maxExtended
  · refine .inl ⟨[cla, ins, p1, p2] ++ 0 :: Bytes.bigEndian 2 n, [0, 0], ?_⟩
    rintro body rfl
    rw [encode, if_neg h0, if_neg hshort, if_pos hextended]
    rfl
  · refine .inr ?_
    rintro body rfl
    rw [encode, if_neg h0, if_neg hshort, if_neg hextended]

/-- The card message of a request stands around its tag in the same way, if there is one. -/
theorem Link.message_frame {command : UInt8} {r : Request} {tag apdu : Bytes}
    (h : (message command (r.withTag tag).encode).encode = .ok apdu) :
    ∃ before after, ∀ other : Bytes, other.length = tag.length →
      (message command (r.withTag other).encode).encode = .ok (before ++ other ++ after) := by
  obtain ⟨before, after, hencode⟩ := r.exists_frame tag.length
  have hlength : ∀ other : Bytes, other.length = tag.length →
      (command :: (before ++ other ++ after)).length = before.length + tag.length + after.length + 1 := by
    intro other hother
    rw [List.length_cons, List.length_append, List.length_append, hother]
  rcases Apdu.Command.encode_frame 0x80 0x10 0x00 0x00 (before.length + tag.length + after.length + 1) with
    ⟨front, back, hmessage⟩ | hlong
  · refine ⟨front ++ command :: before, after ++ back, ?_⟩
    intro other hother
    rw [message, hencode other hother, hmessage _ (hlength other hother)]
    simp
  · rw [message, hencode tag rfl, hlong _ (hlength tag rfl)] at h
    cases h

end CtapEnroll
