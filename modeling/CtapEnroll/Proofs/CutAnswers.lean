import CtapEnroll.Proofs.Answers
import CtapEnroll.Proofs.Cbor.Spans
import CtapEnroll.Proofs.Link
/-!
# Answers that are cut off

The bytes of an answer that lose their end are no answer, so a response that was cut off is not taken for a
shorter one: `cut_answer_refused`. Only where nothing is left of them are they the empty map.
-/

namespace CtapEnroll

open Cbor (Value)

namespace Answer

theorem decode_of_fault {p : Bytes} {fault : Cbor.Fault} (hne : p ≠ []) (h : Value.decode p = .error fault) :
    decode p = .error (.badMap (.undecodable fault)) := by
  cases p with
  | nil => exact absurd rfl hne
  | cons first rest =>
    unfold decode
    simp only [h]

theorem exists_fault_of_cut {m : Answer} (hsized : m.toValue.Sized) {p : Bytes} (hp : p <+: m.encode)
    (hcut : p ≠ m.encode) (hne : p ≠ []) : ∃ fault, decode p = .error (.badMap (.undecodable fault)) := by
  obtain ⟨fault, hfault⟩ := Value.exists_fault_of_cut hsized hp hcut
  exact ⟨fault, decode_of_fault hne hfault⟩

end Answer

/-- What is left of an encoded answer that lost its end is not decoded, unless nothing is left. A card that
sends it after a success, in up to 65 pieces of any kind, makes the command fail with a complaint about the
answer. The values in the answer are arbitrary, as long as their lengths fit a head. -/
theorem cut_answer_refused {m : Answer} (hsized : m.toValue.Sized) {p : Bytes} (hp : p <+: m.encode)
    (hcut : p ≠ m.encode) :
    Answer.decode [] = .ok .empty ∧
      (p ≠ [] → ∃ fault, Answer.decode p = .error (.badMap (.undecodable fault)) ∧
        ∀ {σ : Type} {card : Card σ} {command : UInt8} {payload apdu : Bytes} {cut : Link.Cutting} {s t : σ},
          Apdu.Command.encode ⟨0x80, 0x10, 0x00, 0x00, command :: payload⟩ = .ok apdu →
          cut.rounds ≤ 64 → cut.whole = 0x00 :: p → Link.Answers card s (cut.exchanges apdu) t →
          (Link.send card command payload s).result =
            .error (.badAnswer (.wire (.badMap (.undecodable fault))))) := by
  refine ⟨rfl, fun hne => ?_⟩
  obtain ⟨fault, hdecode⟩ := Answer.exists_fault_of_cut hsized hp hcut hne
  refine ⟨fault, hdecode, ?_⟩
  intro σ card command payload apdu cut s t hmessage hrounds hwhole hanswers
  obtain ⟨steps, hsend, -⟩ := Link.send_of_cutting hmessage hrounds hanswers
  rw [hsend, hwhole, Link.answerOf, if_pos (by decide), hdecode]
  rfl

/-- A list that is cut off inside of its last value, a number under a tag, and comes in three pieces. -/
theorem cut_answer_refused_in_pieces :
    let m : Answer := SortedMap.empty.insert 7 (.array [.map [(.null, .float 0x7ff8000000000000)],
      .tag 2 (.bytes [0x01])])
    let p : Bytes := [0xa1, 0x07, 0x82, 0xa1, 0xf6, 0xf9, 0x7e, 0x00, 0xc2, 0x41]
    m.encode = p ++ [0x01] ∧ m.toValue.Sized ∧ p <+: m.encode ∧ p ≠ m.encode ∧ p ≠ [] ∧
      ∃ fault, Answer.decode p = .error (.badMap (.undecodable fault)) ∧
        (Link.send Link.scripted 0x40 [] [[0x00, 0xa1, 0x61, 0x00], [0x61, 0x0a],
          [0x07, 0x82, 0xa1, 0xf6, 0xf9, 0x7e, 0x00, 0xc2, 0x41, 0x90, 0x00]]).result =
            .error (.badAnswer (.wire (.badMap (.undecodable fault)))) := by
  intro m p
  have hencode : m.encode = p ++ [0x01] := by decide +kernel
  have hsized : m.toValue.Sized := Value.sized_of_length_encode (by decide +kernel)
  have hp : p <+: m.encode := ⟨[0x01], hencode.symm⟩
  have hcut : p ≠ m.encode := by decide +kernel
  obtain ⟨apdu, hapdu⟩ := Link.exists_message 0x40 (show ([] : Bytes).length ≤ 65534 by decide)
  have hanswers := Link.answers_scripted (.piece [0x00, 0xa1] 0x00 (.piece [] 0x0a (.last
    [0x07, 0x82, 0xa1, 0xf6, 0xf9, 0x7e, 0x00, 0xc2, 0x41]))) apdu []
  obtain ⟨fault, hdecode, hsend⟩ := (cut_answer_refused hsized hp hcut).2 (by decide)
  exact ⟨hencode, hsized, hp, hcut, by decide, fault, hdecode, hsend hapdu (by decide) rfl hanswers⟩

end CtapEnroll
