import CtapEnroll.Proofs.Cbor.PrefixFree
import CtapEnroll.Proofs.Requests
/-!
# What a signature stands for

A transcript is two bytes and the encoding of the parameters, without anything between them that tells
where one ends. `transcript_determines_command` says that it can still be read in one way only, so a
signature over it is for one command.
-/

namespace CtapEnroll

open Cbor (Value)

namespace Params

theorem toValue_inj {p p' : Params} (h : p.toValue = p'.toValue) : p = p' := by
  have hanswer := p.ofValue_toValue
  rw [h, ofValue_toValue] at hanswer
  apply SortedMap.ext_get?
  intro key
  rw [← get?_toAnswer, ← get?_toAnswer, Except.ok.inj hanswer]

theorem encode_inj {p p' : Params} (hp : p.Sized) (hp' : p'.Sized) (h : p.encode = p'.encode) : p = p' := by
  have hvalue := Value.separated_encode (sized_toValue.2 hp) (sized_toValue.2 hp') [] []
  rw [List.append_nil, List.append_nil] at hvalue
  exact toValue_inj (hvalue h).1

end Params

namespace Request

/-- Equal transcripts are for the same modality, the same sub-command, and the same parameters: absent in
both, or present in both with the same values under the same keys. So absent, empty and any other
parameters are never signed alike. The values are arbitrary, of lengths that fit a head; floats are the
same if their bits are. -/
theorem transcript_determines_command {modality modality' subCommand subCommand' : UInt8}
    {params params' : Option Params} (hparams : ∀ p, params = some p → p.Sized)
    (hparams' : ∀ p, params' = some p → p.Sized)
    (h : transcript modality subCommand params = transcript modality' subCommand' params') :
    modality = modality' ∧ subCommand = subCommand' ∧ params = params' := by
  obtain ⟨hmodality, h⟩ := List.cons.inj h
  obtain ⟨hsubCommand, h⟩ := List.cons.inj h
  refine ⟨hmodality, hsubCommand, ?_⟩
  have hne : ∀ p : Params, p.encode ≠ [] := fun p => List.ne_nil_of_length_pos (Value.length_encode_pos _)
  cases params with
  | none =>
    cases params' with
    | none => rfl
    | some p' => exact absurd h.symm (hne p')
  | some p =>
    cases params' with
    | none => exact absurd h (hne p)
    | some p' => rw [Params.encode_inj (hparams p rfl) (hparams' p' rfl) h]

/-- Parameters that were put in in two orders, one of them over another value. -/
theorem transcript_of_either_order :
    let p := (Params.putBytes .empty 0x01 [0xaa, 0xbb]).putUnsigned 0x03 1000
    let p' := ((Params.putUnsigned .empty 0x03 1000).putText 0x01 "a").putBytes 0x01 [0xaa, 0xbb]
    (∀ q, some p = some q → q.Sized) ∧ (∀ q, some p' = some q → q.Sized) ∧
      transcript 0x01 0x02 (some p) = transcript 0x01 0x02 (some p') ∧ some p = some p' := by
  intro p p'
  have hsized : ∀ q, some p = some q → q.Sized := by
    rintro q ⟨⟩
    exact Params.sized_toValue.1 (Value.sized_of_length_encode (by decide +kernel))
  have hsized' : ∀ q, some p' = some q → q.Sized := by
    rintro q ⟨⟩
    exact Params.sized_toValue.1 (Value.sized_of_length_encode (by decide +kernel))
  have h : transcript 0x01 0x02 (some p) = transcript 0x01 0x02 (some p') := by decide +kernel
  exact ⟨hsized, hsized', h, (transcript_determines_command hsized hsized' h).2.2⟩

end Request

end CtapEnroll
