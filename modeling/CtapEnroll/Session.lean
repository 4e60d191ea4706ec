import CtapEnroll.Link
/-!
# Sessions and signers

The two things that a client works with: a session that carries its requests to an authenticator,
and a signer that holds the token. Both may act in any state of the world.
-/

namespace CtapEnroll

variable {ω σ : Type}

/-- Carries requests to an authenticator. `ω` is what it does on the way. -/
structure Session (ω σ : Type) where
  exchange : Request → Action Error ω σ Answer
  firmware : Version := .unknown

def Link.session (l : Link σ) : Session Link.Step σ := ⟨l.ask, l.firmware⟩

/-- Signs transcripts with a token, under the number of a protocol. -/
structure Signer (σ : Type) where
  protocol : UInt8
  sign : Token → Bytes → σ → Except Error Bytes × σ

def AuthProtocol.signer (p : AuthProtocol) : Signer σ :=
  ⟨p.number, fun token transcript s => ((p.sign token.bytes transcript).mapError Error.badToken, s)⟩

end CtapEnroll
