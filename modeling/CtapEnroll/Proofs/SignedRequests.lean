import CtapEnroll.Proofs.Calls
import CtapEnroll.Proofs.Readings
import CtapEnroll.Proofs.Link
import CtapEnroll.Proofs.Requests
/-!
# What an authenticator finds in a signed request

An authenticator does not see what a client signed: it unwraps the card message, decodes the request,
and puts the message together again from the fields that it found. `received_as_signed` says that this
is the message that the signer was given, for every operation that is signed.
-/

namespace CtapEnroll

open Cbor (Value)

/-! ## The authenticator's side -/

namespace Answer

/-- The message that the fields of a request are verified against: the modality, the sub-command, and
the parameters encoded again, if there are any. -/
def signedMessage (m : Answer) : Except WireError Bytes := do
  let modality ← m.unsigned 0x01
  let subCommand ← m.unsigned 0x02
  let params :=
    match m.get? 0x03 with
    | some v => v.encode
    | none => []
  pure (modality.toUInt8 :: subCommand.toUInt8 :: params)

/-- The fields of a signed request: those of the sub-command, the tag under the number of the signer's
protocol, and nothing else. What the tag is checked against is `message`. -/
structure IsSigned (m : Answer) (subCommand : SubCommand) (protocol : UInt8) (tag message : Bytes) :
    Prop where
  modality_eq : m.unsigned 0x01 = .ok 1
  subCommand_eq : m.unsigned 0x02 = .ok subCommand.code.toUInt64
  /-- Only a listing has no parameters. -/
  params_eq_none_iff : m.get? 0x03 = none ↔ subCommand = .listTemplates
  protocol_eq : m.unsigned 0x04 = .ok protocol.toUInt64
  tag_eq : m.bytes 0x05 = .ok tag
  le_of_get? : ∀ key v, m.get? key = some v → 0x01 ≤ key ∧ key ≤ 0x05
  signedMessage_eq : m.signedMessage = .ok message

end Answer

/-! ## Signed operations -/

inductive SignedOp
  | begin (timeout : Option UInt32)
  | next (id : TemplateId) (timeout : Option UInt32)
  | list
  | rename (id : TemplateId) (name : String)
  | remove (id : TemplateId)

namespace SignedOp

variable {ω σ : Type}

def subCommand : SignedOp → SubCommand
  | begin _ => .beginEnrollment
  | next _ _ => .captureNext
  | list => .listTemplates
  | rename _ _ => .renameTemplate
  | remove _ => .removeTemplate

def params : SignedOp → Option Params
  | begin timeout => some (Params.withTimeout .empty timeout)
  | next id timeout => some ((Params.ofTemplate id).withTimeout timeout)
  | list => none
  | rename id name => some ((Params.ofTemplate id).withName name)
  | remove id => some (Params.ofTemplate id)

/-- A name fits the configured limit. -/
def Fits (config : Config) : SignedOp → Prop
  | rename _ name => ∀ limit, config.maxNameLength = some limit → name.utf8ByteSize ≤ limit
  | _ => True

def trace (c : Client ω σ) (s : σ) : SignedOp → List (Client.Step ω)
  | begin timeout => (c.beginEnrollment timeout s).trace
  | next id timeout => (c.captureNext id timeout s).trace
  | list => (c.templates s).trace
  | rename id name => (c.rename id name s).trace
  | remove id => (c.remove id s).trace

/-- An operation that is not refused starts with its signed call, after which it only reports. -/
theorem trace_eq {c : Client ω σ} {op : SignedOp} (h : op.Fits c.config) (s : σ) :
    ∃ events : List Event,
      op.trace c s = (c.callSigned op.subCommand op.params s).trace ++ events.map .reported := by
  -- Listing alone looks at the failure of its call, which changes nothing of what was done.
  cases op with
  | begin timeout => exact Client.trace_conclude ..
  | next id timeout => exact Client.trace_conclude ..
  | list => exact Client.trace_conclude (Action.attempt (c.callSigned .listTemplates none)) ..
  | rename id name =>
    have hname : c.checkName name = pure () := Client.checkName_eq_pure h
    simp only [trace, Client.rename, hname, pure_bind]
    exact Client.trace_conclude ..
  | remove id => exact Client.trace_conclude ..

theorem params_eq_none_iff (op : SignedOp) : op.params = none ↔ op.subCommand = .listTemplates := by
  cases op <;> simp [params, subCommand]

theorem isFlat_params {op : SignedOp} {p : Params} (h : op.params = some p) : p.IsFlat := by
  cases op with
  | begin timeout =>
    cases h
    exact Params.isFlat_withTimeout Params.isFlat_empty timeout
  | next id timeout =>
    cases h
    exact Params.isFlat_withTimeout (Params.isFlat_ofTemplate id) timeout
  | list => cases h
  | rename id name =>
    cases h
    exact Params.isFlat_withName (Params.isFlat_ofTemplate id) name
  | remove id =>
    cases h
    exact Params.isFlat_ofTemplate id

end SignedOp

/-! ## Agreement -/

namespace Client

variable {ω σ : Type}

theorem isSigned_signedRequest (c : Client ω σ) {subCommand : SubCommand} {params : Option Params}
    (hparams : params = none ↔ subCommand = .listTemplates) (tag : Bytes) :
    (c.signedRequest subCommand params tag).toMap.toAnswer.IsSigned subCommand c.signer.protocol tag
      (transcript subCommand params) := by
  have hget : ∀ key : UInt8, (c.signedRequest subCommand params tag).toMap.toAnswer.get? key.toNat =
      (c.signedRequest subCommand params tag).field? key := Request.get?_toAnswer _
  have hone : (c.signedRequest subCommand params tag).toMap.toAnswer.unsigned 0x01 =
      .ok Modality.fingerprint.code.toUInt64 := Answer.unsigned_eq_ok_iff.2 (hget 0x01)
  have htwo : (c.signedRequest subCommand params tag).toMap.toAnswer.unsigned 0x02 =
      .ok subCommand.code.toUInt64 := Answer.unsigned_eq_ok_iff.2 (hget 0x02)
  have hthree : SortedMap.get? (c.signedRequest subCommand params tag).toMap.toAnswer 0x03 =
      params.map Params.toValue := hget 0x03
  refine ⟨hone, htwo, ?_, Answer.unsigned_eq_ok_iff.2 (hget 0x04), Answer.bytes_eq_ok_iff.2 (hget 0x05), ?_, ?_⟩
  · rw [hthree, Option.map_eq_none_iff, hparams]
  · intro key v hkey
    obtain ⟨n, rfl, hn⟩ := Params.exists_of_get?_toAnswer hkey
    rw [Request.get?_toMap] at hn
    revert hn
    -- The sixth field is absent, since the request does not ask for the modality.
    fun_cases Request.field? (c.signedRequest subCommand params tag) n with
    | case6 h => exact absurd h Bool.false_ne_true
    | case7 h => intro hn; cases hn
    | case8 => intro hn; cases hn
    | _ => intro hn; decide
  · unfold Answer.signedMessage
    rw [hone, htwo, hthree]
    cases params with
    | none => simp [transcript, Request.transcript, bind, Except.bind, pure, Except.pure]
    | some p =>
      simp [transcript, Request.transcript, Params.encode, bind, Except.bind, pure, Except.pure]

/-- The messages that were given to the card for the requests of a client. -/
def sent (steps : List (Step Link.Step)) : List Bytes :=
  steps.flatMap fun
    | .exchanged _ steps _ => Link.messages steps
    | _ => []

@[simp] theorem sent_append (a b : List (Step Link.Step)) : sent (a ++ b) = sent a ++ sent b :=
  List.flatMap_append

@[simp] theorem sent_signed (transcript : Bytes) (tag : Except Error Bytes)
    (steps : List (Step Link.Step)) : sent (.signed transcript tag :: steps) = sent steps := rfl

theorem sent_of_asked {l : Link σ} {c : Client Link.Step σ} (hc : c.session = l.session)
    {subCommand : Option SubCommand} {request : Request} {authenticated : Bool} {s : σ}
    {o : Outcome Error (Step Link.Step) σ Answer}
    (h : Asked c subCommand request authenticated s o) (hlen : 1 + request.encode.length ≤ 65535) :
    ∃ apdu more, sent o.trace = apdu :: more ∧
      Apdu.Command.decode? apdu =
        some ⟨0x80, 0x10, 0x00, 0x00, l.command.code :: request.encode⟩ := by
  have hpayload : request.encode.length ≤ 65534 := by omega
  obtain ⟨apdu, hapdu⟩ := Link.exists_message l.command.code hpayload
  obtain ⟨more, hmore⟩ := Link.messages_send hapdu l.card s
  change Link.messages (l.session.exchange request s).trace = apdu :: more at hmore
  refine ⟨apdu, more, ?_, Apdu.Command.decode?_encode hapdu⟩
  cases h with
  | unanswered h =>
    rw [hc] at h
    rw [h] at hmore
    simpa [sent] using hmore
  | answered h =>
    rw [hc] at h
    rw [h] at hmore
    simpa [sent] using hmore

end Client

/-- The client and the authenticator agree on what was signed. A signed operation first has its message
signed; with a signature it gives one request to the session; and if that fits a card message, the first
message to the card unwraps to a request whose fields are those of the operation and of the signature,
and from which the authenticator puts the signed message together again. -/
theorem received_as_signed {σ : Type} (l : Link σ) (signer : Signer σ) (token : Token) (config : Config)
    {op : SignedOp} (hfits : op.Fits config) (s : σ) :
    let c : Client Link.Step σ := ⟨l.session, signer, token, config⟩
    ∃ message, (op.trace c s).head? = some (.signed message (c.signer.sign c.token message s).1) ∧
      ∀ tag, (c.signer.sign c.token message s).1 = .ok tag →
        ∃ request, Client.requests (op.trace c s) = [request] ∧
          (1 + request.encode.length ≤ 65535 →
            ∃ apdu body answer, (Client.sent (op.trace c s)).head? = some apdu ∧
              Apdu.Command.decode? apdu = some ⟨0x80, 0x10, 0x00, 0x00, l.command.code :: body⟩ ∧
              Answer.decode body = .ok answer ∧
              answer.IsSigned op.subCommand c.signer.protocol tag message) := by
  intro c
  obtain ⟨events, htrace⟩ := SignedOp.trace_eq (c := c) hfits s
  have hcalled := Client.called c op.subCommand op.params s
  generalize c.callSigned op.subCommand op.params s = o at htrace hcalled
  rw [htrace]
  refine ⟨Client.transcript op.subCommand op.params, ?_⟩
  cases hcalled with
  | unsigned h =>
    -- Nothing is sent without a signature.
    rw [h]
    refine ⟨rfl, ?_⟩
    intro tag htag
    cases htag
  | @signed signature s' asked h hasked =>
    rw [h]
    refine ⟨rfl, ?_⟩
    intro tag htag
    obtain rfl : signature = tag := Except.ok.inj htag
    refine ⟨c.signedRequest op.subCommand op.params signature, ?_, ?_⟩
    · rw [Client.requests_append, Client.requests_signed, Client.requests_of_asked hasked,
        Client.requests_reported, List.append_nil]
    · intro hlen
      -- The card message is unwrapped, then the request in it is decoded, then its fields are read.
      obtain ⟨apdu, more, hsent, hdecode⟩ := Client.sent_of_asked (l := l) rfl hasked hlen
      have hflat : ∀ p, (c.signedRequest op.subCommand op.params signature).params = some p → p.IsFlat :=
        fun p hp => SignedOp.isFlat_params hp
      have hread := Request.decode_encode hflat (by omega)
      refine ⟨apdu, _, _, ?_, hdecode, hread,
        Client.isSigned_signedRequest c op.params_eq_none_iff signature⟩
      rw [Client.sent_append, Client.sent_signed, hsent]
      rfl

/-- A name of four bytes passes a limit of four, and its request is received as it was signed. -/
theorem rename_received_as_signed :
    let c : Client Link.Step (List Bytes) := ⟨Link.session ⟨Link.scripted, .preview, .unknown⟩,
      ⟨2, fun _ _ s => (.ok [0xaa, 0xbb], s)⟩, ⟨[0x01]⟩, ⟨none, some 4, none⟩⟩
    let op : SignedOp := .rename [0xf0] "Left"
    op.Fits c.config ∧
      ∃ message, (op.trace c []).head? = some (.signed message (.ok [0xaa, 0xbb])) ∧
        ∃ apdu body answer, (Client.sent (op.trace c [])).head? = some apdu ∧
          Apdu.Command.decode? apdu = some ⟨0x80, 0x10, 0x00, 0x00, 0x40 :: body⟩ ∧
          Answer.decode body = .ok answer ∧
          answer.IsSigned .renameTemplate 2 [0xaa, 0xbb] message := by
  intro c op
  have hfits : op.Fits c.config := by
    intro limit hlimit
    cases hlimit
    decide
  obtain ⟨message, hhead, h⟩ := received_as_signed ⟨Link.scripted, .preview, .unknown⟩
    ⟨2, fun _ _ s => (.ok [0xaa, 0xbb], s)⟩ ⟨[0x01]⟩ ⟨none, some 4, none⟩ hfits []
  obtain ⟨request, hrequests, hreceived⟩ := h [0xaa, 0xbb] rfl
  have hlengths : (Client.requests (op.trace c [])).map (·.encode.length) = [22] := by
    decide +kernel
  change Client.requests (op.trace c []) = [request] at hrequests
  rw [hrequests] at hlengths
  have hlen : request.encode.length = 22 := List.singleton_inj.1 hlengths
  exact ⟨hfits, message, hhead, hreceived (by omega)⟩

end CtapEnroll
