import CtapEnroll.Config
import CtapEnroll.Event
import CtapEnroll.Session
/-!
# Clients

A client asks an authenticator, over a session, for what its fingerprint sensor can do. The trace of
an operation lists every signature, every request with its answer, and every event, in the order in
which they happened. Requests that change the authenticator or tell its templates go through
`callSigned`: they carry a signature over their own parameters.
-/

namespace CtapEnroll

structure Client (ω σ : Type) where
  session : Session ω σ
  signer : Signer σ
  token : Token
  config : Config := {}

namespace Client

variable {ω σ : Type}

/-- What a client did. A session's own steps stand with the exchange that they belong to. -/
inductive Step (ω : Type)
  | signed (transcript : Bytes) (tag : Except Error Bytes)
  | exchanged (request : Request) (steps : List ω) (answer : Except Error Answer)
  | reported (event : Event)

abbrev Op (ω σ α : Type) := Action Error (Step ω) σ α

/-- A client with limits and defaults, unless the device does not have the firmware they ask for. -/
def connect (session : Session ω σ) (signer : Signer σ) (token : Token) (config : Config) :
    Except Error (Client ω σ) := do
  match config.requiredFirmware with
  | some required => (session.firmware.require required).mapError Error.ofWire
  | none => pure ()
  pure ⟨session, signer, token, config⟩

def report (event : Event) : Op ω σ Unit := Action.emit (.reported event)

def sign (c : Client ω σ) (transcript : Bytes) : Op ω σ Bytes := fun s =>
  let (tag, s) := c.signer.sign c.token transcript s
  ⟨tag, [.signed transcript tag], s⟩

def exchange (c : Client ω σ) (request : Request) : Op ω σ Answer := fun s =>
  let o := c.session.exchange request s
  ⟨o.result, [.exchanged request o.trace o.result], o.state⟩

/-- Sends a request, and reports it and its answer. -/
def ask (c : Client ω σ) (subCommand : Option SubCommand) (request : Request)
    (authenticated : Bool) : Op ω σ Answer := do
  report (.sending subCommand authenticated)
  let answer ← c.exchange request
  report (.answered subCommand answer)
  pure answer

def request (subCommand : SubCommand) : Request :=
  .ofSubCommand Modality.fingerprint.code subCommand.code

def callPlain (c : Client ω σ) (subCommand : SubCommand) : Op ω σ Answer :=
  c.ask subCommand (request subCommand) false

def callSigned (c : Client ω σ) (subCommand : SubCommand) (params : Option Params) :
    Op ω σ Answer := do
  let tag ← c.sign (Request.transcript Modality.fingerprint.code subCommand.code params)
  let request := { request subCommand with params := params }
  c.ask subCommand (request.signed c.signer.protocol tag) true

end Client

end CtapEnroll
