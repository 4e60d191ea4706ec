import CtapEnroll.Action
import CtapEnroll.Apdu
import CtapEnroll.Command
import CtapEnroll.Error
import CtapEnroll.Log
import CtapEnroll.Request
import CtapEnroll.Answer
/-!
# Commands over a smart card

A link carries commands to an authenticator behind a smart-card reader. A command is one card
message; its response may come in pieces, which are fetched one by one. The trace of a link lists
every message that was given to the card, with its answer, and every notice between them.
-/

namespace CtapEnroll

/-- A card in a reader: it answers a message with bytes, or the reader reports why it could not be
reached. -/
abbrev Card (σ : Type) := Bytes → σ → Except String Bytes × σ

namespace Link

inductive Notice
  | sending (command : UInt8) (payloadLength : Nat)
  | incomplete (rounds : Nat)
  | cardRefused (word : UInt16)
  | refused (command : UInt8) (status : Status)
  deriving DecidableEq, Repr

def Notice.log : Notice → Log.Record
  | sending command payloadLength =>
    ⟨.trace, "CTAP command 0x" ++ hex 2 command.toNat ++ s!", {payloadLength} byte payload"⟩
  | incomplete rounds =>
    ⟨.debug, s!"Response still incomplete after {rounds} GET RESPONSE rounds"⟩
  | cardRefused word => ⟨.debug, "APDU failed with SW=0x" ++ hex 4 word.toNat⟩
  | refused command status =>
    ⟨.debug, "CTAP command 0x" ++ hex 2 command.toNat ++ " failed: " ++ status.display⟩

inductive Step
  | transmitted (message : Bytes) (answer : Except String Bytes)
  | noticed (notice : Notice)

end Link

/-- A card with the command that bio enrollment is sent under, and the firmware of the device. -/
structure Link (σ : Type) where
  card : Card σ
  command : BioCommand := .standard
  firmware : Version := .unknown

namespace Link

variable {σ : Type}

def exchange (card : Card σ) (message : Bytes) : Action Error Step σ Apdu.Response := fun s =>
  let (answer, s) := card message s
  let result :=
    match answer with
    | .error reason => .error (.unreachable reason)
    | .ok b => (Apdu.Response.parse b).mapError Error.ofWire
  ⟨result, [.transmitted message answer], s⟩

def transmit (card : Card σ) (c : Apdu.Command) : Action Error Step σ Apdu.Response := do
  let message ← Action.ofExcept (c.encode.mapError Error.ofWire)
  exchange card message

/-- The command that fetches the next piece of a response. -/
def getResponse : Apdu.Command := ⟨0x00, 0xc0, 0x00, 0x00, []⟩

/-- The pieces that are fetched for one command at most. -/
def maxRounds : Nat := 64

/-- The whole response that starts with this one, fetched in at most `rounds` more pieces. -/
def collect (card : Card σ) : (rounds : Nat) → Apdu.Response → Action Error Step σ Bytes
  | 0, response => do
    -- A card that still has more is cut off.
    if Apdu.StatusWord.hasMore response.word then
      Action.emit (.noticed (.incomplete maxRounds))
      Action.fail (.cardRefused response.word)
    else finish response
  | rounds + 1, response => do
    if Apdu.StatusWord.hasMore response.word then
      let next ← transmit card getResponse
      collect card rounds ⟨response.body ++ next.body, next.word⟩
    else finish response
where
  finish (response : Apdu.Response) : Action Error Step σ Bytes := do
    if response.word = Apdu.StatusWord.success then pure response.body
    else
      Action.emit (.noticed (.cardRefused response.word))
      Action.fail (.cardRefused response.word)

def message (command : UInt8) (payload : Bytes) : Apdu.Command :=
  ⟨0x80, 0x10, 0x00, 0x00, command :: payload⟩

/-- The answer in a response: a status byte and, after success, a map. -/
def readAnswer (command : UInt8) : Bytes → Action Error Step σ Answer
  | [] => Action.fail (.tooShort 0)
  | status :: body => do
    let status : Status := .ofCode status
    if status.isSuccess then Action.ofExcept ((Answer.decode body).mapError Error.ofWire)
    else
      Action.emit (.noticed (.refused command status))
      Action.fail (.refused status)

def send (card : Card σ) (command : UInt8) (payload : Bytes) :
    Action Error Step σ Answer := do
  Action.emit (.noticed (.sending command payload.length))
  let response ← transmit card (message command payload)
  let answer ← collect card maxRounds response
  readAnswer command answer

def ask (l : Link σ) (request : Request) : Action Error Step σ Answer :=
  send l.card l.command.code request.encode

end Link

end CtapEnroll
