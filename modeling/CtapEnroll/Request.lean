import CtapEnroll.Params
/-!
# Requests

A request for bio enrollment and its encoding, and the transcript that is signed for it.
-/

namespace CtapEnroll

/-- A request for bio enrollment. A field that is absent is left out of the encoding. -/
structure Request where
  modality : Option UInt8 := none
  subCommand : Option UInt8 := none
  params : Option Params := none
  authProtocol : Option UInt8 := none
  authParam : Option Bytes := none
  getModality : Bool := false

namespace Request

def ofSubCommand (modality subCommand : UInt8) : Request :=
  { modality := some modality, subCommand := some subCommand }

def askModality : Request := { getModality := true }

/-- The request with a signature under a protocol. -/
def signed (r : Request) (protocol : UInt8) (tag : Bytes) : Request :=
  { r with authProtocol := some protocol, authParam := some tag }

def toMap (r : Request) : Params :=
  let number (n : UInt8) : Cbor.Value := .unsigned n.toUInt64
  SortedMap.empty
    |>.insert? 0x01 (r.modality.map number)
    |>.insert? 0x02 (r.subCommand.map number)
    |>.insert? 0x03 (r.params.map Params.toValue)
    |>.insert? 0x04 (r.authProtocol.map number)
    |>.insert? 0x05 (r.authParam.map .bytes)
    |>.insert? 0x06 (if r.getModality then some (.bool true) else none)

def encode (r : Request) : Bytes := r.toMap.encode

/-- What is signed for a sub-command: its modality, its code, and its parameters as they are sent.
Empty parameters are signed, absent ones are not. -/
def transcript (modality subCommand : UInt8) (params : Option Params) : Bytes :=
  modality :: subCommand ::
    match params with
    | some params => params.encode
    | none => []

end Request

end CtapEnroll
