import CtapEnroll.Client.Fields
/-!
# Operations of a client

What a client can do with an authenticator: ask about its sensor, take samples for a new template,
and list, name and remove templates. An operation reports its outcome last, and only when it
succeeds.
-/

namespace CtapEnroll.Client

variable {ω σ α β : Type}

/-- Reads what a call came to, and reports what that says. -/
def conclude (call : Op ω σ β) (read : β → Except Error α) (event : α → Event) : Op ω σ α := do
  let outcome ← call
  let value ← Action.ofExcept (read outcome)
  report (event value)
  pure value

/-- Any answer will do. -/
def acknowledge (_ : Answer) : Except Error Unit := .ok ()

/-! ## The sensor -/

def modality (c : Client ω σ) : Op ω σ Modality := do
  let answer ← c.ask none .askModality false
  Action.ofExcept (Modality.ofAnswer answer)

def sensor (c : Client ω σ) : Op ω σ Sensor := do
  let answer ← c.callPlain .describeSensor
  Action.ofExcept (Sensor.ofAnswer answer)

/-! ## Samples -/

def beginEnrollment (c : Client ω σ) (timeout : Option UInt32) : Op ω σ Beginning :=
  conclude (c.callSigned .beginEnrollment (some (Params.withTimeout .empty timeout)))
    Beginning.ofAnswer fun begun => .sampled begun.sample

def captureNext (c : Client ω σ) (id : TemplateId) (timeout : Option UInt32) : Op ω σ Sample :=
  conclude (c.callSigned .captureNext (some ((Params.ofTemplate id).withTimeout timeout)))
    Sample.ofAnswer .sampled

/-- Drops the template that the authenticator has in progress, if there is one. -/
def cancelEnrollment (c : Client ω σ) : Op ω σ Unit :=
  conclude (c.callPlain .cancelEnrollment) acknowledge fun _ => .cancelled

/-! ## Templates -/

/-- The listing that a call came to. An authenticator without any template refuses to list them, for
which the listing is empty. -/
def readListing : Except Error Answer → Except Error Listing
  | .ok answer => (Listing.ofAnswer answer).mapError Error.ofWire
  | .error e => if e = .refused .invalidOption then .ok .empty else .error e

def templates (c : Client ω σ) : Op ω σ Listing :=
  conclude (Action.attempt (c.callSigned .listTemplates none)) readListing .listed

/-- The name fits the configured limit, in bytes. -/
def checkName (c : Client ω σ) (name : String) : Op ω σ Unit :=
  match c.config.maxNameLength with
  | some limit =>
    if name.utf8ByteSize ≤ limit then pure ()
    else Action.fail (.nameTooLong name.utf8ByteSize limit)
  | none => pure ()

def rename (c : Client ω σ) (id : TemplateId) (name : String) : Op ω σ Unit := do
  c.checkName name
  conclude (c.callSigned .renameTemplate (some ((Params.ofTemplate id).withName name))) acknowledge
    fun _ => .renamed id name

def remove (c : Client ω σ) (id : TemplateId) : Op ω σ Unit :=
  conclude (c.callSigned .removeTemplate (some (Params.ofTemplate id))) acknowledge
    fun _ => .removed id

end CtapEnroll.Client
