import CtapEnroll.Answer
import CtapEnroll.Command
import CtapEnroll.Fingerprint
import CtapEnroll.Log
/-!
# Events

What a client reports while it works, and how that reads in a log. Identifiers are logged, names of
templates are not.
-/

namespace CtapEnroll

/-- Something that an observer of a client may want to know. A request without a sub-command is the
one for the modality. -/
inductive Event
  | sending (subCommand : Option SubCommand) (authenticated : Bool)
  | answered (subCommand : Option SubCommand) (answer : Answer)
  | sampled (sample : Sample)
  /-- The last sample of an enrollment was accepted. -/
  | completed (template : TemplateId)
  | cancelled
  | listed (listing : Listing)
  | renamed (template : TemplateId) (name : String)
  | removed (template : TemplateId)

namespace Event

def title : Option SubCommand → String
  | some subCommand => subCommand.display
  | none => "getModality"

/-- What a request begins, where it takes part in an enrollment. -/
def announcement : Option SubCommand → List Log.Record
  | some .beginEnrollment => [⟨.debug, "Starting fingerprint enrollment"⟩]
  | some .captureNext => [⟨.debug, "Capturing next sample"⟩]
  | some .cancelEnrollment => [⟨.debug, "Cancelling fingerprint enrollment"⟩]
  | _ => []

def log : Event → List Log.Record
  | sending subCommand authenticated =>
    let name := title subCommand
    announcement subCommand ++
      [⟨.trace, s!"Sending bio enrollment {name} (authenticated: {authenticated})"⟩]
  | answered subCommand answer =>
    let name := title subCommand
    [⟨.trace, s!"Bio enrollment {name} succeeded (empty response: {answer.isEmpty})"⟩]
  | sampled sample =>
    let remaining := sample.remaining.toNat
    [⟨.debug, s!"Sample capture result: {sample.status.display}, {remaining} sample(s) remaining"⟩]
  | completed template => [⟨.info, s!"Fingerprint enrolled: {template.display}"⟩]
  | cancelled => [⟨.debug, "Fingerprint enrollment cancelled"⟩]
  | listed listing =>
    if listing.isEmpty then [⟨.debug, "No fingerprints enrolled"⟩]
    else [⟨.debug, s!"Enumerated {listing.size} fingerprint template(s)"⟩]
  | renamed template _ => [⟨.info, s!"Fingerprint template renamed: {template.display}"⟩]
  | removed template => [⟨.info, s!"Fingerprint template deleted: {template.display}"⟩]

end Event

end CtapEnroll
