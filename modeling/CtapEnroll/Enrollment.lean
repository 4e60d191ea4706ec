import CtapEnroll.Fingerprint
/-!
# Enrollments

An enrollment collects samples of one finger into one template. It starts without a template, takes
the one that the authenticator allocates with the first sample, and ends when no more samples are
needed or when it is cancelled. `Enrollment.plan` says which request takes the next sample, and the
transitions what its answer does; only an accepted sample changes the number of remaining ones.
-/

namespace CtapEnroll

/-- Where an enrollment is, without its data. -/
inductive Phase
  | notStarted
  | inProgress
  | complete
  | cancelled
  deriving DecidableEq, Repr

namespace Phase

def isTerminal : Phase → Bool
  | notStarted => false
  | inProgress => false
  | complete => true
  | cancelled => true

def display : Phase → String
  | notStarted => "not started"
  | inProgress => "in progress"
  | complete => "complete"
  | cancelled => "cancelled"

end Phase

structure Enrollment where
  /-- The time, in milliseconds, that the sensor waits for each sample. -/
  timeout : Option UInt32
  /-- The template that the authenticator allocated, until the enrollment is cancelled. -/
  template? : Option TemplateId
  /-- The samples still needed, as of the last accepted one. -/
  remaining? : Option UInt32
  phase : Phase
  deriving DecidableEq, Repr

inductive Plan
  | begin
  | next (template : TemplateId)
  deriving DecidableEq, Repr

namespace Enrollment

def new (timeout : Option UInt32) : Enrollment := ⟨timeout, none, none, .notStarted⟩

def isComplete (e : Enrollment) : Bool := e.phase = .complete

/-- What takes the next sample; nothing does once the enrollment has ended. An enrollment in
progress goes on with its template, and any other begins one. -/
def plan (e : Enrollment) : Option Plan :=
  match e.phase, e.template? with
  | .complete, _ => none
  | .cancelled, _ => none
  | .inProgress, some template => some (.next template)
  | _, _ => some .begin

/-- The enrollment holds the template that a beginning allocated, whatever its first sample was. -/
def adopt (e : Enrollment) (template : TemplateId) : Enrollment :=
  { e with template? := some template, phase := .inProgress }

/-- An accepted sample leaves this many to take; after the last one the enrollment is complete. -/
def accept (e : Enrollment) (remaining : UInt32) : Enrollment :=
  { e with
    remaining? := some remaining
    phase := if remaining = 0 then .complete else .inProgress }

/-- The enrollment after the authenticator was told to drop it. -/
def cancel (e : Enrollment) : Enrollment := { e with template? := none, phase := .cancelled }

/-! ## What each transition shows -/

@[simp] theorem timeout_adopt (e : Enrollment) (id : TemplateId) :
    (e.adopt id).timeout = e.timeout := rfl

@[simp] theorem template?_adopt (e : Enrollment) (id : TemplateId) :
    (e.adopt id).template? = some id := rfl

@[simp] theorem remaining?_adopt (e : Enrollment) (id : TemplateId) :
    (e.adopt id).remaining? = e.remaining? := rfl

@[simp] theorem phase_adopt (e : Enrollment) (id : TemplateId) :
    (e.adopt id).phase = .inProgress := rfl

@[simp] theorem timeout_accept (e : Enrollment) (n : UInt32) :
    (e.accept n).timeout = e.timeout := rfl

@[simp] theorem template?_accept (e : Enrollment) (n : UInt32) :
    (e.accept n).template? = e.template? := rfl

@[simp] theorem remaining?_accept (e : Enrollment) (n : UInt32) :
    (e.accept n).remaining? = some n := rfl

theorem phase_accept (e : Enrollment) (n : UInt32) :
    (e.accept n).phase = if n = 0 then .complete else .inProgress := rfl

@[simp] theorem timeout_cancel (e : Enrollment) : e.cancel.timeout = e.timeout := rfl

@[simp] theorem template?_cancel (e : Enrollment) : e.cancel.template? = none := rfl

@[simp] theorem remaining?_cancel (e : Enrollment) : e.cancel.remaining? = e.remaining? := rfl

@[simp] theorem phase_cancel (e : Enrollment) : e.cancel.phase = .cancelled := rfl

end Enrollment

end CtapEnroll
