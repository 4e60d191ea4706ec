import CtapEnroll.Client.Operations
/-!
# Enrolling with a client

A client takes the samples of an enrollment one by one. An enrollment is part of the state, so it is
kept as it is where an operation fails.
-/

namespace CtapEnroll.Client

variable {ω σ : Type}

abbrev EnrollmentOp (ω σ α : Type) := Action Error (Step ω) (Enrollment × σ) α

/-- A new enrollment, with the configured timeout unless it has its own. -/
def enroll (c : Client ω σ) (timeout : Option UInt32) : Enrollment :=
  .new (timeout.or c.config.defaultTimeout)

def update (f : Enrollment → Enrollment) : EnrollmentOp ω σ Unit :=
  Action.change fun (e, s) => (f e, s)

/-- Sends the request that takes the next sample. The template of a beginning is kept at once,
whatever its sample is like. -/
def nextSample (c : Client ω σ) (timeout : Option UInt32) :
    Plan → EnrollmentOp ω σ (TemplateId × Sample)
  | .begin => do
    let begun ← Action.onSecond (c.beginEnrollment timeout)
    update (·.adopt begun.template)
    pure (begun.template, begun.sample)
  | .next template => do
    let sample ← Action.onSecond (c.captureNext template timeout)
    pure (template, sample)

/-- What the report on a sample means for its enrollment. A rejected sample is an error, after which
the next call tries again. -/
def settle (template : TemplateId) (sample : Sample) : EnrollmentOp ω σ (Option TemplateId) := do
  if !sample.status.isGood then Action.fail (.sampleRejected sample.status)
  else do
    update (·.accept sample.remaining)
    if sample.remaining = 0 then
      report (.completed template)
      pure (some template)
    else pure none

/-- Takes the next sample of an enrollment. The result is the template once no more are needed. -/
def capture (c : Client ω σ) : EnrollmentOp ω σ (Option TemplateId) := do
  let enrollment ← Action.inspect Prod.fst
  match enrollment.plan with
  | none => Action.fail (.enrollmentOver enrollment.phase)
  | some plan => do
    let (template, sample) ← c.nextSample enrollment.timeout plan
    settle template sample

def cancel (c : Client ω σ) : EnrollmentOp ω σ Unit := do
  Action.onSecond c.cancelEnrollment
  update (·.cancel)

end CtapEnroll.Client
