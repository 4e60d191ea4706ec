import CtapEnroll.Client.Capture
/-!
# Programs

What the user of a client can do with it: any sequence of its operations, and of captures and cancels
of any number of enrollments. Each operation finds the world as the one before left it, also where that
one failed.
-/

namespace CtapEnroll

variable {ω σ α : Type}

/-- What a client can be asked to do. Enrollments are told apart by numbers. -/
inductive Operation
  | modality
  | sensor
  | begin (timeout : Option UInt32)
  | next (id : TemplateId) (timeout : Option UInt32)
  | cancelCurrent
  | list
  | rename (id : TemplateId) (name : String)
  | remove (id : TemplateId)
  | enroll (slot : Nat) (timeout : Option UInt32)
  | capture (slot : Nat)
  | cancel (slot : Nat)

/-- The value of an operation that succeeds. -/
inductive Yield
  | done
  | modality (modality : Modality)
  | sensor (sensor : Sensor)
  | begun (beginning : Beginning)
  | sampled (sample : Sample)
  | listed (listing : Listing)
  | captured (template? : Option TemplateId)

/-- The enrollments by their numbers, and the state of everything that is not the user's. -/
abbrev World (σ : Type) := (Nat → Enrollment) × σ

/-- A call on the enrollment with a number. -/
def onEnrollment (slot : Nat) (x : Client.EnrollmentOp ω σ α) :
    Action Error (Client.Step ω) (World σ) α := fun w =>
  let o := x (w.1 slot, w.2)
  ⟨o.result, o.trace, (fun n => if n = slot then o.state.1 else w.1 n, o.state.2)⟩

def Operation.act (c : Client ω σ) : Operation → Action Error (Client.Step ω) (World σ) Yield
  | modality => .modality <$> Action.onSecond c.modality
  | sensor => .sensor <$> Action.onSecond c.sensor
  | begin timeout => .begun <$> Action.onSecond (c.beginEnrollment timeout)
  | next id timeout => .sampled <$> Action.onSecond (c.captureNext id timeout)
  | cancelCurrent => (fun _ => .done) <$> Action.onSecond c.cancelEnrollment
  | list => .listed <$> Action.onSecond c.templates
  | rename id name => (fun _ => .done) <$> Action.onSecond (c.rename id name)
  | remove id => (fun _ => .done) <$> Action.onSecond (c.remove id)
  | enroll slot timeout =>
    (fun _ => .done) <$> onEnrollment slot (Client.update fun _ => c.enroll timeout)
  | capture slot => .captured <$> onEnrollment slot c.capture
  | cancel slot => (fun _ => .done) <$> onEnrollment slot c.cancel

/-- What came of one operation, and what was done for it. -/
structure Performed (ω : Type) where
  result : Except Error Yield
  steps : List (Client.Step ω)

/-- Performs operations one after the other. -/
def perform (c : Client ω σ) : List Operation → World σ → List (Performed ω) × World σ
  | [], w => ([], w)
  | op :: ops, w =>
    let o := op.act c w
    let rest := perform c ops o.state
    (⟨o.result, o.trace⟩ :: rest.1, rest.2)

/-- What was performed is an operation in some world. -/
theorem exists_of_mem_perform {c : Client ω σ} {ops : List Operation} {w : World σ} {p : Performed ω}
    (h : p ∈ (perform c ops w).1) :
    ∃ op ∈ ops, ∃ w, p = ⟨(op.act c w).result, (op.act c w).trace⟩ := by
  induction ops generalizing w with
  | nil => cases h
  | cons op ops ih =>
    rcases List.mem_cons.1 h with rfl | h
    · exact ⟨op, List.mem_cons_self, w, rfl⟩
    · obtain ⟨other, hother, hp⟩ := ih h
      exact ⟨other, List.mem_cons_of_mem op hother, hp⟩

end CtapEnroll
