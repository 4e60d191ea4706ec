import CtapEnroll.Client.Capture
import CtapEnroll.Proofs.Calls
/-!
# What captures and cancels do to an enrollment

`captured` and `dropped` sum up the two calls on an enrollment: a capture does one of five things, and a
cancel one of two. A `Run` is any sequence of them, each with a client of its own and in any state of
the world, so whatever other use is made of the authenticator between two calls is covered. Theorems
about runs are case analyses over these cases.
-/

namespace CtapEnroll

namespace Enrollment

theorem adopt_of_plan {e : Enrollment} {id : TemplateId} (h : e.plan = some (.next id)) :
    e.adopt id = e := by
  rcases e with ⟨timeout, template, remaining, phase⟩
  cases phase <;> cases template <;> simp [plan] at h
  rw [h]
  rfl

/-- The enrollment once a sample was asked for. -/
def after (e : Enrollment) : Except Error (TemplateId × Sample) → Enrollment
  | .ok (id, _) => e.adopt id
  | .error _ => e

end Enrollment

namespace Client

variable {ω σ : Type}

/-- The request of a plan: the template that it belongs to, and the report on the sample. -/
def sample (c : Client ω σ) (timeout : Option UInt32) : Plan → Op ω σ (TemplateId × Sample)
  | .begin => (fun begun => (begun.template, begun.sample)) <$> c.beginEnrollment timeout
  | .next id => (fun sample => (id, sample)) <$> c.captureNext id timeout

/-! ## Captures -/

/-- What a capture of an enrollment comes to. -/
inductive Captured (c : Client ω σ) (e : Enrollment) (s : σ) :
    Outcome Error (Step ω) (Enrollment × σ) (Option TemplateId) → Prop
  -- The enrollment has ended: nothing is done.
  | ended (h : e.plan = none) : Captured c e s ⟨.error (.enrollmentOver e.phase), [], (e, s)⟩
  -- The request fails: the enrollment stays as it is.
  | failed {plan : Plan} {err : Error} {trace : List (Step ω)} {s' : σ} (h : e.plan = some plan)
      (hsample : c.sample e.timeout plan s = ⟨.error err, trace, s'⟩) :
      Captured c e s ⟨.error err, trace, (e, s')⟩
  -- The sample is rejected: the template is kept.
  | rejected {plan : Plan} {id : TemplateId} {sample : Sample} {trace : List (Step ω)} {s' : σ}
      (h : e.plan = some plan) (hsample : c.sample e.timeout plan s = ⟨.ok (id, sample), trace, s'⟩)
      (hbad : sample.status.isGood = false) :
      Captured c e s ⟨.error (.sampleRejected sample.status), trace, (e.adopt id, s')⟩
  -- The sample is accepted, and more are needed.
  | accepted {plan : Plan} {id : TemplateId} {sample : Sample} {trace : List (Step ω)} {s' : σ}
      (h : e.plan = some plan) (hsample : c.sample e.timeout plan s = ⟨.ok (id, sample), trace, s'⟩)
      (hgood : sample.status.isGood = true) (hmore : sample.remaining ≠ 0) :
      Captured c e s ⟨.ok none, trace, ((e.adopt id).accept sample.remaining, s')⟩
  -- The sample is accepted, and was the last one.
  | completed {plan : Plan} {id : TemplateId} {sample : Sample} {trace : List (Step ω)} {s' : σ}
      (h : e.plan = some plan) (hsample : c.sample e.timeout plan s = ⟨.ok (id, sample), trace, s'⟩)
      (hgood : sample.status.isGood = true) (hlast : sample.remaining = 0) :
      Captured c e s ⟨.ok (some id), trace ++ [.reported (.completed id)], ((e.adopt id).accept 0, s')⟩

/-- A sample that was taken leaves its template with the enrollment, and one that failed nothing. -/
theorem nextSample_eq (c : Client ω σ) {e : Enrollment} {plan : Plan} (h : e.plan = some plan) (s : σ) :
    c.nextSample e.timeout plan (e, s) =
      ⟨(c.sample e.timeout plan s).result, (c.sample e.timeout plan s).trace,
        (e.after (c.sample e.timeout plan s).result, (c.sample e.timeout plan s).state)⟩ := by
  cases plan with
  | begin =>
    rw [sample, Action.map_run, nextSample]
    rcases hbegin : c.beginEnrollment e.timeout s with ⟨result, trace, s'⟩
    have hsecond := Action.onSecond_run hbegin e
    cases result with
    | error err => exact Action.bind_of_error hsecond
    | ok begun =>
      rw [Action.bind_of_ok hsecond]
      simp [update, Action.change, bind, Action.bind, pure, Action.pure, Except.map, Enrollment.after]
  | next id =>
    rw [sample, Action.map_run, nextSample]
    rcases hnext : c.captureNext id e.timeout s with ⟨result, trace, s'⟩
    have hsecond := Action.onSecond_run hnext e
    cases result with
    | error err => exact Action.bind_of_error hsecond
    | ok report =>
      -- The enrollment has this template already, so adopting it changes nothing.
      rw [Action.bind_of_ok hsecond]
      simp [pure, Action.pure, Except.map, Enrollment.after, Enrollment.adopt_of_plan h]

theorem capture_of_plan (c : Client ω σ) {e : Enrollment} {plan : Plan} (h : e.plan = some plan) (s : σ) :
    c.capture (e, s) = (c.nextSample e.timeout plan >>= fun taken => settle taken.1 taken.2) (e, s) := by
  unfold capture
  rw [Action.inspect_bind]
  simp only [h]

theorem settle_of_bad {sample : Sample} (h : sample.status.isGood = false) (id : TemplateId)
    (e : Enrollment) (s : σ) :
    (settle id sample : EnrollmentOp ω σ _) (e, s) = ⟨.error (.sampleRejected sample.status), [], (e, s)⟩ := by
  unfold settle
  simp only [h, Bool.not_false, if_true]
  rfl

theorem settle_of_more {sample : Sample} (h : sample.status.isGood = true) (hmore : sample.remaining ≠ 0)
    (id : TemplateId) (e : Enrollment) (s : σ) :
    (settle id sample : EnrollmentOp ω σ _) (e, s) = ⟨.ok none, [], (e.accept sample.remaining, s)⟩ := by
  unfold settle
  simp only [h, Bool.not_true, Bool.false_eq_true, if_false, hmore]
  rfl

theorem settle_of_last {sample : Sample} (h : sample.status.isGood = true) (hlast : sample.remaining = 0)
    (id : TemplateId) (e : Enrollment) (s : σ) :
    (settle id sample : EnrollmentOp ω σ _) (e, s) =
      ⟨.ok (some id), [.reported (.completed id)], (e.accept 0, s)⟩ := by
  unfold settle
  simp only [h, Bool.not_true, Bool.false_eq_true, if_false, hlast, if_true]
  rfl

theorem capture_of_over (c : Client ω σ) {e : Enrollment} (h : e.plan = none) (s : σ) :
    c.capture (e, s) = ⟨.error (.enrollmentOver e.phase), [], (e, s)⟩ := by
  unfold capture
  rw [Action.inspect_bind]
  simp only [h]
  rfl

theorem captured (c : Client ω σ) (e : Enrollment) (s : σ) : Captured c e s (c.capture (e, s)) := by
  cases hplan : e.plan with
  | none =>
    rw [capture_of_over c hplan]
    exact .ended hplan
  | some plan =>
    rw [capture_of_plan c hplan]
    have hnext := c.nextSample_eq hplan s
    rcases hsample : c.sample e.timeout plan s with ⟨result, trace, s'⟩
    rw [hsample] at hnext
    cases result with
    | error err =>
      rw [Action.bind_of_error hnext]
      exact .failed hplan hsample
    | ok taken =>
      obtain ⟨id, sample⟩ := taken
      rw [Action.bind_of_ok hnext, Enrollment.after]
      cases hgood : sample.status.isGood with
      | false =>
        rw [settle_of_bad hgood, List.append_nil]
        exact .rejected hplan hsample hgood
      | true =>
        by_cases hlast : sample.remaining = 0
        · rw [settle_of_last hgood hlast]
          exact .completed hplan hsample hgood hlast
        · rw [settle_of_more hgood hlast, List.append_nil]
          exact .accepted hplan hsample hgood hlast

theorem sample_next {c : Client ω σ} {timeout : Option UInt32} {template id : TemplateId} {report : Sample}
    {trace : List (Step ω)} {s s' : σ}
    (h : c.sample timeout (.next template) s = ⟨.ok (id, report), trace, s'⟩) : id = template := by
  rw [sample, Action.map_run] at h
  have hresult := congrArg Outcome.result h
  cases hnext : (c.captureNext template timeout s).result with
  | error e =>
    rw [hnext] at hresult
    cases hresult
  | ok sample =>
    rw [hnext] at hresult
    cases hresult
    rfl

/-! ## Cancels -/

/-- What a cancel of an enrollment comes to. -/
inductive Dropped (c : Client ω σ) (e : Enrollment) (s : σ) :
    Outcome Error (Step ω) (Enrollment × σ) Unit → Prop
  -- The request fails: the enrollment stays as it is.
  | failed {err : Error} {trace : List (Step ω)} {s' : σ}
      (h : c.cancelEnrollment s = ⟨.error err, trace, s'⟩) : Dropped c e s ⟨.error err, trace, (e, s')⟩
  | cancelled {trace : List (Step ω)} {s' : σ} (h : c.cancelEnrollment s = ⟨.ok (), trace, s'⟩) :
      Dropped c e s ⟨.ok (), trace, (e.cancel, s')⟩

theorem dropped (c : Client ω σ) (e : Enrollment) (s : σ) : Dropped c e s (c.cancel (e, s)) := by
  rcases h : c.cancelEnrollment s with ⟨result, trace, s'⟩
  have hsecond := Action.onSecond_run h e
  unfold cancel
  cases result with
  | error err =>
    rw [Action.bind_of_error hsecond]
    exact .failed h
  | ok _ =>
    rw [Action.bind_of_ok hsecond]
    simpa [update, Action.change] using Dropped.cancelled h

end Client

/-! ## Runs -/

open Client

/-- One call on an enrollment: its result, and what was done for it. -/
inductive Turn (ω : Type)
  | capture (result : Except Error (Option TemplateId)) (steps : List (Client.Step ω))
  | cancel (result : Except Error Unit) (steps : List (Client.Step ω))

/-- Sequences of captures and cancels from an enrollment: the enrollment after them, and the calls in
order. -/
inductive Run (ω σ : Type) (start : Enrollment) : Enrollment → List (Turn ω) → Prop
  | nil : Run ω σ start start []
  | capture {e : Enrollment} {turns : List (Turn ω)} (h : Run ω σ start e turns) (c : Client ω σ) (s : σ) :
      Run ω σ start (c.capture (e, s)).state.1
        (turns ++ [.capture (c.capture (e, s)).result (c.capture (e, s)).trace])
  | cancel {e : Enrollment} {turns : List (Turn ω)} (h : Run ω σ start e turns) (c : Client ω σ) (s : σ) :
      Run ω σ start (c.cancel (e, s)).state.1
        (turns ++ [.cancel (c.cancel (e, s)).result (c.cancel (e, s)).trace])

/-- What holds at the start and is kept by every capture and cancel holds after every run. -/
theorem Run.inv {ω σ : Type} (I : Enrollment → Prop)
    (hcapture : ∀ (c : Client ω σ) e s, I e → I (c.capture (e, s)).state.1)
    (hcancel : ∀ (c : Client ω σ) e s, I e → I (c.cancel (e, s)).state.1)
    {start e : Enrollment} {turns : List (Turn ω)} (h : Run ω σ start e turns) (hstart : I start) : I e := by
  induction h with
  | nil => exact hstart
  | capture _ c s ih => exact hcapture c _ s ih
  | cancel _ c s ih => exact hcancel c _ s ih

end CtapEnroll
