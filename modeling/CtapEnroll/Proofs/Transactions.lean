import Mathlib.Logic.Function.Basic
import CtapEnroll.Proofs.Captures
import CtapEnroll.Proofs.Programs
import CtapEnroll.Proofs.SignedRequests
/-!
# Operations as transactions

Eight operations of a client take one transaction with the authenticator each: a query, a reading of
what it came to, and a report if the reading succeeds. A capture and a cancel are such a transaction,
and change their enrollment afterwards. `Transaction.act_of_allowed` and `Operation.act_of_transaction`
say so; what is proved of queries, readings and closings holds of all operations by them.
-/

namespace CtapEnroll

variable {ω σ : Type}

/-! ## What a trace tells -/

namespace Client

def Step.exchange? : Step ω → Option (Request × List ω × Except Error Answer)
  | .exchanged request steps answer => some (request, steps, answer)
  | _ => none

/-- What was given to the session, in order: each request with the steps that were taken for it, and with its
answer. -/
def exchanges (steps : List (Step ω)) : List (Request × List ω × Except Error Answer) :=
  steps.filterMap Step.exchange?

@[simp] theorem exchanges_append (a b : List (Step ω)) : exchanges (a ++ b) = exchanges a ++ exchanges b :=
  List.filterMap_append ..

@[simp] theorem exchanges_reported (reported : List Event) :
    exchanges (reported.map .reported : List (Step ω)) = [] := by
  induction reported with
  | nil => rfl
  | cons event reported ih => exact ih

theorem requests_eq (steps : List (Step ω)) : requests steps = (exchanges steps).map Prod.fst := by
  unfold requests exchanges
  rw [List.map_filterMap]
  congr 1
  funext step
  cases step <;> rfl

def Step.event? : Step ω → Option Event
  | .reported event => some event
  | _ => none

/-- What was reported, in order. -/
def events (steps : List (Step ω)) : List Event := steps.filterMap Step.event?

@[simp] theorem events_append (a b : List (Step ω)) : events (a ++ b) = events a ++ events b :=
  List.filterMap_append ..

@[simp] theorem events_reported (reported : List Event) :
    events (reported.map .reported : List (Step ω)) = reported := by
  induction reported with
  | nil => rfl
  | cons event reported ih => exact congrArg (event :: ·) ih

theorem sent_eq (steps : List (Step Link.Step)) :
    sent steps = (exchanges steps).flatMap fun x => Link.messages x.2.1 := by
  induction steps with
  | nil => rfl
  | cons step steps ih =>
    cases step with
    | signed _ _ => exact ih
    | exchanged _ taken _ => exact congrArg (Link.messages taken ++ ·) ih
    | reported _ => exact ih

@[simp] theorem sent_reported (reported : List Event) :
    sent (reported.map .reported : List (Step Link.Step)) = [] := by
  rw [sent_eq, exchanges_reported]
  rfl

end Client

/-! ## Transactions -/

/-- What a transaction asks of the authenticator. -/
inductive Query
  | plain (subCommand : Option SubCommand) (request : Request)
  | signed (subCommand : SubCommand) (params : Option Params)

def Query.ask (c : Client ω σ) : Query → Client.Op ω σ Answer
  | plain subCommand request => c.ask subCommand request false
  | signed subCommand params => c.callSigned subCommand params

theorem exchanges_of_asked {c : Client ω σ} {subCommand : Option SubCommand} {request : Request}
    {authenticated : Bool} {s : σ} {o : Outcome Error (Client.Step ω) σ Answer}
    (h : Client.Asked c subCommand request authenticated s o) :
    let x := c.session.exchange request s
    o.result = x.result ∧ Client.exchanges o.trace = [(request, x.trace, x.result)] := by
  cases h with
  | unanswered h =>
    rw [h]
    exact ⟨rfl, rfl⟩
  | answered h =>
    rw [h]
    exact ⟨rfl, rfl⟩

/-- A protocol refuses to sign for its token alone. -/
theorem AuthProtocol.exists_of_sign_error {p : AuthProtocol} {token : Token} {message : Bytes} {s : σ} {e : Error}
    (h : ((p.signer : Signer σ).sign token message s).1 = .error e) : ∃ fault, e = .badToken fault := by
  change (p.sign token.bytes message).mapError Error.badToken = .error e at h
  cases hsign : p.sign token.bytes message with
  | ok tag =>
    rw [hsign] at h
    cases h
  | error fault =>
    rw [hsign] at h
    cases h
    exact ⟨fault, rfl⟩

/-- A query comes to the error of the signer, or to what the session makes of one request. -/
theorem Query.ask_cases (c : Client ω σ) (q : Query) (s : σ) :
    (∃ message e, (c.signer.sign c.token message s).1 = .error e ∧ (q.ask c s).result = .error e ∧
      (q.ask c s).trace = [.signed message (.error e)]) ∨
    ∃ request s', let x := c.session.exchange request s'
      (q.ask c s).result = x.result ∧ Client.exchanges (q.ask c s).trace = [(request, x.trace, x.result)] := by
  cases q with
  | plain subCommand request => exact .inr ⟨request, s, exchanges_of_asked (Client.asked ..)⟩
  | signed subCommand params =>
    rw [ask]
    have hcalled := Client.called c subCommand params s
    generalize c.callSigned subCommand params s = o at hcalled ⊢
    cases hcalled with
    | unsigned h => exact .inl ⟨_, _, congrArg Prod.fst h, rfl, rfl⟩
    | signed h hasked =>
      -- The use of the signer in front is no exchange.
      obtain ⟨hresult, hexchanges⟩ := exchanges_of_asked hasked
      exact .inr ⟨_, _, hresult, hexchanges⟩

/-- The operations of a client that have to do with the authenticator. -/
inductive Transaction
  | modality
  | sensor
  | begin (timeout : Option UInt32)
  | next (id : TemplateId) (timeout : Option UInt32)
  | cancel
  | list
  | rename (id : TemplateId) (name : String)
  | remove (id : TemplateId)

namespace Transaction

def act (c : Client ω σ) : Transaction → Client.Op ω σ Yield
  | modality => .modality <$> c.modality
  | sensor => .sensor <$> c.sensor
  | begin timeout => .begun <$> c.beginEnrollment timeout
  | next id timeout => .sampled <$> c.captureNext id timeout
  | cancel => (fun _ => .done) <$> c.cancelEnrollment
  | list => .listed <$> c.templates
  | rename id name => (fun _ => .done) <$> c.rename id name
  | remove id => (fun _ => .done) <$> c.remove id

def query : Transaction → Query
  | modality => .plain none .askModality
  | sensor => .plain (some .describeSensor) (Client.request .describeSensor)
  | begin timeout => .signed .beginEnrollment (some (Params.withTimeout .empty timeout))
  | next id timeout => .signed .captureNext (some ((Params.ofTemplate id).withTimeout timeout))
  | cancel => .plain (some .cancelEnrollment) (Client.request .cancelEnrollment)
  | list => .signed .listTemplates none
  | rename id name => .signed .renameTemplate (some ((Params.ofTemplate id).withName name))
  | remove id => .signed .removeTemplate (some (Params.ofTemplate id))

/-- Why a transaction is refused before anything is done for it, if it is. -/
def refusal? (config : Config) : Transaction → Option Error
  | rename _ name =>
    match config.maxNameLength with
    | some limit =>
      if name.utf8ByteSize ≤ limit then none else some (.nameTooLong name.utf8ByteSize limit)
    | none => none
  | _ => none

/-- The result of a transaction whose query came to this. -/
def read : Transaction → Except Error Answer → Except Error Yield
  | modality, asked => (asked.bind Modality.ofAnswer).map .modality
  | sensor, asked => (asked.bind Sensor.ofAnswer).map .sensor
  | begin _, asked => (asked.bind Beginning.ofAnswer).map .begun
  | next _ _, asked => (asked.bind Sample.ofAnswer).map .sampled
  | list, asked => (Client.readListing asked).map .listed
  | _, asked => (asked.bind Client.acknowledge).map fun _ => .done

/-- What is reported of a transaction that succeeds with this. -/
def event? : Transaction → Yield → Option Event
  | begin _, .begun begun => some (.sampled begun.sample)
  | next _ _, .sampled sample => some (.sampled sample)
  | cancel, _ => some .cancelled
  | list, .listed listing => some (.listed listing)
  | rename id name, _ => some (.renamed id name)
  | remove id, _ => some (.removed id)
  | _, _ => none

def reports (t : Transaction) (result : Except Error Yield) : List Event :=
  (result.toOption.bind t.event?).toList

/-! ### What a transaction comes to -/

/-- What reading, reporting and wrapping up the outcome of a call comes to. -/
theorem map_conclude {α β : Type} (t : Transaction) (call : Client.Op ω σ β) (read : β → Except Error α)
    {event : α → Event} {wrap : α → Yield} (hevent : ∀ a, t.event? (wrap a) = some (event a)) (s : σ) :
    (wrap <$> Client.conclude call read event) s =
      let result := ((call s).result.bind read).map wrap
      ⟨result, (call s).trace ++ (t.reports result).map .reported, (call s).state⟩ := by
  rw [Action.map_run]
  have hconcluded := Client.concluded call read event s
  generalize Client.conclude call read event s = o at hconcluded ⊢
  cases hconcluded with
  | failed h => simp [h, reports, Except.bind, Except.map, Except.toOption]
  | misread h hread => simp [h, hread, reports, Except.bind, Except.map, Except.toOption]
  | read h hread => simp [h, hread, hevent, reports, Except.bind, Except.map, Except.toOption]

theorem map_read {α : Type} (t : Transaction) (call : Client.Op ω σ Answer) (read : Answer → Except Error α)
    {wrap : α → Yield} (hevent : ∀ a, t.event? (wrap a) = none) (s : σ) :
    (wrap <$> (call >>= fun answer => Action.ofExcept (read answer))) s =
      let result := ((call s).result.bind read).map wrap
      ⟨result, (call s).trace ++ (t.reports result).map .reported, (call s).state⟩ := by
  rw [Action.map_run]
  rcases hcall : call s with ⟨result, trace, s'⟩
  cases result with
  | error e =>
    rw [Action.bind_of_error hcall]
    simp [reports, Except.bind, Except.map, Except.toOption]
  | ok answer =>
    rw [Action.bind_of_ok hcall]
    cases hread : read answer <;>
      simp [Action.ofExcept, hread, hevent, reports, Except.bind, Except.map, Except.toOption]

theorem act_of_refusal {c : Client ω σ} {t : Transaction} {e : Error} (h : t.refusal? c.config = some e)
    (s : σ) : t.act c s = ⟨.error e, [], s⟩ := by
  cases t with
  | rename id name =>
    have hcheck : c.checkName name s = ⟨.error e, [], s⟩ := by
      unfold Client.checkName
      simp only [refusal?] at h
      cases hlimit : c.config.maxNameLength with
      | none => simp [hlimit] at h
      | some limit =>
        simp only [hlimit, ite_eq_iff, reduceCtorEq, and_false, false_or] at h ⊢
        obtain ⟨hlong, he⟩ := h
        cases he
        simp only [if_neg hlong]
        rfl
    rw [act, Action.map_run, Client.rename, Action.bind_of_error hcheck]
    rfl
  | _ => cases h

theorem checkName_of_allowed {c : Client ω σ} {id : TemplateId} {name : String}
    (h : (rename id name).refusal? c.config = none) : c.checkName name = pure () := by
  refine Client.checkName_eq_pure ?_
  intro limit hlimit
  by_contra hlong
  simp [refusal?, hlimit, hlong] at h

/-- A transaction that is not refused asks its query, reads what that came to, and reports what it read. -/
theorem act_of_allowed {c : Client ω σ} {t : Transaction} (h : t.refusal? c.config = none) (s : σ) :
    t.act c s =
      let asked := t.query.ask c s
      let result := t.read asked.result
      ⟨result, asked.trace ++ (t.reports result).map .reported, asked.state⟩ := by
  cases t with
  | modality => exact map_read modality _ Modality.ofAnswer (fun _ => rfl) s
  | sensor => exact map_read sensor _ Sensor.ofAnswer (fun _ => rfl) s
  | begin timeout => exact map_conclude (begin timeout) _ Beginning.ofAnswer (fun _ => rfl) s
  | next id timeout => exact map_conclude (next id timeout) _ Sample.ofAnswer (fun _ => rfl) s
  | cancel =>
    exact map_conclude cancel (c.callPlain .cancelEnrollment) Client.acknowledge (fun _ => rfl) s
  | list =>
    exact map_conclude list (Action.attempt (c.callSigned .listTemplates none)) Client.readListing
      (fun _ => rfl) s
  | rename id name =>
    have hcall : c.rename id name = Client.conclude
        (c.callSigned .renameTemplate (some ((Params.ofTemplate id).withName name))) Client.acknowledge
        fun _ => .renamed id name := by
      rw [Client.rename, checkName_of_allowed h, pure_bind]
    rw [act, hcall]
    exact map_conclude (rename id name) _ Client.acknowledge (fun _ => rfl) s
  | remove id => exact map_conclude (remove id) _ Client.acknowledge (fun _ => rfl) s

/-! ### Failures -/

theorem exists_of_refusal {config : Config} {t : Transaction} {e : Error} (h : t.refusal? config = some e) :
    ∃ length limit, e = .nameTooLong length limit := by
  cases t with
  | rename id name =>
    simp only [refusal?] at h
    split at h
    · simp only [ite_eq_iff, reduceCtorEq, and_false, false_or, Option.some.injEq] at h
      exact ⟨_, _, h.2.symm⟩
    · cases h
  | _ => cases h

/-- A failed query fails its transaction. Listing alone takes one failure for an answer. -/
theorem read_error (t : Transaction) (e : Error) :
    t = list ∧ e = .refused .invalidOption ∧ t.read (.error e) = .ok (.listed .empty) ∨
      ¬ (t = list ∧ e = .refused .invalidOption) ∧ t.read (.error e) = .error e := by
  cases t with
  | list =>
    by_cases h : e = .refused .invalidOption
    · refine .inl ⟨rfl, h, ?_⟩
      simp [read, Client.readListing, h, Except.map]
    · refine .inr ⟨fun hlist => h hlist.2, ?_⟩
      simp [read, Client.readListing, h, Except.map]
  | _ => exact .inr ⟨nofun, rfl⟩

theorem act_of_failure {c : Client ω σ} {t : Transaction} (h : t.refusal? c.config = none) {e : Error}
    {trace : List (Client.Step ω)} {s s' : σ} (hask : t.query.ask c s = ⟨.error e, trace, s'⟩)
    (hread : t.read (.error e) = .error e) : t.act c s = ⟨.error e, trace, s'⟩ := by
  rw [act_of_allowed h, hask]
  simp [hread, reports, Except.toOption]

end Transaction

/-! ## Operations -/

namespace Plan

/-- The transaction that takes the next sample. -/
def transaction (timeout : Option UInt32) : Plan → Transaction
  | begin => .begin timeout
  | next id => .next id timeout

/-- The template and the report that the transaction of a plan yields. -/
def taken : Plan → Yield → Option (TemplateId × Sample)
  | begin, .begun begun => some (begun.template, begun.sample)
  | next id, .sampled sample => some (id, sample)
  | _, _ => none

end Plan

/-- How an operation ends: its result, what is reported last, and the enrollments as it leaves them. -/
structure Ending where
  result : Except Error Yield
  events : List Event
  enrollments : Nat → Enrollment

namespace Operation

/-- The transaction that an operation is, or is made of. A capture of an enrollment that has ended is made of
none, and neither is a new enrollment. -/
def transaction? (enrollments : Nat → Enrollment) : Operation → Option Transaction
  | modality => some .modality
  | sensor => some .sensor
  | begin timeout => some (.begin timeout)
  | next id timeout => some (.next id timeout)
  | cancelCurrent => some .cancel
  | list => some .list
  | rename id name => some (.rename id name)
  | remove id => some (.remove id)
  | enroll _ _ => none
  | capture slot => (enrollments slot).plan.map (·.transaction (enrollments slot).timeout)
  | cancel _ => some .cancel

theorem eq_list_of_transaction {enrollments : Nat → Enrollment} {op : Operation}
    (h : op.transaction? enrollments = some .list) : op = list := by
  cases op with
  | list => rfl
  | capture slot =>
    obtain ⟨plan, -, hplan⟩ := Option.map_eq_some_iff.1 h
    cases plan <;> cases hplan
  | _ => cases h

/-- What an operation makes of the result of its transaction. Captures and cancels alone do anything with it. -/
def close (enrollments : Nat → Enrollment) : Operation → Except Error Yield → Ending
  | capture slot, .ok y =>
    let e := enrollments slot
    match e.plan.bind (·.taken y) with
    | some (id, sample) =>
      if sample.status.isGood then
        let completed := sample.remaining = 0
        ⟨.ok (.captured (if completed then some id else none)), if completed then [.completed id] else [],
          Function.update enrollments slot ((e.adopt id).accept sample.remaining)⟩
      else
        ⟨.error (.sampleRejected sample.status), [], Function.update enrollments slot (e.adopt id)⟩
    | none => ⟨.ok (.captured none), [], enrollments⟩
  | cancel slot, .ok y => ⟨.ok y, [], Function.update enrollments slot (enrollments slot).cancel⟩
  | _, result => ⟨result, [], enrollments⟩

/-- An operation fails with its transaction, and leaves the enrollments as they are. -/
theorem close_error (op : Operation) (enrollments : Nat → Enrollment) (e : Error) :
    op.close enrollments (.error e) = ⟨.error e, [], enrollments⟩ := by
  cases op <;> rfl

/-- The transaction of a plan yields the sample that the plan asks for, or fails with it. -/
theorem act_of_sample {c : Client ω σ} {timeout : Option UInt32} {plan : Plan} {s s' : σ}
    {result : Except Error (TemplateId × Sample)} {trace : List (Client.Step ω)}
    (h : c.sample timeout plan s = ⟨result, trace, s'⟩) :
    ∃ yielded, (plan.transaction timeout).act c s = ⟨yielded, trace, s'⟩ ∧
      (∀ e, result = .error e → yielded = .error e) ∧
      ∀ taken, result = .ok taken → ∃ y, yielded = .ok y ∧ plan.taken y = some taken := by
  cases plan with
  | begin =>
    rw [Client.sample, Action.map_run] at h
    cases h
    refine ⟨_, Action.map_run .., ?_⟩
    cases (c.beginEnrollment timeout s).result <;> simp [Except.map, Plan.taken]
  | next id =>
    rw [Client.sample, Action.map_run] at h
    cases h
    refine ⟨_, Action.map_run .., ?_⟩
    cases (c.captureNext id timeout s).result <;> simp [Except.map, Plan.taken]

/-- A call on an enrollment leaves the others as they are. -/
theorem map_onEnrollment {α : Type} (wrap : α → Yield) (slot : Nat) (x : Client.EnrollmentOp ω σ α)
    (w : World σ) :
    (wrap <$> onEnrollment slot x) w =
      let o := x (w.1 slot, w.2)
      ⟨o.result.map wrap, o.trace, (Function.update w.1 slot o.state.1, o.state.2)⟩ := by
  have hupdate : ∀ e, (fun n => if n = slot then e else w.1 n) = Function.update w.1 slot e := by
    intro e
    funext n
    rw [Function.update_apply]
  rw [Action.map_run]
  simp only [onEnrollment, hupdate]

theorem act_capture {c : Client ω σ} {slot : Nat} {w : World σ} {plan : Plan}
    (h : (w.1 slot).plan = some plan) :
    (capture slot).act c w =
      let o := (plan.transaction (w.1 slot).timeout).act c w.2
      let ending := (capture slot).close w.1 o.result
      ⟨ending.result, o.trace ++ ending.events.map .reported, (ending.enrollments, o.state)⟩ := by
  rw [act, map_onEnrollment]
  have hcaptured := c.captured (w.1 slot) w.2
  generalize c.capture (w.1 slot, w.2) = o at hcaptured ⊢
  cases hcaptured with
  | ended hover =>
    rw [h] at hover
    cases hover
  | failed hplan hsample =>
    cases h.symm.trans hplan
    obtain ⟨yielded, hact, herror, -⟩ := act_of_sample hsample
    simp [hact, herror _ rfl, close, Except.map]
  | rejected hplan hsample hbad =>
    cases h.symm.trans hplan
    obtain ⟨yielded, hact, -, hok⟩ := act_of_sample hsample
    obtain ⟨y, rfl, htaken⟩ := hok _ rfl
    simp [hact, close, Except.map, h, htaken, hbad]
  | accepted hplan hsample hgood hmore =>
    cases h.symm.trans hplan
    obtain ⟨yielded, hact, -, hok⟩ := act_of_sample hsample
    obtain ⟨y, rfl, htaken⟩ := hok _ rfl
    simp [hact, close, Except.map, h, htaken, hgood, hmore]
  | completed hplan hsample hgood hlast =>
    cases h.symm.trans hplan
    obtain ⟨yielded, hact, -, hok⟩ := act_of_sample hsample
    obtain ⟨y, rfl, htaken⟩ := hok _ rfl
    simp [hact, close, Except.map, h, htaken, hgood, hlast]

theorem act_cancel (c : Client ω σ) (slot : Nat) (w : World σ) :
    (cancel slot).act c w =
      let o := Transaction.cancel.act c w.2
      let ending := (cancel slot).close w.1 o.result
      ⟨ending.result, o.trace ++ ending.events.map .reported, (ending.enrollments, o.state)⟩ := by
  rw [act, map_onEnrollment, Transaction.act, Action.map_run]
  have hdropped := c.dropped (w.1 slot) w.2
  generalize c.cancel (w.1 slot, w.2) = o at hdropped ⊢
  cases hdropped with
  | failed hresult => simp [hresult, close, Except.map]
  | cancelled hresult => simp [hresult, close, Except.map]

/-- An operation made of a transaction ends with what it makes of the result of that. -/
theorem act_of_transaction {c : Client ω σ} {op : Operation} {w : World σ} {t : Transaction}
    (h : op.transaction? w.1 = some t) :
    op.act c w =
      let o := t.act c w.2
      let ending := op.close w.1 o.result
      ⟨ending.result, o.trace ++ ending.events.map .reported, (ending.enrollments, o.state)⟩ := by
  cases op with
  | enroll slot timeout => cases h
  | capture slot =>
    obtain ⟨plan, hplan, rfl⟩ := Option.map_eq_some_iff.1 h
    exact act_capture hplan
  | cancel slot =>
    cases h
    exact act_cancel c slot w
  | _ =>
    cases h
    simp [act, close, Transaction.act, Action.map_run, Action.onSecond]

/-- What an operation comes to if its transaction is not refused. -/
theorem act_of_allowed {c : Client ω σ} {op : Operation} {w : World σ} {t : Transaction}
    (h : op.transaction? w.1 = some t) (hallowed : t.refusal? c.config = none) :
    op.act c w =
      let asked := t.query.ask c w.2
      let result := t.read asked.result
      let ending := op.close w.1 result
      ⟨ending.result, asked.trace ++ (t.reports result ++ ending.events).map .reported,
        (ending.enrollments, asked.state)⟩ := by
  rw [act_of_transaction h, Transaction.act_of_allowed hallowed]
  simp

theorem act_of_failure {c : Client ω σ} {op : Operation} {w : World σ} {t : Transaction}
    (h : op.transaction? w.1 = some t) {e : Error} {trace : List (Client.Step ω)} {s' : σ}
    (hact : t.act c w.2 = ⟨.error e, trace, s'⟩) : op.act c w = ⟨.error e, trace, (w.1, s')⟩ := by
  rw [act_of_transaction h, hact]
  simp [close_error]

/-- An operation made of no transaction does nothing: it is a new enrollment, or a capture of one that has
ended. -/
theorem act_of_no_transaction {c : Client ω σ} {op : Operation} {w : World σ} (h : op.transaction? w.1 = none) :
    (∃ slot timeout, op = enroll slot timeout ∧
      op.act c w = ⟨.ok .done, [], (Function.update w.1 slot (c.enroll timeout), w.2)⟩) ∨
    ∃ slot, op = capture slot ∧
      op.act c w = ⟨.error (.enrollmentOver (w.1 slot).phase), [], w⟩ := by
  cases op with
  | enroll slot timeout =>
    refine .inl ⟨slot, timeout, rfl, ?_⟩
    rw [act, map_onEnrollment]
    rfl
  | capture slot =>
    refine .inr ⟨slot, rfl, ?_⟩
    rw [act, map_onEnrollment, Client.capture_of_over c (Option.map_eq_none_iff.1 h)]
    simp [Except.map]
  | _ => cases h

/-- What an operation comes to. -/
inductive Acted (c : Client ω σ) (op : Operation) (w : World σ) :
    Outcome Error (Client.Step ω) (World σ) Yield → Prop
  | enrolled {slot : Nat} {timeout : Option UInt32} (hop : op = enroll slot timeout) :
      Acted c op w ⟨.ok .done, [], (Function.update w.1 slot (c.enroll timeout), w.2)⟩
  -- The enrollment has ended, or the name is too long.
  | refused {e : Error}
      (he : (∃ phase, e = .enrollmentOver phase) ∨ ∃ length limit, e = .nameTooLong length limit) :
      Acted c op w ⟨.error e, [], w⟩
  | allowed {t : Transaction} (ht : op.transaction? w.1 = some t) (hallowed : t.refusal? c.config = none) :
      Acted c op w
        (let asked := t.query.ask c w.2
         let result := t.read asked.result
         let ending := op.close w.1 result
         ⟨ending.result, asked.trace ++ (t.reports result ++ ending.events).map .reported,
           (ending.enrollments, asked.state)⟩)

theorem acted (c : Client ω σ) (op : Operation) (w : World σ) : op.Acted c w (op.act c w) := by
  cases ht : op.transaction? w.1 with
  | none =>
    rcases act_of_no_transaction (c := c) ht with ⟨slot, timeout, rfl, hact⟩ | ⟨slot, -, hact⟩
    · rw [hact]
      exact .enrolled rfl
    · rw [hact]
      exact .refused (.inl ⟨_, rfl⟩)
  | some t =>
    cases hrefusal : t.refusal? c.config with
    | some e =>
      rw [act_of_failure ht (Transaction.act_of_refusal hrefusal w.2)]
      exact .refused (.inr (Transaction.exists_of_refusal hrefusal))
    | none =>
      rw [act_of_allowed ht hrefusal]
      exact .allowed ht hrefusal

end Operation

end CtapEnroll
