import CtapEnroll.Proofs.Captures
/-!
# An enrollment makes one template

Over any run of captures and cancels an enrollment begins at most one template, and every later sample is
for that template. The log of a run lists what was done for it; `Orderly` says that each request for a
sample follows what was begun before it, and `Past` ties the log to the enrollment. `one_template` reads
both off.
-/

namespace CtapEnroll

open Cbor (Value)

namespace Params

theorem get?_withTimeout (p : Params) (timeout : Option UInt32) (key : UInt8) :
    (p.withTimeout timeout).get? key =
      if 0x03 = key then (timeout.map fun n => .unsigned n.toUInt64).or (p.get? key) else p.get? key := by
  unfold withTimeout putUnsigned?
  rw [SortedMap.get?_insert?, Option.map_map]
  rfl

theorem get?_ofTemplate (id : TemplateId) (key : UInt8) :
    (ofTemplate id).get? key = if 0x01 = key then some (.bytes id) else none := by
  unfold ofTemplate putBytes
  rw [SortedMap.get?_insert, SortedMap.get?_empty]
  rfl

end Params

/-! ## Requests for samples -/

namespace Request

def IsSample (r : Request) : Prop :=
  r.subCommand = some SubCommand.beginEnrollment.code ∨ r.subCommand = some SubCommand.captureNext.code

/-- A request for a sample follows the templates that were begun before it: without one it begins one,
and with one it takes the next sample of that one. It carries the timeout, if there is one. -/
structure Follows (r : Request) (timeout : Option UInt32) (ids : List TemplateId) : Prop where
  ne_nil_of_next : r.subCommand = some SubCommand.captureNext.code → ids ≠ []
  next_of_mem : ∀ id ∈ ids, r.subCommand = some SubCommand.captureNext.code ∧
    ∃ p, r.params = some p ∧ p.get? 0x01 = some (.bytes id)
  timeout : ∃ p, r.params = some p ∧ p.get? 0x03 = timeout.map fun n => .unsigned n.toUInt64

/-- The template that an answer to the request tells of, if the request begins one. -/
def begun? (r : Request) (answer : Answer) : Option TemplateId :=
  if r.subCommand = some SubCommand.beginEnrollment.code then
    (Beginning.ofAnswer answer).toOption.map (·.template)
  else none

end Request

namespace Plan

def subCommand : Plan → SubCommand
  | begin => .beginEnrollment
  | next _ => .captureNext

def params (timeout : Option UInt32) : Plan → Params
  | begin => Params.withTimeout .empty timeout
  | next id => (Params.ofTemplate id).withTimeout timeout

/-- The templates that were begun before a plan is made. -/
def begun : Plan → List TemplateId
  | begin => []
  | next id => [id]

/-- The templates that were begun once the sample of a plan was asked for. -/
def after (plan : Plan) : Except Error (TemplateId × Sample) → List TemplateId
  | .ok (id, _) => [id]
  | .error _ => plan.begun

end Plan

namespace Client

variable {ω σ : Type}

theorem follows_signedRequest (c : Client ω σ) (timeout : Option UInt32) (plan : Plan) (tag : Bytes) :
    (c.signedRequest plan.subCommand (some (plan.params timeout)) tag).Follows timeout plan.begun := by
  cases plan with
  | begin =>
    have hne : some SubCommand.beginEnrollment.code ≠ some SubCommand.captureNext.code := by decide
    refine ⟨?_, ?_, ⟨_, rfl, ?_⟩⟩
    · intro h
      exact absurd h hne
    · intro id hid
      cases hid
    · simp [Plan.params, Params.get?_withTimeout]
  | next id =>
    refine ⟨?_, ?_, ⟨_, rfl, ?_⟩⟩
    · intro _ h
      cases h
    · intro template htemplate
      obtain rfl := List.mem_singleton.1 htemplate
      refine ⟨rfl, _, rfl, ?_⟩
      simp [Plan.params, Params.get?_withTimeout, Params.get?_ofTemplate]
    · simp [Plan.params, Params.get?_withTimeout, Params.get?_ofTemplate]

/-! ## Logs -/

def Step.begun? : Step ω → Option TemplateId
  | .exchanged request _ (.ok answer) => request.begun? answer
  | _ => none

/-- The templates that were begun, in order: by `begun_beginEnrollment` those of the beginnings that
succeeded. -/
def begun (steps : List (Step ω)) : List TemplateId := steps.filterMap Step.begun?

@[simp] theorem begun_nil : begun ([] : List (Step ω)) = [] := rfl

@[simp] theorem begun_cons (step : Step ω) (steps : List (Step ω)) :
    begun (step :: steps) = step.begun?.toList ++ begun steps := by
  unfold begun
  cases h : step.begun? <;> simp [h]

@[simp] theorem begun_append (a b : List (Step ω)) : begun (a ++ b) = begun a ++ begun b :=
  List.filterMap_append ..

@[simp] theorem begun_reported (events : List Event) : begun (events.map .reported : List (Step ω)) = [] := by
  induction events with
  | nil => rfl
  | cons event events ih => exact ih

/-- Each request for a sample in the log follows the templates begun before it, of which these were begun
before the log. -/
def Orderly (timeout : Option UInt32) : List TemplateId → List (Step ω) → Prop
  | _, [] => True
  | ids, step :: steps =>
    (∀ request, step.request? = some request → request.IsSample → request.Follows timeout ids) ∧
      Orderly timeout (ids ++ step.begun?.toList) steps

theorem orderly_append (timeout : Option UInt32) (ids : List TemplateId) (a b : List (Step ω)) :
    Orderly timeout ids (a ++ b) ↔ Orderly timeout ids a ∧ Orderly timeout (ids ++ begun a) b := by
  induction a generalizing ids with
  | nil => simp [Orderly]
  | cons step steps ih => simp only [List.cons_append, Orderly, ih, begun_cons, List.append_assoc, and_assoc]

theorem orderly_reported (timeout : Option UInt32) (ids : List TemplateId) (events : List Event) :
    Orderly timeout ids (events.map .reported : List (Step ω)) := by
  induction events generalizing ids with
  | nil => trivial
  | cons event events ih =>
    refine ⟨?_, ih _⟩
    intro request h
    cases h

theorem Orderly.follows {timeout : Option UInt32} {ids : List TemplateId} {before after : List (Step ω)}
    {step : Step ω} {request : Request} (h : Orderly timeout ids (before ++ step :: after))
    (hrequest : step.request? = some request) (hsample : request.IsSample) :
    request.Follows timeout (ids ++ begun before) :=
  ((orderly_append timeout ids before (step :: after)).1 h).2.1 request hrequest hsample

/-! ## What a sample adds to the log -/

theorem orderly_of_asked {c : Client ω σ} {subCommand : Option SubCommand} {request : Request}
    {authenticated : Bool} {s : σ} {o : Outcome Error (Step ω) σ Answer}
    (h : Asked c subCommand request authenticated s o) {timeout : Option UInt32} {ids : List TemplateId}
    (hfollows : request.IsSample → request.Follows timeout ids) : Orderly timeout ids o.trace := by
  cases h <;> simpa [Orderly, Step.request?, Step.begun?] using hfollows

theorem orderly_of_called {c : Client ω σ} {subCommand : SubCommand} {params : Option Params} {s : σ}
    {o : Outcome Error (Step ω) σ Answer} (h : Called c subCommand params s o) {timeout : Option UInt32}
    {ids : List TemplateId}
    (hfollows : ∀ tag, (c.signedRequest subCommand params tag).Follows timeout ids) :
    Orderly timeout ids o.trace := by
  cases h with
  | unsigned _ => simp [Orderly, Step.request?]
  | @signed tag _ o _ hasked =>
    refine ⟨?_, ?_⟩
    · intro request h
      cases h
    · have := orderly_of_asked hasked fun _ => hfollows tag
      simpa [Step.begun?] using this

theorem trace_sample (c : Client ω σ) (timeout : Option UInt32) (plan : Plan) (s : σ) :
    ∃ events : List Event, (c.sample timeout plan s).trace =
      (c.callSigned plan.subCommand (some (plan.params timeout)) s).trace ++ events.map .reported := by
  cases plan with
  | begin =>
    rw [sample, Action.map_run]
    exact trace_conclude ..
  | next id =>
    rw [sample, Action.map_run]
    exact trace_conclude ..

theorem orderly_sample (c : Client ω σ) (timeout : Option UInt32) (plan : Plan) (s : σ) :
    Orderly timeout plan.begun (c.sample timeout plan s).trace := by
  obtain ⟨events, htrace⟩ := trace_sample c timeout plan s
  rw [htrace, orderly_append]
  exact ⟨orderly_of_called (called ..) fun tag => follows_signedRequest c timeout plan tag,
    orderly_reported ..⟩

theorem begun_of_asked {c : Client ω σ} {subCommand : Option SubCommand} {request : Request}
    {authenticated : Bool} {s : σ} {o : Outcome Error (Step ω) σ Answer}
    (h : Asked c subCommand request authenticated s o) :
    begun o.trace = (o.result.toOption.bind request.begun?).toList := by
  cases h <;> simp [Step.begun?, Except.toOption]

theorem begun_of_called {c : Client ω σ} {subCommand : SubCommand} {params : Option Params} {s : σ}
    {o : Outcome Error (Step ω) σ Answer} (h : Called c subCommand params s o) (read : Answer → Option TemplateId)
    (hread : ∀ tag, (c.signedRequest subCommand params tag).begun? = read) :
    begun o.trace = (o.result.toOption.bind read).toList := by
  cases h with
  | unsigned _ => rfl
  | @signed tag _ o _ hasked =>
    have := begun_of_asked hasked
    rw [hread tag] at this
    exact this

/-- A beginning tells of its template in the log exactly when it succeeds. -/
theorem begun_beginEnrollment (c : Client ω σ) (timeout : Option UInt32) (s : σ) :
    begun (c.beginEnrollment timeout s).trace =
      ((c.beginEnrollment timeout s).result.toOption.map (·.template)).toList := by
  have hcall := begun_of_called
    (called c .beginEnrollment (some (Params.withTimeout .empty timeout)) s)
    (fun answer => (Beginning.ofAnswer answer).toOption.map (·.template)) fun _ => rfl
  have h := concluded (c.callSigned .beginEnrollment (some (Params.withTimeout .empty timeout)))
    Beginning.ofAnswer (fun begun => .sampled begun.sample) s
  unfold beginEnrollment
  generalize conclude _ _ _ s = o at h ⊢
  generalize c.callSigned _ _ s = call at hcall h
  cases h with
  | failed hresult =>
    rw [hresult] at hcall
    exact hcall
  | misread hresult hread =>
    rw [hresult] at hcall
    simpa [Except.toOption, hread] using hcall
  | read hresult hread =>
    rw [hresult] at hcall
    rw [begun_append, hcall]
    simp [Except.toOption, hread, Step.begun?]

theorem begun_captureNext (c : Client ω σ) (id : TemplateId) (timeout : Option UInt32) (s : σ) :
    begun (c.captureNext id timeout s).trace = [] := by
  have hcall := begun_of_called
    (called c .captureNext (some ((Params.ofTemplate id).withTimeout timeout)) s)
    (fun _ => none) fun _ => rfl
  obtain ⟨events, htrace⟩ := trace_conclude
    (c.callSigned .captureNext (some ((Params.ofTemplate id).withTimeout timeout))) Sample.ofAnswer
    .sampled s
  unfold captureNext
  rw [htrace, begun_append, begun_reported, hcall]
  simp

/-- A sample that was taken leaves its template as the only one begun, and one that failed begins none. -/
theorem begun_sample (c : Client ω σ) (timeout : Option UInt32) (plan : Plan) (s : σ) :
    plan.begun ++ begun (c.sample timeout plan s).trace = plan.after (c.sample timeout plan s).result := by
  cases plan with
  | begin =>
    have hbegun := begun_beginEnrollment c timeout s
    rw [sample, Action.map_run]
    cases hr : (c.beginEnrollment timeout s).result with
    | error err =>
      rw [hr] at hbegun
      exact hbegun
    | ok begun =>
      rw [hr] at hbegun
      exact hbegun
  | next id =>
    rw [sample, Action.map_run, begun_captureNext, List.append_nil]
    cases (c.captureNext id timeout s).result with
    | error err => rfl
    | ok report => rfl

theorem log_cancelEnrollment (c : Client ω σ) (s : σ) (timeout : Option UInt32) (ids : List TemplateId) :
    begun (c.cancelEnrollment s).trace = [] ∧ Orderly timeout ids (c.cancelEnrollment s).trace := by
  have hnot : ¬ (request .cancelEnrollment).IsSample := by
    unfold Request.IsSample
    decide
  have hasked := asked c (some .cancelEnrollment) (request .cancelEnrollment) false s
  obtain ⟨events, htrace⟩ :=
    trace_conclude (c.callPlain .cancelEnrollment) acknowledge (fun _ => .cancelled) s
  unfold cancelEnrollment
  rw [htrace, begun_append, begun_reported, orderly_append]
  unfold callPlain
  refine ⟨?_, orderly_of_asked hasked fun h => absurd h hnot, orderly_reported ..⟩
  have hbegun := begun_of_asked hasked
  have hnone : (request SubCommand.cancelEnrollment).begun? = fun _ => none := rfl
  rw [hbegun, hnone]
  simp

end Client

/-! ## Histories -/

namespace Turn

variable {ω : Type}

def steps : Turn ω → List (Client.Step ω)
  | capture _ steps => steps
  | cancel _ steps => steps

def finished? : Turn ω → Option TemplateId
  | capture (.ok id) _ => id
  | _ => none

/-- The enrollment has ended: its last sample was taken, or it was cancelled. -/
def Ends : Turn ω → Prop
  | capture (.ok (some _)) _ => True
  | cancel (.ok _) _ => True
  | _ => False

def log (turns : List (Turn ω)) : List (Client.Step ω) := turns.flatMap steps

/-- The templates that were finished, in order. -/
def finished (turns : List (Turn ω)) : List TemplateId := turns.filterMap finished?

@[simp] theorem log_append (turns : List (Turn ω)) (turn : Turn ω) :
    log (turns ++ [turn]) = log turns ++ turn.steps := by
  simp [log]

@[simp] theorem finished_append (turns : List (Turn ω)) (turn : Turn ω) :
    finished (turns ++ [turn]) = finished turns ++ turn.finished?.toList := by
  unfold finished
  cases h : turn.finished? <;> simp [h]

end Turn

namespace Enrollment

/-- The templates that were begun and finished so far fit the phase of the enrollment. -/
inductive Past (e : Enrollment) (begun finished : List TemplateId) : Prop
  | notStarted (hphase : e.phase = .notStarted) (hbegun : begun = []) (hfinished : finished = [])
  | inProgress {id : TemplateId} (hphase : e.phase = .inProgress) (hid : e.template? = some id)
      (hbegun : begun = [id]) (hfinished : finished = [])
  | complete {id : TemplateId} (hphase : e.phase = .complete) (hbegun : begun = [id])
      (hfinished : finished = [id])
  | cancelled (hphase : e.phase = .cancelled) (hbegun : begun.length ≤ 1)
      (hfinished : finished = [] ∨ finished = begun)

namespace Past

variable {e : Enrollment} {begun finished : List TemplateId}

theorem of_plan (h : e.Past begun finished) {plan : Plan} (hplan : e.plan = some plan) :
    begun = plan.begun ∧ finished = [] := by
  cases h with
  | notStarted hphase hbegun hfinished =>
    simp only [Enrollment.plan, hphase, Option.some.injEq] at hplan
    rw [← hplan]
    exact ⟨hbegun, hfinished⟩
  | inProgress hphase hid hbegun hfinished =>
    simp only [Enrollment.plan, hphase, hid, Option.some.injEq] at hplan
    rw [← hplan]
    exact ⟨hbegun, hfinished⟩
  | complete hphase _ _ =>
    simp [Enrollment.plan, hphase] at hplan
  | cancelled hphase _ _ =>
    simp [Enrollment.plan, hphase] at hplan

theorem length_begun_le (h : e.Past begun finished) : begun.length ≤ 1 := by
  cases h with
  | notStarted _ hbegun _ => simp [hbegun]
  | inProgress _ _ hbegun _ => simp [hbegun]
  | complete _ hbegun _ => simp [hbegun]
  | cancelled _ hbegun _ => exact hbegun

theorem finished_eq (h : e.Past begun finished) : finished = [] ∨ finished = begun := by
  cases h with
  | notStarted _ _ hfinished => exact .inl hfinished
  | inProgress _ _ _ hfinished => exact .inl hfinished
  | complete _ hbegun hfinished => exact .inr (hfinished.trans hbegun.symm)
  | cancelled _ _ hfinished => exact hfinished

theorem cancel (h : e.Past begun finished) : e.cancel.Past begun finished :=
  .cancelled rfl h.length_begun_le h.finished_eq

end Past

/-- What a run from a new enrollment leaves in the enrollment and in the log. -/
structure History {ω : Type} (timeout : Option UInt32) (e : Enrollment) (turns : List (Turn ω)) : Prop where
  timeout_eq : e.timeout = timeout
  orderly : Client.Orderly timeout [] (Turn.log turns)
  past : e.Past (Client.begun (Turn.log turns)) (Turn.finished turns)
  plan_of_ends : ∀ turn ∈ turns, turn.Ends → e.plan = none

namespace History

variable {ω σ : Type} {timeout : Option UInt32} {e : Enrollment} {turns : List (Turn ω)}

theorem new (timeout : Option UInt32) : History timeout (.new timeout) ([] : List (Turn ω)) where
  timeout_eq := rfl
  orderly := trivial
  past := .notStarted rfl rfl rfl
  plan_of_ends _ h := by cases h

theorem append (h : History timeout e turns) {e' : Enrollment} {turn : Turn ω} (htimeout : e'.timeout = e.timeout)
    (horderly : Client.Orderly timeout (Client.begun (Turn.log turns)) turn.steps)
    (hpast : e'.Past (Client.begun (Turn.log turns) ++ Client.begun turn.steps)
      (Turn.finished turns ++ turn.finished?.toList))
    (hends : turn.Ends ∨ e.plan = none → e'.plan = none) : History timeout e' (turns ++ [turn]) where
  timeout_eq := htimeout.trans h.timeout_eq
  orderly := by
    rw [Turn.log_append, Client.orderly_append]
    exact ⟨h.orderly, horderly⟩
  past := by rwa [Turn.log_append, Client.begun_append, Turn.finished_append]
  plan_of_ends other hmem hother := by
    rcases List.mem_append.1 hmem with hmem | hmem
    · exact hends (.inr (h.plan_of_ends other hmem hother))
    · rw [List.mem_singleton.1 hmem] at hother
      exact hends (.inl hother)

theorem append_sample (h : History timeout e turns) {plan : Plan} (hplan : e.plan = some plan)
    {c : Client ω σ} {s s' : σ} {result : Except Error (TemplateId × Sample)}
    {trace : List (Client.Step ω)} (hsample : c.sample e.timeout plan s = ⟨result, trace, s'⟩)
    {e' : Enrollment} {turn : Turn ω} (htimeout : e'.timeout = e.timeout) (events : List Event)
    (hsteps : turn.steps = trace ++ events.map .reported)
    (hpast : e'.Past (plan.after result) turn.finished?.toList)
    (hends : turn.Ends → e'.plan = none) : History timeout e' (turns ++ [turn]) := by
  obtain ⟨hbegun, hfinished⟩ := h.past.of_plan hplan
  have horderly := Client.orderly_sample c e.timeout plan s
  have hafter := Client.begun_sample c e.timeout plan s
  rw [hsample] at horderly hafter
  rw [h.timeout_eq] at horderly
  refine h.append htimeout ?_ ?_ ?_
  · rw [hbegun, hsteps, Client.orderly_append]
    exact ⟨horderly, Client.orderly_reported ..⟩
  · rw [hbegun, hfinished, hsteps, Client.begun_append, Client.begun_reported, List.append_nil, hafter]
    exact hpast
  · rintro (hturn | hnone)
    · exact hends hturn
    · rw [hplan] at hnone
      cases hnone

theorem capture (h : History timeout e turns) (c : Client ω σ) (s : σ) :
    History timeout (c.capture (e, s)).state.1
      (turns ++ [.capture (c.capture (e, s)).result (c.capture (e, s)).trace]) := by
  have hcaptured := Client.captured c e s
  generalize c.capture (e, s) = o at hcaptured ⊢
  cases hcaptured with
  | ended hplan =>
    refine h.append rfl trivial ?_ fun _ => hplan
    simpa [Turn.steps, Turn.finished?] using h.past
  | failed hplan hsample =>
    -- Nothing was begun, so what is known of the enrollment still holds.
    have hpast := h.past
    obtain ⟨hbegun, hfinished⟩ := hpast.of_plan hplan
    rw [hbegun, hfinished] at hpast
    exact h.append_sample hplan hsample rfl [] (List.append_nil _).symm hpast False.elim
  | rejected hplan hsample _ =>
    exact h.append_sample hplan hsample rfl [] (List.append_nil _).symm (.inProgress rfl rfl rfl rfl)
      False.elim
  | @accepted plan id sample _ _ hplan hsample _ hmore =>
    have hphase := (phase_accept (e.adopt id) sample.remaining).trans (if_neg hmore)
    exact h.append_sample hplan hsample rfl [] (List.append_nil _).symm (.inProgress hphase rfl rfl rfl)
      False.elim
  | @completed plan id _ _ _ hplan hsample _ _ =>
    exact h.append_sample hplan hsample rfl [.completed id] rfl (.complete rfl rfl rfl) fun _ => rfl

theorem cancel (h : History timeout e turns) (c : Client ω σ) (s : σ) :
    History timeout (c.cancel (e, s)).state.1
      (turns ++ [.cancel (c.cancel (e, s)).result (c.cancel (e, s)).trace]) := by
  have hdropped := Client.dropped c e s
  obtain ⟨hbegun, horderly⟩ :=
    Client.log_cancelEnrollment c s timeout (Client.begun (Turn.log turns))
  generalize c.cancel (e, s) = o at hdropped ⊢
  cases hdropped with
  | failed hresult =>
    rw [hresult] at hbegun horderly
    refine h.append rfl horderly ?_ ?_
    · simpa [Turn.steps, Turn.finished?, hbegun] using h.past
    · rintro (hends | hnone)
      · exact hends.elim
      · exact hnone
  | cancelled hresult =>
    rw [hresult] at hbegun horderly
    refine h.append rfl horderly ?_ fun _ => rfl
    simpa [Turn.steps, Turn.finished?, hbegun] using h.past.cancel

theorem of_run (h : Run ω σ (.new timeout) e turns) : History timeout e turns := by
  -- Turn by turn from the first, since each is judged by what was begun before it.
  induction h with
  | nil => exact new timeout
  | capture _ c s ih => exact ih.capture c s
  | cancel _ c s ih => exact ih.cancel c s

end History

end Enrollment

/-- Over any run of an enrollment: at most one template is begun; each request for a sample comes before
that one was begun and begins it, or after and takes the next sample of that one, and carries the timeout
of the enrollment if it has one; once the last sample was taken or the enrollment was cancelled, a capture
does nothing and says so; and at most one capture finishes the template, which is the one that was begun. -/
theorem one_template {ω σ : Type} (c : Client ω σ) (timeout : Option UInt32) {e : Enrollment}
    {turns : List (Turn ω)} (h : Run ω σ (c.enroll timeout) e turns) :
    (Client.begun (Turn.log turns)).length ≤ 1 ∧
      (∀ {before after : List (Client.Step ω)} {request : Request} {steps : List ω}
        {answer : Except Error Answer}, Turn.log turns = before ++ .exchanged request steps answer :: after →
        request.IsSample → request.Follows (timeout.or c.config.defaultTimeout) (Client.begun before)) ∧
      ((∃ turn ∈ turns, turn.Ends) → ∀ (d : Client ω σ) (s : σ),
        d.capture (e, s) = ⟨.error (.enrollmentOver e.phase), [], (e, s)⟩) ∧
      (Turn.finished turns).length ≤ 1 ∧
      ∀ id ∈ Turn.finished turns, Client.begun (Turn.log turns) = [id] := by
  have hhistory := Enrollment.History.of_run h
  have hle := hhistory.past.length_begun_le
  refine ⟨hle, ?_, ?_, ?_⟩
  · intro before after request steps answer hlog hsample
    -- A log that is orderly as a whole is so up to this request.
    have horderly := hhistory.orderly
    rw [hlog] at horderly
    exact horderly.follows rfl hsample
  · rintro ⟨turn, hmem, hends⟩ d s
    -- Without a plan there is nothing to ask for.
    exact d.capture_of_over (hhistory.plan_of_ends turn hmem hends) s
  · rcases hhistory.past.finished_eq with hnone | heq
    · simp [hnone]
    · rw [heq]
      refine ⟨hle, ?_⟩
      intro id hid
      generalize Client.begun (Turn.log turns) = ids at hle hid ⊢
      cases ids with
      | nil => cases hid
      | cons other rest =>
        obtain rfl : rest = [] := List.length_eq_zero_iff.1 (Nat.le_zero.1 (Nat.le_of_succ_le_succ hle))
        rw [List.mem_singleton.1 hid]

/-- A rejected first sample and a good last one: the second capture goes on with the template that the
first one began, and there is no third. -/
theorem one_template_after_rejection :
    let device : Session Unit (List Answer) := ⟨fun _ s =>
      match s with
      | [] => ⟨.error (.unreachable "no answer left"), [], []⟩
      | answer :: rest => ⟨.ok answer, [], rest⟩, .unknown⟩
    let c : Client Unit (List Answer) := ⟨device, ⟨1, fun _ _ s => (.ok [], s)⟩, ⟨[]⟩, ⟨some 5000, none, none⟩⟩
    let rejected : Answer := .ofList [(0x04, .bytes [0xf0]), (0x05, .unsigned 1), (0x06, .unsigned 2)]
    let last : Answer := .ofList [(0x05, .unsigned 0), (0x06, .unsigned 0)]
    let first := c.capture (c.enroll none, [rejected])
    let second := c.capture (first.state.1, [last])
    let turns : List (Turn Unit) :=
      [.capture first.result first.trace, .capture second.result second.trace]
    Run Unit (List Answer) (c.enroll none) second.state.1 turns ∧ Turn.finished turns = [[0xf0]] ∧
      Client.begun (Turn.log turns) = [[0xf0]] ∧
      ∀ s, c.capture (second.state.1, s) = ⟨.error (.enrollmentOver .complete), [], (second.state.1, s)⟩ := by
  intro device c rejected last first second turns
  have hrun : Run Unit (List Answer) (c.enroll none) second.state.1 turns :=
    (Run.nil.capture c [rejected]).capture c [last]
  obtain ⟨-, -, hover, -, hbegun⟩ := one_template c none hrun
  have hfinished : Turn.finished turns = [[0xf0]] := rfl
  have hmem : [0xf0] ∈ Turn.finished turns := by
    rw [hfinished]
    exact List.mem_singleton.2 rfl
  refine ⟨hrun, hfinished, hbegun _ hmem, ?_⟩
  intro s
  exact hover ⟨_, List.mem_cons_of_mem _ List.mem_cons_self, trivial⟩ c s

end CtapEnroll
