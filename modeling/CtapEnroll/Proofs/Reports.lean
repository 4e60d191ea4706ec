import CtapEnroll.Proofs.Lifecycle
import CtapEnroll.Proofs.Transactions
/-!
# What an observer learns

The events of a run are one block for each operation, and a block follows from what the operation did: it tells
of the request before it is given to the session, of the answer if there is one, and of the outcome if the
operation succeeded. `Mirrors` lists the blocks, `mirrors` goes through the operations, and
`log_mirrors_run` puts the blocks of a run together.
-/

namespace CtapEnroll

variable {ω σ : Type}

/-! ## Blocks -/

/-- The sub-command that a request carries the code of, if it is one of the known ones. -/
def Request.subCommand? (r : Request) : Option SubCommand :=
  SubCommand.all.find? fun c => r.subCommand = some c.code

/-- A request is announced with its sub-command, and as authenticated if it carries a tag. -/
def Request.announced (r : Request) : Event := .sending r.subCommand? r.authParam.isSome

/-- The event that tells the outcome of a transaction, if one does. A sample is told of whatever it is like. -/
inductive Transaction.Tells : Transaction → Yield → List Event → Prop
  | modality (m : Modality) : Tells .modality (.modality m) []
  | sensor (sensor : Sensor) : Tells .sensor (.sensor sensor) []
  | begin (timeout : Option UInt32) (begun : Beginning) :
      Tells (.begin timeout) (.begun begun) [.sampled begun.sample]
  | next (id : TemplateId) (timeout : Option UInt32) (sample : Sample) :
      Tells (.next id timeout) (.sampled sample) [.sampled sample]
  | cancel : Tells .cancel .done [.cancelled]
  | list (listing : Listing) : Tells .list (.listed listing) [.listed listing]
  | rename (id : TemplateId) (name : String) : Tells (.rename id name) .done [.renamed id name]
  | remove (id : TemplateId) : Tells (.remove id) .done [.removed id]

namespace Operation

/-- What is reported last: the template of an enrollment that a capture completed. -/
def completion : Operation → Except Error Yield → List Event
  | capture _, .ok (.captured (some id)) => [.completed id]
  | _, _ => []

/-- The events of an operation, by what it did with the session and how its transaction ended. -/
inductive Mirrors (c : Client ω σ) (op : Operation) (w : World σ) : List Event → Prop
  -- Nothing is sent, since the operation fails before that or only makes a new enrollment.
  | silent (hexchanges : Client.exchanges (op.act c w).trace = [])
      (hresult : (∃ slot timeout, op = enroll slot timeout) ∨ ∃ e, (op.act c w).result = .error e) :
      Mirrors c op w []
  -- The request is not answered.
  | unanswered {request : Request} {steps : List ω} {e : Error}
      (hexchanges : Client.exchanges (op.act c w).trace = [(request, steps, .error e)])
      (hresult : (op.act c w).result = .error e) : Mirrors c op w [request.announced]
  -- The only outcome without an answer: the device says that it has no templates.
  | noTemplates {request : Request} {steps : List ω} (hop : op = list)
      (hexchanges : Client.exchanges (op.act c w).trace =
        [(request, steps, .error (.refused .invalidOption))])
      (hresult : (op.act c w).result = .ok (.listed .empty)) :
      Mirrors c op w [request.announced, .listed .empty]
  -- The answer makes no sense.
  | misread {t : Transaction} {request : Request} {steps : List ω} {answer : Answer} {e : Error}
      (ht : op.transaction? w.1 = some t)
      (hexchanges : Client.exchanges (op.act c w).trace = [(request, steps, .ok answer)])
      (hfailed : (t.act c w.2).result = .error e) (hresult : (op.act c w).result = .error e) :
      Mirrors c op w [request.announced, .answered request.subCommand? answer]
  -- The transaction succeeds. What a capture makes of it is reported last.
  | told {t : Transaction} {request : Request} {steps : List ω} {answer : Answer} {y : Yield}
      {outcome : List Event} (ht : op.transaction? w.1 = some t)
      (hexchanges : Client.exchanges (op.act c w).trace = [(request, steps, .ok answer)])
      (hyield : (t.act c w.2).result = .ok y) (htells : t.Tells y outcome) :
      Mirrors c op w (request.announced :: .answered request.subCommand? answer ::
        (outcome ++ op.completion (op.act c w).result))

end Operation

/-! ## Requests and answers -/

/-- What is reported of a request that was given to the session, and of its answer. -/
def heralds : Request × List ω × Except Error Answer → List Event
  | (request, _, answer) =>
    request.announced :: (answer.toOption.map (.answered request.subCommand?)).toList

theorem events_of_asked {c : Client ω σ} {subCommand : Option SubCommand} {request : Request}
    {authenticated : Bool} {s : σ} {o : Outcome Error (Client.Step ω) σ Answer}
    (h : Client.Asked c subCommand request authenticated s o)
    (hannounced : request.announced = .sending subCommand authenticated) :
    Client.events o.trace = (Client.exchanges o.trace).flatMap heralds := by
  have hsub := (Event.sending.inj hannounced).1
  cases h with
  | unanswered _ =>
    change [_] = [request.announced] ++ []
    rw [hannounced]
    rfl
  | @answered answer _ _ _ =>
    change [_, _] = [request.announced, .answered request.subCommand? answer] ++ []
    rw [hannounced, hsub]
    rfl

theorem announced_signedRequest (c : Client ω σ) (subCommand : SubCommand) (params : Option Params)
    (tag : Bytes) :
    (c.signedRequest subCommand params tag).announced = .sending (some subCommand) true := by
  cases subCommand <;> rfl

theorem events_callSigned (c : Client ω σ) (subCommand : SubCommand) (params : Option Params) (s : σ) :
    Client.events (c.callSigned subCommand params s).trace =
      (Client.exchanges (c.callSigned subCommand params s).trace).flatMap heralds := by
  have hcalled := Client.called c subCommand params s
  generalize c.callSigned subCommand params s = o at hcalled ⊢
  cases hcalled with
  | unsigned _ => rfl
  | signed _ hasked =>
    -- The use of the signer in front is neither reported nor an exchange.
    have h := events_of_asked hasked (announced_signedRequest ..)
    exact h

/-- What a query reports is what it did with the session. -/
theorem events_ask (c : Client ω σ) (t : Transaction) (s : σ) :
    Client.events (t.query.ask c s).trace = (Client.exchanges (t.query.ask c s).trace).flatMap heralds := by
  cases t with
  | modality => exact events_of_asked (Client.asked ..) rfl
  | sensor => exact events_of_asked (Client.asked ..) rfl
  | cancel => exact events_of_asked (Client.asked ..) rfl
  | _ => exact events_callSigned ..

/-! ## Outcomes -/

/-- A transaction that succeeds reports what it yields. -/
theorem Transaction.tells_of_read {t : Transaction} {asked : Except Error Answer} {y : Yield}
    (h : t.read asked = .ok y) : t.Tells y (t.reports (.ok y)) := by
  have hmap : ∀ {α : Type} {x : Except Error α} {wrap : α → Yield}, x.map wrap = .ok y → ∃ a, y = wrap a := by
    intro α x wrap hx
    cases x with
    | ok a => exact ⟨a, (Except.ok.inj hx).symm⟩
    | error e => cases hx
  cases t <;> obtain ⟨a, rfl⟩ := hmap h <;> constructor

/-- What an operation reports after its transaction is the completion of its enrollment. -/
theorem Operation.events_close (op : Operation) (enrollments : Nat → Enrollment) (result : Except Error Yield) :
    (op.close enrollments result).events = op.completion (op.close enrollments result).result := by
  cases result with
  | error e =>
    rw [close_error]
    cases op <;> rfl
  | ok y =>
    cases op with
    | capture slot =>
      simp only [close]
      split
      · split
        · split <;> rfl
        · rfl
      · rfl
    | _ => rfl

theorem Operation.completion_error (op : Operation) (e : Error) : op.completion (.error e) = [] := by
  cases op <;> rfl

namespace Operation

variable {c : Client ω σ} {op : Operation} {w : World σ} {t : Transaction}

/-- An operation reports its request and its answer, the outcome of its transaction, and its completion. -/
theorem events_act (ht : op.transaction? w.1 = some t) (hallowed : t.refusal? c.config = none) :
    let asked := t.query.ask c w.2
    Client.exchanges (op.act c w).trace = Client.exchanges asked.trace ∧
      Client.events (op.act c w).trace = (Client.exchanges asked.trace).flatMap heralds ++
        (t.reports (t.read asked.result) ++ op.completion (op.act c w).result) := by
  simp [act_of_allowed ht hallowed, events_ask, events_close]

/-- An operation fails with its query, except that a listing takes one failure for an answer. -/
theorem act_of_ask_error (ht : op.transaction? w.1 = some t) (hallowed : t.refusal? c.config = none) {e : Error}
    (hask : (t.query.ask c w.2).result = .error e) :
    let heralded := (Client.exchanges (t.query.ask c w.2).trace).flatMap heralds
    (op = list ∧ e = .refused .invalidOption ∧ (op.act c w).result = .ok (.listed .empty) ∧
      Client.events (op.act c w).trace = heralded ++ [.listed .empty]) ∨
    ((op.act c w).result = .error e ∧ Client.events (op.act c w).trace = heralded) := by
  have hevents := (events_act (c := c) ht hallowed).2
  rcases t.read_error e with ⟨rfl, rfl, hread⟩ | ⟨-, hread⟩
  · obtain rfl := eq_list_of_transaction ht
    have hresult : (list.act c w).result = .ok (.listed .empty) := by
      simp [act_of_allowed ht hallowed, hask, hread, close]
    refine .inl ⟨rfl, rfl, hresult, ?_⟩
    rw [hevents, hresult, hask, hread]
    rfl
  · have hresult : (op.act c w).result = .error e := by
      simp [act_of_allowed ht hallowed, hask, hread, close_error]
    refine .inr ⟨hresult, ?_⟩
    rw [hevents, hresult, hask, hread, completion_error]
    exact List.append_nil _

/-- What a transaction that is not refused reports mirrors what it did. -/
theorem mirrors_of_allowed {p : AuthProtocol} (hsigner : c.signer = p.signer) (ht : op.transaction? w.1 = some t)
    (hallowed : t.refusal? c.config = none) : op.Mirrors c w (Client.events (op.act c w).trace) := by
  obtain ⟨hexchanges, hevents⟩ := events_act (c := c) ht hallowed
  rcases t.query.ask_cases c w.2 with ⟨message, e, hsign, hask, htrace⟩ | ⟨request, s', hask, hasked⟩
  · -- The signer of a protocol does not fail with the error that a listing takes for an answer.
    rw [hsigner] at hsign
    obtain ⟨fault, rfl⟩ := AuthProtocol.exists_of_sign_error hsign
    rw [htrace] at hexchanges
    rcases act_of_ask_error ht hallowed hask with ⟨-, he, -⟩ | ⟨hresult, hblock⟩
    · cases he
    · rw [hblock, htrace]
      exact .silent hexchanges (.inr ⟨_, hresult⟩)
  · rw [hasked] at hexchanges
    cases hx : (c.session.exchange request s').result with
    | error e =>
      rw [hx] at hask hexchanges hasked
      rcases act_of_ask_error ht hallowed hask with ⟨rfl, rfl, hresult, hblock⟩ | ⟨hresult, hblock⟩
      · rw [hblock, hasked]
        exact .noTemplates rfl hexchanges hresult
      · rw [hblock, hasked]
        exact .unanswered hexchanges hresult
    | ok answer =>
      rw [hx] at hask hexchanges hasked
      have hact : (t.act c w.2).result = t.read (.ok answer) := by
        simp [Transaction.act_of_allowed hallowed, hask]
      rw [hevents, hasked, hask]
      cases hread : t.read (.ok answer) with
      | error e =>
        have hresult : (op.act c w).result = .error e := by
          simp [act_of_allowed ht hallowed, hask, hread, close_error]
        rw [hresult, completion_error]
        exact .misread ht hexchanges (hact.trans hread) hresult
      | ok y => exact .told ht hexchanges (hact.trans hread) (Transaction.tells_of_read hread)

/-- What an operation reports mirrors what it did, whatever the session is like. -/
theorem mirrors {p : AuthProtocol} (hsigner : c.signer = p.signer) (op : Operation) (w : World σ) :
    op.Mirrors c w (Client.events (op.act c w).trace) := by
  have hacted := op.acted c w
  generalize ho : op.act c w = o at hacted
  cases hacted with
  | enrolled hop => exact .silent (by rw [ho]; rfl) (.inl ⟨_, _, hop⟩)
  | refused _ => exact .silent (by rw [ho]; rfl) (.inr ⟨_, by rw [ho]⟩)
  | allowed ht hallowed =>
    rw [← ho]
    exact mirrors_of_allowed hsigner ht hallowed

end Operation

/-! ## Completed enrollments -/

/-- An enrollment that was not complete is, with this template. -/
def Completes (before after : Nat → Enrollment) (id : TemplateId) : Prop :=
  ∃ slot, (before slot).phase ≠ .complete ∧ (after slot).phase = .complete ∧ (after slot).template? = some id

theorem not_completes_self (enrollments : Nat → Enrollment) (id : TemplateId) :
    ¬ Completes enrollments enrollments id := by
  rintro ⟨slot, hbefore, hafter, -⟩
  exact hbefore hafter

theorem completes_update_iff {enrollments : Nat → Enrollment} {slot : Nat} {e : Enrollment} {id : TemplateId} :
    Completes enrollments (Function.update enrollments slot e) id ↔
      (enrollments slot).phase ≠ .complete ∧ e.phase = .complete ∧ e.template? = some id := by
  constructor
  · rintro ⟨other, hbefore, hafter, hid⟩
    by_cases hslot : other = slot
    · subst hslot
      rw [Function.update_self] at hafter hid
      exact ⟨hbefore, hafter, hid⟩
    · rw [Function.update_of_ne hslot] at hafter
      exact absurd hafter hbefore
  · intro h
    refine ⟨slot, ?_⟩
    rwa [Function.update_self]

namespace Operation

/-- The ending of an operation is reported as a completion if it completes an enrollment. -/
theorem completed_mem_close_iff (op : Operation) (enrollments : Nat → Enrollment) (result : Except Error Yield)
    (id : TemplateId) :
    .completed id ∈ (op.close enrollments result).events ↔
      Completes enrollments (op.close enrollments result).enrollments id := by
  cases result with
  | error e => simp [close_error, not_completes_self]
  | ok y =>
    cases op with
    | capture slot =>
      simp only [close]
      split
      · rename_i template sample htaken
        obtain ⟨plan, hplan, -⟩ := Option.bind_eq_some_iff.1 htaken
        have hopen : (enrollments slot).phase ≠ .complete := by
          rcases Enrollment.phase_of_plan hplan with hphase | hphase <;> rw [hphase] <;> decide
        split
        · by_cases hlast : sample.remaining = 0
          · simp [completes_update_iff, hlast, hopen, Enrollment.phase_accept, eq_comm]
          · simp [completes_update_iff, hlast, Enrollment.phase_accept]
        · simp [completes_update_iff]
      · simp [not_completes_self]
    | cancel slot => simp [close, completes_update_iff]
    | _ => simp [close, not_completes_self]

theorem completed_not_mem_heralds (id : TemplateId) (x : Request × List ω × Except Error Answer) :
    .completed id ∉ heralds x := by
  simp [heralds, Request.announced]

theorem completed_not_mem_reports (id : TemplateId) (t : Transaction) (result : Except Error Yield) :
    .completed id ∉ t.reports result := by
  simp only [Transaction.reports, Option.mem_toList, Option.bind_eq_some_iff, not_exists, not_and]
  intro y _
  cases t <;> cases y <;> simp [Transaction.event?]

/-- A completion is reported exactly when an enrollment becomes complete. -/
theorem completed_mem_iff (c : Client ω σ) (op : Operation) (w : World σ) (id : TemplateId) :
    .completed id ∈ Client.events (op.act c w).trace ↔ Completes w.1 (op.act c w).state.1 id := by
  have hacted := op.acted c w
  generalize op.act c w = o at hacted ⊢
  cases hacted with
  | enrolled _ => simp [completes_update_iff, Client.enroll, Enrollment.new, Client.events]
  | refused _ => simp [not_completes_self, Client.events]
  | allowed _ _ =>
    simp [events_ask, completed_not_mem_heralds, completed_not_mem_reports, completed_mem_close_iff]

end Operation

/-! ## Announcements -/

def Event.isSending : Event → Bool
  | sending _ _ => true
  | _ => false

theorem filter_flatMap_heralds (exchanged : List (Request × List ω × Except Error Answer)) :
    (exchanged.flatMap heralds).filter Event.isSending = exchanged.map fun x => x.1.announced := by
  rw [List.filter_flatMap, List.map_eq_flatMap]
  congr 1
  funext ⟨request, steps, answer⟩
  cases answer <;> rfl

theorem Transaction.filter_reports (t : Transaction) (result : Except Error Yield) :
    (t.reports result).filter Event.isSending = [] := by
  rw [List.filter_eq_nil_iff]
  simp only [reports, Option.mem_toList, Option.bind_eq_some_iff]
  rintro event ⟨y, -, hevent⟩
  cases t <;> cases y <;> cases hevent <;> exact Bool.false_ne_true

theorem Operation.filter_close (op : Operation) (enrollments : Nat → Enrollment) (result : Except Error Yield) :
    (op.close enrollments result).events.filter Event.isSending = [] := by
  rw [events_close, List.filter_eq_nil_iff]
  intro event hevent
  unfold completion at hevent
  split at hevent
  · rw [List.mem_singleton] at hevent
    rw [hevent]
    exact Bool.false_ne_true
  · cases hevent

/-- An operation announces what it gives to the session. -/
theorem Operation.filter_events (c : Client ω σ) (op : Operation) (w : World σ) :
    (Client.events (op.act c w).trace).filter Event.isSending =
      (Client.requests (op.act c w).trace).map Request.announced := by
  have hacted := op.acted c w
  generalize op.act c w = o at hacted ⊢
  cases hacted with
  | enrolled _ => rfl
  | refused _ => rfl
  | allowed _ _ =>
    simp [events_ask, filter_flatMap_heralds, Transaction.filter_reports, filter_close, Client.requests_eq]

/-! ## Runs -/

/-- The events of performed operations, in order. -/
def log (run : List (Performed ω)) : List Event := run.flatMap fun performed => Client.events performed.steps

/-- A log that has a block for each operation, in order: each mirrors what its operation did in the world that it
found, and tells of a completion exactly when the operation completed an enrollment. -/
inductive Mirrored (c : Client ω σ) : List Operation → World σ → List Event → Prop
  | nil {w : World σ} : Mirrored c [] w []
  | cons {op : Operation} {ops : List Operation} {w : World σ} {block events : List Event}
      (hblock : op.Mirrors c w block)
      (hcompleted : ∀ id, .completed id ∈ block ↔ Completes w.1 (op.act c w).state.1 id)
      (h : Mirrored c ops (op.act c w).state events) : Mirrored c (op :: ops) w (block ++ events)

/-- The log of a run mirrors what happened: whatever the session is like, it has one block for each operation,
and it announces the requests that the session was given, one by one and in their order. -/
theorem log_mirrors_run (session : Session ω σ) (p : AuthProtocol) (token : Token) (config : Config)
    (ops : List Operation) (w : World σ) :
    let c : Client ω σ := ⟨session, p.signer, token, config⟩
    let run := (perform c ops w).1
    Mirrored c ops w (log run) ∧
      (log run).filter Event.isSending =
        (run.flatMap fun performed => Client.requests performed.steps).map Request.announced := by
  intro c run
  constructor
  · induction ops generalizing w with
    | nil => exact .nil
    | cons op ops ih => exact .cons (op.mirrors rfl w) (op.completed_mem_iff c w) (ih (op.act c w).state)
  · induction ops generalizing w with
    | nil => rfl
    | cons op ops ih =>
      have hop := op.filter_events c w
      have hops := ih (op.act c w).state
      simp only [run, perform, log, List.flatMap_cons, List.filter_append, List.map_append] at hops ⊢
      rw [hop, hops]

-- An answer without fields is enough for a cancel, but says nothing about the modality.
example :
    let device : Session Unit Unit := ⟨fun _ s => ⟨.ok .empty, [], s⟩, .unknown⟩
    let c : Client Unit Unit := ⟨device, AuthProtocol.one.signer, ⟨[0x01]⟩, {}⟩
    log (perform c [.cancelCurrent, .modality] (fun _ => .new none, ())).1 =
      [.sending (some .cancelEnrollment) false, .answered (some .cancelEnrollment) .empty, .cancelled,
        .sending none false, .answered none .empty] := rfl

end CtapEnroll
