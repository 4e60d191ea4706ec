import CtapEnroll.Proofs.OneTemplate
import CtapEnroll.Proofs.Programs
/-!
# Which requests are signed

Every request that changes the authenticator, or tells its templates, carries a tag that the signer gave
for this very request right before, and the others carry none and need no signer. `Contacted` lists what
an operation does with signer and session, and has one line in which both take part; `contacted_act` goes
through the operations.
-/

namespace CtapEnroll

namespace Request

/-- A request without parameters and without a tag: one that drops the enrollment in progress, or asks
about the sensor. -/
def IsPlain (r : Request) : Prop :=
  r = { modality := some 0x01, subCommand := some 0x03 } ∨
    r = { modality := some 0x01, subCommand := some 0x07 } ∨ r = { getModality := true }

end Request

namespace Client

variable {ω σ α β : Type}

/-! ## Contacts -/

def Step.isContact : Step ω → Bool
  | .reported _ => false
  | _ => true

/-- The uses of the signer and of the session, in order. -/
def contacts (steps : List (Step ω)) : List (Step ω) := steps.filter Step.isContact

@[simp] theorem contacts_append (a b : List (Step ω)) : contacts (a ++ b) = contacts a ++ contacts b :=
  List.filter_append ..

@[simp] theorem contacts_reported (events : List Event) :
    contacts (events.map .reported : List (Step ω)) = [] := by
  induction events with
  | nil => rfl
  | cons event events ih => exact ih

/-- What an operation can do with the signer and the session. -/
inductive Contacted (c : Client ω σ) : List (Step ω) → Prop
  | nothing : Contacted c []
  -- Without a signature, nothing is sent.
  | unsigned {message : Bytes} {err : Error} {s s' : σ}
      (h : c.signer.sign c.token message s = (.error err, s')) :
      Contacted c [.signed message (.error err)]
  -- A signature is sent, with what it was made for.
  | signed {subCommand : SubCommand} {params : Option Params} {tag : Bytes} {s s' : σ}
      (hcode : subCommand.code ∈ ([0x01, 0x02, 0x04, 0x05, 0x06] : List UInt8))
      (h : c.signer.sign c.token (transcript subCommand params) s = (.ok tag, s'))
      (steps : List ω) (answer : Except Error Answer) :
      Contacted c [.signed (transcript subCommand params) (.ok tag),
        .exchanged (c.signedRequest subCommand params tag) steps answer]
  | plain {request : Request} (h : request.IsPlain) (steps : List ω) (answer : Except Error Answer) :
      Contacted c [.exchanged request steps answer]

/-- A request is signed right before, or it is plain and there is no signature at all. -/
theorem Contacted.request {c : Client ω σ} {before after : List (Step ω)} {request : Request}
    {steps : List ω} {answer : Except Error Answer}
    (h : Contacted c (before ++ .exchanged request steps answer :: after)) :
    (∃ earlier message tag, before = earlier ++ [.signed message (.ok tag)] ∧
      (∃ s, (c.signer.sign c.token message s).1 = .ok tag) ∧
      ∃ subCommand ∈ ([0x01, 0x02, 0x04, 0x05, 0x06] : List UInt8),
        message = Request.transcript 0x01 subCommand request.params ∧
        request = ⟨some 0x01, some subCommand, request.params, some c.signer.protocol, some tag, false⟩) ∨
      (request.IsPlain ∧
        ∀ message tag, .signed message tag ∉ before ++ .exchanged request steps answer :: after) := by
  generalize hcontacts : before ++ .exchanged request steps answer :: after = contacts at h ⊢
  cases h with
  | nothing => simp at hcontacts
  | unsigned _ => simp [List.append_eq_cons_iff] at hcontacts
  | @signed subCommand params tag s s' hcode hsign inner result =>
    left
    obtain ⟨-, hfirst⟩ | ⟨rest, rfl, hrest⟩ := List.append_eq_cons_iff.1 hcontacts
    · cases hfirst
    · obtain ⟨rfl, hsecond⟩ | ⟨_, -, hnil⟩ := List.cons_eq_append_iff.1 hrest
      · cases hsecond
        exact ⟨[], _, tag, rfl, ⟨s, congrArg Prod.fst hsign⟩, subCommand.code, hcode, rfl, rfl⟩
      · simp at hnil
  | plain hplain inner result =>
    right
    obtain ⟨-, hfirst⟩ | ⟨_, -, hnil⟩ := List.append_eq_cons_iff.1 hcontacts
    · cases hfirst
      exact ⟨hplain, by simp⟩
    · simp at hnil

/-- A tag is sent right after, in the only request. -/
theorem Contacted.tag {c : Client ω σ} {before after : List (Step ω)} {message tag : Bytes}
    (h : Contacted c (before ++ .signed message (.ok tag) :: after)) :
    ∃ request steps answer, after = [.exchanged request steps answer] ∧ request.authParam = some tag := by
  generalize hcontacts : before ++ .signed message (.ok tag) :: after = contacts at h
  cases h with
  | nothing => simp at hcontacts
  | unsigned _ => simp [List.append_eq_cons_iff] at hcontacts
  | signed _ _ inner result =>
    obtain ⟨-, hfirst⟩ | ⟨rest, rfl, hrest⟩ := List.append_eq_cons_iff.1 hcontacts
    · cases hfirst
      exact ⟨_, inner, result, rfl, rfl⟩
    · simp [List.cons_eq_append_iff] at hrest
  | plain _ inner result => simp [List.append_eq_cons_iff] at hcontacts

theorem contacted_ask {request : Request} (h : request.IsPlain) (c : Client ω σ)
    (subCommand : Option SubCommand) (s : σ) :
    Contacted c (contacts (c.ask subCommand request false s).trace) := by
  have hasked := asked c subCommand request false s
  generalize c.ask subCommand request false s = o at hasked ⊢
  cases hasked with
  | unanswered _ => exact .plain h _ _
  | answered _ => exact .plain h _ _

theorem contacted_callSigned {subCommand : SubCommand}
    (hcode : subCommand.code ∈ ([0x01, 0x02, 0x04, 0x05, 0x06] : List UInt8)) (c : Client ω σ)
    (params : Option Params) (s : σ) :
    Contacted c (contacts (c.callSigned subCommand params s).trace) := by
  have hcalled := called c subCommand params s
  generalize c.callSigned subCommand params s = o at hcalled ⊢
  cases hcalled with
  | unsigned h => exact .unsigned h
  | signed h hasked =>
    cases hasked with
    | unanswered _ => exact .signed hcode h _ _
    | answered _ => exact .signed hcode h _ _

/-- After its call an operation does no more than report. -/
theorem contacted_conclude {c : Client ω σ} {call : Op ω σ β} {s : σ}
    (h : Contacted c (contacts (call s).trace)) (read : β → Except Error α) (event : α → Event) :
    Contacted c (contacts (conclude call read event s).trace) := by
  obtain ⟨events, htrace⟩ := trace_conclude call read event s
  rwa [htrace, contacts_append, contacts_reported, List.append_nil]

theorem contacted_read {c : Client ω σ} {call : Op ω σ β} {s : σ}
    (h : Contacted c (contacts (call s).trace)) (read : β → Except Error α) :
    Contacted c (contacts ((call >>= fun b => Action.ofExcept (read b)) s).trace) := by
  rcases hcall : call s with ⟨result, trace, s'⟩
  rw [hcall] at h
  cases result with
  | error e => rwa [Action.bind_of_error hcall]
  | ok b =>
    rw [Action.bind_of_ok hcall]
    simpa [Action.ofExcept] using h

/-! ## Operations -/

theorem contacted_sample (c : Client ω σ) (timeout : Option UInt32) (plan : Plan) (s : σ) :
    Contacted c (contacts (c.sample timeout plan s).trace) := by
  have hcode : plan.subCommand.code ∈ ([0x01, 0x02, 0x04, 0x05, 0x06] : List UInt8) := by
    cases plan with
    | begin => decide
    | next id =>
      change SubCommand.captureNext.code ∈ _
      decide
  obtain ⟨events, htrace⟩ := trace_sample c timeout plan s
  rw [htrace, contacts_append, contacts_reported, List.append_nil]
  exact contacted_callSigned hcode c _ s

theorem contacted_capture (c : Client ω σ) (e : Enrollment) (s : σ) :
    Contacted c (contacts (c.capture (e, s)).trace) := by
  have hcaptured := captured c e s
  generalize c.capture (e, s) = o at hcaptured ⊢
  cases hcaptured with
  | ended _ => exact .nothing
  | @failed plan _ _ _ _ hsample | @rejected plan _ _ _ _ _ hsample _
  | @accepted plan _ _ _ _ _ hsample _ _ =>
    have h := c.contacted_sample e.timeout plan s
    rwa [hsample] at h
  | @completed plan _ _ _ _ _ hsample _ _ =>
    have h := c.contacted_sample e.timeout plan s
    rw [hsample] at h
    simpa [contacts, Step.isContact] using h

theorem contacted_cancelEnrollment (c : Client ω σ) (s : σ) :
    Contacted c (contacts (c.cancelEnrollment s).trace) :=
  contacted_conclude (contacted_ask (.inl rfl) c (some .cancelEnrollment) s) _ _

theorem contacted_cancel (c : Client ω σ) (e : Enrollment) (s : σ) :
    Contacted c (contacts (c.cancel (e, s)).trace) := by
  have hdropped := dropped c e s
  have h := c.contacted_cancelEnrollment s
  generalize c.cancel (e, s) = o at hdropped ⊢
  cases hdropped with
  | failed hresult => rwa [hresult] at h
  | cancelled hresult => rwa [hresult] at h

theorem trace_checkName (c : Client ω σ) (name : String) (s : σ) : (c.checkName name s).trace = [] := by
  unfold checkName
  cases c.config.maxNameLength with
  | none => rfl
  | some limit =>
    by_cases h : name.utf8ByteSize ≤ limit
    · simp only [if_pos h]
      rfl
    · simp only [if_neg h]
      rfl

theorem contacted_rename (c : Client ω σ) (id : TemplateId) (name : String) (s : σ) :
    Contacted c (contacts (c.rename id name s).trace) := by
  unfold rename
  have htrace := c.trace_checkName name s
  rcases h : c.checkName name s with ⟨result, trace, s'⟩
  rw [h] at htrace
  subst htrace
  cases result with
  | error e =>
    rw [Action.bind_of_error h]
    exact .nothing
  | ok _ =>
    rw [Action.bind_of_ok h]
    exact contacted_conclude (contacted_callSigned (by decide) c _ s') _ _

/-- One line for each operation: what it does with the signer and the session. -/
theorem contacted_act (c : Client ω σ) (op : Operation) (w : World σ) :
    Contacted c (contacts (op.act c w).trace) := by
  cases op with
  | modality =>
    rw [Operation.act, Action.map_run]
    exact contacted_read (contacted_ask (.inr (.inr rfl)) c none w.2) _
  | sensor =>
    rw [Operation.act, Action.map_run]
    exact contacted_read (contacted_ask (.inr (.inl rfl)) c (some .describeSensor) w.2) _
  | begin timeout =>
    rw [Operation.act, Action.map_run]
    exact contacted_conclude (contacted_callSigned (by decide) c _ w.2) _ _
  | next id timeout =>
    rw [Operation.act, Action.map_run]
    exact contacted_conclude (contacted_callSigned (by decide) c _ w.2) _ _
  | cancelCurrent =>
    rw [Operation.act, Action.map_run]
    exact contacted_cancelEnrollment c w.2
  | list =>
    rw [Operation.act, Action.map_run]
    -- Looking at the failure of the call changes nothing of what was done for it.
    have h : Contacted c (contacts (Action.attempt (c.callSigned .listTemplates none) w.2).trace) :=
      contacted_callSigned (by decide) c none w.2
    exact contacted_conclude h _ _
  | rename id name =>
    rw [Operation.act, Action.map_run]
    exact contacted_rename c id name w.2
  | remove id =>
    rw [Operation.act, Action.map_run]
    exact contacted_conclude (contacted_callSigned (by decide) c _ w.2) _ _
  | enroll slot timeout =>
    rw [Operation.act, Action.map_run]
    exact .nothing
  | capture slot =>
    rw [Operation.act, Action.map_run]
    exact contacted_capture c (w.1 slot) w.2
  | cancel slot =>
    rw [Operation.act, Action.map_run]
    exact contacted_cancel c (w.1 slot) w.2

end Client

/-- No request that changes the authenticator, or tells its templates, is sent without a signature or
with a foreign one. Whatever is done with a client, in any order, and whatever its session and its signer
do, each request is of one of two kinds. Either it carries the tag that the signer gave, for the client's
token and for the message over this request's own parameters, in the same operation and right before; or
it drops the enrollment in progress or asks about the sensor, has no parameters and no tag, and its
operation does not use the signer. Each tag that the signer gave is sent, in exactly one request. -/
theorem request_signed_or_plain {ω σ : Type} (c : Client ω σ) (ops : List Operation) (w : World σ)
    {p : Performed ω} (hp : p ∈ (perform c ops w).1) :
    (∀ {before after : List (Client.Step ω)} {request : Request} {steps : List ω}
      {answer : Except Error Answer},
      Client.contacts p.steps = before ++ .exchanged request steps answer :: after →
      (∃ earlier message tag, before = earlier ++ [.signed message (.ok tag)] ∧
        (∃ s, (c.signer.sign c.token message s).1 = .ok tag) ∧
        ∃ subCommand ∈ ([0x01, 0x02, 0x04, 0x05, 0x06] : List UInt8),
          message = Request.transcript 0x01 subCommand request.params ∧
          request = ⟨some 0x01, some subCommand, request.params, some c.signer.protocol, some tag, false⟩) ∨
      (request.IsPlain ∧ ∀ message tag, .signed message tag ∉ p.steps)) ∧
    ∀ {before after : List (Client.Step ω)} {message tag : Bytes},
      Client.contacts p.steps = before ++ .signed message (.ok tag) :: after →
      ∃ request steps answer, after = [.exchanged request steps answer] ∧ request.authParam = some tag := by
  obtain ⟨op, -, w', rfl⟩ := exists_of_mem_perform hp
  have hcontacted := c.contacted_act op w'
  refine ⟨?_, ?_⟩
  · intro before after request steps answer h
    rw [h] at hcontacted
    rcases hcontacted.request with hsigned | ⟨hplain, hnone⟩
    · exact .inl hsigned
    · refine .inr ⟨hplain, ?_⟩
      intro message tag hmem
      -- A use of the signer is no event, so it would be among the contacts.
      refine hnone message tag ?_
      rw [← h]
      exact List.mem_filter.2 ⟨hmem, rfl⟩
  · intro before after message tag h
    rw [h] at hcontacted
    exact hcontacted.tag

/-- A first capture signs what it sends, although the device refuses it. -/
theorem request_signed_of_capture :
    let device : Session Unit Unit := ⟨fun _ s => ⟨.error (.refused .pinAuthInvalid), [], s⟩, .unknown⟩
    let c : Client Unit Unit :=
      ⟨device, ⟨2, fun _ _ s => (.ok [0xaa], s)⟩, ⟨[0x01]⟩, ⟨some 5000, none, none⟩⟩
    ∃ p ∈ (perform c [.sensor, .enroll 0 none, .capture 0] (fun _ => .new none, ())).1,
      ∃ message request steps answer,
        Client.contacts p.steps = [.signed message (.ok [0xaa]), .exchanged request steps answer] ∧
        request.authParam = some [0xaa] ∧
        ∃ subCommand, message = Request.transcript 0x01 subCommand request.params := by
  intro device c
  let o := (Operation.capture 0).act c (fun n => if n = 0 then c.enroll none else .new none, ())
  have hp : ⟨o.result, o.trace⟩ ∈
      (perform c [.sensor, .enroll 0 none, .capture 0] (fun _ => .new none, ())).1 :=
    List.mem_cons_of_mem _ (List.mem_cons_of_mem _ (List.mem_singleton.2 rfl))
  let params : Params := Params.withTimeout .empty (some 5000)
  let signed : Client.Step Unit := .signed (Request.transcript 0x01 0x01 (some params)) (.ok [0xaa])
  let sent : Client.Step Unit := .exchanged (c.signedRequest .beginEnrollment (some params) [0xaa]) []
    (.error (.refused .pinAuthInvalid))
  have hcontacts : Client.contacts o.trace = [signed, sent] := rfl
  obtain ⟨hrequest, htag⟩ := request_signed_or_plain c _ _ hp
  have hfirst : Client.contacts o.trace = [] ++ signed :: [sent] := hcontacts
  have hsecond : Client.contacts o.trace = [signed] ++ sent :: [] := hcontacts
  obtain ⟨request, steps, answer, hsent, hparam⟩ := htag hfirst
  refine ⟨_, hp, Request.transcript 0x01 0x01 (some params), request, steps, answer, ?_, hparam, ?_⟩
  · rw [hcontacts, ← hsent]
  · rcases hrequest hsecond with ⟨earlier, message, tag, hsigned, -, subCommand, -, hmessage, -⟩ | ⟨-, hnone⟩
    · have hparams : request.params = (c.signedRequest .beginEnrollment (some params) [0xaa]).params := by
        obtain ⟨hsame, -⟩ := Client.Step.exchanged.inj (List.cons.inj hsent).1
        rw [← hsame]
      obtain ⟨-, hlast⟩ := List.append_inj' (show [] ++ [signed] = earlier ++ _ from hsigned) rfl
      obtain ⟨hsame, -⟩ := Client.Step.signed.inj (List.cons.inj hlast).1
      exact ⟨subCommand, by rw [hsame, hparams]; exact hmessage⟩
    · exact absurd List.mem_cons_self (hnone _ _)

end CtapEnroll
