import CtapEnroll.Client.Operations
/-!
# What an operation of a client comes to

Each operation is one call, and each call has few outcomes. `asked`, `called` and `concluded` list them
with the trace and the state that each leaves: a signed call does nothing more without a signature and
gives the session one request with it, and an operation reports its outcome only after an answer that
it could read.
-/

namespace CtapEnroll.Client

variable {ω σ α β : Type}

/-! ## Requests in a trace -/

def Step.request? : Step ω → Option Request
  | .exchanged request _ _ => some request
  | _ => none

/-- The requests that were given to the session, in order. -/
def requests (steps : List (Step ω)) : List Request := steps.filterMap Step.request?

@[simp] theorem requests_append (a b : List (Step ω)) : requests (a ++ b) = requests a ++ requests b :=
  List.filterMap_append ..

@[simp] theorem requests_signed (transcript : Bytes) (tag : Except Error Bytes) (steps : List (Step ω)) :
    requests (.signed transcript tag :: steps) = requests steps := rfl

@[simp] theorem requests_reported (events : List Event) :
    requests (events.map .reported : List (Step ω)) = [] := by
  induction events with
  | nil => rfl
  | cons event events ih => exact ih

/-! ## Calls -/

/-- What asking comes to: no answer, or one. -/
inductive Asked (c : Client ω σ) (subCommand : Option SubCommand) (request : Request)
    (authenticated : Bool) (s : σ) : Outcome Error (Step ω) σ Answer → Prop
  | unanswered {e : Error} {steps : List ω} {s' : σ}
      (h : c.session.exchange request s = ⟨.error e, steps, s'⟩) :
      Asked c subCommand request authenticated s ⟨.error e,
        [.reported (.sending subCommand authenticated), .exchanged request steps (.error e)], s'⟩
  | answered {answer : Answer} {steps : List ω} {s' : σ}
      (h : c.session.exchange request s = ⟨.ok answer, steps, s'⟩) :
      Asked c subCommand request authenticated s ⟨.ok answer,
        [.reported (.sending subCommand authenticated), .exchanged request steps (.ok answer),
          .reported (.answered subCommand answer)], s'⟩

theorem asked (c : Client ω σ) (subCommand : Option SubCommand) (request : Request)
    (authenticated : Bool) (s : σ) :
    Asked c subCommand request authenticated s (c.ask subCommand request authenticated s) := by
  rcases h : c.session.exchange request s with ⟨result, steps, s'⟩
  have hexchange : c.exchange request s = ⟨result, [.exchanged request steps result], s'⟩ := by
    simp only [exchange, h]
  unfold ask report
  rw [Action.emit_bind]
  cases result with
  | error e =>
    rw [Action.bind_of_error hexchange]
    exact .unanswered h
  | ok answer =>
    rw [Action.bind_of_ok hexchange, Action.emit_bind]
    exact .answered h

theorem requests_of_asked {c : Client ω σ} {subCommand : Option SubCommand} {request : Request}
    {authenticated : Bool} {s : σ} {o : Outcome Error (Step ω) σ Answer}
    (h : Asked c subCommand request authenticated s o) : requests o.trace = [request] := by
  cases h <;> rfl

/-- What is signed for a sub-command. -/
def transcript (subCommand : SubCommand) (params : Option Params) : Bytes :=
  Request.transcript Modality.fingerprint.code subCommand.code params

def signedRequest (c : Client ω σ) (subCommand : SubCommand) (params : Option Params) (tag : Bytes) :
    Request :=
  { request subCommand with params := params }.signed c.signer.protocol tag

/-- Without a signature, a call does nothing more. -/
theorem callSigned_of_unsigned {c : Client ω σ} {subCommand : SubCommand} {params : Option Params} {e : Error}
    {s s' : σ} (hsign : c.signer.sign c.token (transcript subCommand params) s = (.error e, s')) :
    c.callSigned subCommand params s = ⟨.error e, [.signed (transcript subCommand params) (.error e)], s'⟩ := by
  have hstep : c.sign (transcript subCommand params) s =
      ⟨.error e, [.signed (transcript subCommand params) (.error e)], s'⟩ := by
    simp only [sign, hsign]
  exact Action.bind_of_error hstep

/-- With a signature, a call asks with the request that carries it. -/
theorem callSigned_of_signed {c : Client ω σ} {subCommand : SubCommand} {params : Option Params} {tag : Bytes}
    {s s' : σ} (hsign : c.signer.sign c.token (transcript subCommand params) s = (.ok tag, s')) :
    c.callSigned subCommand params s =
      let o := c.ask (some subCommand) (c.signedRequest subCommand params tag) true s'
      ⟨o.result, .signed (transcript subCommand params) (.ok tag) :: o.trace, o.state⟩ := by
  have hstep : c.sign (transcript subCommand params) s =
      ⟨.ok tag, [.signed (transcript subCommand params) (.ok tag)], s'⟩ := by
    simp only [sign, hsign]
  exact Action.bind_of_ok hstep

/-- What a signed call comes to: no signature, or a request that carries it. -/
inductive Called (c : Client ω σ) (subCommand : SubCommand) (params : Option Params) (s : σ) :
    Outcome Error (Step ω) σ Answer → Prop
  | unsigned {e : Error} {s' : σ}
      (h : c.signer.sign c.token (transcript subCommand params) s = (.error e, s')) :
      Called c subCommand params s ⟨.error e, [.signed (transcript subCommand params) (.error e)], s'⟩
  | signed {tag : Bytes} {s' : σ} {o : Outcome Error (Step ω) σ Answer}
      (h : c.signer.sign c.token (transcript subCommand params) s = (.ok tag, s'))
      (hasked : Asked c (some subCommand) (c.signedRequest subCommand params tag) true s' o) :
      Called c subCommand params s
        ⟨o.result, .signed (transcript subCommand params) (.ok tag) :: o.trace, o.state⟩

theorem called (c : Client ω σ) (subCommand : SubCommand) (params : Option Params) (s : σ) :
    Called c subCommand params s (c.callSigned subCommand params s) := by
  rcases h : c.signer.sign c.token (transcript subCommand params) s with ⟨tag, s'⟩
  cases tag with
  | error e =>
    rw [callSigned_of_unsigned h]
    exact .unsigned h
  | ok tag =>
    rw [callSigned_of_signed h]
    exact .signed h (asked ..)

/-- With a signature, a call comes to what the session makes of the request that carries it. -/
theorem callSigned_run {c : Client ω σ} {subCommand : SubCommand} {params : Option Params} {tag : Bytes}
    {s s' : σ} (hsign : c.signer.sign c.token (transcript subCommand params) s = (.ok tag, s')) :
    let o := c.session.exchange (c.signedRequest subCommand params tag) s'
    (c.callSigned subCommand params s).result = o.result ∧
      (c.callSigned subCommand params s).state = o.state := by
  rw [callSigned_of_signed hsign]
  have hasked := asked c (some subCommand) (c.signedRequest subCommand params tag) true s'
  generalize c.ask (some subCommand) (c.signedRequest subCommand params tag) true s' = o at hasked ⊢
  cases hasked with
  | unanswered h => simp only [h, and_self]
  | answered h => simp only [h, and_self]

/-! ## Conclusions -/

/-- What an operation comes to that reads the outcome of a call. -/
inductive Concluded (read : β → Except Error α) (event : α → Event) (call : Outcome Error (Step ω) σ β) :
    Outcome Error (Step ω) σ α → Prop
  | failed {e : Error} (h : call.result = .error e) :
      Concluded read event call ⟨.error e, call.trace, call.state⟩
  | misread {b : β} {e : Error} (h : call.result = .ok b) (hread : read b = .error e) :
      Concluded read event call ⟨.error e, call.trace, call.state⟩
  | read {b : β} {a : α} (h : call.result = .ok b) (hread : read b = .ok a) :
      Concluded read event call ⟨.ok a, call.trace ++ [.reported (event a)], call.state⟩

theorem concluded (call : Op ω σ β) (read : β → Except Error α) (event : α → Event) (s : σ) :
    Concluded read event (call s) (conclude call read event s) := by
  rcases h : call s with ⟨result, trace, s'⟩
  unfold conclude report
  cases result with
  | error e =>
    rw [Action.bind_of_error h]
    exact .failed rfl
  | ok b =>
    rw [Action.bind_of_ok h]
    cases hread : read b with
    | error e =>
      have hstop : (Action.ofExcept (.error e) : Op ω σ α) s' = ⟨.error e, [], s'⟩ := rfl
      rw [Action.bind_of_error hstop, List.append_nil]
      exact .misread rfl hread
    | ok a =>
      have hgo : (Action.ofExcept (.ok a) : Op ω σ α) s' = ⟨.ok a, [], s'⟩ := rfl
      rw [Action.bind_of_ok hgo, Action.emit_bind]
      exact .read rfl hread

theorem conclude_run (call : Op ω σ β) (read : β → Except Error α) (event : α → Event) (s : σ) :
    (conclude call read event s).result = (call s).result.bind read ∧
      (conclude call read event s).state = (call s).state := by
  have h := concluded call read event s
  generalize conclude call read event s = o at h ⊢
  cases h with
  | failed hresult => simp [hresult, Except.bind]
  | misread hresult hread => simp [hresult, hread, Except.bind]
  | read hresult hread => simp [hresult, hread, Except.bind]

/-- After its call, an operation does no more than report. -/
theorem trace_conclude (call : Op ω σ β) (read : β → Except Error α) (event : α → Event) (s : σ) :
    ∃ events : List Event,
      (conclude call read event s).trace = (call s).trace ++ events.map .reported := by
  have h := concluded call read event s
  generalize conclude call read event s = o at h
  cases h with
  | failed _ => exact ⟨[], (List.append_nil _).symm⟩
  | misread _ _ => exact ⟨[], (List.append_nil _).symm⟩
  | @read b a _ _ => exact ⟨[event a], rfl⟩

theorem checkName_eq_pure {c : Client ω σ} {name : String}
    (h : ∀ limit, c.config.maxNameLength = some limit → name.utf8ByteSize ≤ limit) :
    c.checkName name = pure () := by
  unfold checkName
  split
  · rename_i limit hlimit
    rw [if_pos (h limit hlimit)]
  · rfl

end CtapEnroll.Client
