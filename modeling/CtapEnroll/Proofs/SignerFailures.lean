import CtapEnroll.Proofs.OneTemplate
import CtapEnroll.Proofs.Transactions
/-!
# When the signer fails

Without a signature nothing is sent, nothing is reported, and no enrollment changes. The error of the signer is
then the result, with one exception: a listing looks at what signing and sending came to together, so it takes
`invalidOption` from a signer for the answer of a device without templates. `signer_failure_is_final` says
when the error is the result, and `listing_despite_signer_failure` shows the exception.
-/

namespace CtapEnroll

variable {ω σ : Type}

/-- The operations that sign, with the sub-command and the parameters that they sign. -/
inductive Operation.Signs (config : Config) (enrollments : Nat → Enrollment) :
    Operation → SubCommand → Option Params → Prop
  | begin (timeout : Option UInt32) :
      Signs config enrollments (.begin timeout) .beginEnrollment (some (Params.withTimeout .empty timeout))
  | next (id : TemplateId) (timeout : Option UInt32) :
      Signs config enrollments (.next id timeout) .captureNext
        (some ((Params.ofTemplate id).withTimeout timeout))
  | list : Signs config enrollments .list .listTemplates none
  | rename (id : TemplateId) {name : String}
      (h : ∀ limit, config.maxNameLength = some limit → name.utf8ByteSize ≤ limit) :
      Signs config enrollments (.rename id name) .renameTemplate
        (some ((Params.ofTemplate id).withName name))
  | remove (id : TemplateId) :
      Signs config enrollments (.remove id) .removeTemplate (some (Params.ofTemplate id))
  | capture (slot : Nat) {plan : Plan} (h : (enrollments slot).plan = some plan) :
      Signs config enrollments (.capture slot) plan.subCommand
        (some (plan.params (enrollments slot).timeout))

namespace Operation

/-- An operation that signs is made of a transaction that does, and that is not refused. -/
theorem Signs.transaction {config : Config} {enrollments : Nat → Enrollment} {op : Operation}
    {subCommand : SubCommand} {params : Option Params} (h : op.Signs config enrollments subCommand params) :
    ∃ t, op.transaction? enrollments = some t ∧ t.refusal? config = none ∧
      t.query = .signed subCommand params ∧ (t = .list ↔ op = .list) := by
  cases h with
  | begin timeout => exact ⟨_, rfl, rfl, rfl, by simp⟩
  | next id timeout => exact ⟨_, rfl, rfl, rfl, by simp⟩
  | list => exact ⟨_, rfl, rfl, rfl, by simp⟩
  | @rename id name hname =>
    refine ⟨_, rfl, ?_, rfl, by simp⟩
    unfold Transaction.refusal?
    cases hlimit : config.maxNameLength with
    | none => rfl
    | some limit => exact if_pos (hname limit hlimit)
  | remove id => exact ⟨_, rfl, rfl, rfl, by simp⟩
  | @capture slot plan hplan =>
    refine ⟨plan.transaction (enrollments slot).timeout, by rw [transaction?, hplan]; rfl, ?_⟩
    cases plan <;> exact ⟨rfl, rfl, by simp [Plan.transaction]⟩

end Operation

/-- If the signer fails, an operation that signs sends nothing and leaves the enrollments as they are. It fails
with the error of the signer and reports nothing, unless it is a listing and the error is the one by which a
device says that it has no templates; then it yields and reports the empty listing. -/
theorem signer_failure_is_final (c : Client ω σ) {op : Operation} {w : World σ} {subCommand : SubCommand}
    {params : Option Params} (hsigns : op.Signs c.config w.1 subCommand params) {e : Error}
    (hsign : (c.signer.sign c.token (Client.transcript subCommand params) w.2).1 = .error e) :
    let o := op.act c w
    Client.requests o.trace = [] ∧ o.state.1 = w.1 ∧
      ((op ≠ .list ∨ e ≠ .refused .invalidOption) ↔
        o.result = .error e ∧ Client.events o.trace = []) ∧
      (op = .list → e = .refused .invalidOption →
        o.result = .ok (.listed .empty) ∧ Client.events o.trace = [.listed .empty]) := by
  obtain ⟨t, ht, hallowed, hquery, hlist⟩ := hsigns.transaction
  obtain ⟨s', hsigner⟩ : ∃ s', c.signer.sign c.token (Client.transcript subCommand params) w.2 = (.error e, s') :=
    ⟨_, Prod.ext hsign rfl⟩
  have hcall := Client.callSigned_of_unsigned hsigner
  have hask := (congrFun (congrArg (Query.ask c) hquery) w.2).trans hcall
  intro o
  rcases t.read_error e with ⟨rfl, rfl, hread⟩ | ⟨hother, hread⟩
  · obtain rfl := hlist.1 rfl
    -- The error of the signer is read as an answer.
    have hact : Transaction.list.act c w.2 = ⟨.ok (.listed .empty), [.signed (Client.transcript subCommand params)
        (.error (.refused .invalidOption)), .reported (.listed .empty)], s'⟩ := by
      rw [Transaction.act_of_allowed hallowed, hask]
      simp only [hread]
      rfl
    have ho : o = _ := Operation.act_of_transaction ht
    rw [hact] at ho
    rw [ho]
    refine ⟨rfl, rfl, by simp [Operation.close], ?_⟩
    intro _ _
    exact ⟨rfl, rfl⟩
  · have ho : o = _ := Operation.act_of_failure ht (Transaction.act_of_failure hallowed hask hread)
    have hne : ¬ (op = .list ∧ e = .refused .invalidOption) := fun h => hother ⟨hlist.2 h.1, h.2⟩
    rw [ho]
    refine ⟨rfl, rfl, iff_of_true (not_and_or.1 hne) ⟨rfl, rfl⟩, ?_⟩
    intro hop he
    exact absurd ⟨hop, he⟩ hne

/-- A capture fails with `invalidOption`, as with every other error of the signer. -/
theorem capture_of_signer_failure :
    let device : Session Unit Unit := ⟨fun _ s => ⟨.ok .empty, [], s⟩, .unknown⟩
    let c : Client Unit Unit :=
      ⟨device, ⟨2, fun _ _ s => (.error (.refused .invalidOption), s)⟩, ⟨[0x01]⟩, {}⟩
    let enrollment : Enrollment := ⟨some 5000, some [0xaa], some 2, .inProgress⟩
    let o := (Operation.capture 0).act c (fun _ => enrollment, ())
    enrollment.plan = some (.next [0xaa]) ∧ o.result = .error (.refused .invalidOption) ∧
      Client.requests o.trace = [] ∧ Client.events o.trace = [] ∧ o.state.1 0 = enrollment := by
  intro device c enrollment o
  have hplan : enrollment.plan = some (.next [0xaa]) := rfl
  have hsigns : (Operation.capture 0).Signs c.config (fun _ => enrollment) (Plan.next [0xaa]).subCommand
      (some ((Plan.next [0xaa]).params (some 5000))) := .capture 0 hplan
  obtain ⟨hrequests, hstate, hiff, -⟩ := signer_failure_is_final c (w := (fun _ => enrollment, ())) hsigns rfl
  obtain ⟨hresult, hevents⟩ := hiff.1 (.inl (by simp))
  exact ⟨hplan, hresult, hrequests, hevents, congrFun hstate 0⟩

/-- A signer that fails with `invalidOption` makes a listing succeed, although the device was not asked. -/
theorem listing_despite_signer_failure :
    let device : Session Unit Unit := ⟨fun _ s => ⟨.ok .empty, [], s⟩, .unknown⟩
    let c : Client Unit Unit :=
      ⟨device, ⟨2, fun _ _ s => (.error (.refused .invalidOption), s)⟩, ⟨[0x01]⟩, {}⟩
    let o := Operation.list.act c (fun _ => .new none, ())
    (c.signer.sign c.token (Client.transcript .listTemplates none) ()).1 = .error (.refused .invalidOption) ∧
      o.result = .ok (.listed .empty) ∧ o.result ≠ .error (.refused .invalidOption) ∧
      Client.requests o.trace = [] ∧ Client.events o.trace = [.listed .empty] :=
  ⟨rfl, rfl, nofun, rfl, rfl⟩

end CtapEnroll
