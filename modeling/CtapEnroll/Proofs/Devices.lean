import CtapEnroll.Proofs.Readings
import CtapEnroll.Proofs.OneTemplate
/-!
# Authenticators that enroll

An authenticator keeps its own account of an enrollment: the template in progress with the number of
samples that it still needs, and the templates that it has stored. `Device.Handled` says what a request
makes of it, and `Client.Serves` that one is behind a client and that none of its answers is lost. What the
client then notices of a sample is `Device.Taken`. A `Simulator` is such an authenticator.
-/

namespace CtapEnroll

variable {ω σ : Type}

/-! ## Authenticators -/

/-- What an authenticator keeps: the template that it is enrolling, with the number of samples that it
still needs for it, and the templates that it has stored. -/
structure Device where
  enrolling : Option (TemplateId × Nat)
  store : List TemplateId
  deriving DecidableEq, Repr

namespace Device

def fresh : Device := ⟨none, []⟩

/-- The samples that are still needed after one with this feedback: only a good one counts. -/
def spend (feedback : UInt8) (left : Nat) : Nat := if feedback = 0 then left - 1 else left

/-- A sample was taken, and the template still needs this many. -/
def keep (d : Device) (id : TemplateId) (left : Nat) : Device :=
  if left = 0 then ⟨none, d.store ++ [id]⟩ else { d with enrolling := some (id, left) }

/-- An answer reports on a sample: its feedback, and how many are still needed. -/
structure Reports (answer : Answer) (feedback : UInt8) (left : Nat) : Prop where
  feedback : answer.get? 0x05 = some (.unsigned feedback.toUInt64)
  left : answer.get? 0x06 = some (.unsigned (.ofNat left))

/-- What comes of a request, by its sub-command and its parameters, where a template needs this many
samples. -/
inductive Handled (needed : Nat) (d : Device) (code : UInt8) (params : Option Params) :
    Except Error Answer → Device → Prop
  -- The request is refused, or does not arrive.
  | failed (err : Error) : Handled needed d code params (.error err) d
  | begun {id : TemplateId} {feedback : UInt8} {answer : Answer} (h : code = 0x01)
      (hid : answer.get? 0x04 = some (.bytes id))
      (hreport : Reports answer feedback (spend feedback needed)) :
      Handled needed d code params (.ok answer) { d with enrolling := some (id, spend feedback needed) }
  | sampled {p : Params} {id : TemplateId} {left : Nat} {feedback : UInt8} {answer : Answer}
      (h : code = 0x02) (hparams : params = some p) (hid : p.get? 0x01 = some (.bytes id))
      (hd : d.enrolling = some (id, left)) (hreport : Reports answer feedback (spend feedback left)) :
      Handled needed d code params (.ok answer) (d.keep id (spend feedback left))
  | dropped {answer : Answer} (h : code = 0x03) :
      Handled needed d code params (.ok answer) { d with enrolling := none }

theorem spend_le (feedback : UInt8) (left : Nat) : spend feedback left ≤ left := by
  unfold spend
  split
  · exact Nat.sub_le left 1
  · exact Nat.le_refl left

theorem spend_of_good {feedback : UInt8} (h : SampleStatus.isGood (.ofCode feedback) = true) (left : Nat) :
    spend feedback left = left - 1 := if_pos ((SampleStatus.isGood_ofCode feedback).1 h)

theorem spend_of_bad {feedback : UInt8} (h : SampleStatus.isGood (.ofCode feedback) = false) (left : Nat) :
    spend feedback left = left := by
  refine if_neg fun hzero => ?_
  rw [(SampleStatus.isGood_ofCode feedback).2 hzero] at h
  cases h

theorem keep_of_ne {left : Nat} (h : left ≠ 0) (d : Device) (id : TemplateId) :
    d.keep id left = { d with enrolling := some (id, left) } := if_neg h

theorem Reports.sample {answer : Answer} {feedback : UInt8} {left : Nat} (h : Reports answer feedback left)
    (hleft : left < UInt32.size) : Sample.ofAnswer answer = .ok ⟨.ofCode feedback, .ofNat left⟩ := by
  have hword : (UInt64.ofNat left).toNat = (UInt32.ofNat left).toNat := by
    rw [UInt64.toNat_ofNat_of_lt' (Nat.lt_trans hleft (by decide)), UInt32.toNat_ofNat_of_lt' hleft]
  refine Sample.ofAnswer_eq_ok_iff.2 ⟨?_, SampleStatus.isCoding.isProper_ofNamed, ?_⟩
  · rw [SampleStatus.code_ofCode]
    exact Answer.get?_eq_unsigned_iff.1 h.feedback
  · rw [Answer.get?_eq_unsigned_iff.1 h.left, hword]

end Device

namespace Client

/-- Behind the client is an authenticator that keeps what `view` sees in the state of the world, and that
needs this many samples for a template. The signer does not touch it. A request for an enrollment is
handled and answered, or it fails and changes nothing: no answer is lost. -/
structure Serves (c : Client ω σ) (needed : Nat) (view : σ → Device) : Prop where
  sign (transcript : Bytes) (s : σ) : view (c.signer.sign c.token transcript s).2 = view s
  exchange {request : Request} {code : UInt8} (s : σ) (hmodality : request.modality = some 0x01)
    (hcode : request.subCommand = some code) (hmem : code ∈ ([0x01, 0x02, 0x03] : List UInt8))
    (hask : request.getModality = false) :
    (view s).Handled needed code request.params (c.session.exchange request s).result
      (view (c.session.exchange request s).state)

/-! ## What a client notices -/

namespace Serves

variable {c : Client ω σ} {needed : Nat} {view : σ → Device}

theorem of_asked (h : c.Serves needed view) {subCommand : SubCommand} {request : Request} {authenticated : Bool}
    {s : σ} {o : Outcome Error (Step ω) σ Answer} (hasked : Asked c (some subCommand) request authenticated s o)
    (hmodality : request.modality = some 0x01) (hcode : request.subCommand = some subCommand.code)
    (hmem : subCommand.code ∈ ([0x01, 0x02, 0x03] : List UInt8)) (hask : request.getModality = false) :
    (view s).Handled needed subCommand.code request.params o.result (view o.state) := by
  have hhandled := h.exchange s hmodality hcode hmem hask
  cases hasked with
  | unanswered hexchange => rwa [hexchange] at hhandled
  | answered hexchange => rwa [hexchange] at hhandled

theorem callSigned (h : c.Serves needed view) {subCommand : SubCommand}
    (hmem : subCommand.code ∈ ([0x01, 0x02, 0x03] : List UInt8)) (params : Option Params) (s : σ) :
    (view s).Handled needed subCommand.code params (c.callSigned subCommand params s).result
      (view (c.callSigned subCommand params s).state) := by
  have hcalled := called c subCommand params s
  have hview := h.sign (transcript subCommand params) s
  generalize c.callSigned subCommand params s = o at hcalled ⊢
  cases hcalled with
  | unsigned hsign =>
    rw [hsign] at hview
    rw [hview]
    exact .failed _
  | signed hsign hasked =>
    rw [hsign] at hview
    rw [← hview]
    exact h.of_asked hasked rfl rfl hmem rfl

theorem cancelEnrollment (h : c.Serves needed view) (s : σ) :
    (∃ err, (c.cancelEnrollment s).result = .error err) ∧ view (c.cancelEnrollment s).state = view s ∨
      (c.cancelEnrollment s).result = .ok () ∧
        view (c.cancelEnrollment s).state = { view s with enrolling := none } := by
  have hhandled := h.of_asked (asked c (some .cancelEnrollment) (request .cancelEnrollment) false s)
    rfl rfl (by decide) rfl
  obtain ⟨hresult, hstate⟩ :=
    conclude_run (c.callPlain .cancelEnrollment) acknowledge (fun _ => .cancelled) s
  rw [Client.cancelEnrollment, hresult, hstate, callPlain]
  generalize (c.ask (some .cancelEnrollment) _ _ s).result = result at hhandled ⊢
  generalize view (c.ask (some .cancelEnrollment) _ _ s).state = d at hhandled ⊢
  cases hhandled with
  | failed err => exact .inl ⟨⟨err, rfl⟩, rfl⟩
  | begun hcode _ _ => exact absurd hcode (by decide)
  | sampled hcode _ _ _ _ => exact absurd hcode (by decide)
  | dropped _ => exact .inr ⟨rfl, rfl⟩

end Serves

end Client

/-! ## Samples -/

/-- What the device has in progress where a plan takes the next sample. -/
def Plan.enrolling (left : Nat) : Plan → Option (TemplateId × Nat)
  | begin => none
  | next id => some (id, left)

namespace Device

/-- The device still needs a number of samples for the template of a plan, after it accepted some. -/
structure Awaits (needed : Nat) (d : Device) (plan : Plan) (left accepted : Nat) : Prop where
  eq : d = ⟨plan.enrolling left, []⟩
  pos : 1 ≤ left
  sum : accepted + left = needed
  first : plan = .begin → accepted = 0

/-- What comes of a sample: nothing, or the device counts it and tells so. -/
inductive Taken (d : Device) (left : Nat) : Except Error (TemplateId × Sample) → Device → Prop
  | failed (err : Error) : Taken d left (.error err) d
  | counted (id : TemplateId) (feedback : UInt8) :
      Taken d left (.ok (id, ⟨.ofCode feedback, .ofNat (spend feedback left)⟩)) (d.keep id (spend feedback left))

theorem Taken.of_error {d d' : Device} {left : Nat} {err : Error} (h : Taken d left (.error err) d') :
    d' = d := by
  cases h with
  | failed _ => rfl

theorem Taken.of_ok {d d' : Device} {left : Nat} {id : TemplateId} {sample : Sample}
    (h : Taken d left (.ok (id, sample)) d') :
    ∃ feedback, sample = ⟨.ofCode feedback, .ofNat (spend feedback left)⟩ ∧ d' = d.keep id (spend feedback left) := by
  cases h with
  | counted _ feedback => exact ⟨feedback, rfl, rfl⟩

end Device

namespace Client.Serves

variable {c : Client ω σ} {needed : Nat} {view : σ → Device}

theorem beginEnrollment (h : c.Serves needed view) (hneeded : 2 ≤ needed) (hsize : needed < UInt32.size)
    (timeout : Option UInt32) (s : σ) :
    (view s).Taken needed (c.sample timeout .begin s).result (view (c.sample timeout .begin s).state) := by
  have hhandled := h.callSigned (show SubCommand.beginEnrollment.code ∈ _ by decide)
    (some (Params.withTimeout .empty timeout)) s
  obtain ⟨hresult, hstate⟩ := conclude_run
    (c.callSigned .beginEnrollment (some (Params.withTimeout .empty timeout))) Beginning.ofAnswer
    (fun begun => .sampled begun.sample) s
  rw [sample, Action.map_run, Client.beginEnrollment, hresult, hstate]
  generalize (c.callSigned .beginEnrollment _ s).result = result at hhandled ⊢
  generalize view (c.callSigned .beginEnrollment _ s).state = d at hhandled ⊢
  cases hhandled with
  | failed err => exact .failed err
  | @begun id feedback answer _ hid hreport =>
    -- The first sample is never the last one.
    have hleft : Device.spend feedback needed ≠ 0 := by
      unfold Device.spend
      split <;> omega
    have hsample := hreport.sample (Nat.lt_of_le_of_lt (Device.spend_le feedback needed) hsize)
    have hread : Beginning.ofAnswer answer = .ok ⟨id, .ofCode feedback, .ofNat (Device.spend feedback needed)⟩ :=
      Beginning.ofAnswer_eq_ok_iff.2 ⟨hid, Sample.ofAnswer_eq_ok_iff.1 hsample⟩
    rw [← Device.keep_of_ne hleft]
    simp only [Except.bind, hread, Except.map]
    exact .counted id feedback
  | sampled hcode _ _ _ _ => exact absurd hcode (by decide)
  | dropped hcode => exact absurd hcode (by decide)

theorem captureNext (h : c.Serves needed view) {id : TemplateId} {left : Nat} (timeout : Option UInt32)
    {s : σ} (henrolling : (view s).enrolling = some (id, left)) (hsize : left < UInt32.size) :
    (view s).Taken left (c.sample timeout (.next id) s).result
      (view (c.sample timeout (.next id) s).state) := by
  have hhandled := h.callSigned (show SubCommand.captureNext.code ∈ _ by decide)
    (some ((Params.ofTemplate id).withTimeout timeout)) s
  obtain ⟨hresult, hstate⟩ := conclude_run
    (c.callSigned .captureNext (some ((Params.ofTemplate id).withTimeout timeout))) Sample.ofAnswer
    .sampled s
  rw [sample, Action.map_run, Client.captureNext, hresult, hstate]
  generalize (c.callSigned .captureNext _ s).result = result at hhandled ⊢
  generalize view (c.callSigned .captureNext _ s).state = d at hhandled ⊢
  cases hhandled with
  | failed err => exact .failed err
  | begun hcode _ _ => exact absurd hcode (by decide)
  | @sampled p other count feedback answer _ hparams hid hd hreport =>
    -- The request names the template that the device has in progress.
    rw [henrolling] at hd
    cases hd
    have hsample := hreport.sample (Nat.lt_of_le_of_lt (Device.spend_le feedback left) hsize)
    simp only [Except.bind, hsample, Except.map]
    exact .counted id feedback
  | dropped hcode => exact absurd hcode (by decide)

theorem taken (h : c.Serves needed view) (hneeded : 2 ≤ needed) (hsize : needed < UInt32.size)
    {timeout : Option UInt32} {plan : Plan} {left accepted : Nat} {s s' : σ}
    (hawaits : (view s).Awaits needed plan left accepted) {result : Except Error (TemplateId × Sample)}
    {trace : List (Step ω)} (hsample : c.sample timeout plan s = ⟨result, trace, s'⟩) :
    (view s).Taken left result (view s') := by
  have hsum := hawaits.sum
  suffices htaken : (view s).Taken left (c.sample timeout plan s).result
      (view (c.sample timeout plan s).state) by
    rwa [hsample] at htaken
  cases plan with
  | begin =>
    have hleft : left = needed := by
      have := hawaits.first rfl
      omega
    rw [hleft]
    exact h.beginEnrollment hneeded hsize timeout s
  | next id => exact h.captureNext timeout (congrArg Device.enrolling hawaits.eq) (by omega)

end Client.Serves

/-! ## A simulated authenticator -/

/-- An authenticator whose part is written in advance: the feedback on the samples to come,
after which all are good, and which of the requests to come it refuses. -/
structure Simulator where
  device : Device
  feedback : List UInt8
  refusals : List Bool
  nextId : UInt8
  deriving DecidableEq, Repr

namespace Simulator

def report (feedback : UInt8) (left : Nat) : List (Int × Cbor.Value) :=
  [(0x05, .unsigned feedback.toUInt64), (0x06, .unsigned (.ofNat left))]

def begin (needed : Nat) (s : Simulator) : Except Error Answer × Simulator :=
  let id := [0xf0, s.nextId]
  let feedback := s.feedback.headD 0
  let left := Device.spend feedback needed
  (.ok (.ofList ((0x04, .bytes id) :: report feedback left)),
    { s with
      device.enrolling := some (id, left)
      feedback := s.feedback.tail
      nextId := s.nextId + 1 })

def next (params : Option Params) (s : Simulator) : Except Error Answer × Simulator :=
  match params.bind (·.get? 0x01), s.device.enrolling with
  | some (.bytes id), some (current, count) =>
    if id = current then
      let feedback := s.feedback.headD 0
      let left := Device.spend feedback count
      (.ok (.ofList (report feedback left)),
        { s with
          device := s.device.keep id left
          feedback := s.feedback.tail })
    else (.error (.refused .invalidOption), s)
  | _, _ => (.error (.refused .invalidOption), s)

def handle (needed : Nat) (request : Request) (s : Simulator) : Except Error Answer × Simulator :=
  match request.subCommand with
  | some 0x01 => s.begin needed
  | some 0x02 => s.next request.params
  | some 0x03 => (.ok .empty, { s with device.enrolling := none })
  | _ => (.error (.refused .invalidParameter), s)

def session (needed : Nat) : Session Unit Simulator :=
  ⟨fun request s =>
    let rest := { s with refusals := s.refusals.tail }
    let (result, s) :=
      if s.refusals.headD false then (.error (.refused .operationDenied), rest) else rest.handle needed request
    ⟨result, [], s⟩, .unknown⟩

theorem reports_begin (id : TemplateId) (feedback : UInt8) (left : Nat) :
    Device.Reports (.ofList ((0x04, .bytes id) :: report feedback left)) feedback left := ⟨rfl, rfl⟩

theorem reports_next (feedback : UInt8) (left : Nat) :
    Device.Reports (.ofList (report feedback left)) feedback left := ⟨rfl, rfl⟩

theorem handled_next {request : Request} (s : Simulator) (needed : Nat) :
    s.device.Handled needed 0x02 request.params (s.next request.params).1 (s.next request.params).2.device := by
  unfold next
  split
  · rename_i id current count hid hd
    split
    · rename_i hsame
      obtain ⟨p, hp, hget⟩ := Option.bind_eq_some_iff.1 hid
      rw [← hsame] at hd
      exact .sampled rfl hp hget hd (reports_next _ _)
    · exact .failed _
  · exact .failed _

theorem handled_handle {request : Request} {code : UInt8} (hcode : request.subCommand = some code)
    (hmem : code ∈ ([0x01, 0x02, 0x03] : List UInt8)) (needed : Nat) (s : Simulator) :
    s.device.Handled needed code request.params (s.handle needed request).1
      (s.handle needed request).2.device := by
  unfold handle
  rw [hcode]
  simp only [List.mem_cons, List.not_mem_nil, or_false] at hmem
  rcases hmem with rfl | rfl | rfl
  · exact .begun rfl rfl (reports_begin _ _ _)
  · exact s.handled_next needed
  · exact .dropped rfl

/-- A signer of its own does not touch the authenticator. -/
theorem serves (needed : Nat) {signer : Signer Simulator}
    (hsign : ∀ token transcript s, (signer.sign token transcript s).2 = s) (token : Token) (config : Config) :
    Client.Serves ⟨session needed, signer, token, config⟩ needed device where
  sign transcript s := congrArg device (hsign token transcript s)
  exchange {request code} s _ hcode hmem _ := by
    simp only [session]
    split
    · exact .failed _
    · exact handled_handle hcode hmem needed { s with refusals := s.refusals.tail }

end Simulator

end CtapEnroll

