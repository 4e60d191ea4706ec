import CtapEnroll.Proofs.Devices
import CtapEnroll.Proofs.Lifecycle
/-!
# Agreement with the authenticator

As long as no answer is lost, the enrollment of a client and the authenticator's own account of it stay in
step. `Matched` ties the two together, every capture and every cancel keeps it, and `enrollment_agrees`
reads off what both then know.
-/

namespace CtapEnroll

variable {ω σ : Type}

/-! ## Courses -/

namespace Client

/-- The calls of a client on one enrollment, each in the state of the world that the one before left: the
enrollment and the state after them, and the calls in order. -/
inductive Course (c : Client ω σ) (start : Enrollment × σ) : Enrollment × σ → List (Turn ω) → Prop
  | nil : Course c start start []
  | capture {w : Enrollment × σ} {turns : List (Turn ω)} (h : Course c start w turns) :
      Course c start (c.capture w).state (turns ++ [.capture (c.capture w).result (c.capture w).trace])
  | cancel {w : Enrollment × σ} {turns : List (Turn ω)} (h : Course c start w turns) :
      Course c start (c.cancel w).state (turns ++ [.cancel (c.cancel w).result (c.cancel w).trace])

theorem Course.run {c : Client ω σ} {start w : Enrollment × σ} {turns : List (Turn ω)}
    (h : Course c start w turns) : Run ω σ start.1 w.1 turns := by
  induction h with
  | nil => exact .nil
  | capture _ ih => exact ih.capture c _
  | cancel _ ih => exact ih.cancel c _

end Client

/-! ## In step -/

namespace Turn

def accepts : Turn ω → Bool
  | capture (.ok _) _ => true
  | _ => false

/-- The number of samples that were accepted. -/
def accepted (turns : List (Turn ω)) : Nat := turns.countP accepts

@[simp] theorem accepted_append (turns : List (Turn ω)) (turn : Turn ω) :
    accepted (turns ++ [turn]) = accepted turns + turn.accepts.toNat := by
  unfold accepted
  cases h : turn.accepts <;> simp [List.countP_append, h]

end Turn

/-- An enrollment and a device are in step, after so many samples were accepted and these templates were
finished. -/
inductive Matched (needed : Nat) (e : Enrollment) (d : Device) (accepted : Nat)
    (finished : List TemplateId) : Prop
  | going {plan : Plan} {left : Nat} (hplan : e.plan = some plan)
      (hawaits : d.Awaits needed plan left accepted)
      (hremaining : e.remaining? = if accepted = 0 then none else some (.ofNat left))
      (hfinished : finished = [])
  | complete {id : TemplateId} (hphase : e.phase = .complete) (hid : e.template? = some id)
      (hd : d = ⟨none, [id]⟩) (haccepted : accepted = needed) (hfinished : finished = [id])
  | cancelled (hphase : e.phase = .cancelled) (hd : d = ⟨none, finished⟩)
      (haccepted : finished ≠ [] → accepted = needed)

theorem Enrollment.Past.of_finished {e : Enrollment} {begun finished : List TemplateId}
    (h : e.Past begun finished) (hne : finished ≠ []) : ∃ id, begun = [id] ∧ finished = [id] := by
  have hle := h.length_begun_le
  obtain rfl : finished = begun := h.finished_eq.resolve_left hne
  have hlength : finished.length = 1 := by
    have := List.length_pos_iff.2 hne
    omega
  obtain ⟨id, hid⟩ := List.length_eq_one_iff.1 hlength
  exact ⟨id, hid, hid⟩

namespace Matched

variable {needed accepted : Nat} {e : Enrollment} {d : Device} {finished : List TemplateId}

theorem new (hneeded : 2 ≤ needed) (timeout : Option UInt32) :
    Matched needed (.new timeout) .fresh 0 [] :=
  .going rfl ⟨rfl, by omega, Nat.zero_add needed, fun _ => rfl⟩ rfl rfl

theorem of_plan (h : Matched needed e d accepted finished) {plan : Plan} (hplan : e.plan = some plan) :
    ∃ left, d.Awaits needed plan left accepted ∧
      (e.remaining? = if accepted = 0 then none else some (.ofNat left)) ∧ finished = [] := by
  cases h with
  | going hplan' hawaits hremaining hfinished =>
    rw [hplan] at hplan'
    cases hplan'
    exact ⟨_, hawaits, hremaining, hfinished⟩
  | complete hphase _ _ _ _ => simp [Enrollment.plan, hphase] at hplan
  | cancelled hphase _ _ => simp [Enrollment.plan, hphase] at hplan

theorem reject {plan : Plan} {left : Nat} (hawaits : d.Awaits needed plan left accepted)
    (hremaining : e.remaining? = if accepted = 0 then none else some (.ofNat left)) (id : TemplateId)
    {feedback : UInt8} (hbad : SampleStatus.isGood (.ofCode feedback) = false) :
    Matched needed (e.adopt id) (d.keep id (Device.spend feedback left)) accepted [] := by
  have hpos := hawaits.pos
  have hnext : (d.keep id left).Awaits needed (.next id) left accepted := by
    refine ⟨?_, hpos, hawaits.sum, fun hbegin => by cases hbegin⟩
    rw [Device.keep_of_ne (by omega), hawaits.eq]
    rfl
  rw [Device.spend_of_bad hbad]
  exact .going rfl hnext hremaining rfl

theorem accept {plan : Plan} {left : Nat} (hawaits : d.Awaits needed plan left accepted) (id : TemplateId)
    {feedback : UInt8} (hgood : SampleStatus.isGood (.ofCode feedback) = true)
    (hmore : UInt32.ofNat (Device.spend feedback left) ≠ 0) :
    Matched needed ((e.adopt id).accept (.ofNat (Device.spend feedback left)))
      (d.keep id (Device.spend feedback left)) (accepted + 1) [] := by
  have hpos := hawaits.pos
  have hsum := hawaits.sum
  rw [Device.spend_of_good hgood] at hmore ⊢
  have hleft : left - 1 ≠ 0 := by
    intro hzero
    rw [hzero] at hmore
    exact hmore rfl
  have hplan : ((e.adopt id).accept (.ofNat (left - 1))).plan = some (.next id) := by
    simp [Enrollment.plan, Enrollment.phase_accept, hmore]
  have hnext : (d.keep id (left - 1)).Awaits needed (.next id) (left - 1) (accepted + 1) := by
    refine ⟨?_, by omega, by omega, fun hbegin => by cases hbegin⟩
    rw [Device.keep_of_ne hleft, hawaits.eq]
    rfl
  exact .going hplan hnext (by simp) rfl

theorem finish {plan : Plan} {left : Nat} (hawaits : d.Awaits needed plan left accepted)
    (hsize : needed < UInt32.size) (id : TemplateId) {feedback : UInt8}
    (hgood : SampleStatus.isGood (.ofCode feedback) = true)
    (hlast : UInt32.ofNat (Device.spend feedback left) = 0) :
    Matched needed ((e.adopt id).accept 0) (d.keep id (Device.spend feedback left)) (accepted + 1) [id] := by
  have hpos := hawaits.pos
  have hsum := hawaits.sum
  rw [Device.spend_of_good hgood] at hlast ⊢
  have hleft : left - 1 = 0 := by
    have hnat := congrArg UInt32.toNat hlast
    rwa [UInt32.toNat_ofNat_of_lt' (by omega)] at hnat
  have hd : d.keep id (left - 1) = ⟨none, [id]⟩ := by
    rw [hleft, hawaits.eq]
    rfl
  exact .complete rfl rfl hd (by omega) rfl

theorem cancel (h : Matched needed e d accepted finished) :
    Matched needed e.cancel { d with enrolling := none } accepted finished := by
  cases h with
  | going _ hawaits _ hfinished =>
    refine .cancelled rfl ?_ fun hne => absurd hfinished hne
    rw [hawaits.eq, hfinished]
  | complete _ _ hd haccepted hfinished =>
    refine .cancelled rfl ?_ fun _ => haccepted
    rw [hd, hfinished]
  | cancelled _ hd haccepted =>
    refine .cancelled rfl ?_ haccepted
    rw [hd]

/-- A capture keeps an enrollment and its device in step. -/
theorem capture {c : Client ω σ} {view : σ → Device} (hserves : c.Serves needed view) (hneeded : 2 ≤ needed)
    (hsize : needed < UInt32.size) {s : σ} (h : Matched needed e (view s) accepted finished) :
    let o := c.capture (e, s)
    let turn : Turn ω := .capture o.result o.trace
    Matched needed o.state.1 (view o.state.2) (accepted + turn.accepts.toNat) (finished ++ turn.finished?.toList) := by
  have hcaptured := Client.captured c e s
  generalize c.capture (e, s) = o at hcaptured
  cases hcaptured with
  | ended _ => simpa [Turn.accepts, Turn.finished?] using h
  | failed hplan hsample =>
    obtain ⟨left, hawaits, -, -⟩ := h.of_plan hplan
    have hview := (hserves.taken hneeded hsize hawaits hsample).of_error
    simpa [Turn.accepts, Turn.finished?, hview] using h
  | rejected hplan hsample hbad =>
    obtain ⟨left, hawaits, hremaining, rfl⟩ := h.of_plan hplan
    obtain ⟨feedback, rfl, hview⟩ := (hserves.taken hneeded hsize hawaits hsample).of_ok
    simpa [Turn.accepts, Turn.finished?, hview] using reject hawaits hremaining _ hbad
  | accepted hplan hsample hgood hmore =>
    obtain ⟨left, hawaits, -, rfl⟩ := h.of_plan hplan
    obtain ⟨feedback, rfl, hview⟩ := (hserves.taken hneeded hsize hawaits hsample).of_ok
    simpa [Turn.accepts, Turn.finished?, hview] using accept hawaits _ hgood hmore
  | completed hplan hsample hgood hlast =>
    obtain ⟨left, hawaits, -, rfl⟩ := h.of_plan hplan
    obtain ⟨feedback, rfl, hview⟩ := (hserves.taken hneeded hsize hawaits hsample).of_ok
    simpa [Turn.accepts, Turn.finished?, hview] using finish hawaits hsize _ hgood hlast

/-- A cancel keeps an enrollment and its device in step. -/
theorem drop {c : Client ω σ} {view : σ → Device} (hserves : c.Serves needed view) {s : σ}
    (h : Matched needed e (view s) accepted finished) :
    Matched needed (c.cancel (e, s)).state.1 (view (c.cancel (e, s)).state.2) accepted finished := by
  have hdropped := Client.dropped c e s
  have hcancel := hserves.cancelEnrollment s
  generalize c.cancel (e, s) = o at hdropped ⊢
  cases hdropped with
  | failed hresult =>
    rw [hresult] at hcancel
    rcases hcancel with ⟨-, hview⟩ | ⟨hok, -⟩
    · rwa [hview]
    · cases hok
  | cancelled hresult =>
    rw [hresult] at hcancel
    rcases hcancel with ⟨⟨err, herror⟩, -⟩ | ⟨-, hview⟩
    · cases herror
    · rw [hview]
      exact h.cancel

theorem of_course {c : Client ω σ} {view : σ → Device} (hserves : c.Serves needed view) (hneeded : 2 ≤ needed)
    (hsize : needed < UInt32.size) {timeout : Option UInt32} {s : σ} (hfresh : view s = .fresh)
    {w : Enrollment × σ} {turns : List (Turn ω)} (h : Client.Course c (.new timeout, s) w turns) :
    Matched needed w.1 (view w.2) (Turn.accepted turns) (Turn.finished turns) := by
  -- Call by call from the first: each finds enrollment and device as the one before left them.
  induction h with
  | nil =>
    rw [hfresh]
    exact new hneeded timeout
  | @capture w turns _ ih =>
    rw [Turn.accepted_append, Turn.finished_append]
    exact ih.capture hserves hneeded hsize
  | @cancel w turns _ ih =>
    have hstep := ih.drop hserves
    rw [Turn.accepted_append, Turn.finished_append]
    simpa [Turn.accepts, Turn.finished?] using hstep

/-! ## What both know -/

theorem of_enrolling (h : Matched needed e d accepted finished) (hsize : needed < UInt32.size)
    {id : TemplateId} {left : Nat} (hd : d.enrolling = some (id, left)) :
    e.phase = .inProgress ∧ e.template? = some id ∧ 1 ≤ left ∧ accepted + left = needed ∧
      e.remaining?.map UInt32.toNat = if accepted = 0 then none else some left := by
  cases h with
  | @going plan count hplan hawaits hremaining _ =>
    rw [hawaits.eq] at hd
    cases plan with
    | begin => cases hd
    | next template =>
      cases hd
      obtain ⟨hphase, htemplate⟩ := Enrollment.phase_template_of_next hplan
      have hsum := hawaits.sum
      refine ⟨hphase, htemplate, hawaits.pos, hsum, ?_⟩
      rw [hremaining]
      by_cases haccepted : accepted = 0
      · simp [haccepted]
      · simp only [haccepted, if_false, Option.map_some, Option.some.injEq]
        exact UInt32.toNat_ofNat_of_lt' (by omega)
  | complete _ _ hdone _ _ =>
    rw [hdone] at hd
    cases hd
  | cancelled _ hdone _ =>
    rw [hdone] at hd
    cases hd

theorem enrolling_of_inProgress (h : Matched needed e d accepted finished) (hc : e.Consistent)
    (hphase : e.phase = .inProgress) :
    ∃ id left, e.template? = some id ∧ d.enrolling = some (id, left) ∧ 1 ≤ left := by
  cases h with
  | @going plan left hplan hawaits _ _ =>
    cases plan with
    | begin =>
      rw [hc.phase_of_begin hplan] at hphase
      cases hphase
    | next id =>
      obtain ⟨-, htemplate⟩ := Enrollment.phase_template_of_next hplan
      exact ⟨id, left, htemplate, congrArg Device.enrolling hawaits.eq, hawaits.pos⟩
  | complete hphase' _ _ _ _ =>
    rw [hphase] at hphase'
    cases hphase'
  | cancelled hphase' _ _ =>
    rw [hphase] at hphase'
    cases hphase'

theorem store_eq (h : Matched needed e d accepted finished) : d.store = finished := by
  cases h with
  | going _ hawaits _ hfinished => rw [hawaits.eq, hfinished]
  | complete _ _ hd _ hfinished => rw [hd, hfinished]
  | cancelled _ hd _ => rw [hd]

theorem accepted_eq (h : Matched needed e d accepted finished) (hne : finished ≠ []) : accepted = needed := by
  cases h with
  | going _ _ _ hfinished => exact absurd hfinished hne
  | complete _ _ _ haccepted _ => exact haccepted
  | cancelled _ _ haccepted => exact haccepted hne

theorem phase_eq_complete_iff (h : Matched needed e d accepted finished) :
    e.phase = .complete ↔ finished ≠ [] ∧ e.phase ≠ .cancelled := by
  cases h with
  | going hplan _ _ hfinished =>
    rcases Enrollment.phase_of_plan hplan with hphase | hphase <;> simp [hphase, hfinished]
  | complete hphase _ _ _ hfinished => simp [hphase, hfinished]
  | cancelled hphase _ _ => simp [hphase]

/-- The enrollment holds the template that it began. -/
theorem begun_eq (h : Matched needed e d accepted finished) (hc : e.Consistent) {begun : List TemplateId}
    (hpast : e.Past begun finished) {id : TemplateId} (hid : e.template? = some id) : begun = [id] := by
  cases hpast with
  | notStarted hphase _ _ =>
    rw [(hc.notStarted hphase).1] at hid
    cases hid
  | inProgress _ hid' hbegun _ =>
    rw [hid] at hid'
    cases hid'
    exact hbegun
  | complete hphase hbegun hfinished =>
    cases h with
    | going hplan _ _ hnone => simp [hnone] at hfinished
    | complete _ hid' _ _ hsame =>
      rw [hid] at hid'
      cases hid'
      rw [hbegun, ← hfinished, hsame]
    | cancelled hphase' _ _ =>
      rw [hphase] at hphase'
      cases hphase'
  | cancelled hphase _ _ =>
    rw [hc.cancelled hphase] at hid
    cases hid

end Matched

/-- Client and authenticator agree on the enrollment, after every sequence of captures and cancels, and
whatever requests are refused in between. It is in progress exactly if the authenticator is enrolling its
template, and both then need the same number of samples, which the client knows once one was accepted.
It is complete exactly if the authenticator has stored the template that it began and no cancel has
succeeded. Nothing else is ever stored, and nothing before as many samples were accepted as a template
needs. -/
theorem enrollment_agrees {c : Client ω σ} {needed : Nat} {view : σ → Device} (hserves : c.Serves needed view)
    (hneeded : 2 ≤ needed) (hsize : needed < UInt32.size) (timeout : Option UInt32) {s : σ}
    (hfresh : view s = .fresh) {e : Enrollment} {s' : σ} {turns : List (Turn ω)}
    (h : Client.Course c (c.enroll timeout, s) (e, s') turns) :
    let d := view s'
    (e.phase = .inProgress ↔
      ∃ id left, e.template? = some id ∧ d.enrolling = some (id, left) ∧ 1 ≤ left) ∧
    (∀ id left, d.enrolling = some (id, left) →
      e.phase = .inProgress ∧ e.template? = some id ∧ Turn.accepted turns + left = needed ∧
        e.remaining?.map UInt32.toNat = if Turn.accepted turns = 0 then none else some left) ∧
    (∀ id, e.template? = some id → Client.begun (Turn.log turns) = [id]) ∧
    (e.phase = .complete ↔
      (∃ id, Client.begun (Turn.log turns) = [id] ∧ id ∈ d.store) ∧ ¬ Enrollment.HasCancel turns) ∧
    d.store = Turn.finished turns ∧
    (d.store = [] ∨
      ∃ id, d.store = [id] ∧ Client.begun (Turn.log turns) = [id] ∧ Turn.accepted turns = needed) := by
  intro d
  have hrun : Run ω σ (.new (timeout.or c.config.defaultTimeout)) e turns := h.run
  have hmatched : Matched needed e d (Turn.accepted turns) (Turn.finished turns) :=
    .of_course hserves hneeded hsize hfresh h
  have hc : e.Consistent := (Enrollment.Consistent.new _).of_run hrun
  have hpast := (Enrollment.History.of_run hrun).past
  have hstore : d.store = Turn.finished turns := hmatched.store_eq
  refine ⟨⟨hmatched.enrolling_of_inProgress hc, ?_⟩, ?_, fun id => hmatched.begun_eq hc hpast, ?_, hstore, ?_⟩
  · rintro ⟨id, left, -, hd, -⟩
    exact (hmatched.of_enrolling hsize hd).1
  · intro id left hd
    obtain ⟨hphase, htemplate, -, hsum, hremaining⟩ := hmatched.of_enrolling hsize hd
    exact ⟨hphase, htemplate, hsum, hremaining⟩
  · rw [hmatched.phase_eq_complete_iff, ← Enrollment.phase_eq_cancelled_iff hrun, hstore]
    refine and_congr_left fun _ => ⟨?_, ?_⟩
    · intro hne
      obtain ⟨id, hbegun, hfinished⟩ := hpast.of_finished hne
      exact ⟨id, hbegun, by simp [hfinished]⟩
    · rintro ⟨id, -, hmem⟩
      exact List.ne_nil_of_mem hmem
  · rw [hstore]
    by_cases hne : Turn.finished turns = []
    · exact .inl hne
    · obtain ⟨id, hbegun, hfinished⟩ := hpast.of_finished hne
      exact .inr ⟨id, hfinished, hbegun, hmatched.accepted_eq hne⟩

/-- Two good samples make a template, although the first sample is rejected and the next request is
refused. -/
theorem enrollment_agrees_past_rejections :
    let c : Client Unit Simulator := ⟨Simulator.session 2, ⟨1, fun _ _ s => (.ok [], s)⟩, ⟨[]⟩, {}⟩
    let start : Simulator := ⟨.fresh, [5], [false, true], 0⟩
    ∃ turns : List (Turn Unit), Client.Course c (c.enroll none, start)
        (⟨none, some [0xf0, 0x00], some 0, .complete⟩, ⟨⟨none, [[0xf0, 0x00]]⟩, [], [], 1⟩) turns ∧
      Turn.finished turns = [[0xf0, 0x00]] ∧ ¬ Enrollment.HasCancel turns ∧ Turn.accepted turns = 2 := by
  intro c start
  let rejected : Enrollment × Simulator :=
    (⟨none, some [0xf0, 0x00], none, .inProgress⟩, ⟨⟨some ([0xf0, 0x00], 2), []⟩, [], [true], 1⟩)
  let refused : Enrollment × Simulator :=
    (⟨none, some [0xf0, 0x00], none, .inProgress⟩, ⟨⟨some ([0xf0, 0x00], 2), []⟩, [], [], 1⟩)
  let accepted : Enrollment × Simulator :=
    (⟨none, some [0xf0, 0x00], some 1, .inProgress⟩, ⟨⟨some ([0xf0, 0x00], 1), []⟩, [], [], 1⟩)
  let done : Enrollment × Simulator :=
    (⟨none, some [0xf0, 0x00], some 0, .complete⟩, ⟨⟨none, [[0xf0, 0x00]]⟩, [], [], 1⟩)
  have hrejected : (c.capture (c.enroll none, start)).state = rejected := rfl
  have hrefused : (c.capture rejected).state = refused := rfl
  have haccepted : (c.capture refused).state = accepted := rfl
  have hdone : (c.capture accepted).state = done := rfl
  have hcourse : ∃ turns, Client.Course c (c.enroll none, start) done turns := by
    rw [← hdone, ← haccepted, ← hrefused, ← hrejected]
    exact ⟨_, Client.Course.nil.capture.capture.capture.capture⟩
  obtain ⟨turns, hturns⟩ := hcourse
  have hserves : c.Serves 2 Simulator.device := Simulator.serves 2 (fun _ _ _ => rfl) ⟨[]⟩ {}
  obtain ⟨-, -, -, hcomplete, hstore, hone⟩ :=
    enrollment_agrees hserves (by decide) (by decide) none rfl hturns
  refine ⟨turns, hturns, hstore.symm, (hcomplete.1 rfl).2, ?_⟩
  rcases hone with hnone | ⟨id, -, -, htwo⟩
  · cases hnone
  · exact htwo

end CtapEnroll
