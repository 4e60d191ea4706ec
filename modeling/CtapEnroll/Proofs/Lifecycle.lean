import CtapEnroll.Proofs.Captures
/-!
# The life of an enrollment

In every enrollment that a run reaches, the template and the number of remaining samples fit the phase:
`Enrollment.Consistent`. Captures only move the phase on, and what was set once stays until a cancel
succeeds. `moved` reduces each call to what it makes of the enrollment, and the theorems here are about
that.
-/

namespace CtapEnroll

/-- How far an enrollment has come. Being cancelled is the last phase, from every other one. -/
def Phase.rank : Phase → Nat
  | notStarted => 0
  | inProgress => 1
  | complete => 2
  | cancelled => 3

namespace Enrollment

/-- The template and the number of remaining samples fit the phase. -/
structure Consistent (e : Enrollment) : Prop where
  notStarted : e.phase = .notStarted → e.template? = none ∧ e.remaining? = none
  inProgress : e.phase = .inProgress → (∃ id, e.template? = some id) ∧ ∀ n, e.remaining? = some n → 0 < n
  complete : e.phase = .complete → (∃ id, e.template? = some id) ∧ e.remaining? = some 0
  cancelled : e.phase = .cancelled → e.template? = none

/-- What a capture makes of an enrollment. A sample that was taken is for the template that the
enrollment goes on with, or for a new one. -/
inductive Moved (e : Enrollment) : Enrollment → Prop
  | stay : Moved e e
  | adopt {plan : Plan} {id : TemplateId} (h : e.plan = some plan)
      (hid : ∀ template, plan = .next template → id = template) : Moved e (e.adopt id)
  | accept {plan : Plan} {id : TemplateId} (n : UInt32) (h : e.plan = some plan)
      (hid : ∀ template, plan = .next template → id = template) : Moved e ((e.adopt id).accept n)

theorem moved {ω σ : Type} (c : Client ω σ) (e : Enrollment) (s : σ) :
    Moved e (c.capture (e, s)).state.1 := by
  have hid : ∀ {plan : Plan} {id : TemplateId} {report : Sample} {trace : List (Client.Step ω)} {s' : σ},
      c.sample e.timeout plan s = ⟨.ok (id, report), trace, s'⟩ →
      ∀ template, plan = .next template → id = template := by
    intro plan id report trace s' h template hplan
    subst hplan
    exact Client.sample_next h
  have h := Client.captured c e s
  generalize c.capture (e, s) = o at h
  cases h with
  | ended _ => exact .stay
  | failed _ _ => exact .stay
  | rejected hplan hsample _ => exact .adopt hplan (hid hsample)
  | accepted hplan hsample _ _ => exact .accept _ hplan (hid hsample)
  | completed hplan hsample _ _ => exact .accept 0 hplan (hid hsample)

theorem state_cancel {ω σ : Type} (c : Client ω σ) (e : Enrollment) (s : σ) :
    (c.cancel (e, s)).state.1 = e ∧ (∃ err, (c.cancel (e, s)).result = .error err) ∨
      (c.cancel (e, s)).state.1 = e.cancel ∧ (c.cancel (e, s)).result = .ok () := by
  have h := Client.dropped c e s
  generalize c.cancel (e, s) = o at h
  cases h with
  | failed _ => exact .inl ⟨rfl, _, rfl⟩
  | cancelled _ => exact .inr ⟨rfl, rfl⟩

/-! ## Plans -/

theorem phase_of_plan {e : Enrollment} {plan : Plan} (h : e.plan = some plan) :
    e.phase = .notStarted ∨ e.phase = .inProgress := by
  rcases e with ⟨timeout, template, remaining, phase⟩
  cases phase with
  | notStarted => exact .inl rfl
  | inProgress => exact .inr rfl
  | complete => cases h
  | cancelled => cases h

theorem phase_template_of_next {e : Enrollment} {id : TemplateId} (h : e.plan = some (.next id)) :
    e.phase = .inProgress ∧ e.template? = some id := by
  rcases e with ⟨timeout, template, remaining, phase⟩
  cases phase <;> cases template <;> simp [plan] at h
  exact ⟨rfl, congrArg some h⟩

namespace Consistent

variable {e : Enrollment}

theorem phase_of_begin (hc : e.Consistent) (h : e.plan = some .begin) : e.phase = .notStarted := by
  rcases phase_of_plan h with hphase | hphase
  · exact hphase
  · obtain ⟨⟨id, hid⟩, -⟩ := hc.inProgress hphase
    simp [plan, hphase, hid] at h

theorem template_of_plan (hc : e.Consistent) {plan : Plan} {id template : TemplateId}
    (h : e.plan = some plan) (hid : ∀ template, plan = .next template → id = template)
    (htemplate : e.template? = some template) : id = template := by
  cases plan with
  | begin =>
    -- There is no template before one is begun.
    have hnone := (hc.notStarted (hc.phase_of_begin h)).1
    rw [htemplate] at hnone
    cases hnone
  | next other =>
    obtain ⟨-, hother⟩ := phase_template_of_next h
    rw [htemplate] at hother
    exact (hid other rfl).trans (Option.some.inj hother).symm

/-! ## The invariant -/

theorem new (timeout : Option UInt32) : (Enrollment.new timeout).Consistent where
  notStarted _ := ⟨rfl, rfl⟩
  inProgress h := by cases h
  complete h := by cases h
  cancelled h := by cases h

theorem adopt (hc : e.Consistent) {plan : Plan} (h : e.plan = some plan) (id : TemplateId) :
    (e.adopt id).Consistent where
  notStarted h := by cases h
  inProgress _ := by
    refine ⟨⟨id, rfl⟩, ?_⟩
    intro n hn
    rcases phase_of_plan h with hphase | hphase
    · rw [remaining?_adopt, (hc.notStarted hphase).2] at hn
      cases hn
    · exact (hc.inProgress hphase).2 n hn
  complete h := by cases h
  cancelled h := by cases h

theorem accept {id : TemplateId} (h : e.template? = some id) (n : UInt32) : (e.accept n).Consistent := by
  have hphase := phase_accept e n
  by_cases hn : n = 0
  · rw [if_pos hn] at hphase
    constructor <;> intro h' <;> rw [hphase] at h' <;> cases h'
    exact ⟨⟨id, h⟩, congrArg some hn⟩
  · rw [if_neg hn] at hphase
    constructor <;> intro h' <;> rw [hphase] at h' <;> cases h'
    refine ⟨⟨id, h⟩, ?_⟩
    intro m hm
    cases hm
    exact UInt32.pos_iff_ne_zero.2 hn

theorem cancel (e : Enrollment) : e.cancel.Consistent where
  notStarted h := by cases h
  inProgress h := by cases h
  complete h := by cases h
  cancelled _ := rfl

theorem of_moved {e' : Enrollment} (hc : e.Consistent) (h : e.Moved e') : e'.Consistent := by
  cases h with
  | stay => exact hc
  | adopt hplan _ => exact hc.adopt hplan _
  | accept n _ _ => exact accept (template?_adopt e _) n

/-- Every enrollment that a run reaches is consistent. -/
theorem of_run {ω σ : Type} {e' : Enrollment} {turns : List (Turn ω)} (hc : e.Consistent)
    (h : Run ω σ e e' turns) : e'.Consistent := by
  refine h.inv Consistent ?_ ?_ hc
  · intro c e s he
    exact he.of_moved (moved c e s)
  · intro c e s he
    rcases state_cancel c e s with ⟨hstate, -⟩ | ⟨hstate, -⟩
    · rwa [hstate]
    · rw [hstate]
      exact cancel e

end Consistent

/-! ## Going on -/

/-- What a capture never does: go back, cancel, or change a timeout or a template that is there. -/
structure Advanced (e e' : Enrollment) : Prop where
  timeout : e'.timeout = e.timeout
  rank_le : e.phase.rank ≤ e'.phase.rank
  cancelled_iff : e'.phase = .cancelled ↔ e.phase = .cancelled
  template : ∀ id, e.template? = some id → e'.template? = some id

theorem rank_le_of_plan {e : Enrollment} {plan : Plan} (h : e.plan = some plan) : e.phase.rank ≤ 1 := by
  rcases phase_of_plan h with hphase | hphase <;> rw [hphase] <;> decide

theorem not_cancelled_of_plan {e : Enrollment} {plan : Plan} (h : e.plan = some plan) :
    e.phase ≠ .cancelled := by
  rcases phase_of_plan h with hphase | hphase <;> rw [hphase] <;> decide

theorem Moved.advanced {e e' : Enrollment} (h : e.Moved e') (hc : e.Consistent) : e.Advanced e' := by
  cases h with
  | stay => exact ⟨rfl, Nat.le_refl _, Iff.rfl, fun _ hid => hid⟩
  | @adopt plan id hplan hid =>
    refine ⟨rfl, rank_le_of_plan hplan, ?_, ?_⟩
    · simp [not_cancelled_of_plan hplan]
    · intro template htemplate
      rw [template?_adopt, hc.template_of_plan hplan hid htemplate]
  | @accept plan id n hplan hid =>
    have hphase := phase_accept (e.adopt id) n
    refine ⟨rfl, ?_, ?_, ?_⟩
    · refine Nat.le_trans (rank_le_of_plan hplan) ?_
      rw [hphase]
      by_cases hn : n = 0
      · rw [if_pos hn]
        decide
      · rw [if_neg hn]
        decide
    · rw [hphase]
      by_cases hn : n = 0 <;> simp [hn, not_cancelled_of_plan hplan]
    · intro template htemplate
      rw [template?_accept, template?_adopt, hc.template_of_plan hplan hid htemplate]

def HasCancel {ω : Type} (turns : List (Turn ω)) : Prop := ∃ steps, .cancel (.ok ()) steps ∈ turns

/-- What a run makes of an enrollment: it only goes on, and it is cancelled or loses its template only by
a cancel that succeeds. -/
structure Onward {ω : Type} (e e' : Enrollment) (turns : List (Turn ω)) : Prop where
  timeout : e'.timeout = e.timeout
  rank_le : e.phase.rank ≤ e'.phase.rank
  cancelled_iff : e'.phase = .cancelled ↔ e.phase = .cancelled ∨ HasCancel turns
  template : ∀ id, e.template? = some id →
    e'.template? = some id ∨ e'.template? = none ∧ HasCancel turns

theorem hasCancel_append_of_ne {ω : Type} {turns : List (Turn ω)} {turn : Turn ω}
    (h : ∀ steps, turn ≠ .cancel (.ok ()) steps) : HasCancel (turns ++ [turn]) ↔ HasCancel turns := by
  constructor
  · rintro ⟨steps, hmem⟩
    rcases List.mem_append.1 hmem with hmem | hmem
    · exact ⟨steps, hmem⟩
    · exact absurd (List.mem_singleton.1 hmem).symm (h steps)
  · rintro ⟨steps, hmem⟩
    exact ⟨steps, List.mem_append_left _ hmem⟩

theorem hasCancel_append_cancel {ω : Type} (turns : List (Turn ω)) (steps : List (Client.Step ω)) :
    HasCancel (turns ++ [.cancel (.ok ()) steps]) :=
  ⟨steps, List.mem_append_right _ (List.mem_singleton.2 rfl)⟩

/-- A turn that is no successful cancel, and in which the enrollment only advanced, is one more step
onward. -/
theorem Onward.advance {ω : Type} {e m e' : Enrollment} {turns : List (Turn ω)} {turn : Turn ω}
    (h : e.Onward m turns) (hm : m.Advanced e') (hc : e'.Consistent)
    (hturn : ∀ steps, turn ≠ .cancel (.ok ()) steps) : e.Onward e' (turns ++ [turn]) where
  timeout := hm.timeout.trans h.timeout
  rank_le := Nat.le_trans h.rank_le hm.rank_le
  cancelled_iff := by rw [hasCancel_append_of_ne hturn, hm.cancelled_iff, h.cancelled_iff]
  template id hid := by
    rw [hasCancel_append_of_ne hturn]
    rcases h.template id hid with htemplate | ⟨-, hcancel⟩
    · exact .inl (hm.template id htemplate)
    · have hphase : e'.phase = .cancelled := hm.cancelled_iff.2 (h.cancelled_iff.2 (.inr hcancel))
      exact .inr ⟨hc.cancelled hphase, hcancel⟩

theorem onward_of_run {ω σ : Type} {e e' : Enrollment} {turns : List (Turn ω)} (hc : e.Consistent)
    (h : Run ω σ e e' turns) : e.Onward e' turns := by
  -- Each state on the way is consistent, which is what a capture needs to advance.
  induction h with
  | nil =>
    refine ⟨rfl, Nat.le_refl _, ?_, fun id hid => .inl hid⟩
    simp [HasCancel]
  | @capture m turns hrun c s ih =>
    have hm : m.Consistent := hc.of_run hrun
    exact ih.advance ((moved c m s).advanced hm) (hm.of_moved (moved c m s)) fun _ h => by cases h
  | @cancel m turns hrun c s ih =>
    rcases state_cancel c m s with ⟨hstate, err, hresult⟩ | ⟨hstate, hresult⟩
    · rw [hstate, hresult]
      have hm : m.Consistent := hc.of_run hrun
      exact ih.advance ⟨rfl, Nat.le_refl _, Iff.rfl, fun _ h => h⟩ hm fun _ h => by cases h
    · -- Being cancelled is the last phase, so there is nothing behind it to go back from.
      rw [hstate, hresult]
      refine ⟨ih.timeout, ?_, ?_, ?_⟩
      · rw [phase_cancel]
        cases e.phase <;> decide
      · simp [hasCancel_append_cancel]
      · intro id _
        exact .inr ⟨rfl, hasCancel_append_cancel turns _⟩

theorem phase_eq_cancelled_iff {ω σ : Type} {timeout : Option UInt32} {e : Enrollment} {turns : List (Turn ω)}
    (h : Run ω σ (.new timeout) e turns) : e.phase = .cancelled ↔ HasCancel turns := by
  simpa [Enrollment.new] using (onward_of_run (Consistent.new timeout) h).cancelled_iff

end Enrollment

theorem Client.phase_capture_of_begun {ω σ : Type} {c : Client ω σ} {e : Enrollment} {s : σ}
    {begun : Beginning} (hplan : e.plan = some .begin)
    (h : (c.beginEnrollment e.timeout s).result = .ok begun) (hgood : begun.sample.status.isGood = true)
    (hlast : begun.sample.remaining = 0) : (c.capture (e, s)).state.1.phase = .complete := by
  have hnext := c.nextSample_eq hplan s
  have hsample : (c.sample e.timeout .begin s).result = .ok (begun.template, begun.sample) := by
    rw [sample, Action.map_run, h]
    rfl
  rw [hsample] at hnext
  rw [capture_of_plan c hplan, Action.bind_of_ok hnext, settle_of_last hgood hlast]
  rfl

/-- In every enrollment that captures and cancels reach, the template and the number of remaining samples
fit the phase, the timeout is the one it was made with, and a template is only begun if there was none. A
capture only moves it on, and completes it at once if the first sample is also the last. From there every
run goes on: only a cancel that succeeds takes the template away, and it ends the enrollment as cancelled. -/
theorem enrollment_lifecycle {ω σ : Type} (c : Client ω σ) (timeout : Option UInt32) {e : Enrollment}
    {turns : List (Turn ω)} (h : Run ω σ (c.enroll timeout) e turns) :
    e.Consistent ∧ e.timeout = timeout.or c.config.defaultTimeout ∧
      (e.plan = some .begin → e.phase = .notStarted) ∧
      (∀ (d : Client ω σ) (s : σ), e.Advanced (d.capture (e, s)).state.1) ∧
      (∀ (d : Client ω σ) (s : σ) (begun : Beginning), e.phase = .notStarted →
        (d.beginEnrollment e.timeout s).result = .ok begun → begun.sample.status.isGood = true →
        begun.sample.remaining = 0 → (d.capture (e, s)).state.1.phase = .complete) ∧
      ∀ {e' : Enrollment} {later : List (Turn ω)}, Run ω σ e e' later → e.Onward e' later := by
  have hnew : (c.enroll timeout).Consistent := .new _
  have hc : e.Consistent := hnew.of_run h
  refine ⟨hc, (Enrollment.onward_of_run hnew h).timeout, hc.phase_of_begin, ?_, ?_, ?_⟩
  · intro d s
    exact (Enrollment.moved d e s).advanced hc
  · intro d s begun hphase hbegun hgood hlast
    have hplan : e.plan = some .begin := by
      simp [Enrollment.plan, hphase]
    exact Client.phase_capture_of_begun hplan hbegun hgood hlast
  · intro e' later hlater
    exact Enrollment.onward_of_run hc hlater

/-- One good sample completes the enrollment of a device that needs no more, and a run from there goes
on from what it left. -/
theorem enrollment_lifecycle_of_one_sample :
    let device : Session Unit Unit := ⟨fun _ s =>
      ⟨.ok (.ofList [(0x04, .bytes [0xf0]), (0x05, .unsigned 0), (0x06, .unsigned 0)]), [], s⟩, .unknown⟩
    let c : Client Unit Unit := ⟨device, ⟨1, fun _ _ s => (.ok [], s)⟩, ⟨[]⟩, ⟨some 5000, none, none⟩⟩
    let e : Enrollment := ⟨some 5000, some [0xf0], some 0, .complete⟩
    (∃ turns, Run Unit Unit (c.enroll none) e turns) ∧ e.Consistent ∧
      ∀ {e' : Enrollment} {later : List (Turn Unit)}, Run Unit Unit e e' later → e.Onward e' later := by
  intro device c e
  have hrun : Run Unit Unit (c.enroll none) e _ := Run.nil.capture c ()
  obtain ⟨hc, -, -, -, -, honward⟩ := enrollment_lifecycle c none hrun
  exact ⟨⟨_, hrun⟩, hc, honward⟩

end CtapEnroll
