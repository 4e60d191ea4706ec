import CtapEnroll.Proofs.Lifecycle
/-!
# Calls that come to nothing

Each call on an enrollment has one command, which may come to anything, and `Call.taken` says what the
call makes of that. A command that fails leaves the enrollment as it was, and so does a sample that is
rejected, except that a beginning leaves its template. So calls that come to nothing can be left out of a
run, and no other call notices: `Call.turns_pick`.
-/

namespace CtapEnroll

variable {ω σ α : Type}

/-! ## Calls -/

/-- One call on an enrollment, by a client and in a state of the world of its own. -/
inductive Call (ω σ : Type)
  | capture (c : Client ω σ) (s : σ)
  | cancel (c : Client ω σ) (s : σ)

/-- What the command of a call told, where it did not fail. -/
inductive Report
  | begun (beginning : Beginning)
  | sampled (sample : Sample)
  | dropped

def Plan.report : Plan → TemplateId × Sample → Report
  | begin, (id, sample) => .begun ⟨id, sample⟩
  | next _, (_, sample) => .sampled sample

def Turn.error? : Turn ω → Option Error
  | capture (.error err) _ => some err
  | cancel (.error err) _ => some err
  | _ => none

namespace Call

/-- What the command of a call comes to. A capture of an enrollment that has ended has none. -/
def command? (e : Enrollment) : Call ω σ → Option (Except Error Report)
  | capture c s =>
    match e.plan with
    | none => none
    | some .begin => some ((c.beginEnrollment e.timeout s).result.map .begun)
    | some (.next id) => some ((c.captureNext id e.timeout s).result.map .sampled)
  | cancel c s => some ((c.cancelEnrollment s).result.map fun _ => .dropped)

/-- The enrollment after a call. -/
def after (e : Enrollment) : Call ω σ → Enrollment
  | capture c s => (c.capture (e, s)).state.1
  | cancel c s => (c.cancel (e, s)).state.1

/-- The result of a call, and what was done for it. -/
def turn (e : Enrollment) : Call ω σ → Turn ω
  | capture c s => .capture (c.capture (e, s)).result (c.capture (e, s)).trace
  | cancel c s => .cancel (c.cancel (e, s)).result (c.cancel (e, s)).trace

theorem command?_capture {c : Client ω σ} {e : Enrollment} {plan : Plan} (h : e.plan = some plan)
    (s : σ) :
    (capture c s).command? e = some ((c.sample e.timeout plan s).result.map plan.report) := by
  cases plan with
  | begin =>
    simp only [command?, h, Client.sample, Action.map_run]
    cases (c.beginEnrollment e.timeout s).result <;> rfl
  | next id =>
    simp only [command?, h, Client.sample, Action.map_run]
    cases (c.captureNext id e.timeout s).result <;> rfl

/-- What a call makes of what its command came to: why the call fails, if it does, and the enrollment
after it. -/
def respond (e : Enrollment) : Option (Except Error Report) → Option Error × Enrollment
  | none => (some (.enrollmentOver e.phase), e)
  | some (.error err) => (some err, e)
  -- The first sample leaves its template, whatever it is like.
  | some (.ok (.begun begun)) => judge (e.adopt begun.template) begun.sample
  | some (.ok (.sampled sample)) => judge e sample
  | some (.ok .dropped) => (none, e.cancel)
where
  judge (e : Enrollment) (sample : Sample) : Option Error × Enrollment :=
    if sample.status.isGood then (none, e.accept sample.remaining)
    else (some (.sampleRejected sample.status), e)

theorem respond_report {e : Enrollment} {plan : Plan} {id : TemplateId} (h : e.plan = some plan)
    (hid : ∀ template, plan = .next template → id = template) (sample : Sample) :
    respond e (some (.ok (plan.report (id, sample)))) = respond.judge (e.adopt id) sample := by
  cases plan with
  | begin => rfl
  | next template =>
    -- The enrollment has this template already.
    obtain rfl := hid template rfl
    rw [Enrollment.adopt_of_plan h]
    rfl

theorem taken_capture (c : Client ω σ) (e : Enrollment) (s : σ) :
    (((capture c s).turn e).error?, (capture c s).after e) = respond e ((capture c s).command? e) := by
  have h := Client.captured c e s
  simp only [turn, after]
  generalize c.capture (e, s) = o at h
  cases h with
  | ended hplan => simp [command?, hplan, respond, Turn.error?]
  | failed hplan hsample =>
    rw [command?_capture hplan, hsample]
    rfl
  | rejected hplan hsample hbad =>
    rw [command?_capture hplan, hsample, Except.map,
      respond_report hplan fun _ hnext => Client.sample_next (hnext ▸ hsample)]
    simp [respond.judge, hbad, Turn.error?]
  | accepted hplan hsample hgood _ =>
    rw [command?_capture hplan, hsample, Except.map,
      respond_report hplan fun _ hnext => Client.sample_next (hnext ▸ hsample)]
    simp [respond.judge, hgood, Turn.error?]
  | completed hplan hsample hgood hlast =>
    rw [command?_capture hplan, hsample, Except.map,
      respond_report hplan fun _ hnext => Client.sample_next (hnext ▸ hsample)]
    simp [respond.judge, hgood, hlast, Turn.error?]

theorem taken_cancel (c : Client ω σ) (e : Enrollment) (s : σ) :
    (((cancel c s).turn e).error?, (cancel c s).after e) = respond e ((cancel c s).command? e) := by
  have h := Client.dropped c e s
  simp only [turn, after, command?]
  generalize c.cancel (e, s) = o at h
  cases h with
  | failed hresult => simp [hresult, Except.map, respond, Turn.error?]
  | cancelled hresult => simp [hresult, Except.map, respond, Turn.error?]

theorem taken (call : Call ω σ) (e : Enrollment) :
    ((call.turn e).error?, call.after e) = respond e (call.command? e) := by
  cases call with
  | capture c s => exact taken_capture c e s
  | cancel c s => exact taken_cancel c e s

theorem error?_turn (call : Call ω σ) (e : Enrollment) :
    (call.turn e).error? = (respond e (call.command? e)).1 := congrArg Prod.fst (call.taken e)

theorem after_eq (call : Call ω σ) (e : Enrollment) :
    call.after e = (respond e (call.command? e)).2 := congrArg Prod.snd (call.taken e)

/-- A call that comes to nothing: it is refused, its command fails, or its sample is rejected and is not
the first one. -/
inductive Futile (call : Call ω σ) (e : Enrollment) : Prop
  | refused (h : call.command? e = none)
  | failed {err : Error} (h : call.command? e = some (.error err))
  | rejected {sample : Sample} (h : call.command? e = some (.ok (.sampled sample)))
      (hbad : sample.status.isGood = false)

theorem after_of_futile {call : Call ω σ} {e : Enrollment} (h : call.Futile e) : call.after e = e := by
  rw [after_eq]
  cases h with
  | refused h => rw [h, respond]
  | failed h => rw [h, respond]
  | rejected h hbad => simp [h, respond, respond.judge, hbad]

/-! ## Runs of calls -/

/-- The enrollment after calls, one after the other. -/
def finish (e : Enrollment) : List (Call ω σ) → Enrollment
  | [] => e
  | call :: calls => finish (call.after e) calls

def turns (e : Enrollment) : List (Call ω σ) → List (Turn ω)
  | [] => []
  | call :: calls => call.turn e :: turns (call.after e) calls

theorem run_append {start e : Enrollment} {before : List (Turn ω)} (h : Run ω σ start e before)
    (calls : List (Call ω σ)) : Run ω σ start (finish e calls) (before ++ turns e calls) := by
  induction calls generalizing e before with
  | nil => simpa [finish, turns] using h
  | cons call calls ih =>
    rw [turns, List.append_cons]
    cases call with
    | capture c s => exact ih (h.capture c s)
    | cancel c s => exact ih (h.cancel c s)

/-- Calls make a run. -/
theorem run (e : Enrollment) (calls : List (Call ω σ)) : Run ω σ e (finish e calls) (turns e calls) := by
  simpa using run_append .nil calls

end Call

/-! ## Leaving calls out -/

/-- The items of a list at the positions that are kept. -/
def pick (keep : Nat → Bool) : List α → List α
  | [] => []
  | a :: rest =>
    if keep 0 then a :: pick (fun i => keep (i + 1)) rest else pick (fun i => keep (i + 1)) rest

namespace Call

theorem turns_pick {keep : Nat → Bool} {e : Enrollment} {calls : List (Call ω σ)}
    (h : ∀ i call, calls[i]? = some call → keep i = false → call.Futile (finish e (calls.take i))) :
    finish e (pick keep calls) = finish e calls ∧ turns e (pick keep calls) = pick keep (turns e calls) := by
  induction calls generalizing keep e with
  | nil => exact ⟨rfl, rfl⟩
  | cons call calls ih =>
    have hrest : ∀ i other, calls[i]? = some other → keep (i + 1) = false →
        other.Futile (finish (call.after e) (calls.take i)) := fun i other => h (i + 1) other
    obtain ⟨hfinish, hturns⟩ := ih hrest
    rw [turns, pick, pick]
    by_cases hkeep : keep 0 = true
    · rw [if_pos hkeep, if_pos hkeep, finish, turns]
      exact ⟨hfinish, congrArg _ hturns⟩
    · -- The call that is left out finds the enrollment that the next one finds without it.
      rw [if_neg hkeep, if_neg hkeep, finish]
      have hsame : call.after e = e := after_of_futile (h 0 call rfl (Bool.not_eq_true _ ▸ hkeep))
      rw [hsame] at hfinish hturns ⊢
      exact ⟨hfinish, hturns⟩

/-! ## Accepted samples -/

/-- The number of samples that are still needed, if the call had one accepted. -/
def accepted? (e : Enrollment) (call : Call ω σ) : Option UInt32 :=
  match call.command? e with
  | some (.ok (.begun begun)) => if begun.sample.status.isGood then some begun.sample.remaining else none
  | some (.ok (.sampled sample)) => if sample.status.isGood then some sample.remaining else none
  | _ => none

/-- What the accepted samples said is still needed, in order. -/
def accepted (e : Enrollment) : List (Call ω σ) → List UInt32
  | [] => []
  | call :: calls => (call.accepted? e).toList ++ accepted (call.after e) calls

theorem remaining?_after (call : Call ω σ) (e : Enrollment) :
    (call.after e).remaining? = (call.accepted? e).or e.remaining? := by
  rw [after_eq, accepted?]
  rcases call.command? e with _ | _ | ⟨begun⟩ | ⟨sample⟩ | _
  · rfl
  · rfl
  · cases hgood : begun.sample.status.isGood <;> simp [respond, respond.judge, hgood]
  · cases hgood : sample.status.isGood <;> simp [respond, respond.judge, hgood]
  · rfl

theorem remaining?_finish (e : Enrollment) (calls : List (Call ω σ)) :
    (finish e calls).remaining? = (accepted e calls).getLast?.or e.remaining? := by
  induction calls generalizing e with
  | nil => rfl
  | cons call calls ih =>
    rw [finish, ih, remaining?_after, accepted, List.getLast?_append, Option.or_assoc]
    cases call.accepted? e <;> rfl

end Call

/-- An enrollment is complete exactly if no more samples are needed and no cancel has succeeded. -/
theorem Enrollment.phase_eq_complete_iff {timeout : Option UInt32} {e : Enrollment}
    {turns : List (Turn ω)} (h : Run ω σ (.new timeout) e turns) :
    e.phase = .complete ↔ e.remaining? = some 0 ∧ ¬ HasCancel turns := by
  have hc : e.Consistent := (Consistent.new timeout).of_run h
  rw [← phase_eq_cancelled_iff h]
  constructor
  · intro hphase
    refine ⟨(hc.complete hphase).2, ?_⟩
    rw [hphase]
    decide
  · rintro ⟨hremaining, hphase⟩
    cases hp : e.phase with
    | notStarted =>
      rw [(hc.notStarted hp).2] at hremaining
      cases hremaining
    | inProgress => exact absurd ((hc.inProgress hp).2 0 hremaining) (UInt32.lt_irrefl 0)
    | complete => rfl
    | cancelled => exact absurd hp hphase

/-- A capture can simply be repeated. A call that is refused, or whose command fails, returns why and
leaves the enrollment as it was. So does a call whose sample is rejected, except that the first sample
leaves its template. Calls that come to nothing may therefore be left out of any run: it ends in the same
enrollment, and every other call has the same result and does the same. The number of remaining samples is
the one reported with the last accepted sample, and the enrollment is complete exactly if that is zero and
no cancel has succeeded. -/
theorem captures_repeatable (c : Client ω σ) (timeout : Option UInt32) (calls : List (Call ω σ)) :
    let start := c.enroll timeout
    (∀ (e : Enrollment) (call : Call ω σ),
      (call.command? e = none →
        (call.turn e).error? = some (.enrollmentOver e.phase) ∧ call.after e = e) ∧
      (∀ err, call.command? e = some (.error err) →
        (call.turn e).error? = some err ∧ call.after e = e) ∧
      (∀ sample, call.command? e = some (.ok (.sampled sample)) → sample.status.isGood = false →
        (call.turn e).error? = some (.sampleRejected sample.status) ∧ call.after e = e) ∧
      (∀ begun, call.command? e = some (.ok (.begun begun)) → begun.sample.status.isGood = false →
        (call.turn e).error? = some (.sampleRejected begun.sample.status) ∧
          call.after e = { e with template? := some begun.template, phase := .inProgress })) ∧
    (∀ keep : Nat → Bool,
      (∀ i call, calls[i]? = some call → keep i = false → call.Futile (Call.finish start (calls.take i))) →
      Call.finish start (pick keep calls) = Call.finish start calls ∧
        Call.turns start (pick keep calls) = pick keep (Call.turns start calls)) ∧
    (Call.finish start calls).remaining? = (Call.accepted start calls).getLast? ∧
    ((Call.finish start calls).phase = .complete ↔
      (Call.accepted start calls).getLast? = some 0 ∧ ¬ Enrollment.HasCancel (Call.turns start calls)) := by
  intro start
  have hremaining : (Call.finish start calls).remaining? = (Call.accepted start calls).getLast? := by
    rw [Call.remaining?_finish]
    exact Option.or_none
  refine ⟨?_, fun _ => Call.turns_pick, hremaining, ?_⟩
  · intro e call
    rw [Call.error?_turn, Call.after_eq]
    refine ⟨?_, ?_, ?_, ?_⟩
    · intro h
      simp [h, Call.respond]
    · intro err h
      simp [h, Call.respond]
    · intro sample h hbad
      simp [h, hbad, Call.respond, Call.respond.judge]
    · intro begun h hbad
      simp [h, hbad, Call.respond, Call.respond.judge, Enrollment.adopt]
  · rw [← hremaining]
    exact Enrollment.phase_eq_complete_iff (Call.run start calls)

/-- A first and a later sample are rejected, a capture and a cancel fail, and a capture comes too late.
Only the first sample and the last one make the enrollment what it is. -/
theorem captures_repeatable_past_failures :
    let device : Session Unit (Except Error Answer) := ⟨fun _ s => ⟨s, [], s⟩, .unknown⟩
    let c : Client Unit (Except Error Answer) := ⟨device, ⟨1, fun _ _ s => (.ok [], s)⟩, ⟨[]⟩, {}⟩
    let first : Call Unit (Except Error Answer) := .capture c
      (.ok (.ofList [(0x04, .bytes [0xf0]), (0x05, .unsigned 13), (0x06, .unsigned 2)]))
    let second : Call Unit (Except Error Answer) := .capture c
      (.ok (.ofList [(0x05, .unsigned 5), (0x06, .unsigned 2)]))
    let last : Call Unit (Except Error Answer) := .capture c
      (.ok (.ofList [(0x05, .unsigned 0), (0x06, .unsigned 0)]))
    let failed : Except Error Answer := .error (.refused .pinAuthInvalid)
    let calls := [first, .capture c failed, second, .cancel c failed, last, last]
    let start := c.enroll none
    Call.finish start calls = ⟨none, some [0xf0], some 0, .complete⟩ ∧
      Call.finish start [first, last] = Call.finish start calls ∧
      Call.turns start [first, last] = pick (fun i => i == 0 || i == 4) (Call.turns start calls) := by
  intro device c first second last failed calls start
  obtain ⟨-, hpick, -⟩ := captures_repeatable c none calls
  refine ⟨rfl, hpick (fun i => i == 0 || i == 4) ?_⟩
  intro i call hcall hkeep
  match i with
  | 0 => cases hkeep
  | 1 =>
    cases hcall
    exact .failed rfl
  | 2 =>
    cases hcall
    exact .rejected rfl rfl
  | 3 =>
    cases hcall
    exact .failed rfl
  | 4 => cases hkeep
  | 5 =>
    cases hcall
    exact .refused rfl
  | _ + 6 => cases hcall

end CtapEnroll
