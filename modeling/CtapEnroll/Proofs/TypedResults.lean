import CtapEnroll.Proofs.Readings
import CtapEnroll.Proofs.Transactions
/-!
# Typed results

Four operations return what an answer says, in types that hold less than a CBOR value does. They return it as
it stands, or they fail: nothing is cut off, and nothing is made up for a field that is absent or of another
type. `typed_results_exact` says so for all of them.
-/

namespace CtapEnroll

variable {ω σ α : Type}

namespace Query

/-! ## Answered queries -/

/-- A query is answered: it is signed if it needs to be, and the session gives an answer to its request. -/
inductive Answered (c : Client ω σ) : Query → σ → Answer → Prop
  | plain {subCommand : Option SubCommand} {request : Request} {s : σ} {answer : Answer}
      (hanswer : (c.session.exchange request s).result = .ok answer) : Answered c (.plain subCommand request) s answer
  | signed {subCommand : SubCommand} {params : Option Params} {tag : Bytes} {s s' : σ} {answer : Answer}
      (hsign : c.signer.sign c.token (Client.transcript subCommand params) s = (.ok tag, s'))
      (hanswer : (c.session.exchange (c.signedRequest subCommand params tag) s').result = .ok answer) :
      Answered c (.signed subCommand params) s answer

theorem result_of_answered {c : Client ω σ} {q : Query} {s : σ} {answer : Answer} (h : q.Answered c s answer) :
    (q.ask c s).result = .ok answer := by
  cases h with
  | plain hanswer => exact (exchanges_of_asked (Client.asked ..)).1.trans hanswer
  | signed hsign hanswer => exact (Client.callSigned_run hsign).1.trans hanswer

/-! ## Exact results -/

/-- What an operation makes of the answer to its query. It succeeds if and only if the answer fits, and then with
what the answer says; otherwise it takes the answer for a violation of the protocol. Nothing matters but what the
answer has under these keys. -/
structure IsReadExactly (q : Query) (op : Client ω σ → Client.Op ω σ α) (keys : List Int) (Fits : Answer → Prop)
    (Told : α → Answer → Prop) : Prop where
  succeeds_iff {c : Client ω σ} {s : σ} {m : Answer} (h : q.Answered c s m) :
    (∃ a, (op c s).result = .ok a) ↔ Fits m
  told {c : Client ω σ} {s : σ} {m : Answer} (h : q.Answered c s m) {a : α} (ha : (op c s).result = .ok a) : Told a m
  violation {c : Client ω σ} {s : σ} {m : Answer} (h : q.Answered c s m) (hm : ¬ Fits m) :
    ∃ v, (op c s).result = .error (.badAnswer v)
  only {c c' : Client ω σ} {s s' : σ} {m m' : Answer} (h : q.Answered c s m) (h' : q.Answered c' s' m')
    (hkeys : ∀ key ∈ keys, m.get? key = m'.get? key) : (op c s).result = (op c' s').result

/-- An operation is exact if it comes to a reading of the answer that is. -/
theorem isReadExactly_of_read {q : Query} {op : Client ω σ → Client.Op ω σ α} {keys : List Int}
    {Fits : Answer → Prop} {Told : α → Answer → Prop} {read : Answer → Except Error α}
    (hrun : ∀ c s, (op c s).result = (q.ask c s).result.bind read) (hok : ∀ m a, read m = .ok a ↔ Told a m)
    (hfits : ∀ m, (∃ a, Told a m) ↔ Fits m) (hfails : ∀ m, FailsWith Error.IsViolation (read m))
    (hcongr : ∀ m m' : Answer, (∀ key ∈ keys, m.get? key = m'.get? key) → read m = read m') :
    q.IsReadExactly op keys Fits Told := by
  have hread : ∀ {c s m}, q.Answered c s m → (op c s).result = read m := by
    intro c s m h
    rw [hrun, result_of_answered h]
    rfl
  constructor
  case succeeds_iff =>
    intro c s m h
    simp only [hread h, hok, hfits]
  case told =>
    intro c s m h a ha
    exact (hok m a).1 ((hread h).symm.trans ha)
  case violation =>
    intro c s m h hm
    rw [hread h]
    cases hresult : read m with
    | ok a => exact absurd ((hfits m).1 ⟨a, (hok m a).1 hresult⟩) hm
    | error e =>
      obtain ⟨v⟩ := hfails m e hresult
      exact ⟨v, rfl⟩
  case only =>
    intro c c' s s' m m' h h' hkeys
    rw [hread h, hread h', hcongr m m' hkeys]

end Query

theorem Client.result_ofExcept (call : Op ω σ Answer) (read : Answer → Except Error α) (s : σ) :
    ((call >>= fun answer => Action.ofExcept (read answer)) s).result = (call s).result.bind read := by
  rcases h : call s with ⟨result, trace, s'⟩
  cases result with
  | error e => exact congrArg Outcome.result (Action.bind_of_error h)
  | ok answer => exact congrArg Outcome.result (Action.bind_of_ok h)

/-! ## What answers say -/

theorem Modality.exists_isTold_iff (m : Answer) :
    (∃ modality : Modality, modality.IsTold m) ↔ m.HasNumber 0x01 0x100 := by
  rw [← Answer.exists_int?_iff exists_toNat_eq_iff_byte]
  constructor
  · rintro ⟨modality, h⟩
    exact ⟨modality.code, h.code⟩
  · rintro ⟨c, h⟩
    refine ⟨.ofCode c, ?_, Modality.isCoding.isProper_ofNamed⟩
    rwa [Modality.code_ofCode]

theorem Sensor.exists_isTold_iff (m : Answer) :
    (∃ sensor : Sensor, sensor.IsTold m) ↔ (m.get? 0x02 = none ∨ m.HasNumber 0x02 0x100) ∧
      (m.get? 0x03 = none ∨ m.HasNumber 0x03 0x100000000) ∧ (m.get? 0x08 = none ∨ m.HasNumber 0x08 0x100000000) := by
  simp only [← Answer.exists_tells_iff exists_toNat_eq_iff_byte, ← Answer.exists_tells_iff exists_toNat_eq_iff_word]
  constructor
  · rintro ⟨⟨kind, maxSamples, maxNameLength⟩, ⟨hkind, -, hsamples, hlength⟩⟩
    refine ⟨⟨kind.map FingerprintKind.code, ?_⟩, ⟨_, hsamples⟩, ⟨_, hlength⟩⟩
    rwa [Option.map_map]
  · rintro ⟨⟨code, hkind⟩, ⟨maxSamples, hsamples⟩, ⟨maxNameLength, hlength⟩⟩
    rw [← FingerprintKind.map_code_map_ofCode code, Option.map_map] at hkind
    refine ⟨⟨code.map .ofCode, maxSamples, maxNameLength⟩, hkind, ?_, hsamples, hlength⟩
    exact fun _ => FingerprintKind.isProper_of_map_ofCode

theorem Sample.exists_isTold_iff (m : Answer) :
    (∃ sample : Sample, sample.IsTold m) ↔ m.HasNumber 0x05 0x100 ∧ m.HasNumber 0x06 0x100000000 := by
  rw [← Answer.exists_int?_iff exists_toNat_eq_iff_byte, ← Answer.exists_int?_iff exists_toNat_eq_iff_word]
  constructor
  · rintro ⟨⟨status, remaining⟩, hstatus, -, hremaining⟩
    exact ⟨⟨status.code, hstatus⟩, ⟨remaining, hremaining⟩⟩
  · rintro ⟨⟨c, hstatus⟩, ⟨remaining, hremaining⟩⟩
    refine ⟨⟨.ofCode c, remaining⟩, ?_, SampleStatus.isCoding.isProper_ofNamed, hremaining⟩
    rwa [SampleStatus.code_ofCode]

theorem Beginning.exists_isTold_iff (m : Answer) :
    (∃ begun : Beginning, begun.IsTold m) ↔
      (∃ id, m.get? 0x04 = some (.bytes id)) ∧ m.HasNumber 0x05 0x100 ∧ m.HasNumber 0x06 0x100000000 := by
  rw [← Sample.exists_isTold_iff]
  constructor
  · rintro ⟨⟨id, sample⟩, hid, hsample⟩
    exact ⟨⟨id, hid⟩, ⟨sample, hsample⟩⟩
  · rintro ⟨⟨id, hid⟩, ⟨sample, hsample⟩⟩
    exact ⟨⟨id, sample⟩, hid, hsample⟩

/-- A sample is good if and only if the answer says so. -/
theorem Sample.IsTold.isGood_iff {sample : Sample} {m : Answer} (h : sample.IsTold m) :
    sample.status.isGood = true ↔ m.int? 0x05 = some 0 := by
  have hstatus : .ofCode sample.status.code = sample.status := SampleStatus.isCoding.ofNamed_code h.proper
  rw [h.status, Option.some.injEq, Int.natCast_eq_zero, ← hstatus, SampleStatus.isGood_ofCode, hstatus]
  exact UInt8.toNat_inj.symm

/-- Four operations return what the answer says, exactly. The modality and the numbers of a sample are there and
in their range, or the operation fails; so is the template of a beginning. What a sensor tells may be absent, and
then alone it is none in the result. A code that has a name is returned by that name, and a sample is good if its
status is zero. Whatever else an answer holds, or holds instead, is a violation of the protocol, and fields that are
not asked for never matter. -/
theorem typed_results_exact :
    (Transaction.modality.query.IsReadExactly (fun c : Client ω σ => c.modality) [0x01]
      (fun m => m.HasNumber 0x01 0x100) Modality.IsTold) ∧
    (Transaction.sensor.query.IsReadExactly (fun c : Client ω σ => c.sensor) [0x02, 0x03, 0x08]
      (fun m => (m.get? 0x02 = none ∨ m.HasNumber 0x02 0x100) ∧
        (m.get? 0x03 = none ∨ m.HasNumber 0x03 0x100000000) ∧ (m.get? 0x08 = none ∨ m.HasNumber 0x08 0x100000000))
      Sensor.IsTold) ∧
    (∀ timeout, (Transaction.begin timeout).query.IsReadExactly (fun c : Client ω σ => c.beginEnrollment timeout)
      [0x04, 0x05, 0x06]
      (fun m => (∃ id, m.get? 0x04 = some (.bytes id)) ∧ m.HasNumber 0x05 0x100 ∧ m.HasNumber 0x06 0x100000000)
      fun begun m => begun.IsTold m ∧ (begun.sample.status.isGood = true ↔ m.int? 0x05 = some 0)) ∧
    ∀ id timeout, (Transaction.next id timeout).query.IsReadExactly (fun c : Client ω σ => c.captureNext id timeout)
      [0x05, 0x06] (fun m => m.HasNumber 0x05 0x100 ∧ m.HasNumber 0x06 0x100000000)
      fun sample m => sample.IsTold m ∧ (sample.status.isGood = true ↔ m.int? 0x05 = some 0) := by
  have hgood : ∀ (sample : Sample) (m : Answer),
      sample.IsTold m ∧ (sample.status.isGood = true ↔ m.int? 0x05 = some 0) ↔ sample.IsTold m :=
    fun sample m => and_iff_left_of_imp fun h => h.isGood_iff
  have hbegun : ∀ (begun : Beginning) (m : Answer),
      begun.IsTold m ∧ (begun.sample.status.isGood = true ↔ m.int? 0x05 = some 0) ↔ begun.IsTold m :=
    fun begun m => and_iff_left_of_imp fun h => h.sample.isGood_iff
  refine ⟨?_, ?_, fun timeout => ?_, fun id timeout => ?_⟩
  · refine Query.isReadExactly_of_read (fun c s => Client.result_ofExcept _ Modality.ofAnswer s)
      (fun m modality => Modality.ofAnswer_eq_ok_iff) Modality.exists_isTold_iff Modality.failsWith_ofAnswer ?_
    intro m m' hkeys
    exact Modality.ofAnswer_congr (hkeys _ (by decide))
  · refine Query.isReadExactly_of_read (fun c s => Client.result_ofExcept _ Sensor.ofAnswer s)
      (fun m sensor => Sensor.ofAnswer_eq_ok_iff) Sensor.exists_isTold_iff Sensor.failsWith_ofAnswer ?_
    intro m m' hkeys
    exact Sensor.ofAnswer_congr (hkeys _ (by decide)) (hkeys _ (by decide)) (hkeys _ (by decide))
  · refine Query.isReadExactly_of_read (fun c s => (Client.conclude_run _ Beginning.ofAnswer _ s).1)
      (fun m begun => Beginning.ofAnswer_eq_ok_iff.trans (hbegun begun m).symm) ?_ Beginning.failsWith_ofAnswer ?_
    · intro m
      simp only [hbegun, Beginning.exists_isTold_iff]
    · intro m m' hkeys
      exact Beginning.ofAnswer_congr (hkeys _ (by decide)) (hkeys _ (by decide)) (hkeys _ (by decide))
  · refine Query.isReadExactly_of_read (fun c s => (Client.conclude_run _ Sample.ofAnswer _ s).1)
      (fun m sample => Sample.ofAnswer_eq_ok_iff.trans (hgood sample m).symm) ?_ Sample.failsWith_ofAnswer ?_
    · intro m
      simp only [hgood, Sample.exists_isTold_iff]
    · intro m m' hkeys
      exact Sample.ofAnswer_congr (hkeys _ (by decide)) (hkeys _ (by decide))

/-- A count of samples that is one too large is not taken for none, and the largest one is returned. -/
theorem typed_results_exact_of_counts :
    let c : Client Unit Answer := ⟨⟨fun _ m => ⟨.ok m, [], m⟩, .unknown⟩, ⟨2, fun _ _ s => (.ok [], s)⟩, ⟨[]⟩, {}⟩
    let answer (left : UInt64) : Answer := (SortedMap.empty.insert 0x05 (.unsigned 0)).insert 0x06 (.unsigned left)
    (∀ left, (Transaction.next [] none).query.Answered c (answer left) (answer left)) ∧
      (∃ v, (c.captureNext [] none (answer 0x100000000)).result = .error (.badAnswer v)) ∧
      ∃ sample, (c.captureNext [] none (answer 0xffffffff)).result = .ok sample ∧ sample.status.isGood = true ∧
        sample.remaining = 0xffffffff := by
  intro c answer
  obtain ⟨-, -, -, hnext⟩ := @typed_results_exact Unit Answer
  have hanswered : ∀ left, (Transaction.next [] none).query.Answered c (answer left) (answer left) :=
    fun left => .signed rfl rfl
  have hstatus : ∀ left, (answer left).int? 0x05 = some 0 := fun left => rfl
  have hleft : ∀ left : UInt64, (answer left).int? 0x06 = some (left.toNat : Int) := fun left => rfl
  refine ⟨hanswered, (hnext [] none).violation (hanswered _) ?_, ?_⟩
  · rintro ⟨-, n, hn, hint⟩
    have hn' : (0x100000000 : UInt64).toNat = n := Int.ofNat.inj (Option.some.inj ((hleft _).symm.trans hint))
    rw [← hn'] at hn
    exact absurd hn (by decide)
  · have hfits : (answer 0xffffffff).HasNumber 0x05 0x100 ∧ (answer 0xffffffff).HasNumber 0x06 0x100000000 :=
      ⟨⟨0, by decide, hstatus _⟩, ⟨0xffffffff, by decide, hleft _⟩⟩
    obtain ⟨sample, hsample⟩ := ((hnext [] none).succeeds_iff (hanswered _)).2 hfits
    obtain ⟨htold, hgood⟩ := (hnext [] none).told (hanswered _) hsample
    refine ⟨sample, hsample, hgood.2 (hstatus _), ?_⟩
    have hcount : (0xffffffff : UInt64).toNat = sample.remaining.toNat :=
      Int.ofNat.inj (Option.some.inj ((hleft _).symm.trans htold.remaining))
    exact UInt32.toNat_inj.1 hcount.symm

end CtapEnroll
