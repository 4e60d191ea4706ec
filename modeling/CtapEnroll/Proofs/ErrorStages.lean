import CtapEnroll.Proofs.Exchanges
import CtapEnroll.Proofs.Readings
import CtapEnroll.Proofs.Transactions
/-!
# What an error says about the card

An operation over a link fails in one of two stages. As long as nothing was given to the card it fails early:
its enrollment has ended, its name is too long, its token cannot sign, or its request does not fit a message.
Once the card has the command, nothing of this can come up any more, and only the card and what it answers
can make the operation fail. `error_tells_contact` says that each error belongs to one stage.
-/

namespace CtapEnroll

variable {σ : Type}

namespace Error

inductive IsEarly : Error → Prop
  | enrollmentOver (phase : Phase) : IsEarly (.enrollmentOver phase)
  | nameTooLong (length limit : Nat) : IsEarly (.nameTooLong length limit)
  | badRequest (fault : RequestFault) : IsEarly (.badRequest fault)
  | badToken (fault : TokenError) : IsEarly (.badToken fault)

inductive IsLate : Error → Prop
  | unreachable (reason : String) : IsLate (.unreachable reason)
  | refused (status : Status) : IsLate (.refused status)
  | cardRefused (word : UInt16) : IsLate (.cardRefused word)
  | tooShort (length : Nat) : IsLate (.tooShort length)
  | badAnswer (violation : Violation) : IsLate (.badAnswer violation)
  | sampleRejected (status : SampleStatus) : IsLate (.sampleRejected status)

theorem IsEarly.not_isLate {e : Error} (h : e.IsEarly) : ¬ e.IsLate := by
  cases h <;> exact nofun

end Error

/-! ## Reading an answer -/

theorem Error.IsViolation.isLate {e : Error} (h : e.IsViolation) : e.IsLate := by
  cases h
  exact .badAnswer _

/-- An answer that makes no sense violates the protocol, whatever was asked. -/
theorem Transaction.failsWith_read_ok (t : Transaction) (answer : Answer) :
    FailsWith Error.IsViolation (t.read (.ok answer)) := by
  cases t with
  | modality => exact (Modality.failsWith_ofAnswer answer).map _
  | sensor => exact (Sensor.failsWith_ofAnswer answer).map _
  | begin timeout => exact (Beginning.failsWith_ofAnswer answer).map _
  | next id timeout => exact (Sample.failsWith_ofAnswer answer).map _
  | list => exact ((Listing.failsWith_ofAnswer answer).mapError fun _ h => h.isViolation).map _
  | _ => exact .ok _

theorem Transaction.failsWith_read (t : Transaction) {asked : Except Error Answer}
    (h : FailsWith Error.IsLate asked) : FailsWith Error.IsLate (t.read asked) := by
  cases asked with
  | ok answer => exact (t.failsWith_read_ok answer).imp fun _ h => h.isLate
  | error e =>
    rcases t.read_error e with ⟨-, -, hread⟩ | ⟨-, hread⟩ <;> rw [hread]
    · exact .ok _
    · exact .error (h e rfl)

/-- No early failure is taken for an answer. -/
theorem Transaction.read_of_isEarly (t : Transaction) {e : Error} (he : e.IsEarly) :
    t.read (.error e) = .error e := by
  rcases t.read_error e with ⟨-, rfl, -⟩ | ⟨-, hread⟩
  · cases he
  · exact hread

theorem Operation.failsWith_close (op : Operation) (enrollments : Nat → Enrollment) {result : Except Error Yield}
    (h : FailsWith Error.IsLate result) : FailsWith Error.IsLate (op.close enrollments result).result := by
  cases result with
  | error e =>
    rw [close_error]
    exact .error (h e rfl)
  | ok y =>
    cases op with
    | capture slot =>
      simp only [close]
      split
      · split
        · exact .ok _
        · exact .error (.sampleRejected _)
      · exact .ok _
    | _ => exact .ok _

/-! ## Exchanges with the card -/

namespace Link

theorem Judged.failsWith {before : Bytes} {answer : Except String Bytes} {result : Except Error Answer}
    (h : Judged before answer result) : FailsWith Error.IsLate result := by
  cases h with
  | unreachable reason => exact .error (.unreachable reason)
  | tooShort _ => exact .error (.tooShort _)
  | cardRefused _ => exact .error (.cardRefused _)
  | empty _ => exact .error (.tooShort 0)
  | refused _ _ => exact .error (.refused _)
  | misread _ _ => exact .error (.badAnswer _)
  | answered _ _ => exact .ok _

/-- Whatever the card does with a message, its exchange can only fail late. -/
theorem failsWith_send {command : UInt8} {payload apdu : Bytes}
    (h : (message command payload).encode = .ok apdu) (card : Card σ) (s : σ) :
    FailsWith Error.IsLate (send card command payload s).result := by
  obtain ⟨i, hle, hpieces, hlast⟩ := exists_last (fun i => IsPiece (reply card apdu s i).1) maxRounds
  obtain ⟨result, steps, hreceive, -, hjudged⟩ := receiveAnswer_of_replies h hle hpieces hlast command []
  rw [send_eq, Action.emit_bind, hreceive]
  exact hjudged.failsWith

/-- A request fits no message, or the first message to the card is that of the request. -/
theorem send_cases (card : Card σ) (command : UInt8) (payload : Bytes) (s : σ) :
    let o := send card command payload s
    (∃ fault, o.result = .error (.badRequest fault) ∧ messages o.trace = []) ∨
    ∃ apdu more, (message command payload).encode = .ok apdu ∧ messages o.trace = apdu :: more ∧
      FailsWith Error.IsLate o.result := by
  by_cases hlong : 65534 < payload.length
  · rw [send_of_long hlong]
    exact .inl ⟨_, rfl, rfl⟩
  · obtain ⟨apdu, hapdu⟩ := exists_message command (Nat.le_of_not_lt hlong)
    obtain ⟨more, hmore⟩ := messages_send hapdu card s
    exact .inr ⟨apdu, more, hapdu, hmore, failsWith_send hapdu card s⟩

end Link

/-! ## Stages -/

namespace Operation

/-- How far an operation over a link got. -/
inductive Stage (l : Link σ) (o : Outcome Error (Client.Step Link.Step) (World σ) Yield) : Prop
  | early {e : Error} (he : e.IsEarly) (hresult : o.result = .error e) (hsent : Client.sent o.trace = [])
  | late {request : Request} {apdu : Bytes} {more : List Bytes} (hrequests : Client.requests o.trace = [request])
      (hapdu : (Link.message l.command.code request.encode).encode = .ok apdu)
      (hsent : Client.sent o.trace = apdu :: more) (hresult : FailsWith Error.IsLate o.result)

theorem stage {l : Link σ} {p : AuthProtocol} {c : Client Link.Step σ} (hsession : c.session = l.session)
    (hsigner : c.signer = p.signer) {op : Operation} (hop : ∀ slot timeout, op ≠ enroll slot timeout)
    (w : World σ) : Stage l (op.act c w) := by
  have hacted := op.acted c w
  generalize op.act c w = o at hacted ⊢
  cases hacted with
  | enrolled h => exact absurd h (hop _ _)
  | refused he =>
    rcases he with ⟨phase, rfl⟩ | ⟨length, limit, rfl⟩
    · exact .early (.enrollmentOver phase) rfl rfl
    · exact .early (.nameTooLong length limit) rfl rfl
  | @allowed t _ _ =>
    rcases t.query.ask_cases c w.2 with ⟨message, e, hsign, hask, htrace⟩ | ⟨request, s', hask, hasked⟩
    · -- There is no signature, and so no exchange.
      rw [hsigner] at hsign
      obtain ⟨fault, rfl⟩ := AuthProtocol.exists_of_sign_error hsign
      refine .early (.badToken fault) ?_ ?_
      · simp only [hask, t.read_of_isEarly (.badToken fault), close_error]
      · simp only [Client.sent_append, Client.sent_reported, htrace]
        rfl
    · -- There is one exchange, and its request fits a message or not.
      rw [hsession] at hask hasked
      have hsent : Client.sent (t.query.ask c w.2).trace =
          Link.messages (Link.send l.card l.command.code request.encode s').trace := by
        rw [Client.sent_eq, hasked]
        exact List.append_nil _
      have hrequests : Client.requests (t.query.ask c w.2).trace = [request] := by
        rw [Client.requests_eq, hasked]
        rfl
      rcases Link.send_cases l.card l.command.code request.encode s' with
        ⟨fault, hresult, hmessages⟩ | ⟨apdu, more, hapdu, hmessages, hlate⟩
      · refine .early (.badRequest fault) ?_ ?_
        · simp only [hask.trans hresult, t.read_of_isEarly (.badRequest fault), close_error]
        · simp only [Client.sent_append, Client.sent_reported, hsent, hmessages, List.append_nil]
      · have hread : FailsWith Error.IsLate (t.read (t.query.ask c w.2).result) := by
          rw [hask]
          exact t.failsWith_read hlate
        refine @Stage.late σ l _ request apdu more ?_ hapdu ?_ (failsWith_close op w.1 hread)
        · simp only [Client.requests_append, Client.requests_reported, hrequests, List.append_nil]
        · simp only [Client.sent_append, Client.sent_reported, hsent, hmessages, List.append_nil]

end Operation

/-- The error of an operation tells whether the card was contacted. Nothing is given to the card if and only if
the operation fails because its enrollment has ended, its name is too long, its token cannot sign, or its
request fits no message. It succeeds, or fails in one of the other ways, if and only if the card was given the
message of its one request first. No operation complains about the firmware. -/
theorem error_tells_contact (l : Link σ) (p : AuthProtocol) (token : Token) (config : Config) {op : Operation}
    (hop : ∀ slot timeout, op ≠ .enroll slot timeout) (w : World σ) :
    let c : Client Link.Step σ := ⟨l.session, p.signer, token, config⟩
    let o := op.act c w
    (Client.sent o.trace = [] ↔ ∃ e, o.result = .error e ∧ e.IsEarly) ∧
      (((∃ y, o.result = .ok y) ∨ ∃ e, o.result = .error e ∧ e.IsLate) ↔
        ∃ request apdu more, Client.requests o.trace = [request] ∧
          Apdu.Command.encode ⟨0x80, 0x10, 0x00, 0x00, l.command.code :: request.encode⟩ = .ok apdu ∧
          Client.sent o.trace = apdu :: more) ∧
      ∀ required actual, o.result ≠ .error (.firmwareTooOld required actual) := by
  intro c o
  have hstage : Operation.Stage l o := Operation.stage rfl rfl hop w
  cases hstage with
  | @early e he hresult hsent =>
    rw [hsent, hresult]
    refine ⟨iff_of_true rfl ⟨e, rfl, he⟩, iff_of_false ?_ ?_, ?_⟩
    · rintro (⟨y, ⟨⟩⟩ | ⟨_, ⟨⟩, hlate⟩)
      exact he.not_isLate hlate
    · rintro ⟨_, _, _, -, -, ⟨⟩⟩
    · rintro required actual ⟨⟩
      cases he
  | late hrequests hapdu hsent hresult =>
    rw [hsent]
    refine ⟨iff_of_false nofun ?_, iff_of_true ?_ ⟨_, _, _, hrequests, hapdu, rfl⟩, ?_⟩
    · rintro ⟨e, he, hearly⟩
      exact hearly.not_isLate (hresult e he)
    · cases h : o.result with
      | ok y => exact .inl ⟨y, rfl⟩
      | error e => exact .inr ⟨e, rfl, hresult e h⟩
    · intro required actual h
      cases hresult _ h

/-- A card that does not know the command fails a cancel late, and was given the message of its request. -/
theorem error_tells_contact_of_refusal :
    let l : Link (List Bytes) := ⟨Link.scripted, .preview, .unknown⟩
    let c : Client Link.Step (List Bytes) := ⟨l.session, AuthProtocol.two.signer, ⟨[]⟩, {}⟩
    let o := (Operation.cancel 0).act c (fun _ => .new none, [[0x6d, 0x00]])
    (∀ slot timeout, Operation.cancel 0 ≠ .enroll slot timeout) ∧ o.result = .error (.cardRefused 0x6d00) ∧
      ∃ request apdu more, Client.requests o.trace = [request] ∧
        Apdu.Command.encode ⟨0x80, 0x10, 0x00, 0x00, 0x40 :: request.encode⟩ = .ok apdu ∧
        Client.sent o.trace = apdu :: more := by
  intro l c o
  have hop : ∀ slot timeout, Operation.cancel 0 ≠ .enroll slot timeout := nofun
  have hask : (Query.ask c Transaction.cancel.query [[0x6d, 0x00]]).result =
      (Link.send Link.scripted 0x40 (Client.request .cancelEnrollment).encode [[0x6d, 0x00]]).result :=
    (exchanges_of_asked (Client.asked ..)).1
  have hencode : (Client.request .cancelEnrollment).encode = [0xa2, 0x01, 0x01, 0x02, 0x03] := by decide +kernel
  have hresult : o.result = .error (.cardRefused 0x6d00) := by
    have ho : o = _ := Operation.act_of_allowed rfl rfl
    rw [ho]
    simp only [hask, hencode]
    rfl
  obtain ⟨-, hlate, -⟩ := error_tells_contact l .two ⟨[]⟩ {} hop (fun _ => .new none, [[0x6d, 0x00]])
  exact ⟨hop, hresult, hlate.1 (.inr ⟨_, hresult, .cardRefused 0x6d00⟩)⟩

end CtapEnroll
