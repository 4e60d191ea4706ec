import CtapEnroll.Link
import CtapEnroll.Proofs.Apdu
/-!
# What a link sends, and how it puts a response together

A command is the first message of its exchange, and fetching the pieces of its response takes one more
message for each piece after the first. How a card cuts a response makes no difference to what is
read: `send_of_cutting`. A cutting is followed piece by piece, so proofs are by induction on it.
-/

namespace CtapEnroll.Link

variable {σ τ : Type}

/-! ## Messages to the card -/

def Step.message? : Step → Option Bytes
  | .transmitted message _ => some message
  | .noticed _ => none

/-- The messages that were given to the card, in order. -/
def messages (steps : List Step) : List Bytes := steps.filterMap Step.message?

@[simp] theorem messages_append (a b : List Step) : messages (a ++ b) = messages a ++ messages b :=
  List.filterMap_append ..

@[simp] theorem messages_transmitted (message : Bytes) (answer : Except String Bytes) (steps : List Step) :
    messages (.transmitted message answer :: steps) = message :: messages steps := rfl

@[simp] theorem messages_noticed (notice : Notice) (steps : List Step) :
    messages (.noticed notice :: steps) = messages steps := rfl

theorem transmit_eq {c : Apdu.Command} {message : Bytes} (h : c.encode = .ok message) (card : Card σ) :
    transmit card c = exchange card message := by
  have hok : (Action.ofExcept (c.encode.mapError Error.ofWire) : Action Error Step σ Bytes) =
      pure message := by
    rw [h]
    rfl
  rw [transmit, hok, pure_bind]

/-- The message that fetches the next piece of a response. -/
def fetch : Bytes := [0x00, 0xc0, 0x00, 0x00, 0x00]

theorem encode_getResponse : getResponse.encode = .ok fetch := rfl

/-! ## What a response says -/

/-- The answer in the bytes of a whole response. -/
def answerOf : Bytes → Except Error Answer
  | [] => .error (.tooShort 0)
  | status :: body =>
    if Status.isSuccess (.ofCode status) then (Answer.decode body).mapError Error.ofWire
    else .error (.refused (.ofCode status))

theorem readAnswer_eq (command : UInt8) (b : Bytes) (s : σ) :
    ∃ steps, readAnswer command b s = ⟨answerOf b, steps, s⟩ ∧ messages steps = [] := by
  cases b with
  | nil => exact ⟨[], rfl, rfl⟩
  | cons status body =>
    by_cases h : Status.isSuccess (.ofCode status) = true
    · rw [readAnswer, answerOf, if_pos h, if_pos h]
      exact ⟨[], rfl, rfl⟩
    · rw [readAnswer, answerOf, if_neg h, if_neg h]
      exact ⟨[.noticed (.refused command (.ofCode status))], rfl, rfl⟩

/-! ## Status words -/

theorem toNat_word (high low : UInt8) :
    (UInt16.ofNat (Bytes.toNat [high, low])).toNat = 256 * high.toNat + low.toNat := by
  have h : Bytes.toNat [high, low] = 256 * high.toNat + low.toNat := by simp [Bytes.toNat]
  rw [h, UInt16.toNat_ofNat']
  have := high.toNat_lt
  have := low.toNat_lt
  omega

/-- The mask keeps the first byte of a word and drops the second. -/
theorem toNat_word_and_mask (high low : UInt8) :
    (UInt16.ofNat (Bytes.toNat [high, low]) &&& 0xff00).toNat = 256 * high.toNat := by
  have hhigh := high.toNat_lt
  have hlow := low.toNat_lt
  rw [UInt16.toNat_and, toNat_word]
  change (256 * high.toNat + low.toNat) &&& 0xff00 = 256 * high.toNat
  have hdiv : ((256 * high.toNat + low.toNat) &&& 0xff00) / 256 = high.toNat := by
    have hshift : (256 * high.toNat + low.toNat) >>> 8 = high.toNat := by
      rw [Nat.shiftRight_eq_div_pow]
      omega
    rw [← Nat.shiftRight_eq_div_pow _ 8, Nat.shiftRight_and_distrib, hshift]
    exact (Nat.and_two_pow_sub_one_eq_mod high.toNat 8).trans (Nat.mod_eq_of_lt hhigh)
  have hmod : ((256 * high.toNat + low.toNat) &&& 0xff00) % 256 = 0 := by
    rw [← Nat.and_two_pow_sub_one_eq_mod _ 8, Nat.and_assoc]
    exact Nat.and_zero _
  omega

/-- Only a first byte of `61` says that there is more. -/
theorem hasMore_word_iff (high low : UInt8) :
    Apdu.StatusWord.hasMore (.ofNat (Bytes.toNat [high, low])) = true ↔ high = 0x61 := by
  rw [Apdu.StatusWord.hasMore, decide_eq_true_iff, ← UInt16.toNat_inj, toNat_word_and_mask, ← UInt8.toNat_inj]
  change 256 * high.toNat = 24832 ↔ high.toNat = 97
  omega

/-! ## Cuttings -/

/-- A response in the pieces that a card sends it in. Each piece but the last ends in `61` and a byte
of the card's choice, and the last one in the word for success. -/
inductive Cutting
  | last (body : Bytes)
  | piece (body : Bytes) (low : UInt8) (rest : Cutting)

namespace Cutting

def whole : Cutting → Bytes
  | last body => body
  | piece body _ rest => body ++ rest.whole

/-- The pieces after the first one. -/
def rounds : Cutting → Nat
  | last _ => 0
  | piece _ _ rest => rest.rounds + 1

/-- The messages and answers by which the pieces come, the first of them for a given message. -/
def exchanges (message : Bytes) : Cutting → List (Bytes × Bytes)
  | last body => [(message, body ++ [0x90, 0x00])]
  | piece body low rest => (message, body ++ [0x61, low]) :: rest.exchanges fetch

def first (collected : Bytes) : Cutting → Apdu.Response
  | last body => ⟨collected ++ body, Apdu.StatusWord.success⟩
  | piece body low _ => ⟨collected ++ body, .ofNat (Bytes.toNat [0x61, low])⟩

end Cutting

/-- From a state, the card answers these messages as listed, one after the other, and is then in
another state. Nothing is said of other messages. -/
inductive Answers (card : Card σ) : σ → List (Bytes × Bytes) → σ → Prop
  | nil (s : σ) : Answers card s [] s
  | cons {s next t : σ} {message answer : Bytes} {rest : List (Bytes × Bytes)}
      (h : card message s = (.ok answer, next)) (hrest : Answers card next rest t) :
      Answers card s ((message, answer) :: rest) t

theorem parse_append (body : Bytes) (high low : UInt8) :
    Apdu.Response.parse (body ++ [high, low]) = .ok ⟨body, .ofNat (Bytes.toNat [high, low])⟩ := by
  have hlen : (body ++ [high, low]).length = body.length + 2 := List.length_append
  unfold Apdu.Response.parse
  rw [if_neg (by omega), hlen, Nat.add_sub_cancel]
  simp only [List.take_left, List.drop_left]

theorem transmit_answered {card : Card σ} {c : Apdu.Command} {message body : Bytes} {high low : UInt8}
    {s t : σ} (hc : c.encode = .ok message) (h : card message s = (.ok (body ++ [high, low]), t)) :
    transmit card c s = ⟨.ok ⟨body, .ofNat (Bytes.toNat [high, low])⟩,
      [.transmitted message (.ok (body ++ [high, low]))], t⟩ := by
  rw [transmit_eq hc]
  unfold exchange
  rw [h]
  simp only [parse_append]
  rfl

/-! ## Collecting a response -/

theorem collect_success (card : Card σ) (rounds : Nat) (body : Bytes) :
    collect card rounds ⟨body, Apdu.StatusWord.success⟩ = pure body := by
  have hmore : ¬ Apdu.StatusWord.hasMore Apdu.StatusWord.success = true := by decide
  cases rounds with
  | zero => rw [collect, if_neg hmore, collect.finish, if_pos rfl]
  | succ rounds => rw [collect, if_neg hmore, collect.finish, if_pos rfl]

/-- A piece that says there is more costs a round, and goes in front of what the next one brings. -/
theorem collect_more {card : Card σ} {rounds : Nat} {response next : Apdu.Response} {steps : List Step}
    {s s' : σ} (hmore : Apdu.StatusWord.hasMore response.word = true)
    (h : transmit card getResponse s = ⟨.ok next, steps, s'⟩) :
    collect card (rounds + 1) response s =
      let o := collect card rounds ⟨response.body ++ next.body, next.word⟩ s'
      ⟨o.result, steps ++ o.trace, o.state⟩ := by
  rw [collect, if_pos hmore, Action.bind_of_ok h]

namespace Cutting

theorem first_collected (collected : Bytes) (cut : Cutting) :
    cut.first collected = ⟨collected ++ (cut.first []).body, (cut.first []).word⟩ := by
  cases cut <;> rfl

theorem transmit_first {card : Card σ} {c : Apdu.Command} {message : Bytes} {cut : Cutting} {s t : σ}
    (hc : c.encode = .ok message) (h : Answers card s (cut.exchanges message) t) :
    ∃ answer s', transmit card c s = ⟨.ok (cut.first []), [.transmitted message answer], s'⟩ ∧
      Answers card s' (cut.exchanges message).tail t := by
  cases cut with
  | last body =>
    cases h with
    | cons hfirst hrest => exact ⟨_, _, transmit_answered hc hfirst, hrest⟩
  | piece body low rest =>
    cases h with
    | cons hfirst hrest => exact ⟨_, _, transmit_answered hc hfirst, hrest⟩

/-- From its first piece on, a cutting of few enough pieces is collected to the whole response. -/
theorem collect_eq {card : Card σ} {cut : Cutting} {rounds : Nat} {message : Bytes} {s t : σ}
    (hrounds : cut.rounds ≤ rounds) (collected : Bytes)
    (h : Answers card s (cut.exchanges message).tail t) :
    ∃ steps, collect card rounds (cut.first collected) s = ⟨.ok (collected ++ cut.whole), steps, t⟩ ∧
      messages steps = List.replicate cut.rounds fetch := by
  -- The bytes collected so far and the rounds that are left change with each piece.
  induction cut generalizing rounds collected message s with
  | last body =>
    cases h with
    | nil => exact ⟨[], congrFun (collect_success card rounds (collected ++ body)) _, rfl⟩
  | piece body low rest ih =>
    -- There is a round left to fetch the next piece in, since the whole cutting has rounds enough.
    obtain ⟨rounds, rfl⟩ : ∃ n, rounds = n + 1 := ⟨rounds - 1, by unfold Cutting.rounds at hrounds; omega⟩
    obtain ⟨answer, s', hnext, hrest⟩ := transmit_first encode_getResponse h
    obtain ⟨steps, hcollect, hsteps⟩ :=
      ih (Nat.le_of_succ_le_succ hrounds) (collected ++ body) hrest
    rw [first_collected, List.append_assoc collected body rest.whole] at hcollect
    refine ⟨.transmitted fetch answer :: steps, ?_, ?_⟩
    · rw [first, collect_more ((hasMore_word_iff _ low).2 rfl) hnext]
      simp only [hcollect, whole, List.singleton_append]
    · rw [messages_transmitted, hsteps]
      rfl

end Cutting

/-! ## Sending a command -/

theorem exists_message (command : UInt8) {payload : Bytes} (h : payload.length ≤ 65534) :
    ∃ apdu, (message command payload).encode = .ok apdu := by
  refine Apdu.Command.exists_encode ?_
  unfold message Apdu.Command.maxExtended
  rw [List.length_cons]
  omega

theorem messages_send {command : UInt8} {payload apdu : Bytes}
    (h : (message command payload).encode = .ok apdu) (card : Card σ) (s : σ) :
    ∃ more, messages (send card command payload s).trace = apdu :: more := by
  unfold send
  rw [Action.emit_bind, transmit_eq h]
  obtain ⟨rest, hrest⟩ := Action.trace_bind (exchange card apdu)
    (fun response => collect card maxRounds response >>= readAnswer command) s
  refine ⟨messages rest, ?_⟩
  rw [messages_noticed]
  exact congrArg messages hrest

/-- A command whose response comes in few enough pieces is answered with what the whole response
says. -/
theorem send_of_cutting {card : Card σ} {command : UInt8} {payload apdu : Bytes} {cut : Cutting}
    {s t : σ} (hmessage : (message command payload).encode = .ok apdu) (hrounds : cut.rounds ≤ maxRounds)
    (h : Answers card s (cut.exchanges apdu) t) :
    ∃ steps, send card command payload s = ⟨answerOf cut.whole, steps, t⟩ ∧
      messages steps = apdu :: List.replicate cut.rounds fetch := by
  obtain ⟨answer, s', htransmit, hrest⟩ := Cutting.transmit_first hmessage h
  obtain ⟨pieces, hcollect, hpieces⟩ := Cutting.collect_eq hrounds [] hrest
  obtain ⟨notices, hread, hnotices⟩ := readAnswer_eq command cut.whole t
  rw [List.nil_append] at hcollect
  refine ⟨.noticed (.sending command payload.length) :: .transmitted apdu answer :: (pieces ++ notices),
    ?_, ?_⟩
  · unfold send
    rw [Action.emit_bind, Action.bind_of_ok htransmit, Action.bind_of_ok hcollect, hread]
    rfl
  · rw [messages_noticed, messages_transmitted, messages_append, hpieces, hnotices, List.append_nil]

/-- How a response is cut makes no difference: two cards that cut one response in different ways, each
in at most 65 pieces, give the same result. Each is sent the command, and once per further piece the
message that fetches it, and no more of its answers are used. -/
theorem send_eq_of_whole_eq (command : UInt8) {payload : Bytes} (hpayload : payload.length ≤ 65534) :
    ∃ apdu, Apdu.Command.encode ⟨0x80, 0x10, 0x00, 0x00, command :: payload⟩ = .ok apdu ∧
      ∀ {σ τ : Type} {card : Card σ} {other : Card τ} {cut recut : Cutting} {s t : σ} {s' t' : τ},
        cut.rounds ≤ 64 → recut.rounds ≤ 64 → cut.whole = recut.whole →
        Answers card s (cut.exchanges apdu) t → Answers other s' (recut.exchanges apdu) t' →
        let o := send card command payload s
        let o' := send other command payload s'
        o.result = o'.result ∧
          messages o.trace = apdu :: List.replicate cut.rounds [0x00, 0xc0, 0x00, 0x00, 0x00] ∧
          messages o'.trace = apdu :: List.replicate recut.rounds [0x00, 0xc0, 0x00, 0x00, 0x00] ∧
          o.state = t ∧ o'.state = t' := by
  obtain ⟨apdu, hapdu⟩ := exists_message command hpayload
  refine ⟨apdu, hapdu, ?_⟩
  intro σ τ card other cut recut s t s' t' hcut hrecut hwhole h h' o o'
  obtain ⟨steps, ho, hsteps⟩ := send_of_cutting hapdu hcut h
  obtain ⟨steps', ho', hsteps'⟩ := send_of_cutting hapdu hrecut h'
  change o = _ at ho
  change o' = _ at ho'
  rw [ho, ho', hwhole]
  exact ⟨rfl, hsteps, hsteps', rfl, rfl⟩

/-- A card that answers from a list, whatever it is sent. -/
def scripted : Card (List Bytes)
  | _, [] => (.error "no answer left", [])
  | _, answer :: rest => (.ok answer, rest)

theorem answers_scripted (cut : Cutting) (message : Bytes) (rest : List Bytes) :
    Answers scripted ((cut.exchanges message).map Prod.snd ++ rest) (cut.exchanges message) rest := by
  induction cut generalizing message with
  | last body => exact .cons rfl (.nil rest)
  | piece body low cut ih => exact .cons rfl (ih fetch)

/-- A map of one field in three pieces, the first of which looks like a status word of its own. -/
theorem send_three_pieces :
    (send scripted 0x09 [] [[0x00, 0x61, 0x02], [0x61, 0x02], [0xa1, 0x01, 0x05, 0x90, 0x00], []]).result =
        (send scripted 0x09 [] [[0x00, 0xa1, 0x01, 0x05, 0x90, 0x00]]).result ∧
      (send scripted 0x09 [] [[0x00, 0x61, 0x02], [0x61, 0x02], [0xa1, 0x01, 0x05, 0x90, 0x00], []]).state =
        [[]] := by
  have hpayload : ([] : Bytes).length ≤ 65534 := by decide
  obtain ⟨apdu, -, h⟩ := send_eq_of_whole_eq 0x09 hpayload
  have cut := answers_scripted (.piece [0x00] 0x02 (.piece [] 0x02 (.last [0xa1, 0x01, 0x05]))) apdu [[]]
  have whole := answers_scripted (.last [0x00, 0xa1, 0x01, 0x05]) apdu []
  obtain ⟨hresult, -, -, hstate, -⟩ := h (by decide) (by decide) (by rfl) cut whole
  exact ⟨hresult, hstate⟩

end CtapEnroll.Link
