import CtapEnroll.Proofs.Link
/-!
# What one exchange with a card comes to

A card is asked until it gives an answer that is not the piece of a longer response, and at most 65
times. That last answer decides the result: `Judged` lists how. The answers of a card are told by
`reply`, whatever they are, and `send_of_replies` follows them up to the last one, one after the other.
-/

namespace CtapEnroll.Link

variable {σ : Type}

/-! ## Answers -/

/-- The answers of a card to a message and to the fetches after it, each with the state after it. -/
def reply (card : Card σ) (message : Bytes) (s : σ) : Nat → Except String Bytes × σ
  | 0 => card message s
  | n + 1 => reply card fetch (card message s).2 n

/-- The answer is a piece of a response, and there is more of it. -/
def IsPiece (answer : Except String Bytes) : Prop := ∃ body low, answer = .ok (body ++ [0x61, low])

/-- What an answer brings, without the status word at its end. -/
def brought : Except String Bytes → Bytes
  | .ok b => b.take (b.length - 2)
  | .error _ => []

/-- What the first `n` answers bring. -/
def collected (card : Card σ) (message : Bytes) (s : σ) (n : Nat) : Bytes :=
  (List.range n).flatMap fun i => brought (reply card message s i).1

@[simp] theorem brought_append (body : Bytes) (high low : UInt8) :
    brought (.ok (body ++ [high, low])) = body := by
  simp [brought]

theorem collected_succ (card : Card σ) (message : Bytes) (s : σ) (n : Nat) :
    collected card message s (n + 1) =
      brought (card message s).1 ++ collected card fetch (card message s).2 n := by
  simp [collected, List.range_succ_eq_map, List.flatMap_map, reply]

/-! ## Status words -/

theorem word_eq_success_iff (high low : UInt8) :
    UInt16.ofNat (Bytes.toNat [high, low]) = Apdu.StatusWord.success ↔ high = 0x90 ∧ low = 0x00 := by
  constructor
  · intro h
    have hnat := congrArg UInt16.toNat h
    rw [toNat_word] at hnat
    have hsuccess : Apdu.StatusWord.success.toNat = 36864 := rfl
    have := low.toNat_lt
    refine ⟨UInt8.toNat_inj.1 ?_, UInt8.toNat_inj.1 ?_⟩
    · change high.toNat = 144
      omega
    · change low.toNat = 0
      omega
  · rintro ⟨rfl, rfl⟩
    rfl

/-! ## Verdicts -/

/-- The result that the last answer decides, given what those before it brought. -/
inductive Judged (before : Bytes) : Except String Bytes → Except Error Answer → Prop
  -- No answer: the card could not be reached.
  | unreachable (reason : String) : Judged before (.error reason) (.error (.unreachable reason))
  -- An answer with no room for a status word.
  | tooShort {b : Bytes} (h : b.length < 2) : Judged before (.ok b) (.error (.tooShort b.length))
  -- A status word other than `90 00`.
  | cardRefused {body : Bytes} {high low : UInt8} (h : ¬ (high = 0x90 ∧ low = 0x00)) :
      Judged before (.ok (body ++ [high, low])) (.error (.cardRefused (.ofNat (Bytes.toNat [high, low]))))
  -- A whole response without a status byte.
  | empty {body : Bytes} (h : before ++ body = []) :
      Judged before (.ok (body ++ [0x90, 0x00])) (.error (.tooShort 0))
  -- A status byte other than zero.
  | refused {body rest : Bytes} {status : UInt8} (h : before ++ body = status :: rest) (hne : status ≠ 0) :
      Judged before (.ok (body ++ [0x90, 0x00])) (.error (.refused (.ofCode status)))
  -- After a status byte of zero, a map or no map.
  | misread {body rest : Bytes} {fault : WireError} (h : before ++ body = 0 :: rest)
      (hdecode : Answer.decode rest = .error fault) :
      Judged before (.ok (body ++ [0x90, 0x00])) (.error (.badAnswer (.wire fault)))
  | answered {body rest : Bytes} {answer : Answer} (h : before ++ body = 0 :: rest)
      (hdecode : Answer.decode rest = .ok answer) :
      Judged before (.ok (body ++ [0x90, 0x00])) (.ok answer)

/-- A piece that is the last answer is refused with its own status word. -/
theorem Judged.of_piece {before body : Bytes} {low : UInt8} {result : Except Error Answer}
    (h : Judged before (.ok (body ++ [0x61, low])) result) :
    result = .error (.cardRefused (.ofNat (Bytes.toNat [0x61, low]))) := by
  generalize hb : body ++ [0x61, low] = b at h
  have hsuccess : ∀ other : Bytes, other ++ [0x90, 0x00] ≠ body ++ [0x61, low] := by
    intro other hother
    obtain ⟨-, hword⟩ := List.append_inj' hother rfl
    exact absurd (List.cons.inj hword).1 (by decide)
  cases h with
  | tooShort hshort =>
    rw [← hb, List.length_append] at hshort
    exact absurd hshort (Nat.not_lt_of_le (Nat.le_add_left 2 body.length))
  | cardRefused _ =>
    obtain ⟨-, hword⟩ := List.append_inj' hb rfl
    rw [hword]
  | empty _ => exact absurd hb.symm (hsuccess _)
  | refused _ _ => exact absurd hb.symm (hsuccess _)
  | misread _ _ => exact absurd hb.symm (hsuccess _)
  | answered _ _ => exact absurd hb.symm (hsuccess _)

/-- Bytes that are no map are the device's fault. -/
theorem ofWire_of_decode {b : Bytes} {fault : WireError} (h : Answer.decode b = .error fault) :
    Error.ofWire fault = .badAnswer (.wire fault) := by
  have hmap : ∃ m, fault = .badMap m := by
    unfold Answer.decode at h
    split at h
    · cases h
    · split at h
      · unfold Answer.ofValue at h
        split at h
        · split at h <;> cases h
          exact ⟨_, rfl⟩
        · cases h
          exact ⟨_, rfl⟩
      · cases h
        exact ⟨_, rfl⟩
  obtain ⟨m, rfl⟩ := hmap
  rfl

theorem judged_answerOf (before body : Bytes) :
    Judged before (.ok (body ++ [0x90, 0x00])) (answerOf (before ++ body)) := by
  cases h : before ++ body with
  | nil => exact .empty h
  | cons status rest =>
    rw [answerOf]
    by_cases hstatus : status = 0
    · rw [if_pos ((Status.isSuccess_ofCode status).2 hstatus)]
      rw [hstatus] at h
      cases hdecode : Answer.decode rest with
      | error fault =>
        have hjudged := Judged.misread h hdecode
        rw [← ofWire_of_decode hdecode] at hjudged
        exact hjudged
      | ok answer => exact .answered h hdecode
    · rw [if_neg (mt (Status.isSuccess_ofCode status).1 hstatus)]
      exact .refused h hstatus

/-! ## Receiving -/

/-- Gives a message to the card, and fetches what its answer leaves. -/
def receive (card : Card σ) (rounds : Nat) (c : Apdu.Command) (before : Bytes) :
    Action Error Step σ Bytes := do
  let next ← transmit card c
  collect card rounds ⟨before ++ next.body, next.word⟩

/-- Receives a response, and reads it as the answer to a command. -/
def receiveAnswer (card : Card σ) (command : UInt8) (rounds : Nat) (c : Apdu.Command) (before : Bytes) :
    Action Error Step σ Answer :=
  receive card rounds c before >>= readAnswer command

theorem send_eq (card : Card σ) (command : UInt8) (payload : Bytes) :
    send card command payload = (Action.emit (.noticed (.sending command payload.length)) >>=
      fun _ => receiveAnswer card command maxRounds (message command payload) []) := by
  simp [send, receiveAnswer, receive]

theorem transmit_reply (card : Card σ) {c : Apdu.Command} {message : Bytes} (hc : c.encode = .ok message)
    (s : σ) :
    transmit card c s = ⟨match (card message s).1 with
      | .error reason => .error (.unreachable reason)
      | .ok b => (Apdu.Response.parse b).mapError Error.ofWire,
      [.transmitted message (card message s).1], (card message s).2⟩ := by
  rw [transmit_eq hc]
  rfl

/-- An answer is none, too short, or a body and a status word. -/
theorem answer_cases (answer : Except String Bytes) :
    (∃ reason, answer = .error reason) ∨ (∃ b, answer = .ok b ∧ b.length < 2) ∨
      ∃ body high low, answer = .ok (body ++ [high, low]) := by
  rcases answer with reason | b
  · exact .inl ⟨reason, rfl⟩
  · by_cases h : b.length < 2
    · exact .inr (.inl ⟨b, rfl, h⟩)
    · refine .inr (.inr ⟨b.take (b.length - 2), ?_⟩)
      have hlength : (b.drop (b.length - 2)).length = 2 := by
        rw [List.length_drop]
        omega
      obtain ⟨high, low, hword⟩ : ∃ high low, b.drop (b.length - 2) = [high, low] := by
        match b.drop (b.length - 2), hlength with
        | [high, low], _ => exact ⟨high, low, rfl⟩
      exact ⟨high, low, by rw [← hword, List.take_append_drop]⟩

theorem collect_failure (card : Card σ) {rounds : Nat} (body : Bytes) {word : UInt16}
    (hmore : Apdu.StatusWord.hasMore word = true → rounds = 0)
    (hword : word ≠ Apdu.StatusWord.success) (s : σ) :
    ∃ notice, collect card rounds ⟨body, word⟩ s = ⟨.error (.cardRefused word), [.noticed notice], s⟩ := by
  by_cases h : Apdu.StatusWord.hasMore word = true
  · rw [hmore h, collect, if_pos h]
    exact ⟨_, rfl⟩
  · refine ⟨.cardRefused word, ?_⟩
    cases rounds <;> rw [collect, if_neg h, collect.finish, if_neg hword] <;> rfl

/-- The answer to the message is the last one if it is no piece, or if no round is left: then it decides. -/
theorem receiveAnswer_of_last {card : Card σ} {rounds : Nat} {c : Apdu.Command} {message : Bytes} {s : σ}
    (hc : c.encode = .ok message) (hlast : IsPiece (card message s).1 → rounds = 0) (command : UInt8)
    (before : Bytes) :
    ∃ result steps, receiveAnswer card command rounds c before s = ⟨result, steps, (card message s).2⟩ ∧
      messages steps = [message] ∧ Judged before (card message s).1 result := by
  have hexchange := transmit_reply card hc s
  unfold receiveAnswer receive
  rw [bind_assoc]
  rcases answer_cases (card message s).1 with ⟨reason, hanswer⟩ | ⟨b, hanswer, hshort⟩ |
    ⟨body, high, low, hanswer⟩ <;> rw [hanswer] at hexchange hlast ⊢
  · exact ⟨_, _, Action.bind_of_error hexchange, rfl, .unreachable reason⟩
  · simp only [Apdu.Response.parse, if_pos hshort] at hexchange
    exact ⟨_, _, Action.bind_of_error hexchange, rfl, .tooShort hshort⟩
  · simp only [parse_append] at hexchange
    rw [Action.bind_of_ok hexchange]
    by_cases hsuccess : high = 0x90 ∧ low = 0x00
    · obtain ⟨rfl, rfl⟩ := hsuccess
      have hword : UInt16.ofNat (Bytes.toNat [0x90, 0x00]) = Apdu.StatusWord.success := rfl
      obtain ⟨notices, hread, hnotices⟩ := readAnswer_eq command (before ++ body) (card message s).2
      rw [hword, collect_success, pure_bind, hread]
      exact ⟨_, _, rfl, by simp [hnotices], judged_answerOf before body⟩
    · have hword := mt (word_eq_success_iff high low).1 hsuccess
      have hmore : Apdu.StatusWord.hasMore (.ofNat (Bytes.toNat [high, low])) = true → rounds = 0 := by
        intro h
        obtain rfl := (hasMore_word_iff high low).1 h
        exact hlast ⟨body, low, rfl⟩
      obtain ⟨notice, hcollect⟩ :=
        collect_failure card (before ++ body) hmore hword (card message s).2
      have hread := Action.bind_of_error (f := readAnswer command) hcollect
      dsimp only
      rw [hread]
      exact ⟨_, _, rfl, rfl, .cardRefused hsuccess⟩

/-- A piece costs a round, and goes in front of what is fetched next. -/
theorem receiveAnswer_of_piece {card : Card σ} {c : Apdu.Command} {message body : Bytes} {low : UInt8}
    {s : σ} (hc : c.encode = .ok message) (hpiece : (card message s).1 = .ok (body ++ [0x61, low]))
    (command : UInt8) (rounds : Nat) (before : Bytes) :
    receiveAnswer card command (rounds + 1) c before s =
      let o := receiveAnswer card command rounds getResponse (before ++ body) (card message s).2
      ⟨o.result, .transmitted message (card message s).1 :: o.trace, o.state⟩ := by
  have hexchange := transmit_reply card hc s
  simp only [hpiece, parse_append] at hexchange
  unfold receiveAnswer
  rw [receive, bind_assoc, Action.bind_of_ok hexchange, collect, if_pos ((hasMore_word_iff _ _).2 rfl), hpiece]
  rfl

/-- The card is asked up to the first answer that is no piece, and no further than the rounds allow. -/
theorem receiveAnswer_of_replies {card : Card σ} {i rounds : Nat} {c : Apdu.Command} {message : Bytes}
    {s : σ} (hc : c.encode = .ok message) (hle : i ≤ rounds)
    (hpieces : ∀ j < i, IsPiece (reply card message s j).1)
    (hlast : i < rounds → ¬ IsPiece (reply card message s i).1) (command : UInt8) (before : Bytes) :
    ∃ result steps, receiveAnswer card command rounds c before s =
        ⟨result, steps, (reply card message s i).2⟩ ∧
      messages steps = message :: List.replicate i fetch ∧
      Judged (before ++ collected card message s i) (reply card message s i).1 result := by
  -- On the answers, each of which leaves a round less and one more piece behind.
  induction i generalizing rounds c message s before with
  | zero =>
    have hstop : IsPiece (card message s).1 → rounds = 0 := by
      intro h
      exact Nat.eq_zero_of_not_pos fun hpos => hlast hpos h
    rw [collected, List.range_zero, List.flatMap_nil, List.append_nil]
    exact receiveAnswer_of_last hc hstop command before
  | succ i ih =>
    obtain ⟨rounds, rfl⟩ : ∃ n, rounds = n + 1 := ⟨rounds - 1, by omega⟩
    obtain ⟨body, low, hpiece⟩ : IsPiece (card message s).1 := hpieces 0 (Nat.succ_pos i)
    obtain ⟨result, steps, hrest, hmessages, hjudged⟩ := ih (s := (card message s).2) encode_getResponse
      (Nat.le_of_succ_le_succ hle) (fun j hj => hpieces (j + 1) (Nat.succ_lt_succ hj))
      (fun hi => hlast (Nat.succ_lt_succ hi)) (before ++ body)
    refine ⟨result, .transmitted message (card message s).1 :: steps, ?_, ?_, ?_⟩
    · rw [receiveAnswer_of_piece hc hpiece, hrest]
      rfl
    · rw [messages_transmitted, hmessages]
      rfl
    · rw [collected_succ, hpiece, brought_append, ← List.append_assoc]
      exact hjudged

/-! ## Exchanges -/

theorem exists_last (P : Nat → Prop) (n : Nat) : ∃ i ≤ n, (∀ j < i, P j) ∧ (i < n → ¬ P i) := by
  induction n with
  | zero => exact ⟨0, Nat.le_refl 0, by simp⟩
  | succ n ih =>
    obtain ⟨i, hle, hbefore, hlast⟩ := ih
    by_cases h : i = n ∧ P n
    · obtain ⟨rfl, hi⟩ := h
      refine ⟨i + 1, Nat.le_refl _, ?_, fun hlt => absurd hlt (Nat.lt_irrefl _)⟩
      intro j hj
      rcases Nat.lt_succ_iff_lt_or_eq.1 hj with hj | rfl
      · exact hbefore j hj
      · exact hi
    · refine ⟨i, Nat.le_succ_of_le hle, hbefore, ?_⟩
      intro _ hi
      rcases Nat.lt_or_eq_of_le hle with hlt | rfl
      · exact hlast hlt hi
      · exact h ⟨rfl, hi⟩

theorem send_of_long {payload : Bytes} (h : 65534 < payload.length) (card : Card σ) (command : UInt8)
    (s : σ) :
    send card command payload s = ⟨.error (.badRequest (.wire (.bodyTooLong (1 + payload.length)))),
      [.noticed (.sending command payload.length)], s⟩ := by
  have hencode : (message command payload).encode = .error (.bodyTooLong (1 + payload.length)) := by
    have hbody : (message command payload).body.length = 1 + payload.length := by
      simp [message, Nat.add_comm]
    have henc := Apdu.Command.encoded (message command payload)
    cases he : (message command payload).encode with
    | error fault =>
      rw [he] at henc
      cases henc
      rw [hbody]
    | ok b =>
      rw [he] at henc
      cases henc <;> simp_all [Apdu.Command.maxShort, Apdu.Command.maxExtended] <;> omega
  unfold send transmit
  rw [Action.emit_bind, hencode]
  rfl

/-- The result of an exchange is decided by one answer of the card, and by what the answers before it
brought: by the first answer that is not a piece of a longer response, or by the 65th. The card is given the
command and then one fetch for each further answer, and is left as it is after that answer. A command that
is too long for a message is not sent at all. -/
theorem send_of_replies (card : Card σ) (command : UInt8) (payload : Bytes) (s : σ) :
    let o := send card command payload s
    (messages o.trace).length ≤ 65 ∧
      (65535 < 1 + payload.length →
        o.result = .error (.badRequest (.wire (.bodyTooLong (1 + payload.length)))) ∧
          messages o.trace = [] ∧ o.state = s) ∧
      (1 + payload.length ≤ 65535 →
        ∃ apdu, Apdu.Command.encode ⟨0x80, 0x10, 0x00, 0x00, command :: payload⟩ = .ok apdu ∧
          ∃ i ≤ 64, (∀ j < i, IsPiece (reply card apdu s j).1) ∧
            (i < 64 → ¬ IsPiece (reply card apdu s i).1) ∧
            messages o.trace = apdu :: List.replicate i [0x00, 0xc0, 0x00, 0x00, 0x00] ∧
            o.state = (reply card apdu s i).2 ∧
            Judged (collected card apdu s i) (reply card apdu s i).1 o.result) := by
  intro o
  by_cases hlong : 65534 < payload.length
  · have ho : o = _ := send_of_long hlong card command s
    rw [ho]
    refine ⟨Nat.zero_le _, fun _ => ⟨rfl, rfl, rfl⟩, fun h => ?_⟩
    omega
  · obtain ⟨apdu, hapdu⟩ := exists_message command (Nat.le_of_not_lt hlong)
    obtain ⟨i, hle, hpieces, hlast⟩ := exists_last (fun i => IsPiece (reply card apdu s i).1) 64
    obtain ⟨result, steps, hreceive, hmessages, hjudged⟩ :=
      receiveAnswer_of_replies hapdu hle hpieces hlast command []
    have ho : o = ⟨result, .noticed (.sending command payload.length) :: steps, (reply card apdu s i).2⟩ := by
      change send card command payload s = _
      rw [send_eq, Action.emit_bind]
      exact congrArg (fun o : Outcome Error Step σ Answer =>
        (⟨o.result, .noticed (.sending command payload.length) :: o.trace, o.state⟩ :
          Outcome Error Step σ Answer)) hreceive
    rw [ho, messages_noticed, hmessages]
    refine ⟨?_, fun h => ?_, fun _ => ⟨apdu, hapdu, i, hle, hpieces, hlast, rfl, rfl, hjudged⟩⟩
    · rw [List.length_cons, List.length_replicate]
      omega
    · omega

/-- A card that gives these answers in this order, whatever it is sent. -/
def playback : Card (Nat → Except String Bytes) := fun _ answers => (answers 0, fun n => answers (n + 1))

theorem reply_playback (answers : Nat → Except String Bytes) (message : Bytes) (n : Nat) :
    (reply playback message answers n).1 = answers n := by
  induction n generalizing answers message with
  | zero => rfl
  | succ n ih => exact ih (fun n => answers (n + 1)) fetch

/-- A card that never comes to an end is cut off after 65 answers. -/
theorem send_of_endless_replies :
    let o := send playback 0x09 [] fun _ => .ok [0xaa, 0x61, 0x05]
    1 + ([] : Bytes).length ≤ 65535 ∧ o.result = .error (.cardRefused 0x6105) ∧
      (messages o.trace).length = 65 := by
  intro o
  have hpayload : 1 + ([] : Bytes).length ≤ 65535 := by decide
  obtain ⟨-, -, h⟩ := send_of_replies playback 0x09 [] fun _ => .ok [0xaa, 0x61, 0x05]
  obtain ⟨apdu, -, i, hle, -, hlast, hmessages, -, hjudged⟩ := h hpayload
  rw [reply_playback] at hlast hjudged
  have hi : i = 64 := by
    rcases Nat.lt_or_eq_of_le hle with hlt | heq
    · exact absurd ⟨[0xaa], 0x05, rfl⟩ (hlast hlt)
    · exact heq
  have hpiece : Judged _ (.ok ([0xaa] ++ [0x61, 0x05])) o.result := hjudged
  refine ⟨hpayload, hpiece.of_piece, ?_⟩
  change (messages (send playback 0x09 [] _).trace).length = 65
  rw [hmessages, hi]
  rfl

end CtapEnroll.Link
