import CtapEnroll.Proofs.Exchanges
import CtapEnroll.Proofs.TwoRuns
/-!
# The token shows only in the tag

Two runs with different tokens look the same to a session that answers without looking at tags: they have the
same results, enrollments and events, and their requests differ in the bytes of the tag alone. Over a link the
same holds of the messages to the card, in which the tag stands at one place: `token_shows_only_in_tag`.
-/

namespace CtapEnroll

namespace Link

variable {σ α : Type}

/-- Two messages to a card for one request. They are the same, or the message of the request and the one that has
another tag of the same length in its place. -/
inductive Alike (command : UInt8) (r : Request) : Bytes → Bytes → Prop
  | same (message : Bytes) : Alike command r message message
  | tagged {before after tag tag' : Bytes} (htag : r.authParam = some tag) (hlength : tag'.length = tag.length)
      (hframe : ∀ other : Bytes, other.length = tag.length →
        (message command (r.withTag other).encode).encode = .ok (before ++ other ++ after)) :
      Alike command r (before ++ tag ++ after) (before ++ tag' ++ after)

theorem Alike.eq_of_untagged {command : UInt8} {r : Request} {message message' : Bytes}
    (h : Alike command r message message') (huntagged : r.authParam = none) : message = message' := by
  cases h with
  | same _ => rfl
  | tagged htag _ _ =>
    rw [huntagged] at htag
    cases htag

/-- The messages that were given to the card for a request are alike, one by one. -/
def SameMessages (command : UInt8) (r : Request) (steps steps' : List Step) : Prop :=
  List.Forall₂ (Alike command r) (messages steps) (messages steps')

theorem SameMessages.append {command : UInt8} {r : Request} {a a' b b' : List Step}
    (ha : SameMessages command r a a') (hb : SameMessages command r b b') :
    SameMessages command r (a ++ b) (a' ++ b') := by
  rw [SameMessages, messages_append, messages_append]
  exact List.rel_append ha hb

/-- The card answers messages that are alike in the same way, from states that look the same to `R`, and leaves
such states. -/
def Blind (l : Link σ) (R : σ → σ → Prop) : Prop :=
  ∀ {r : Request} {m m' : Bytes} {s s' : σ}, Alike l.command.code r m m' → R s s' →
    (l.card m s).1 = (l.card m' s').1 ∧ R (l.card m s).2 (l.card m' s').2

/-! ## Actions that leave the card alone -/

/-- The action does nothing but end with a result, and take notice of it. -/
def IsStill (x : Action Error Step σ α) : Prop :=
  ∃ result, ∀ s, ∃ steps, x s = ⟨result, steps, s⟩ ∧ messages steps = []

theorem isStill_finish (response : Apdu.Response) : IsStill (collect.finish response : Action Error Step σ Bytes) := by
  unfold collect.finish
  split
  · exact ⟨.ok response.body, fun s => ⟨[], rfl, rfl⟩⟩
  · exact ⟨.error (.cardRefused response.word), fun s => ⟨[.noticed (.cardRefused response.word)], rfl, rfl⟩⟩

theorem isStill_collect_zero (card : Card σ) (response : Apdu.Response) : IsStill (collect card 0 response) := by
  rw [collect]
  split
  · exact ⟨.error (.cardRefused response.word), fun s => ⟨[.noticed (.incomplete maxRounds)], rfl, rfl⟩⟩
  · exact isStill_finish response

theorem isStill_readAnswer (command : UInt8) (b : Bytes) :
    IsStill (readAnswer command b : Action Error Step σ Answer) :=
  ⟨answerOf b, fun s => readAnswer_eq command b s⟩

theorem IsStill.alike {x : Action Error Step σ α} (h : IsStill x) {command : UInt8} {r : Request}
    {R : σ → σ → Prop} {s s' : σ} (hs : R s s') : (x s).Alike (SameMessages command r) R (x s') := by
  obtain ⟨result, h⟩ := h
  obtain ⟨steps, hx, hsteps⟩ := h s
  obtain ⟨steps', hx', hsteps'⟩ := h s'
  rw [hx, hx']
  refine ⟨rfl, ?_, hs⟩
  rw [SameMessages, hsteps, hsteps']
  exact .nil

/-! ## Two exchanges with a card -/

section
variable {l : Link σ} {R : σ → σ → Prop} {r r' : Request} {s s' : σ}

theorem Blind.exchange_alike (hblind : l.Blind R) {m m' : Bytes} (hm : Alike l.command.code r m m')
    (hs : R s s') :
    (exchange l.card m s).Alike (SameMessages l.command.code r) R (exchange l.card m' s') := by
  obtain ⟨hanswer, hstate⟩ := hblind hm hs
  refine ⟨?_, ?_, hstate⟩
  · simp only [exchange, hanswer]
  · exact .cons hm .nil

/-- Once the first answer is the same, both fetch the rest in the same way. -/
theorem Blind.collect_alike (hblind : l.Blind R) (rounds : Nat) (response : Apdu.Response) (hs : R s s') :
    (collect l.card rounds response s).Alike (SameMessages l.command.code r) R
      (collect l.card rounds response s') := by
  induction rounds generalizing response s s' with
  | zero => exact (isStill_collect_zero l.card response).alike hs
  | succ rounds ih =>
    rw [collect]
    split
    · rw [transmit_eq encode_getResponse]
      refine .bind SameMessages.append (hblind.exchange_alike (.same fetch) hs) ?_
      intro next t t' ht
      exact ih ⟨response.body ++ next.body, next.word⟩ ht
    · exact (isStill_finish response).alike hs

/-- The messages of requests that differ in their tags are alike. -/
theorem alike_of_sameButTag (hr : r.SameButTag r') {command : UInt8} {apdu apdu' : Bytes}
    (h : (message command r.encode).encode = .ok apdu) (h' : (message command r'.encode).encode = .ok apdu') :
    Alike command r apdu apdu' := by
  rcases hr.eq_or_withTag with rfl | ⟨tag, tag', hlength, htag, rfl⟩
  · obtain rfl : apdu = apdu' := Except.ok.inj (h.symm.trans h')
    exact .same apdu
  · rw [← Request.withTag_self htag] at h
    obtain ⟨before, after, hframe⟩ := message_frame h
    obtain rfl : apdu = before ++ tag ++ after := Except.ok.inj (h.symm.trans (hframe tag rfl))
    obtain rfl : apdu' = before ++ tag' ++ after := Except.ok.inj (h'.symm.trans (hframe tag' hlength))
    exact .tagged htag hlength hframe

theorem length_encode_of_sameButTag (hr : r.SameButTag r') : r.encode.length = r'.encode.length := by
  rcases hr.eq_or_withTag with rfl | ⟨tag, tag', hlength, htag, rfl⟩
  · rfl
  · obtain ⟨before, after, hframe⟩ := r.exists_frame tag.length
    have htagged : r.encode = before ++ tag ++ after := by rw [← hframe tag rfl, Request.withTag_self htag]
    rw [htagged, hframe tag' hlength]
    simp [hlength]

/-- A link to a card that does not look at tags is a session that does not. -/
theorem Blind.session (hblind : l.Blind R) : l.session.Blind (SameMessages l.command.code) R := by
  intro r r' s s' hr hs
  -- Tags of one length make requests of one length, so either both fit a message or none does.
  have hlength := length_encode_of_sameButTag hr
  change (send l.card l.command.code r.encode s).Alike (SameMessages l.command.code r) R
    (send l.card l.command.code r'.encode s')
  by_cases hlong : 65534 < r.encode.length
  · rw [send_of_long hlong, send_of_long (hlength ▸ hlong), hlength]
    exact ⟨rfl, .nil, hs⟩
  · obtain ⟨apdu, hapdu⟩ := exists_message l.command.code (Nat.le_of_not_lt hlong)
    obtain ⟨apdu', hapdu'⟩ := exists_message l.command.code (hlength ▸ Nat.le_of_not_lt hlong)
    have hm := alike_of_sameButTag hr hapdu hapdu'
    unfold send
    rw [transmit_eq hapdu, transmit_eq hapdu', hlength]
    refine .bind SameMessages.append ⟨rfl, .nil, hs⟩ fun _ t t' ht => ?_
    refine .bind SameMessages.append (hblind.exchange_alike hm ht) fun response t t' ht => ?_
    refine .bind SameMessages.append (hblind.collect_alike maxRounds response ht) fun b t t' ht => ?_
    exact (isStill_readAnswer l.command.code b).alike ht

end

/-! ## Messages without tags -/

theorem SameMessages.eq_of_untagged {command : UInt8} {r : Request} {steps steps' : List Step}
    (h : SameMessages command r steps steps') (huntagged : r.authParam = none) :
    messages steps = messages steps' := by
  have heq : List.Forall₂ (· = ·) (messages steps) (messages steps') :=
    List.Forall₂.imp (fun _ _ hm => hm.eq_of_untagged huntagged) h
  rwa [List.forall₂_eq_eq_eq] at heq

theorem flatMap_messages_of_untagged {command : UInt8} {xs xs' : List (Request × List Step × Except Error Answer)}
    (h : List.Forall₂ (SameExchange (SameMessages command)) xs xs')
    (huntagged : ∀ x ∈ xs, x.1.authParam = none) :
    xs.flatMap (fun x => messages x.2.1) = xs'.flatMap fun x => messages x.2.1 := by
  induction h with
  | nil => rfl
  | cons hx _ ih =>
    obtain ⟨hhead, htail⟩ := List.forall_mem_cons.1 huntagged
    rw [List.flatMap_cons, List.flatMap_cons, hx.steps.eq_of_untagged hhead, ih htail]

end Link

/-- The token shows only in the tag. With any two tokens that a protocol can sign with, the same operations on the
same enrollments, over a session that answers without looking at tags, have the same results, events and
enrollments. Their requests differ at most in the tag, which has one length, and not at all where the operation
does not sign. Over a link to a card that does not look at tags, so do the messages to the card, one by one: the
tag stands at one place in messages of one length. -/
theorem token_shows_only_in_tag (p : AuthProtocol) {token token' : Token} (h : p.Takes token) (h' : p.Takes token')
    (config : Config) (ops : List Operation) (enrollments : Nat → Enrollment) :
    (∀ {ω σ : Type} (session : Session ω σ) {K : Request → List ω → List ω → Prop} {R : σ → σ → Prop},
      session.Blind K R → ∀ {s s' : σ}, R s s' →
        let run := perform ⟨session, p.signer, token, config⟩ ops (enrollments, s)
        let run' := perform ⟨session, p.signer, token', config⟩ ops (enrollments, s')
        Together (Performed.SameButTag K) ops run.1 run'.1 ∧ run.2.1 = run'.2.1) ∧
    ∀ {σ : Type} (l : Link σ) {R : σ → σ → Prop}, l.Blind R → ∀ {s s' : σ}, R s s' →
      let run := perform ⟨l.session, p.signer, token, config⟩ ops (enrollments, s)
      let run' := perform ⟨l.session, p.signer, token', config⟩ ops (enrollments, s')
      Together (fun op x x' => x.SameButTag (Link.SameMessages l.command.code) op x' ∧
        (op.IsPlain → Client.sent x.steps = Client.sent x'.steps)) ops run.1 run'.1 ∧
      run.2.1 = run'.2.1 := by
  constructor
  · intro ω σ session K R hblind s s' hs run run'
    have htwins : Client.Twins p ⟨session, p.signer, token, config⟩ ⟨session, p.signer, token', config⟩ :=
      ⟨rfl, rfl, rfl, rfl, h, h'⟩
    have hw : SameWorld R (enrollments, s) (enrollments, s') := ⟨rfl, hs⟩
    obtain ⟨htogether, henrollments, -⟩ := htwins.perform_alike hblind ops hw
    exact ⟨htogether, henrollments⟩
  · intro σ l R hblind s s' hs run run'
    have htwins : Client.Twins p ⟨l.session, p.signer, token, config⟩ ⟨l.session, p.signer, token', config⟩ :=
      ⟨rfl, rfl, rfl, rfl, h, h'⟩
    have hw : SameWorld R (enrollments, s) (enrollments, s') := ⟨rfl, hs⟩
    obtain ⟨htogether, henrollments, -⟩ := htwins.perform_alike hblind.session ops hw
    refine ⟨htogether.imp ?_, henrollments⟩
    intro op x x' hx
    refine ⟨hx, fun hplain => ?_⟩
    rw [Client.sent_eq, Client.sent_eq]
    exact Link.flatMap_messages_of_untagged hx.exchanges (hx.untagged hplain)

/-- Over a script the next answer does not depend on the request, so two tokens cannot be told apart by it, nor by
a card that answers from a list. -/
theorem token_shows_only_in_tag_of_scripts :
    let script : Session Unit (Nat → Except Error Answer) := ⟨fun _ s => ⟨s 0, [], fun n => s (n + 1)⟩, .unknown⟩
    let l : Link (List Bytes) := ⟨Link.scripted, .standard, .unknown⟩
    let token : Token := ⟨List.replicate 32 0x01⟩
    let token' : Token := ⟨List.replicate 32 0x02⟩
    let ops : List Operation := [.enroll 0 none, .capture 0, .list, .cancel 0]
    let answers : Nat → Except Error Answer := fun _ => .ok (.ofList [(0x04, .bytes [0xf0]),
      (0x05, .unsigned 0), (0x06, .unsigned 2)])
    let replies : List Bytes := [[0x30, 0x90, 0x00], [0x2c, 0x90, 0x00]]
    AuthProtocol.two.Takes token ∧ AuthProtocol.two.Takes token' ∧
      (let run := perform ⟨script, AuthProtocol.two.signer, token, {}⟩ ops (fun _ => .new none, answers)
       let run' := perform ⟨script, AuthProtocol.two.signer, token', {}⟩ ops (fun _ => .new none, answers)
       Together (Performed.SameButTag fun _ _ _ => True) ops run.1 run'.1 ∧ run.2.1 = run'.2.1) ∧
      (let run := perform ⟨l.session, AuthProtocol.two.signer, token, {}⟩ ops (fun _ => .new none, replies)
       let run' := perform ⟨l.session, AuthProtocol.two.signer, token', {}⟩ ops (fun _ => .new none, replies)
       Together (fun op x x' => x.SameButTag (Link.SameMessages 0x09) op x' ∧
         (op.IsPlain → Client.sent x.steps = Client.sent x'.steps)) ops run.1 run'.1 ∧
       run.2.1 = run'.2.1) := by
  intro script l token token' ops answers replies
  have h : AuthProtocol.two.Takes token := List.length_replicate
  have h' : AuthProtocol.two.Takes token' := List.length_replicate
  have hscript : script.Blind (fun _ _ _ => True) Eq := by
    rintro r r' s _ - rfl
    exact ⟨rfl, trivial, rfl⟩
  have hlink : l.Blind Eq := by
    rintro r m m' s _ - rfl
    cases s <;> exact ⟨rfl, rfl⟩
  obtain ⟨hsessions, hlinks⟩ := token_shows_only_in_tag .two h h' {} ops fun _ => .new none
  exact ⟨h, h', hsessions script hscript rfl, hlinks l hlink rfl⟩

end CtapEnroll
