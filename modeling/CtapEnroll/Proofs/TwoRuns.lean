import CtapEnroll.Proofs.TagFrames
import CtapEnroll.Proofs.Transactions
/-!
# Two runs with different tokens

Two clients that differ in their tokens do the same, as far as a session can answer them both in the same way.
Only the tags of their requests differ, of which a token decides the bytes but not the length.
`Operation.act_alike` says this of one operation, from worlds that look the same.
-/

namespace CtapEnroll

variable {ε ω σ α β : Type}

/-! ## Outcomes that look the same -/

/-- Two outcomes with one result, and with traces and states that correspond. -/
structure Outcome.Alike (T : List ω → List ω → Prop) (R : σ → σ → Prop) (o o' : Outcome ε ω σ α) : Prop where
  result_eq : o.result = o'.result
  trace : T o.trace o'.trace
  state : R o.state o'.state

theorem Outcome.Alike.bind {T : List ω → List ω → Prop} {R : σ → σ → Prop}
    (hT : ∀ {a a' b b'}, T a a' → T b b' → T (a ++ b) (a' ++ b'))
    {x x' : Action ε ω σ α} {f f' : α → Action ε ω σ β} {s s' : σ} (hx : (x s).Alike T R (x' s'))
    (hf : ∀ a s s', R s s' → (f a s).Alike T R (f' a s')) : ((x >>= f) s).Alike T R ((x' >>= f') s') := by
  rcases h : x s with ⟨result, trace, t⟩
  rcases h' : x' s' with ⟨result', trace', t'⟩
  rw [h, h'] at hx
  obtain ⟨rfl, htrace, hstate⟩ := hx
  cases result with
  | error e =>
    rw [Action.bind_of_error h, Action.bind_of_error h']
    exact ⟨rfl, htrace, hstate⟩
  | ok a =>
    rw [Action.bind_of_ok h, Action.bind_of_ok h']
    obtain ⟨hresult, hrest, hafter⟩ := hf a t t' hstate
    exact ⟨hresult, hT htrace hrest, hafter⟩

/-! ## Requests that differ in their tags -/

/-- The requests have all fields in common but the tag, and tags of one length. -/
structure Request.SameButTag (r r' : Request) : Prop where
  fields_eq : { r with authParam := none } = { r' with authParam := none }
  length_eq : r.authParam.map List.length = r'.authParam.map List.length

namespace Request.SameButTag

theorem refl (r : Request) : r.SameButTag r := ⟨rfl, rfl⟩

/-- Requests that differ do so in a tag. -/
theorem eq_or_withTag {r r' : Request} (h : r.SameButTag r') :
    r = r' ∨ ∃ tag tag', tag'.length = tag.length ∧ r.authParam = some tag ∧ r' = r.withTag tag' := by
  obtain ⟨hfields, hlength⟩ := h
  rcases r with ⟨modality, subCommand, params, authProtocol, authParam, getModality⟩
  rcases r' with ⟨modality', subCommand', params', authProtocol', authParam', getModality'⟩
  simp only [Request.mk.injEq, true_and] at hfields
  obtain ⟨rfl, rfl, rfl, rfl, rfl⟩ := hfields
  cases authParam with
  | none =>
    cases authParam' with
    | none => exact .inl rfl
    | some tag' => cases hlength
  | some tag =>
    cases authParam' with
    | none => cases hlength
    | some tag' => exact .inr ⟨tag, tag', (Option.some.inj hlength).symm, rfl, rfl⟩

theorem eq_of_untagged {r r' : Request} (h : r.SameButTag r') (huntagged : r.authParam = none) : r = r' := by
  rcases h.eq_or_withTag with rfl | ⟨tag, tag', -, htag, -⟩
  · rfl
  · rw [huntagged] at htag
    cases htag

end Request.SameButTag

/-! ## Sessions that do not look at tags -/

/-- The session answers requests that differ in their tags in the same way, from states that look the same to
`R`, and leaves such states. `K` is what its own steps for such requests have in common. -/
def Session.Blind (session : Session ω σ) (K : Request → List ω → List ω → Prop) (R : σ → σ → Prop) : Prop :=
  ∀ {r r' : Request} {s s' : σ}, r.SameButTag r' → R s s' →
    (session.exchange r s).Alike (K r) R (session.exchange r' s')

/-- Two exchanges of requests that differ in their tags, with one answer. -/
structure SameExchange (K : Request → List ω → List ω → Prop) (x x' : Request × List ω × Except Error Answer) :
    Prop where
  request : x.1.SameButTag x'.1
  steps : K x.1 x.2.1 x'.2.1
  answer_eq : x.2.2 = x'.2.2

/-- Two traces with the same events, and with exchanges that correspond. -/
structure SameTrace (K : Request → List ω → List ω → Prop) (steps steps' : List (Client.Step ω)) : Prop where
  events_eq : Client.events steps = Client.events steps'
  exchanges : List.Forall₂ (SameExchange K) (Client.exchanges steps) (Client.exchanges steps')

namespace SameTrace

variable {K : Request → List ω → List ω → Prop}

theorem append {a a' b b' : List (Client.Step ω)} (ha : SameTrace K a a') (hb : SameTrace K b b') :
    SameTrace K (a ++ b) (a' ++ b') := by
  constructor
  · rw [Client.events_append, Client.events_append, ha.events_eq, hb.events_eq]
  · rw [Client.exchanges_append, Client.exchanges_append]
    exact List.rel_append ha.exchanges hb.exchanges

theorem reported (events : List Event) :
    SameTrace K (events.map .reported : List (Client.Step ω)) (events.map .reported) := by
  refine ⟨rfl, ?_⟩
  rw [Client.exchanges_reported]
  exact .nil

/-- What is signed, and the signature, are not compared. -/
theorem signed {steps steps' : List (Client.Step ω)} (h : SameTrace K steps steps') (message message' : Bytes)
    (tag tag' : Except Error Bytes) : SameTrace K (.signed message tag :: steps) (.signed message' tag' :: steps') :=
  ⟨h.events_eq, h.exchanges⟩

end SameTrace

/-! ## Clients that differ in their tokens -/

/-- The tokens that a protocol can sign with. -/
def AuthProtocol.Takes : AuthProtocol → Token → Prop
  | one, token => token.bytes ≠ []
  | two, token => token.bytes.length = 32

/-- A token that a protocol takes gives a tag of the protocol's length for every message. -/
theorem AuthProtocol.Takes.sign {p : AuthProtocol} {token : Token} (h : p.Takes token) (message : Bytes) (s : σ) :
    ∃ tag, (p.signer : Signer σ).sign token message s = (.ok tag, s) ∧ tag.length = p.tagLength := by
  have hrefusal : p.refusal? token.bytes = none := by
    cases p with
    | one =>
      have hne : token.bytes ≠ [] := h
      simpa [refusal?] using hne
    | two => exact if_pos h
  obtain ⟨tag, htag⟩ := (p.sign_isOk token.bytes message).2 hrefusal
  refine ⟨tag, ?_, length_tag htag⟩
  simp [AuthProtocol.signer, htag, Except.mapError]

/-- Two clients that sign with different tokens under one protocol, and are the same otherwise. -/
structure Client.Twins (p : AuthProtocol) (c c' : Client ω σ) : Prop where
  session_eq : c.session = c'.session
  signer_eq : c.signer = p.signer
  signer_eq' : c'.signer = p.signer
  config_eq : c.config = c'.config
  takes : p.Takes c.token
  takes' : p.Takes c'.token

section
variable {p : AuthProtocol} {c c' : Client ω σ} {K : Request → List ω → List ω → Prop} {R : σ → σ → Prop}
  {s s' : σ}

theorem Client.Twins.ask_alike (h : Client.Twins p c c') (hblind : c.session.Blind K R) {r r' : Request}
    (hr : r.SameButTag r') (subCommand : Option SubCommand) (authenticated : Bool) (hs : R s s') :
    (c.ask subCommand r authenticated s).Alike (SameTrace K) R (c'.ask subCommand r' authenticated s') := by
  have hreport : ∀ (event : Event) (t t' : σ), R t t' →
      (Client.report event t : Outcome _ _ _ _).Alike (SameTrace K) R (Client.report event t') :=
    fun event t t' ht => ⟨rfl, .reported [event], ht⟩
  have hexchange : ∀ t t', R t t' → (c.exchange r t).Alike (SameTrace K) R (c'.exchange r' t') := by
    intro t t' ht
    have hsame : c'.exchange r' t' = c.exchange r' t' := by simp only [Client.exchange, h.session_eq]
    obtain ⟨hresult, hsteps, hstate⟩ := hblind hr ht
    rw [hsame]
    exact ⟨hresult, ⟨rfl, .cons ⟨hr, hsteps, hresult⟩ .nil⟩, hstate⟩
  unfold Client.ask
  refine .bind SameTrace.append (hreport _ s s' hs) fun _ t t' ht => ?_
  refine .bind SameTrace.append (hexchange t t' ht) fun answer t t' ht => ?_
  refine .bind SameTrace.append (hreport _ t t' ht) fun _ t t' ht => ?_
  exact ⟨rfl, .reported [], ht⟩

theorem Client.Twins.signed_alike (h : Client.Twins p c c') (hblind : c.session.Blind K R)
    (subCommand : SubCommand) (params : Option Params) (hs : R s s') :
    (c.callSigned subCommand params s).Alike (SameTrace K) R (c'.callSigned subCommand params s') := by
  -- The signatures are not the same, so the calls are compared from there on, where each has its request.
  obtain ⟨tag, hsign, hlength⟩ := h.takes.sign (Client.transcript subCommand params) s
  obtain ⟨tag', hsign', hlength'⟩ := h.takes'.sign (Client.transcript subCommand params) s'
  rw [← h.signer_eq] at hsign
  rw [← h.signer_eq'] at hsign'
  have hr : (c.signedRequest subCommand params tag).SameButTag (c'.signedRequest subCommand params tag') := by
    constructor
    · simp only [Client.signedRequest, h.signer_eq, h.signer_eq', Request.signed]
    · change some tag.length = some tag'.length
      rw [hlength, hlength']
  rw [Client.callSigned_of_signed hsign, Client.callSigned_of_signed hsign']
  obtain ⟨hresult, htrace, hstate⟩ := h.ask_alike hblind hr (some subCommand) true hs
  exact ⟨hresult, htrace.signed .., hstate⟩

/-- A query comes to the same for both. -/
theorem Query.ask_alike (h : Client.Twins p c c') (hblind : c.session.Blind K R) (q : Query) (hs : R s s') :
    (q.ask c s).Alike (SameTrace K) R (q.ask c' s') := by
  cases q with
  | plain subCommand request => exact h.ask_alike hblind (.refl request) subCommand false hs
  | signed subCommand params => exact h.signed_alike hblind subCommand params hs

/-- The worlds have the same enrollments, and states that look the same. -/
def SameWorld (R : σ → σ → Prop) (w w' : World σ) : Prop := w.1 = w'.1 ∧ R w.2 w'.2

/-- An operation comes to the same for both, whatever it is. -/
theorem Operation.act_alike (h : Client.Twins p c c') (hblind : c.session.Blind K R) (op : Operation)
    {w w' : World σ} (hw : SameWorld R w w') :
    (op.act c w).Alike (SameTrace K) (SameWorld R) (op.act c' w') := by
  obtain ⟨enrollments, s⟩ := w
  obtain ⟨enrollments', s'⟩ := w'
  obtain ⟨rfl, hs⟩ : enrollments = enrollments' ∧ R s s' := hw
  -- What an operation is made of, and whether it is refused, does not depend on the token.
  cases ht : op.transaction? enrollments with
  | none =>
    rcases act_of_no_transaction (c := c) (w := (enrollments, s)) ht with
      ⟨slot, timeout, rfl, hact⟩ | ⟨slot, rfl, hact⟩
    · rcases act_of_no_transaction (c := c') (w := (enrollments, s')) ht with
        ⟨_, _, ⟨⟩, hact'⟩ | ⟨_, ⟨⟩, -⟩
      have henroll : c.enroll timeout = c'.enroll timeout := by simp only [Client.enroll, h.config_eq]
      rw [hact, hact', henroll]
      exact ⟨rfl, .reported [], rfl, hs⟩
    · rcases act_of_no_transaction (c := c') (w := (enrollments, s')) ht with
        ⟨_, _, ⟨⟩, -⟩ | ⟨_, ⟨⟩, hact'⟩
      rw [hact, hact']
      exact ⟨rfl, .reported [], rfl, hs⟩
  | some t =>
    cases hrefusal : t.refusal? c.config with
    | some e =>
      have hrefusal' : t.refusal? c'.config = some e := h.config_eq ▸ hrefusal
      rw [act_of_failure (w := (enrollments, s)) ht (Transaction.act_of_refusal hrefusal s),
        act_of_failure (w := (enrollments, s')) ht (Transaction.act_of_refusal hrefusal' s')]
      exact ⟨rfl, .reported [], rfl, hs⟩
    | none =>
      have hrefusal' : t.refusal? c'.config = none := h.config_eq ▸ hrefusal
      obtain ⟨hresult, htrace, hstate⟩ := t.query.ask_alike h hblind hs
      rw [act_of_allowed (w := (enrollments, s)) ht hrefusal, act_of_allowed (w := (enrollments, s')) ht hrefusal']
      simp only [hresult]
      exact ⟨rfl, htrace.append (.reported _), rfl, hstate⟩

end

/-! ## Requests without tags -/

/-- The operations that do not sign. -/
inductive Operation.IsPlain : Operation → Prop
  | modality : IsPlain .modality
  | sensor : IsPlain .sensor
  | cancelCurrent : IsPlain .cancelCurrent
  | cancel (slot : Nat) : IsPlain (.cancel slot)

theorem Operation.untagged_of_isPlain (c : Client ω σ) {op : Operation} (h : op.IsPlain) (w : World σ) :
    ∀ x ∈ Client.exchanges (op.act c w).trace, x.1.authParam = none := by
  have hplain : ∀ t, op.transaction? w.1 = some t →
      ∃ subCommand request, t.query = .plain subCommand request ∧ request.authParam = none := by
    intro t ht
    cases h <;> cases ht <;> exact ⟨_, _, rfl, rfl⟩
  have hacted := op.acted c w
  generalize op.act c w = o at hacted ⊢
  cases hacted with
  | enrolled _ =>
    intro x hx
    cases hx
  | refused _ =>
    intro x hx
    cases hx
  | allowed ht _ =>
    obtain ⟨subCommand, request, hquery, huntagged⟩ := hplain _ ht
    have hexchanges := (exchanges_of_asked (Client.asked c subCommand request false w.2)).2
    simp only [Client.exchanges_append, Client.exchanges_reported, List.append_nil, hquery, Query.ask, hexchanges,
      List.mem_singleton]
    rintro x rfl
    exact huntagged

/-- Exchanges without tags are exchanges of the same requests. -/
theorem map_fst_of_untagged {K : Request → List ω → List ω → Prop}
    {xs xs' : List (Request × List ω × Except Error Answer)} (h : List.Forall₂ (SameExchange K) xs xs')
    (huntagged : ∀ x ∈ xs, x.1.authParam = none) : xs.map Prod.fst = xs'.map Prod.fst := by
  induction h with
  | nil => rfl
  | @cons x x' xs xs' hx _ ih =>
    obtain ⟨hhead, htail⟩ := List.forall_mem_cons.1 huntagged
    rw [List.map_cons, List.map_cons, hx.request.eq_of_untagged hhead, ih htail]

/-! ## Runs -/

/-- What came of one operation with each of two tokens. The two differ in the tags of their requests at most, and
not at all where the operation does not sign. -/
structure Performed.SameButTag (K : Request → List ω → List ω → Prop) (op : Operation) (x x' : Performed ω) :
    Prop where
  result_eq : x.result = x'.result
  events_eq : Client.events x.steps = Client.events x'.steps
  exchanges : List.Forall₂ (SameExchange K) (Client.exchanges x.steps) (Client.exchanges x'.steps)
  requests_eq : op.IsPlain → Client.requests x.steps = Client.requests x'.steps
  untagged : op.IsPlain → ∀ exchanged ∈ Client.exchanges x.steps, exchanged.1.authParam = none

/-- Two runs of the same operations, with `A` for each of them. -/
inductive Together (A : Operation → Performed ω → Performed ω → Prop) :
    List Operation → List (Performed ω) → List (Performed ω) → Prop
  | nil : Together A [] [] []
  | cons {op : Operation} {ops : List Operation} {x x' : Performed ω} {run run' : List (Performed ω)}
      (hop : A op x x') (hrest : Together A ops run run') : Together A (op :: ops) (x :: run) (x' :: run')

theorem Together.imp {A B : Operation → Performed ω → Performed ω → Prop} (hAB : ∀ op x x', A op x x' → B op x x')
    {ops : List Operation} {run run' : List (Performed ω)} (h : Together A ops run run') :
    Together B ops run run' := by
  induction h with
  | nil => exact .nil
  | cons hop _ ih => exact .cons (hAB _ _ _ hop) ih

/-- Both clients come through a run in the same way: each operation finds worlds that look the same. -/
theorem Client.Twins.perform_alike {p : AuthProtocol} {c c' : Client ω σ} {K : Request → List ω → List ω → Prop}
    {R : σ → σ → Prop} (h : Client.Twins p c c') (hblind : c.session.Blind K R) (ops : List Operation)
    {w w' : World σ} (hw : SameWorld R w w') :
    Together (Performed.SameButTag K) ops (perform c ops w).1 (perform c' ops w').1 ∧
      SameWorld R (perform c ops w).2 (perform c' ops w').2 := by
  induction ops generalizing w w' with
  | nil => exact ⟨.nil, hw⟩
  | cons op ops ih =>
    obtain ⟨hresult, htrace, hstate⟩ := op.act_alike h hblind hw
    obtain ⟨hrun, hafter⟩ := ih hstate
    have huntagged := fun hplain => op.untagged_of_isPlain c hplain w
    refine ⟨.cons ⟨hresult, htrace.events_eq, htrace.exchanges, ?_, huntagged⟩ hrun, hafter⟩
    intro hplain
    rw [Client.requests_eq, Client.requests_eq]
    exact map_fst_of_untagged htrace.exchanges (huntagged hplain)

end CtapEnroll
