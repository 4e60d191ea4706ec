import CtapEnroll.Proofs.AnswerMaps
import CtapEnroll.Proofs.Calls
import CtapEnroll.Proofs.Transactions
/-!
# The format of a listing

An authenticator tells its templates as an array of maps, which may hold anything. `templates_exact` says which
answers are taken for a listing, what listing that is, and that one bad entry spoils all of them.
-/

namespace CtapEnroll

open Cbor (Value)

namespace Listing

/-! ## Entries -/

inductive IsBadEntry : Value → Prop
  | notMap {v : Value} (h : ∀ pairs, v ≠ .map pairs) : IsBadEntry v
  | badKey {pairs : List (Value × Value)} {p : Value × Value} (hp : p ∈ pairs) (h : p.1.int? = none) :
      IsBadEntry (.map pairs)
  | noId {pairs : List (Value × Value)} (h : lastUnder 0x01 pairs = none) : IsBadEntry (.map pairs)
  | badId {pairs : List (Value × Value)} {v : Value} (h : lastUnder 0x01 pairs = some v) (hv : ∀ id, v ≠ .bytes id) :
      IsBadEntry (.map pairs)
  | badName {pairs : List (Value × Value)} {v : Value} (h : lastUnder 0x02 pairs = some v)
      (hv : ∀ name, v ≠ .text name) : IsBadEntry (.map pairs)

/-- The identifier that an entry holds, if it does. -/
def id? : Value → Option TemplateId
  | .map pairs =>
    match lastUnder 0x01 pairs with
    | some (.bytes id) => some id
    | _ => none
  | _ => none

/-- The name that an entry holds, if it does. -/
def name? : Value → Option String
  | .map pairs =>
    match lastUnder 0x02 pairs with
    | some (.text name) => some name
    | _ => none
  | _ => none

theorem entryOfValue_map_eq_ok_iff {pairs : List (Value × Value)} {e : TemplateId × Option String} :
    entryOfValue (.map pairs) = .ok e ↔ (∀ p ∈ pairs, p.1.int? ≠ none) ∧
      lastUnder 0x01 pairs = some (.bytes e.1) ∧ lastUnder 0x02 pairs = e.2.map .text := by
  simp only [entryOfValue, bind_eq_ok_iff, Answer.bytes_eq_ok_iff, Answer.text?_eq_ok_iff]
  constructor
  · rintro ⟨fields, hfields, id, hid, name, hname, ⟨⟩⟩
    obtain ⟨hkeys, hget⟩ := Answer.get?_of_ofValue hfields
    exact ⟨hkeys, (hget _).symm.trans hid, (hget _).symm.trans hname⟩
  · rintro ⟨hkeys, hid, hname⟩
    obtain ⟨fields, hfields⟩ := Answer.exists_ofValue hkeys
    have hget := (Answer.get?_of_ofValue hfields).2
    exact ⟨fields, hfields, _, (hget _).trans hid, _, (hget _).trans hname, rfl⟩

theorem not_isBadEntry_of_ok {v : Value} {e : TemplateId × Option String} (h : entryOfValue v = .ok e) :
    ¬ IsBadEntry v ∧ id? v = some e.1 ∧ name? v = e.2 := by
  cases v with
  | map pairs =>
    obtain ⟨hkeys, hid, hname⟩ := entryOfValue_map_eq_ok_iff.1 h
    refine ⟨?_, ?_, ?_⟩
    · intro hbad
      cases hbad with
      | notMap hno => exact hno _ rfl
      | badKey hp hkey => exact hkeys _ hp hkey
      | noId hno =>
        rw [hno] at hid
        cases hid
      | badId hv hno =>
        rw [hv] at hid
        exact hno _ (Option.some.inj hid)
      | badName hv hno =>
        rw [hv] at hname
        obtain ⟨name, -, hname⟩ := Option.map_eq_some_iff.1 hname.symm
        exact hno _ hname.symm
    · simp only [id?, hid]
    · rw [name?, hname]
      cases e.2 <;> rfl
  | _ => cases h

theorem exists_entryOfValue {v : Value} (h : ¬ IsBadEntry v) : ∃ e, entryOfValue v = .ok e := by
  cases v with
  | map pairs =>
    have hkeys : ∀ p ∈ pairs, p.1.int? ≠ none := fun p hp hkey => h (.badKey hp hkey)
    have hid : ∃ id, lastUnder 0x01 pairs = some (.bytes id) := by
      cases hv : lastUnder 0x01 pairs with
      | none => exact absurd (.noId hv) h
      | some v =>
        by_contra hno
        exact h (.badId hv fun id hid => hno ⟨id, congrArg some hid⟩)
    have hname : ∃ name : Option String, lastUnder 0x02 pairs = name.map .text := by
      cases hv : lastUnder 0x02 pairs with
      | none => exact ⟨none, rfl⟩
      | some v =>
        by_contra hno
        exact h (.badName hv fun name hname => hno ⟨some name, congrArg some hname⟩)
    obtain ⟨id, hid⟩ := hid
    obtain ⟨name, hname⟩ := hname
    exact ⟨(id, name), entryOfValue_map_eq_ok_iff.2 ⟨hkeys, hid, hname⟩⟩
  | _ => exact absurd (.notMap nofun) h

/-! ## Listings -/

/-- What makes an answer no listing. -/
inductive IsBad (m : Answer) : Prop
  | absent (h : m.get? 0x07 = none)
  | notArray {v : Value} (h : m.get? 0x07 = some v) (hv : ∀ items, v ≠ .array items)
  | entry {items : List Value} {v : Value} (h : m.get? 0x07 = some (.array items)) (hv : v ∈ items)
    (hbad : IsBadEntry v)

/-- The listing of entries: each identifier that one of them holds, with the name in the last of those. -/
structure Lists (items : List Value) (listing : Listing) : Prop where
  mem_keys_iff (id : TemplateId) : id ∈ listing.keys ↔ ∃ v ∈ items, id? v = some id
  get?_eq (id : TemplateId) : listing.get? id = (items.reverse.find? fun v => id? v = some id).map name?

theorem lists_of_forall₂ {items : List Value} {entries : List (TemplateId × Option String)}
    (h : List.Forall₂ (fun e v => entryOfValue v = .ok e) entries items) :
    Lists items (SortedMap.ofList entries) := by
  have hget : ∀ id, (SortedMap.ofList entries).get? id =
      (items.reverse.find? fun v => id? v = some id).map name? := by
    intro id
    rw [SortedMap.get?_ofList]
    refine map_find?_of_forall₂ ((List.forall₂_reverse_iff.2 h).imp ?_)
    intro e v hv
    obtain ⟨-, hid, hname⟩ := not_isBadEntry_of_ok hv
    simp [hid, hname]
  refine ⟨?_, hget⟩
  intro id
  simp [SortedMap.mem_keys_iff, hget, ← Option.isSome_iff_exists]

theorem not_isBad_of_ok {m : Answer} {listing : Listing} (h : ofAnswer m = .ok listing) : ¬ IsBad m := by
  obtain ⟨items, entries, hget, hentries, -⟩ := ofAnswer_eq_ok_iff.1 h
  rintro (hno | ⟨hv, hno⟩ | ⟨hitems, hv, hbad⟩)
  · rw [hget] at hno
    cases hno
  · rw [hget] at hv
    exact hno _ (Option.some.inj hv).symm
  · rw [hget] at hitems
    cases hitems
    obtain ⟨e, -, he⟩ := exists_of_mem_forall₂ hentries hv
    exact (not_isBadEntry_of_ok he).1 hbad

theorem ofAnswer_of_isBad {m : Answer} (h : IsBad m) :
    ∃ v, (ofAnswer m).mapError Error.ofWire = .error (.badAnswer v) := by
  cases hread : (ofAnswer m).mapError Error.ofWire with
  | error e =>
    obtain ⟨v⟩ := (failsWith_ofAnswer m).mapError (fun _ h => h.isViolation) e hread
    exact ⟨v, rfl⟩
  | ok listing => exact absurd h (not_isBad_of_ok (mapError_eq_ok_iff.1 hread))

theorem ofAnswer_of_not_isBad {m : Answer} (h : ¬ IsBad m) :
    ∃ items listing, m.get? 0x07 = some (.array items) ∧ ofAnswer m = .ok listing ∧ Lists items listing := by
  have harray : ∃ items, m.get? 0x07 = some (.array items) := by
    cases hv : m.get? 0x07 with
    | none => exact absurd (.absent hv) h
    | some v =>
      by_contra hno
      exact h (.notArray hv fun items hitems => hno ⟨items, congrArg some hitems⟩)
  obtain ⟨items, hget⟩ := harray
  obtain ⟨entries, hentries⟩ := exists_forall₂ fun v hv => exists_entryOfValue fun hbad => h (.entry hget hv hbad)
  exact ⟨items, _, hget, ofAnswer_eq_ok_iff.2 ⟨items, entries, hget, hentries, rfl⟩, lists_of_forall₂ hentries⟩

end Listing

namespace Client

variable {ω σ : Type}

/-! ## What a client makes of it -/

/-- The listings that were reported, in order. -/
def listings (steps : List (Step ω)) : List Listing :=
  (events steps).filterMap fun
    | .listed listing => some listing
    | _ => none

@[simp] theorem listings_append (a b : List (Step ω)) : listings (a ++ b) = listings a ++ listings b := by
  rw [listings, events_append, List.filterMap_append]
  rfl

theorem listings_callSigned (c : Client ω σ) (subCommand : SubCommand) (params : Option Params) (s : σ) :
    listings (c.callSigned subCommand params s).trace = [] := by
  have hcalled := c.called subCommand params s
  generalize c.callSigned subCommand params s = o at hcalled
  cases hcalled with
  | unsigned _ => rfl
  | signed _ hasked => cases hasked <;> rfl

/-- A listing is reported if and only if the operation succeeds, and then it is the one that it returns. -/
theorem templates_run (c : Client ω σ) (s : σ) :
    let asked := (c.callSigned .listTemplates none s).result
    (c.templates s).result = readListing asked ∧
      listings (c.templates s).trace = (readListing asked).toOption.toList := by
  intro asked
  have hsilent := c.listings_callSigned .listTemplates none s
  have hconcluded := concluded (Action.attempt (c.callSigned .listTemplates none)) readListing .listed s
  change Concluded readListing .listed ⟨.ok asked, (c.callSigned .listTemplates none s).trace, _⟩ (c.templates s)
    at hconcluded
  generalize c.templates s = o at hconcluded ⊢
  cases hconcluded with
  | failed h => cases h
  | misread h hread =>
    cases h
    simp only [hread, hsilent, Except.toOption, Option.toList_none, and_self]
  | @read _ listing h hread =>
    cases h
    have hreport : listings [(.reported (.listed listing) : Step ω)] = [listing] := rfl
    simp only [hread, listings_append, hsilent, hreport, Except.toOption, Option.toList_some, List.nil_append,
      and_self]

/-- Where there is a signature, it is the answer that decides what a listing comes to. An answer that has no array
under 7, or has one with a bad entry, is a violation of the protocol, and no listing is reported, however many of
the entries are good. Any other answer is taken for the listing of its entries, and that is reported once. A
refusal with `invalidOption` is taken for an empty listing; any other error is returned as it is. -/
theorem templates_exact {c : Client ω σ} {tag : Bytes} {s s' : σ}
    (hsign : c.signer.sign c.token (transcript .listTemplates none) s = (.ok tag, s')) :
    let asked := (c.session.exchange (c.signedRequest .listTemplates none tag) s').result
    let o := c.templates s
    (∀ m, asked = .ok m → Listing.IsBad m → (∃ v, o.result = .error (.badAnswer v)) ∧ listings o.trace = []) ∧
    (∀ m, asked = .ok m → ¬ Listing.IsBad m → ∃ items listing, m.get? 0x07 = some (.array items) ∧
      Listing.Lists items listing ∧ o.result = .ok listing ∧ listings o.trace = [listing]) ∧
    (asked = .error (.refused .invalidOption) → o.result = .ok .empty ∧ listings o.trace = [.empty]) ∧
    ∀ e, asked = .error e → e ≠ .refused .invalidOption → o.result = .error e ∧ listings o.trace = [] := by
  intro asked o
  obtain ⟨hresult, hlistings⟩ := c.templates_run s
  rw [(callSigned_run hsign).1] at hresult hlistings
  change o.result = readListing asked at hresult
  change listings o.trace = (readListing asked).toOption.toList at hlistings
  refine ⟨?_, ?_, ?_, ?_⟩
  · intro m hm hbad
    obtain ⟨v, hread⟩ := Listing.ofAnswer_of_isBad hbad
    rw [hresult, hlistings, hm, readListing, hread]
    exact ⟨⟨v, rfl⟩, rfl⟩
  · intro m hm hgood
    obtain ⟨items, listing, hget, hread, hlists⟩ := Listing.ofAnswer_of_not_isBad hgood
    refine ⟨items, listing, hget, hlists, ?_⟩
    rw [hresult, hlistings, hm, readListing, hread]
    exact ⟨rfl, rfl⟩
  · intro hrefused
    rw [hresult, hlistings, hrefused]
    exact ⟨rfl, rfl⟩
  · intro e he hne
    rw [hresult, hlistings, he, readListing, if_neg hne]
    exact ⟨rfl, rfl⟩

/-- An entry without a name, which repeats its key, replaces one with a name; a null after both spoils them. Of the
two errors with the code of `invalidOption`, only the one with the name is taken for an empty listing. -/
theorem templates_exact_of_repeated_id :
    let c : Client Unit (Except Error Answer) :=
      ⟨⟨fun _ asked => ⟨asked, [], asked⟩, .unknown⟩, ⟨2, fun _ _ s => (.ok [], s)⟩, ⟨[]⟩, {}⟩
    let named : Value := .map [(.unsigned 1, .bytes [0xf0]), (.unsigned 2, .text "Left")]
    let unnamed : Value := .map [(.unsigned 1, .null), (.unsigned 1, .bytes [0xf0])]
    let told (items : List Value) : Answer := SortedMap.empty.insert 0x07 (.array items)
    (∀ s, c.signer.sign c.token (transcript .listTemplates none) s = (.ok [], s)) ∧
      (∃ listing, (c.templates (.ok (told [named, unnamed]))).result = .ok listing ∧
        listing.get? [0xf0] = some none) ∧
      (∃ v, (c.templates (.ok (told [named, unnamed, .null]))).result = .error (.badAnswer v)) ∧
      (c.templates (.error (.refused .invalidOption))).result = .ok .empty ∧
      (c.templates (.error (.refused (.unknown 0x2c)))).result = .error (.refused (.unknown 0x2c)) := by
  intro c named unnamed told
  have hsign : ∀ s, c.signer.sign c.token (transcript .listTemplates none) s = (.ok [], s) := fun s => rfl
  have hgood : ¬ Listing.IsBad (told [named, unnamed]) :=
    Listing.not_isBad_of_ok (Listing.ofAnswer_eq_ok_iff.2 ⟨_, _, rfl, .cons rfl (.cons rfl .nil), rfl⟩)
  have hnull : Listing.IsBadEntry .null := .notMap nofun
  have hbad : Listing.IsBad (told [named, unnamed, .null]) := .entry rfl (by simp) hnull
  have hunknown := (templates_exact (hsign (.error (.refused (.unknown 0x2c))))).2.2.2 _ rfl nofun
  refine ⟨hsign, ?_, ((templates_exact (hsign _)).1 _ rfl hbad).1, ((templates_exact (hsign _)).2.2.1 rfl).1, hunknown.1⟩
  obtain ⟨items, listing, hitems, hlists, hresult, -⟩ := (templates_exact (hsign _)).2.1 _ rfl hgood
  have hitems : some (Value.array [named, unnamed]) = some (.array items) := hitems
  cases hitems
  exact ⟨listing, hresult, (hlists.get?_eq [0xf0]).trans rfl⟩

end Client

end CtapEnroll
