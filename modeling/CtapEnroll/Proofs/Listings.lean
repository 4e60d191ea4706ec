import CtapEnroll.Proofs.Answers
import CtapEnroll.Proofs.Calls
import CtapEnroll.Proofs.Readings
import CtapEnroll.Proofs.Link
import CtapEnroll.Proofs.SortedMaps
/-!
# Listings of a store

An authenticator tells its templates in an order of its choice, in as many pieces as it likes. The client
puts them into a map, and `templates_eq_store` says that this is the map that the authenticator holds.
-/

namespace CtapEnroll

open Cbor (Value)

namespace Listing

/-! ## What an authenticator tells -/

/-- A template as it is told: its identifier under 1, and under 2 the name, if it has one. Of two fields,
either may come first. -/
inductive IsEntry : TemplateId × Option String → Value → Prop
  | unnamed (id : TemplateId) : IsEntry (id, none) (.map [(.unsigned 1, .bytes id)])
  | named (id : TemplateId) (name : String) :
    IsEntry (id, some name) (.map [(.unsigned 1, .bytes id), (.unsigned 2, .text name)])
  | nameFirst (id : TemplateId) (name : String) :
    IsEntry (id, some name) (.map [(.unsigned 2, .text name), (.unsigned 1, .bytes id)])

/-- The whole response of an authenticator that holds these templates: success, and one entry for each of
them in some order. Where there are none, it may also refuse to list them. -/
inductive Tells (store : Listing) : Bytes → Prop
  | listed {order : List (TemplateId × Option String)} {items : List Value}
      (horder : order.Perm store.entries) (hitems : List.Forall₂ IsEntry order items) :
      Tells store (0x00 :: (Value.map [(.unsigned 7, .array items)]).encode)
  | refused (hempty : store = .empty) (body : Bytes) : Tells store (0x2c :: body)

/-- The number of templates, and the length of each identifier and name, fit a head. -/
structure Sized (store : Listing) : Prop where
  size : store.size < 2 ^ 64
  id : ∀ e ∈ store.entries, e.1.length < 2 ^ 64
  name : ∀ e ∈ store.entries, ∀ name, e.2 = some name → (Bytes.ofText name).length < 2 ^ 64

/-! ## What the client reads -/

theorem entryOfValue_of_isEntry {e : TemplateId × Option String} {v : Value} (h : IsEntry e v) :
    entryOfValue v = .ok e := by
  cases h <;> rfl

theorem readable_of_isEntry {e : TemplateId × Option String} {v : Value} (h : IsEntry e v)
    (hid : e.1.length < 2 ^ 64) (hname : ∀ name, e.2 = some name → (Bytes.ofText name).length < 2 ^ 64)
    (budget : Nat) : v.Readable (budget + 1) := by
  cases h with
  | unnamed id =>
    refine .map (by simp) ?_ ?_
    · simp [Value.Readable.unsigned]
    · simp [Value.Readable.bytes hid]
  | named id name =>
    refine .map (by simp) ?_ ?_
    · simp [Value.Readable.unsigned]
    · simp [Value.Readable.bytes hid, Value.Readable.text (hname name rfl)]
  | nameFirst id name =>
    refine .map (by simp) ?_ ?_
    · simp [Value.Readable.unsigned]
    · simp [Value.Readable.bytes hid, Value.Readable.text (hname name rfl)]

variable {store : Listing} {order : List (TemplateId × Option String)} {items : List Value}

theorem readable_of_entries (hsized : store.Sized) (horder : order.Perm store.entries)
    (hitems : List.Forall₂ IsEntry order items) (budget : Nat) :
    (Value.map [(.unsigned 7, .array items)]).Readable (budget + 3) := by
  have hitem : ∀ item ∈ items, item.Readable (budget + 1) := by
    intro item hi
    obtain ⟨e, he, hentry⟩ := exists_of_mem_forall₂ hitems hi
    have he := horder.mem_iff.1 he
    exact readable_of_isEntry hentry (hsized.id e he) (hsized.name e he) budget
  have hlength : items.length < 2 ^ 64 := by
    rw [← hitems.length_eq, horder.length_eq]
    exact hsized.size
  have harray : (Value.array items).Readable (budget + 2) := .array hlength hitem
  refine .map (by simp) ?_ ?_
  · simp [Value.Readable.unsigned]
  · simp [harray]

/-- Entries make the store that they were told of, in whatever order they come. -/
theorem ofAnswer_of_entries {m : Answer} (hget : m.get? 7 = some (.array items))
    (horder : order.Perm store.entries) (hitems : List.Forall₂ IsEntry order items) :
    ofAnswer m = .ok store := by
  have hentries : List.Forall₂ (fun e v => entryOfValue v = .ok e) order items :=
    hitems.imp fun _ _ => entryOfValue_of_isEntry
  exact ofAnswer_eq_ok_iff.2 ⟨items, order, hget, hentries, SortedMap.ofList_of_perm horder⟩

theorem readListing_answerOf {whole : Bytes} (hsized : store.Sized) (h : store.Tells whole) :
    Client.readListing (Link.answerOf whole) = .ok store := by
  cases h with
  | refused hempty body =>
    rw [hempty]
    rfl
  | @listed order items horder hitems =>
    let m : Answer := SortedMap.empty.insert 7 (.array items)
    have hvalue : m.toValue = .map [(.unsigned 7, .array items)] := rfl
    have hkeys : ∀ e ∈ m.entries, Value.IsPlain e.1 := by
      intro e he
      obtain rfl := List.mem_singleton.1 he
      exact (show Value.IsPlain 7 by decide)
    have hdecode := Answer.decode_of_readable hkeys (readable_of_entries hsized horder hitems _) []
    rw [List.append_nil, Answer.encode, hvalue] at hdecode
    rw [Link.answerOf, if_pos (by decide), hdecode]
    change (ofAnswer m).mapError Error.ofWire = _
    rw [ofAnswer_of_entries rfl horder hitems]
    rfl

end Listing

/-! ## Listing the templates -/

namespace Client

/-- The client finds the store as it is: every template is there, with its name if it has one, and no
other. It needs a signature, with which the request fits a card message, and a card that then tells the
store in at most 65 pieces. -/
theorem templates_eq_store {σ : Type} {l : Link σ} {c : Client Link.Step σ} (hc : c.session = l.session)
    {store : Listing} (hsized : store.Sized) {cut : Link.Cutting} (hrounds : cut.rounds ≤ 64)
    (hwhole : store.Tells cut.whole) {tag apdu : Bytes} {s s' t : σ}
    (hsign : c.signer.sign c.token (transcript .listTemplates none) s = (.ok tag, s'))
    (hmessage : (Link.message l.command.code (c.signedRequest .listTemplates none tag).encode).encode =
      .ok apdu)
    (hanswers : Link.Answers l.card s' (cut.exchanges apdu) t) :
    (c.templates s).result = .ok store ∧ (c.templates s).state = t := by
  -- What the link makes of the request is what the session does, and so what the call comes to.
  obtain ⟨steps, hsend, -⟩ := Link.send_of_cutting hmessage hrounds hanswers
  have hexchange : c.session.exchange (c.signedRequest .listTemplates none tag) s' =
      ⟨Link.answerOf cut.whole, steps, t⟩ := by
    rw [hc]
    exact hsend
  obtain ⟨hresult, hstate⟩ := callSigned_run hsign
  rw [hexchange] at hresult hstate
  obtain ⟨hread, hafter⟩ :=
    conclude_run (Action.attempt (c.callSigned .listTemplates none)) readListing .listed s
  rw [templates, hread, hafter]
  refine ⟨?_, hstate⟩
  change readListing (c.callSigned .listTemplates none s).result = _
  rw [hresult]
  exact Listing.readListing_answerOf hsized hwhole

/-- A template with an empty identifier and one with a name, told in the other order and in three pieces;
and a refusal where there is none. -/
theorem templates_eq_store_of_pieces :
    let l : Link (List Bytes) := ⟨Link.scripted, .preview, .unknown⟩
    let c : Client Link.Step (List Bytes) :=
      ⟨l.session, ⟨2, fun _ _ s => (.ok [0xaa, 0xbb], s)⟩, ⟨[0x01]⟩, {}⟩
    let store : Listing := (SortedMap.empty.insert [] none).insert [0xf0] (some "Left")
    let cut : Link.Cutting := .piece [0x00, 0xa1, 0x07] 0x0d (.piece [] 0x0d (.last
      [0x82, 0xa2, 0x02, 0x64, 0x4c, 0x65, 0x66, 0x74, 0x01, 0x41, 0xf0, 0xa1, 0x01, 0x40]))
    store.Sized ∧ store.Tells cut.whole ∧
      (c.templates [[0x00, 0xa1, 0x07, 0x61, 0x0d], [0x61, 0x0d], [0x82, 0xa2, 0x02, 0x64, 0x4c, 0x65,
        0x66, 0x74, 0x01, 0x41, 0xf0, 0xa1, 0x01, 0x40, 0x90, 0x00]]).result = .ok store ∧
      (c.templates [[0x2c, 0x90, 0x00]]).result = .ok .empty := by
  intro l c store cut
  have hsized : store.Sized := by
    have hentries : store.entries = [([], none), ([0xf0], some "Left")] := by decide +kernel
    constructor
    · decide +kernel
    · rw [hentries]
      decide
    · rw [hentries]
      decide +kernel
  have hwhole : store.Tells cut.whole := by
    have hbody : cut.whole = 0x00 :: (Value.map [(.unsigned 7, .array [
        .map [(.unsigned 2, .text "Left"), (.unsigned 1, .bytes [0xf0])],
        .map [(.unsigned 1, .bytes [])]])]).encode := by
      decide +kernel
    have horder : [([0xf0], some "Left"), ([], none)].Perm store.entries := by decide +kernel
    rw [hbody]
    exact .listed horder (.cons (.nameFirst _ _) (.cons (.unnamed _) .nil))
  have hlength : (c.signedRequest .listTemplates none [0xaa, 0xbb]).encode.length ≤ 65534 := by
    decide +kernel
  obtain ⟨apdu, hmessage⟩ := Link.exists_message l.command.code hlength
  have hlisted := templates_eq_store (c := c) rfl hsized (by decide) hwhole rfl hmessage
    (Link.answers_scripted cut apdu [])
  have hempty : Listing.Sized .empty := ⟨by decide, by decide, by decide⟩
  have hrefusal : Listing.Tells .empty (Link.Cutting.last [0x2c]).whole := .refused rfl []
  have hrefused := templates_eq_store (c := c) rfl hempty (by decide) hrefusal rfl hmessage
    (Link.answers_scripted (.last [0x2c]) apdu [])
  exact ⟨hsized, hwhole, hlisted.1, hrefused.1⟩

end Client

end CtapEnroll
