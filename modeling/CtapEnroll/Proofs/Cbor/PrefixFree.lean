import CtapEnroll.Proofs.Cbor.Parts
/-!
# Encodings are prefix free

Bytes that start with the encoding of a value start with the encoding of no other one, so values that
are written one behind the other without separators can be told apart: `separated_encode`. A value is
known from its head up to its body, since a head is read in one way only.
-/

namespace CtapEnroll.Cbor.Value

/-! ## Heads and bodies -/

def head : Value → Head
  | unsigned n => .unsigned n
  | negative n => .negative n
  | bytes content => .bytes (some content.length)
  | text content => .text (some (Bytes.ofText content).length)
  | array items => .array (some items.length)
  | map pairs => .map (some pairs.length)
  | tag number _ => .tag number
  | bool b => .simple (if b then 21 else 20)
  | null => .simple 22
  | float bits => .float bits

/-- What is written behind the head of a value. -/
def body : Value → Bytes
  | bytes content => content
  | text content => Bytes.ofText content
  | array items => items.flatMap encode
  | map pairs => pairs.flatMap fun pair => encode pair.1 ++ encode pair.2
  | tag _ content => encode content
  | _ => []

theorem read_of_encode_eq {v : Value} (major n : Nat) (hm : major < 7) (hn : n < 2 ^ 64)
    (hhead : Head.ofMajor major n = v.head) (hencode : v.encode = Head.write major n ++ v.body)
    (rest : Bytes) :
    ∃ offset, Head.read ⟨0, v.encode ++ rest⟩ = .ok (v.head, ⟨offset, v.body ++ rest⟩) := by
  rw [hencode, List.append_assoc, ← hhead]
  exact ⟨_, Head.read_write hm hn 0 _⟩

/-- The head of a value is read off the front of its encoding, up to its body. -/
theorem read_head {v : Value} (h : v.length < 2 ^ 64) (rest : Bytes) :
    ∃ offset, Head.read ⟨0, v.encode ++ rest⟩ = .ok (v.head, ⟨offset, v.body ++ rest⟩) := by
  cases v with
  | unsigned n =>
    have hhead : Head.ofMajor 0 n.toNat = (unsigned n).head := congrArg Head.unsigned UInt64.ofNat_toNat
    have hencode : (unsigned n).encode = Head.write 0 n.toNat ++ [] := by rw [encode, List.append_nil]
    exact read_of_encode_eq 0 _ (by decide) n.toNat_lt hhead hencode rest
  | negative n =>
    have hhead : Head.ofMajor 1 n.toNat = (negative n).head := congrArg Head.negative UInt64.ofNat_toNat
    have hencode : (negative n).encode = Head.write 1 n.toNat ++ [] := by rw [encode, List.append_nil]
    exact read_of_encode_eq 1 _ (by decide) n.toNat_lt hhead hencode rest
  | bytes content => exact read_of_encode_eq 2 _ (by decide) h rfl (by rw [encode]; rfl) rest
  | text content => exact read_of_encode_eq 3 _ (by decide) h rfl (by rw [encode]; rfl) rest
  | array items => exact read_of_encode_eq 4 _ (by decide) h rfl (by rw [encode]; rfl) rest
  | map pairs => exact read_of_encode_eq 5 _ (by decide) h rfl (by rw [encode]; rfl) rest
  | tag number content =>
    have hhead : Head.ofMajor 6 number.toNat = (tag number content).head := congrArg Head.tag UInt64.ofNat_toNat
    exact read_of_encode_eq 6 _ (by decide) number.toNat_lt hhead (by rw [encode]; rfl) rest
  | bool b =>
    rw [encode]
    cases b <;> exact ⟨_, rfl⟩
  | null =>
    rw [encode]
    exact ⟨_, rfl⟩
  | float bits =>
    rw [encode]
    exact ⟨_, Head.read_writeFloat bits 0 rest⟩

/-- Bytes that start with the encodings of two values show that both have one head, and go on the same
behind it. -/
theorem head_eq_of_encode_append_eq {v w : Value} (hv : v.length < 2 ^ 64) (hw : w.length < 2 ^ 64)
    {rest rest' : Bytes} (h : v.encode ++ rest = w.encode ++ rest') :
    v.head = w.head ∧ v.body ++ rest = w.body ++ rest' := by
  obtain ⟨offset, hread⟩ := read_head hv rest
  obtain ⟨offset', hread'⟩ := read_head hw rest'
  rw [h, hread'] at hread
  injection hread with hread
  injection hread with hhead hinput
  injection hinput with _ hbody
  exact ⟨hhead.symm, hbody.symm⟩

/-! ## Things written one behind the other -/

/-- Two things are told apart by what is written of them, whatever follows. -/
def Separated {α : Type} (write : α → Bytes) (a b : α) : Prop :=
  ∀ rest rest' : Bytes, write a ++ rest = write b ++ rest' → a = b ∧ rest = rest'

theorem Separated.flatMap {α : Type} {write : α → Bytes} {items items' : List α}
    (h : ∀ a ∈ items, ∀ b ∈ items', Separated write a b) (hlen : items.length = items'.length)
    {rest rest' : Bytes} (happend : items.flatMap write ++ rest = items'.flatMap write ++ rest') :
    items = items' ∧ rest = rest' := by
  induction items generalizing items' with
  | nil =>
    cases items' with
    | nil => exact ⟨rfl, happend⟩
    | cons b items' => cases hlen
  | cons a items ih =>
    cases items' with
    | nil => cases hlen
    | cons b items' =>
      rw [List.flatMap_cons, List.flatMap_cons, List.append_assoc, List.append_assoc] at happend
      obtain ⟨rfl, hrest⟩ := h a List.mem_cons_self b List.mem_cons_self _ _ happend
      obtain ⟨rfl, rfl⟩ := ih
        (fun a ha b hb => h a (List.mem_cons_of_mem _ ha) b (List.mem_cons_of_mem _ hb))
        (Nat.succ.inj hlen) hrest
      exact ⟨rfl, rfl⟩

theorem Separated.pair {pair pair' : Value × Value} (hkey : Separated encode pair.1 pair'.1)
    (hvalue : Separated encode pair.2 pair'.2) :
    Separated (fun pair : Value × Value => encode pair.1 ++ encode pair.2) pair pair' := by
  intro rest rest' h
  simp only [List.append_assoc] at h
  obtain ⟨hfst, h⟩ := hkey _ _ h
  obtain ⟨hsnd, h⟩ := hvalue _ _ h
  exact ⟨Prod.ext hfst hsnd, h⟩

/-! ## Values -/

theorem ofText_inj {s t : String} (h : Bytes.ofText s = Bytes.ofText t) : s = t := by
  have hs := Bytes.text?_ofText s
  rw [h, Bytes.text?_ofText] at hs
  exact (Option.some.inj hs).symm

/-- Values are told apart by their encodings if those of one head are told apart by their bodies. -/
theorem Separated.of_body {v w : Value} (hv : Sized v) (hw : Sized w)
    (h : v.head = w.head → ∀ rest rest' : Bytes, v.body ++ rest = w.body ++ rest' →
      v = w ∧ rest = rest') : Separated encode v w := by
  intro rest rest' happend
  obtain ⟨hhead, hbody⟩ := head_eq_of_encode_append_eq hv.self hw.self happend
  exact h hhead rest rest' hbody

theorem eq_of_body {v w : Value} (hv : Sized v) (hw : Sized w) (hhead : v.head = w.head)
    (rest rest' : Bytes) (hbody : v.body ++ rest = w.body ++ rest') : v = w ∧ rest = rest' := by
  -- On the first value. The other one has the same head, so it is of the same kind and length.
  induction v generalizing w rest rest' with
  | unsigned n =>
    cases w with
    | unsigned m =>
      cases hhead
      exact ⟨rfl, hbody⟩
    | _ => cases hhead
  | negative n =>
    cases w with
    | negative m =>
      cases hhead
      exact ⟨rfl, hbody⟩
    | _ => cases hhead
  | bytes content =>
    cases w with
    | bytes content' =>
      injection hhead with hlen
      obtain ⟨rfl, hrest⟩ := List.append_inj hbody (Option.some.inj hlen)
      exact ⟨rfl, hrest⟩
    | _ => cases hhead
  | text content =>
    cases w with
    | text content' =>
      injection hhead with hlen
      obtain ⟨htext, hrest⟩ := List.append_inj hbody (Option.some.inj hlen)
      exact ⟨congrArg text (ofText_inj htext), hrest⟩
    | _ => cases hhead
  | array items ih =>
    cases w with
    | array items' =>
      injection hhead with hlen
      have hv := (throughout_array.1 hv).2
      have hw := (throughout_array.1 hw).2
      have hitems : ∀ a ∈ items, ∀ b ∈ items', Separated encode a b := fun a ha b hb =>
        .of_body (hv a ha) (hw b hb) (ih a ha (hv a ha) (hw b hb))
      obtain ⟨rfl, hrest⟩ := Separated.flatMap hitems (Option.some.inj hlen) hbody
      exact ⟨rfl, hrest⟩
    | _ => cases hhead
  | map pairs ih =>
    cases w with
    | map pairs' =>
      injection hhead with hlen
      have hpairs : ∀ a ∈ pairs, ∀ b ∈ pairs',
          Separated (fun pair : Value × Value => encode pair.1 ++ encode pair.2) a b := by
        intro a ha b hb
        obtain ⟨hkey, hvalue⟩ := (throughout_map.1 hv).2 a ha
        obtain ⟨hkey', hvalue'⟩ := (throughout_map.1 hw).2 b hb
        exact .pair (.of_body hkey hkey' ((ih a ha).1 hkey hkey'))
          (.of_body hvalue hvalue' ((ih a ha).2 hvalue hvalue'))
      obtain ⟨rfl, hrest⟩ := Separated.flatMap hpairs (Option.some.inj hlen) hbody
      exact ⟨rfl, hrest⟩
    | _ => cases hhead
  | tag number content ih =>
    cases w with
    | tag number' content' =>
      cases hhead
      have hv := (throughout_tag.1 hv).2
      have hw := (throughout_tag.1 hw).2
      obtain ⟨rfl, hrest⟩ := Separated.of_body hv hw (ih hv hw) _ _ hbody
      exact ⟨rfl, hrest⟩
    | _ => cases hhead
  | bool b =>
    cases w with
    | bool b' =>
      have hb : b = b' := by cases b <;> cases b' <;> simp [head] at hhead ⊢
      exact ⟨congrArg bool hb, hbody⟩
    | null => cases b <;> cases hhead
    | _ => cases hhead
  | null =>
    cases w with
    | bool b => cases b <;> cases hhead
    | null => exact ⟨rfl, hbody⟩
    | _ => cases hhead
  | float bits =>
    cases w with
    | float bits' =>
      cases hhead
      exact ⟨rfl, hbody⟩
    | _ => cases hhead

/-- The encoding of a value is not the start of any other one's. -/
theorem separated_encode {v w : Value} (hv : Sized v) (hw : Sized w) : Separated encode v w :=
  .of_body hv hw (eq_of_body hv hw)

end CtapEnroll.Cbor.Value
