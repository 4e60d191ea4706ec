import CtapEnroll.Proofs.Cbor.PrefixFree
/-!
# Encodings that are cut off

A reader that succeeds on the encoding of a value, or on any bytes that agree with it as far as both
go, has taken exactly the encoding: `spans_encode`. So nothing is read where the encoding is cut off,
whatever is made of the whole one: `exists_fault_of_cut`. The value need not be one that is read back, but
what is read is one, but for what it opens.
-/

namespace CtapEnroll.Cbor

namespace Reader

variable {α β : Type}

/-- One of the two byte strings starts with the other. -/
def Agree (b front : Bytes) : Prop := b <+: front ∨ front <+: b

theorem Agree.of_append {b front back : Bytes} (h : Agree b (front ++ back)) : Agree b front := by
  rcases h with h | h
  · exact List.prefix_or_prefix_of_prefix h (List.prefix_append front back)
  · exact .inr ((List.prefix_append front back).trans h)

theorem Agree.of_append_append (front : Bytes) {b back : Bytes} (h : Agree (front ++ b) (front ++ back)) : Agree b back :=
  h.imp (List.prefix_append_right_inj front).1 (List.prefix_append_right_inj front).1

/-- Where it succeeds on input that agrees with `front`, the reader takes `front` off the input, and what it
reads has a property. -/
def Spans (x : Reader α) (front : Bytes) (P : α → Prop) : Prop :=
  ∀ (i j : Input) (a : α), Agree i.rest front → x i = .ok (a, j) → P a ∧ i.rest = front ++ j.rest

section Spans

variable {x : Reader α} {front back : Bytes} {P : α → Prop} {Q : β → Prop}

theorem spans_pure {a : α} (h : P a) : Spans (pure a) [] P := by
  rintro i j _ - ⟨⟩
  exact ⟨h, rfl⟩

theorem spans_throw (fault : Fault) : Spans (throw fault) front P := by
  rintro i j a - ⟨⟩

theorem spans_liftM {r : Except Fault α} (h : ∀ a, r = .ok a → P a) : Spans (liftM r) [] P := by
  cases r with
  | error fault => exact spans_throw fault
  | ok a => exact spans_pure (h a rfl)

theorem Spans.bind {f : α → Reader β} (hx : Spans x front P) (hf : ∀ a, P a → Spans (f a) back Q) :
    Spans (x >>= f) (front ++ back) Q := by
  intro i k b hagree h
  obtain ⟨a, j, hfirst, hthen⟩ := of_bind_ok h
  obtain ⟨ha, hi⟩ := hx i j a hagree.of_append hfirst
  rw [hi] at hagree
  obtain ⟨hb, hj⟩ := hf a ha j k b hagree.of_append_append hthen
  refine ⟨hb, ?_⟩
  rw [hi, hj, List.append_assoc]

theorem Spans.map {f : α → β} (hx : Spans x front P) (hf : ∀ a, P a → Q (f a)) : Spans (f <$> x) front Q := by
  rw [← bind_pure_comp, ← List.append_nil front]
  exact hx.bind fun a ha => spans_pure (hf a ha)

/-- What is read has been read somewhere. -/
theorem Spans.read (hx : Spans x front P) : Spans x front fun a => P a ∧ ∃ i j, x i = .ok (a, j) := by
  intro i j a hagree h
  obtain ⟨ha, hi⟩ := hx i j a hagree h
  exact ⟨⟨ha, i, j, h⟩, hi⟩

theorem Spans.seq {y : Reader β} (hx : Spans x front P) (hy : Spans y back Q) :
    Spans (Prod.mk <$> x <*> y) (front ++ back) fun p => P p.1 ∧ Q p.2 := by
  rw [pair_eq_bind]
  exact hx.bind fun a ha => hy.map fun b hb => ⟨ha, hb⟩

end Spans

/-! ## Bytes and numbers -/

theorem spans_bytes (front : Bytes) : Spans (bytes front.length) front (· = front) := by
  intro i j b hagree h
  have hlength : front.length ≤ i.rest.length := le_of_bytes h
  obtain ⟨rest, hrest⟩ : front <+: i.rest := by
    rcases hagree with hle | hle
    · have hrest : i.rest = front := hle.eq_of_length_le hlength
      exact ⟨[], by rw [List.append_nil, hrest]⟩
    · exact hle
  obtain ⟨offset, b'⟩ := i
  subst hrest
  rw [bytes_append] at h
  cases h
  exact ⟨rfl, rfl⟩

theorem spans_number (front : Bytes) : Spans (number front.length) front (· = Bytes.toNat front) :=
  (spans_bytes front).map fun _ h => congrArg Bytes.toNat h

theorem spans_bigEndian {width n : Nat} (h : n < 1 <<< (8 * width)) :
    Spans (number width) (Bytes.bigEndian width n) (· = n) := by
  have hnumber := spans_number (Bytes.bigEndian width n)
  rwa [Bytes.length_bigEndian, Bytes.toNat_bigEndian width n h] at hnumber

/-- Reading as many items as were written takes all of them. -/
theorem spans_times {read : Reader α} {P : α → Prop} {γ : Type} {write : γ → Bytes} {items : List γ}
    (h : ∀ item ∈ items, Spans read (write item) P) {done : List α} (hdone : ∀ a ∈ done, P a) :
    Spans (times read items.length done) (items.flatMap write) fun l =>
      l.length = done.length + items.length ∧ ∀ a ∈ l, P a := by
  induction items generalizing done with
  | nil => exact spans_pure ⟨List.length_reverse, fun a ha => hdone a (List.mem_reverse.1 ha)⟩
  | cons item items ih =>
    refine (h item List.mem_cons_self).bind fun a ha => ?_
    have hrest := ih (fun other hother => h other (List.mem_cons_of_mem item hother))
      (List.forall_mem_cons.2 ⟨ha, hdone⟩)
    rwa [List.length_cons, Nat.add_right_comm] at hrest

end Reader

open Reader (Spans spans_pure spans_throw spans_liftM spans_bytes spans_number spans_bigEndian spans_times)

/-! ## Heads -/

namespace Head

theorem spans_read {first : UInt8} {back : Bytes} {n : Nat} {head : Head} (major low : Nat)
    (hfirst : first.toNat = 32 * major + low) (hlow : low < 28) (hargument : Spans (argument low) back (· = n))
    (hhead : ∀ start i, ofArgument start major low n i = .ok (head, i)) :
    Spans read (first :: back) (· = head) := by
  rintro ⟨offset, _ | ⟨b, rest⟩⟩ j a hagree h
  · cases h
  · obtain rfl : b = first := by
      rcases hagree with hle | hle
      · exact (List.cons_prefix_cons.1 hle).1
      · exact (List.cons_prefix_cons.1 hle).1.symm
    rw [read_cons major low hfirst hlow] at h
    have hrest : Reader.Agree rest back := Reader.Agree.of_append_append [b] hagree
    obtain ⟨m, k, hread, hof⟩ := Reader.of_bind_ok h
    obtain ⟨rfl, hk⟩ := hargument _ _ _ hrest hread
    rw [hhead] at hof
    cases hof
    exact ⟨rfl, congrArg (b :: ·) hk⟩

theorem spans_write (major : Nat) {n : Nat} (hm : major < 7) (hn : n < 2 ^ 64) :
    Spans read (write major n) (· = ofMajor major n) := by
  rcases write_cases hn with ⟨hlt, -, hwrite⟩ | ⟨low, width, hl, hargument, hlt, -, hwrite⟩
  · rw [hwrite]
    refine spans_read major n (toNat_first hm (by omega)) (by omega) ?_ (ofArgument_ofMajor hm (by omega) · n ·)
    rw [argument_of_lt hlt]
    exact spans_pure rfl
  · rw [hwrite]
    refine spans_read major low (toNat_first hm hl) hl ?_ (ofArgument_ofMajor hm (by omega) · n ·)
    rw [hargument]
    exact spans_bigEndian hlt

theorem spans_writeFloat (bits : UInt64) : Spans read (writeFloat bits) (· = float bits) := by
  unfold writeFloat
  split
  · rename_i short hs
    refine spans_read 7 25 rfl (by omega) (spans_bigEndian (FloatFormat.lt_of_narrow? hs)) ?_
    intro start i
    rw [← FloatFormat.widen_of_narrow? hs]
    rfl
  · split
    · rename_i short hs
      refine spans_read 7 26 rfl (by omega) (spans_bigEndian (FloatFormat.lt_of_narrow? hs)) ?_
      intro start i
      rw [← FloatFormat.widen_of_narrow? hs]
      rfl
    · have hlt : bits.toNat < 1 <<< (8 * 8) := bits.toNat_lt
      refine spans_read 7 27 rfl (by omega) (spans_bigEndian hlt) ?_
      intro start i
      change Except.ok (float (UInt64.ofNat bits.toNat), i) = _
      rw [UInt64.ofNat_toNat]

end Head

/-! ## Values -/

namespace Value

/-- An encoding is a head and a body, and the head is read as that of the value. -/
theorem exists_front {v : Value} (h : v.length < 2 ^ 64) :
    ∃ front, v.encode = front ++ v.body ∧ Spans Head.read front (· = v.head) := by
  cases v with
  | unsigned n =>
    have hread := Head.spans_write 0 (by omega) n.toNat_lt
    rw [show Head.ofMajor 0 n.toNat = (unsigned n).head from congrArg Head.unsigned UInt64.ofNat_toNat] at hread
    exact ⟨_, by rw [encode]; exact (List.append_nil _).symm, hread⟩
  | negative n =>
    have hread := Head.spans_write 1 (by omega) n.toNat_lt
    rw [show Head.ofMajor 1 n.toNat = (negative n).head from congrArg Head.negative UInt64.ofNat_toNat] at hread
    exact ⟨_, by rw [encode]; exact (List.append_nil _).symm, hread⟩
  | bytes content => exact ⟨_, by rw [encode]; rfl, Head.spans_write 2 (by omega) h⟩
  | text content => exact ⟨_, by rw [encode]; rfl, Head.spans_write 3 (by omega) h⟩
  | array items => exact ⟨_, by rw [encode]; rfl, Head.spans_write 4 (by omega) h⟩
  | map pairs => exact ⟨_, by rw [encode]; rfl, Head.spans_write 5 (by omega) h⟩
  | tag number content =>
    have hread := Head.spans_write 6 (by omega) number.toNat_lt
    rw [show Head.ofMajor 6 number.toNat = (tag number content).head from
      congrArg Head.tag UInt64.ofNat_toNat] at hread
    exact ⟨_, by rw [encode]; rfl, hread⟩
  | bool b =>
    refine ⟨[if b then 0xf5 else 0xf4], by rw [encode]; exact (List.append_nil _).symm, ?_⟩
    cases b
    · exact Head.spans_read 7 20 rfl (by omega) (spans_pure rfl) fun _ _ => rfl
    · exact Head.spans_read 7 21 rfl (by omega) (spans_pure rfl) fun _ _ => rfl
  | null =>
    exact ⟨[0xf6], by rw [encode]; exact (List.append_nil _).symm,
      Head.spans_read 7 22 rfl (by omega) (spans_pure rfl) fun _ _ => rfl⟩
  | float bits => exact ⟨_, by rw [encode]; exact (List.append_nil _).symm, Head.spans_writeFloat bits⟩

/-- A value is read head first, and then what its head asks for. -/
theorem spans_head {α : Type} {v : Value} {f : Head → Reader α} {P : α → Prop} (hv : Sized v)
    (h : Spans (f v.head) v.body P) : Spans (Head.read >>= f) v.encode P := by
  obtain ⟨front, hencode, hfront⟩ := exists_front hv.self
  rw [hencode]
  refine hfront.bind fun head hhead => ?_
  rwa [hhead]

/-- Without anything more to open the reader stops, and with it a shorter budget is left for what is inside. -/
theorem spans_enter {α : Type} {rounds budget : Nat} {body : Bytes} {f : (Head → Reader Value) → Reader α}
    {P : α → Prop} (h : ∀ inner, Spans (f (ofHead rounds inner)) body P) :
    Spans (ofHeadWith.enter (insideOf rounds budget) >>= f) body P := by
  cases budget with
  | zero => exact spans_throw .tooDeep
  | succ inner => exact h inner

theorem spans_text (content : String) (rounds : Nat) :
    Spans (textString rounds (some (Bytes.ofText content).length)) (Bytes.ofText content) (· = content) := by
  have hread : ∀ start,
      Spans (Text.read start (Bytes.ofText content).length) (Bytes.ofText content) (· = content) := by
    intro start i j s hagree h
    unfold Text.read at h
    obtain ⟨available, k, hpeek, h⟩ := Reader.of_bind_ok h
    cases hpeek
    split at h
    · cases h
    · obtain ⟨b, k, hbytes, h⟩ := Reader.of_bind_ok h
      obtain ⟨rfl, hrest⟩ := spans_bytes _ _ _ _ hagree hbytes
      rw [Bytes.text?_ofText] at h
      cases h
      exact ⟨rfl, hrest⟩
  intro i j s hagree h
  exact hread _ i j s hagree h

theorem spans_body {v : Value} (hv : Sized v) (rounds budget : Nat) :
    Spans (ofHead rounds budget v.head) v.body IsWritable := by
  -- On the value. What may be opened inside of it is less than for the value itself.
  induction v generalizing budget with
  | unsigned n =>
    rw [ofHead_eq]
    exact spans_pure (throughout_of_isLeaf trivial ⟨hv.self, nofun⟩)
  | negative n =>
    rw [ofHead_eq]
    exact spans_pure (throughout_of_isLeaf trivial ⟨hv.self, nofun⟩)
  | bytes content =>
    rw [ofHead_eq]
    refine (spans_bytes content).map ?_
    rintro _ rfl
    exact throughout_of_isLeaf trivial ⟨hv.self, nofun⟩
  | text content =>
    rw [ofHead_eq]
    refine (spans_text content rounds).map ?_
    rintro _ rfl
    exact throughout_of_isLeaf trivial ⟨hv.self, nofun⟩
  | array items ih =>
    obtain ⟨hlen, hitems⟩ := throughout_array.1 hv
    rw [ofHead_eq]
    refine spans_enter fun inner => ?_
    refine (spans_times (P := IsWritable) (fun item hi => ?_) (List.forall_mem_nil _)).map ?_
    · exact spans_head (hitems item hi) (ih item hi (hitems item hi) inner)
    · rintro others ⟨hcount, hothers⟩
      refine throughout_array.2 ⟨⟨?_, nofun⟩, hothers⟩
      rwa [length, hcount, List.length_nil, Nat.zero_add]
  | map pairs ih =>
    obtain ⟨hlen, hpairs⟩ := throughout_map.1 hv
    rw [ofHead_eq]
    refine spans_enter fun inner => ?_
    refine (spans_times (P := fun pair => IsWritable pair.1 ∧ IsWritable pair.2) (fun pair hp => ?_)
      (List.forall_mem_nil _)).map ?_
    · obtain ⟨hkey, hvalue⟩ := hpairs pair hp
      exact (spans_head hkey ((ih pair hp).1 hkey inner)).seq (spans_head hvalue ((ih pair hp).2 hvalue inner))
    · rintro others ⟨hcount, hothers⟩
      refine throughout_map.2 ⟨⟨?_, nofun⟩, hothers⟩
      rwa [length, hcount, List.length_nil, Nat.zero_add]
  | tag number content ih =>
    have hcontent := (throughout_tag.1 hv).2
    rw [ofHead_eq]
    refine spans_head hcontent ?_
    unfold ofHeadWith.tagged
    split
    · -- Only the head of a byte string makes a number, so its body is what the number is read from.
      rename_i n hn
      obtain ⟨-, hhead, hshort⟩ := of_bignumLength? hn
      cases content with
      | bytes digits =>
        cases hhead
        rw [← List.append_nil (bytes digits).body]
        refine (spans_number digits).bind ?_
        rintro _ rfl
        refine spans_liftM fun v hv => ?_
        obtain ⟨i, hlo, hhi, rfl⟩ := exists_ofInt_of_ofBignum (toNat_lt_of_length_le hshort) hv
        exact isWritable_ofInt hlo hhi
      | _ => cases hhead
    · rename_i hnone
      have hdefinite : content.head ≠ .bytes none := by cases content <;> nofun
      refine spans_enter fun inner => ?_
      refine (ih hcontent inner).read.map ?_
      rintro other ⟨hother, i, j, hread⟩
      refine throughout_tag.2 ⟨⟨Nat.two_pow_pos 64, fun hshort => ?_⟩, hother⟩
      exact absurd hshort (not_isShortBignum_of_ofHead hnone hdefinite hread)
  | bool b =>
    rw [ofHead_eq]
    cases b <;> exact spans_pure (throughout_of_isLeaf trivial ⟨hv.self, nofun⟩)
  | null =>
    rw [ofHead_eq]
    exact spans_pure (throughout_of_isLeaf trivial ⟨hv.self, nofun⟩)
  | float bits =>
    rw [ofHead_eq]
    exact spans_pure (throughout_of_isLeaf trivial ⟨hv.self, nofun⟩)

/-- Whatever is read from the encoding of a value, or from bytes that agree with it, is read from all of it. -/
theorem spans_encode {v : Value} (hv : Sized v) (rounds budget : Nat) :
    Spans (Head.read >>= ofHead rounds budget) v.encode IsWritable :=
  spans_head hv (spans_body hv rounds budget)

/-- What is read from an encoding can be written and read again, even if the value that was encoded cannot. -/
theorem isWritable_of_decode_encode {v w : Value} (hv : Sized v) (h : decode v.encode = .ok w) : IsWritable w := by
  obtain ⟨j, hread⟩ := exists_read_of_decode h
  exact (spans_encode hv _ _ _ _ _ (.inl (List.prefix_refl _)) hread).1

/-- Bytes that the encoding of a value goes on from are no value. -/
theorem exists_fault_of_cut {v : Value} (hv : Sized v) {p : Bytes} (hp : p <+: v.encode) (hcut : p ≠ v.encode) :
    ∃ fault, decode p = .error fault := by
  cases h : read (p.length + 1) ⟨0, p⟩ with
  | error fault =>
    refine ⟨fault, ?_⟩
    rw [decode, h]
    rfl
  | ok r =>
    obtain ⟨-, hspan⟩ := spans_encode hv _ _ _ _ _ (.inl hp) h
    have hwhole : v.encode <+: p := ⟨r.2.rest, hspan.symm⟩
    exact absurd (hp.eq_of_length_le hwhole.length_le) hcut

end Value

end CtapEnroll.Cbor
