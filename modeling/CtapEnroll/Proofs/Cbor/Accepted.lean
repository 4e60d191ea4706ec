import CtapEnroll.Proofs.Cbor.Parts
import CtapEnroll.Proofs.Cbor.Taken
/-!
# Values that are read

Bytes that a value is read from need not be its encoding: heads may be longer than they have to be, lengths
may be indefinite, and something may follow. But the value itself is one that can be written and read again,
`accepted_of_decode`, unless a bignum tag is read right before a byte string of indefinite length. Such a string
is not read as a number, and is written in the form that is.
-/

namespace CtapEnroll.Cbor

open Reader (Ensures ensures_run ensures_pure ensures_throw ensures_liftM ensures_number Row row_of_times starts
  suffix_of_mem_starts)

/-! ## Where items are read -/

/-- The number of items right inside one with this head, where `rounds` stands for as many as there are up to a
break. -/
def Head.count (rounds : Nat) : Head → Nat
  | array length => length.getD rounds
  | map length => 2 * length.getD rounds
  | tag _ => 1
  | _ => 0

/-- A number that comes in pieces: the head of a bignum tag, and right behind it that of a byte string of
indefinite length. -/
def isPiecedNumber (i : Input) : Bool :=
  match (Prod.mk <$> Head.read <*> Head.read) i with
  | .ok ((.tag number, .bytes none), _) => number = Value.positiveBignum ∨ number = Value.negativeBignum
  | _ => false

theorem isPiecedNumber_of_read {number : UInt64} {i j k : Input} (htag : Head.read i = .ok (.tag number, j))
    (hbytes : Head.read j = .ok (.bytes none, k))
    (hnumber : number = Value.positiveBignum ∨ number = Value.negativeBignum) : isPiecedNumber i = true := by
  rw [isPiecedNumber, Reader.seq_ok htag hbytes]
  exact decide_eq_true hnumber

namespace Value

/-- Where items are read in the course of reading the first one of the input: there, and wherever one stands inside
it. Bytes of a string are not read as items, nor is anything behind the first one. -/
def places (rounds : Nat) : (budget : Nat) → Input → List Input
  | 0, i => [i]
  | budget + 1, i => i ::
    match Head.read i with
    | .ok (head, j) =>
      (starts (Head.read >>= ofHead rounds budget) (head.count rounds) j).flatMap (places rounds budget)
    | .error _ => []

section Places

variable {rounds budget : Nat} {head : Head} {i j k : Input}

theorem mem_places_self (rounds budget : Nat) (i : Input) : i ∈ places rounds budget i := by
  cases budget <;> exact List.mem_cons_self

theorem places_subset (hhead : Head.read i = .ok (head, j))
    (hk : k ∈ starts (Head.read >>= ofHead rounds budget) (head.count rounds) j) :
    places rounds budget k ⊆ places rounds (budget + 1) i := by
  intro p hp
  rw [places, hhead]
  exact List.mem_cons_of_mem _ (List.mem_flatMap.2 ⟨k, hk, hp⟩)

end Places

end Value

/-- Somewhere in the course of decoding the bytes, a number that comes in pieces is read. -/
def HasPiecedNumber (b : Bytes) : Prop :=
  ∃ i ∈ Value.places (b.length + 1) maxOpen ⟨0, b⟩, isPiecedNumber i = true

instance (b : Bytes) : Decidable (HasPiecedNumber b) :=
  inferInstanceAs (Decidable (∃ i ∈ Value.places (b.length + 1) maxOpen ⟨0, b⟩, isPiecedNumber i = true))

-- The same two heads inside a byte string, behind the map, and as an item of it.
example : ¬ HasPiecedNumber [0xa1, 0x04, 0x42, 0xc2, 0x5f] := by decide +kernel
example : ¬ HasPiecedNumber [0xa0, 0xc2, 0x5f] := by decide +kernel
example : HasPiecedNumber [0xa1, 0x01, 0xc2, 0x5f, 0x41, 0x01, 0xff] := by decide +kernel

namespace Value

/-! ## What is known of a value that is read -/

/-- What is known of a value that is read from some bytes, where items are read at these places and no more than
`budget` arrays, maps and tags may be opened: its lengths fit a head if that of the bytes does, and its tagged
numbers are what they are read as if none of them comes in pieces. -/
structure Accepted (budget : Nat) (b : Bytes) (places : List Input) (v : Value) : Prop where
  opens : Opens budget v
  sized : b.length < 2 ^ 64 → Sized v
  settled : (∀ i ∈ places, ¬ isPiecedNumber i = true) → Settled v

section Accepted

variable {budget : Nat} {b b' : Bytes} {ps ps' : List Input}

theorem Accepted.mono {v : Value} (hb : b <:+ b') (hps : ps ⊆ ps') (h : Accepted budget b ps v) :
    Accepted budget b' ps' v where
  opens := h.opens
  sized hlen := h.sized (Nat.lt_of_le_of_lt hb.length_le hlen)
  settled hno := h.settled fun i hi => hno i (hps hi)

theorem accepted_of_isLeaf {v : Value} (hv : v.IsLeaf) (hlen : v.length ≤ b.length) : Accepted budget b ps v where
  opens := .leaf hv
  sized hb := throughout_of_isLeaf hv (Nat.lt_of_le_of_lt hlen hb)
  settled _ := settled_of_isLeaf hv

theorem accepted_array {items : List Value} (hlen : items.length ≤ b.length)
    (h : ∀ item ∈ items, Accepted budget b ps item) : Accepted (budget + 1) b ps (array items) where
  opens := .array fun item hi => (h item hi).opens
  sized hb := throughout_array.2 ⟨Nat.lt_of_le_of_lt hlen hb, fun item hi => (h item hi).sized hb⟩
  settled hno := throughout_array.2 ⟨nofun, fun item hi => (h item hi).settled hno⟩

theorem accepted_map {pairs : List (Value × Value)} (hlen : pairs.length ≤ b.length)
    (h : ∀ pair ∈ pairs, Accepted budget b ps pair.1 ∧ Accepted budget b ps pair.2) :
    Accepted (budget + 1) b ps (map pairs) where
  opens := .map (fun pair hp => (h pair hp).1.opens) fun pair hp => (h pair hp).2.opens
  sized hb := throughout_map.2
    ⟨Nat.lt_of_le_of_lt hlen hb, fun pair hp => ⟨(h pair hp).1.sized hb, (h pair hp).2.sized hb⟩⟩
  settled hno := throughout_map.2 ⟨nofun, fun pair hp => ⟨(h pair hp).1.settled hno, (h pair hp).2.settled hno⟩⟩

/-- Some of the pairs of a map, if they are no more, make up a map that could have been read as well. -/
theorem Accepted.map_of_subset {pairs others : List (Value × Value)} (h : Accepted budget b ps (map pairs))
    (hsub : others ⊆ pairs) (hlen : others.length ≤ pairs.length) : Accepted budget b ps (map others) where
  opens := by
    cases h.opens with
    | leaf hleaf => exact hleaf.elim
    | map hkeys hvalues => exact .map (fun pair hp => hkeys pair (hsub hp)) fun pair hp => hvalues pair (hsub hp)
  sized hb := by
    obtain ⟨hself, hpairs⟩ := throughout_map.1 (h.sized hb)
    exact throughout_map.2 ⟨Nat.lt_of_le_of_lt hlen hself, fun pair hp => hpairs pair (hsub hp)⟩
  settled hno := by
    obtain ⟨-, hpairs⟩ := throughout_map.1 (h.settled hno)
    exact throughout_map.2 ⟨nofun, fun pair hp => hpairs pair (hsub hp)⟩

theorem accepted_tag {number : UInt64} {content : Value} (h : Accepted budget b ps content)
    (hnumber : (∀ i ∈ ps, ¬ isPiecedNumber i = true) → ¬ IsShortBignum number content) :
    Accepted (budget + 1) b ps (tag number content) where
  opens := .tag h.opens
  sized hb := throughout_tag.2 ⟨Nat.two_pow_pos 64, h.sized hb⟩
  settled hno := throughout_tag.2 ⟨fun hshort => absurd hshort (hnumber hno), h.settled hno⟩

theorem accepted_ofInt {i : Int} (hlo : -2 ^ 127 ≤ i) (hhi : i < 2 ^ 128) : Accepted budget b ps (ofInt i) where
  opens := by
    rcases ofInt_cases i with ⟨n, hi⟩ | ⟨n, hi⟩ | ⟨number, content, hi⟩
    · rw [hi]
      exact .leaf trivial
    · rw [hi]
      exact .leaf trivial
    · rw [hi]
      exact .bignum hlo hhi hi
  sized _ := (isWritable_ofInt hlo hhi).sized
  settled _ := (isWritable_ofInt hlo hhi).settled

end Accepted

/-! ## Items in a row -/

theorem row_of_untilStop {α : Type} {read : Head → Reader α} {rounds : Nat} {done l : List α} {i j : Input}
    (h : untilStop read rounds done i = .ok (l, j)) :
    ∃ new k, l = done.reverse ++ new ∧ new.length ≤ rounds ∧ Row (Head.read >>= read) new i k ∧ Took 1 k j := by
  induction rounds generalizing done i with
  | zero => cases h
  | succ rounds ih =>
    obtain ⟨head, k, hhead, h⟩ := Reader.of_bind_ok h
    split at h
    · cases h
      exact ⟨[], i, (List.append_nil _).symm, Nat.zero_le _, .nil i, Head.took_of_read hhead⟩
    · obtain ⟨a, k', ha, h⟩ := Reader.of_bind_ok h
      obtain ⟨new, last, rfl, hlen, hrow, hlast⟩ := ih h
      refine ⟨a :: new, last, ?_, Nat.succ_le_succ hlen, .cons ?_ hrow, hlast⟩
      · rw [List.reverse_cons, List.append_assoc, List.singleton_append]
      · exact (Reader.bind_ok hhead).trans ha

/-- A pair whose first head has been read is a pair of items. -/
theorem bind_pair (read : Head → Reader Value) (item : Reader Value) :
    (Head.read >>= fun head => Prod.mk <$> read head <*> item) = Prod.mk <$> (Head.read >>= read) <*> item := by
  simp only [Reader.pair_eq_bind, bind_assoc]

/-! ## What is read behind a head -/

/-- What is read behind any head is accepted by the bytes and the places from the head on. -/
def ReadsBehind (read : Head → Reader Value) (rounds budget : Nat) : Prop :=
  ∀ head i₀ i, Head.read i₀ = .ok (head, i) → Ensures (read head) i fun v j =>
    Accepted budget i₀.rest (places rounds budget i₀) v ∧ Took 1 i₀ j

theorem ReadsBehind.item {read : Head → Reader Value} {rounds budget : Nat} (h : ReadsBehind read rounds budget)
    (i : Input) : Ensures (Head.read >>= read) i fun v j =>
      Accepted budget i.rest (places rounds budget i) v ∧ Took 1 i j :=
  (ensures_run Head.read i).bind fun head j hhead => h head i j hhead

section Inside

variable {rounds budget : Nat} {head : Head} {i₀ i j : Input}

/-- Items in a row behind a head are accepted by the bytes and the places from the head on, if the head has room for
so many. -/
theorem accepted_of_row (hinside : ReadsBehind (ofHead rounds budget) rounds budget)
    (hhead : Head.read i₀ = .ok (head, i)) {l : List Value} (hrow : Row (Head.read >>= ofHead rounds budget) l i j)
    (hcount : l.length ≤ head.count rounds) :
    (∀ v ∈ l, Accepted budget i₀.rest (places rounds (budget + 1) i₀) v) ∧ Took l.length i j := by
  have hread : ∀ i, Ensures (Head.read >>= ofHead rounds budget) i fun _ j => Took 1 i j :=
    fun i => (hinside.item i).mono fun _ _ h => h.2
  refine ⟨fun v hv => ?_, hrow.took hread⟩
  obtain ⟨k, hk, k', hv⟩ := hrow.exists_mem_starts hcount hv
  have hsuffix := (suffix_of_mem_starts hread hk).trans (Head.took_of_read hhead).suffix
  exact (hinside.item k v k' hv).1.mono hsuffix (places_subset hhead hk)

theorem accepted_array_behind (hinside : ReadsBehind (ofHead rounds budget) rounds budget) {length : Option Nat}
    (hhead : Head.read i₀ = .ok (.array length, i)) {items : List Value} {k : Input}
    (hrow : Row (Head.read >>= ofHead rounds budget) items i k) (hcount : items.length ≤ length.getD rounds)
    (hk : Took 0 k j) : Accepted (budget + 1) i₀.rest (places rounds (budget + 1) i₀) (array items) ∧ Took 1 i₀ j := by
  obtain ⟨hitems, htook⟩ := accepted_of_row hinside hhead hrow hcount
  have hi := Head.took_of_read hhead
  exact ⟨accepted_array (Nat.le_trans htook.le hi.suffix.length_le) hitems,
    (hi.trans (htook.trans hk)).mono (Nat.le_add_right 1 _)⟩

theorem accepted_map_behind (hinside : ReadsBehind (ofHead rounds budget) rounds budget) {length : Option Nat}
    (hhead : Head.read i₀ = .ok (.map length, i)) {pairs : List (Value × Value)} {k : Input}
    (hrow : Row (Prod.mk <$> (Head.read >>= ofHead rounds budget) <*> (Head.read >>= ofHead rounds budget)) pairs i k)
    (hcount : pairs.length ≤ length.getD rounds) (hk : Took 0 k j) :
    Accepted (budget + 1) i₀.rest (places rounds (budget + 1) i₀) (map pairs) ∧ Took 1 i₀ j := by
  have hlen : (pairs.flatMap fun pair => [pair.1, pair.2]).length = 2 * pairs.length := by
    simp [List.length_flatMap, Nat.mul_comm]
  have hroom : (pairs.flatMap fun pair => [pair.1, pair.2]).length ≤ (Head.map length).count rounds := by
    rw [hlen]
    exact Nat.mul_le_mul_left 2 hcount
  obtain ⟨hitems, htook⟩ := accepted_of_row hinside hhead hrow.unpair hroom
  have hi := Head.took_of_read hhead
  have hpairs : ∀ pair ∈ pairs, ∀ v ∈ [pair.1, pair.2], v ∈ pairs.flatMap fun pair => [pair.1, pair.2] :=
    fun pair hp v hv => List.mem_flatMap.2 ⟨pair, hp, hv⟩
  rw [hlen] at htook
  refine ⟨accepted_map ?_ fun pair hp => ?_, (hi.trans (htook.trans hk)).mono (Nat.le_add_right 1 _)⟩
  · have := htook.le
    have := hi.suffix.length_le
    omega
  · exact ⟨hitems _ (hpairs pair hp _ List.mem_cons_self),
      hitems _ (hpairs pair hp _ (List.mem_cons_of_mem _ List.mem_cons_self))⟩

end Inside

theorem ensures_enter (rounds budget : Nat) (i : Input) : Ensures (ofHeadWith.enter (insideOf rounds budget)) i
    fun read j => i = j ∧ ∃ inner, budget = inner + 1 ∧ read = ofHead rounds inner := by
  cases budget with
  | zero => exact ensures_throw .tooDeep
  | succ inner => exact ensures_pure ⟨rfl, inner, rfl, rfl⟩

theorem ensures_tagged {rounds budget : Nat} {number : UInt64}
    (hinside : ∀ inner, budget = inner + 1 → ReadsBehind (ofHead rounds inner) rounds inner) {head : Head}
    {i₀ i j : Input} (htag : Head.read i₀ = .ok (.tag number, i)) (hhead : Head.read i = .ok (head, j)) :
    Ensures (ofHeadWith.tagged (insideOf rounds budget) number head) j fun v k =>
      Accepted budget i₀.rest (places rounds budget i₀) v ∧ Took 1 i₀ k := by
  have hi₀ := Head.took_of_read htag
  have hi : Took 0 i j := (Head.took_of_read hhead).mono (Nat.zero_le 1)
  unfold ofHeadWith.tagged
  split
  · rename_i n hn
    refine (ensures_run (Reader.number n) j).bind fun _ k hnumber => ensures_liftM fun v hv => ?_
    have hk : Took 0 j k := ensures_number n j _ _ hnumber
    obtain ⟨digits, hdigits, rfl⟩ := Reader.of_map_ok hnumber
    have hlen : digits.length ≤ maxBignumLength := by
      rw [Reader.length_of_bytes hdigits]
      exact (of_bignumLength? hn).2.2
    obtain ⟨integer, hlo, hhi, rfl⟩ := exists_ofInt_of_ofBignum (toNat_lt_of_length_le hlen) hv
    exact ⟨accepted_ofInt hlo hhi, hi₀.trans (hi.trans hk)⟩
  · rename_i hnone
    refine (ensures_enter rounds budget j).bind ?_
    rintro _ _ ⟨rfl, inner, rfl, rfl⟩
    refine (ensures_run _ _).map fun content k hcontent => ?_
    obtain ⟨haccepted, hk⟩ := hinside inner rfl head i _ hhead content k hcontent
    have htook : Took 1 i₀ k := (hi₀.trans hk).mono (Nat.le_add_right 1 1)
    have hplaces : places rounds inner i ⊆ places rounds (inner + 1) i₀ := places_subset htag List.mem_cons_self
    refine ⟨accepted_tag (haccepted.mono hi₀.suffix hplaces) fun hno hshort => ?_, htook⟩
    -- A short byte string that the tag makes no number of has the head of one of indefinite length.
    refine not_isShortBignum_of_ofHead hnone ?_ hcontent hshort
    rintro rfl
    cases content with
    | bytes c => exact hno i₀ (mem_places_self _ _ _) (isPiecedNumber_of_read htag hhead hshort.1)
    | _ => exact hshort.elim

/-- A leaf no longer than the bytes behind its head. -/
theorem accepted_behind (v : Value) (hv : v.IsLeaf) {budget : Nat} {ps : List Input} {i₀ i j : Input}
    (hi : Took 1 i₀ i) (hj : Took v.length i j) : Accepted budget i₀.rest ps v ∧ Took 1 i₀ j := by
  have hlen : v.length ≤ i₀.rest.length := Nat.le_trans hj.le hi.suffix.length_le
  exact ⟨accepted_of_isLeaf hv hlen, (hi.trans hj).mono (Nat.le_add_right 1 _)⟩

theorem readsBehind_ofHeadWith {rounds budget : Nat}
    (hinside : ∀ inner, budget = inner + 1 → ReadsBehind (ofHead rounds inner) rounds inner) :
    ReadsBehind (ofHeadWith rounds (insideOf rounds budget)) rounds budget := by
  intro head i₀ i hhead
  have hi := Head.took_of_read hhead
  cases head with
  | unsigned n => exact ensures_pure (accepted_behind (.unsigned n) trivial hi (.refl i))
  | negative n => exact ensures_pure (accepted_behind (.negative n) trivial hi (.refl i))
  | bytes length =>
    exact (ensures_byteString rounds length i).map fun b j hb => accepted_behind (.bytes b) trivial hi hb
  | text length =>
    exact (ensures_textString rounds length i).map fun s j hs => accepted_behind (.text s) trivial hi hs
  | array length =>
    refine (ensures_enter rounds budget i).bind ?_
    rintro _ _ ⟨rfl, inner, rfl, rfl⟩
    cases length with
    | some n =>
      refine (ensures_run _ i).map fun items j hitems => ?_
      obtain ⟨_, rfl, hn, hrow⟩ := row_of_times hitems
      exact accepted_array_behind (hinside inner rfl) hhead hrow (Nat.le_of_eq hn) (.refl j)
    | none =>
      refine (ensures_run _ i).map fun items j hitems => ?_
      obtain ⟨_, k, rfl, hrounds, hrow, hk⟩ := row_of_untilStop hitems
      exact accepted_array_behind (hinside inner rfl) hhead hrow hrounds (hk.mono (Nat.zero_le 1))
  | map length =>
    refine (ensures_enter rounds budget i).bind ?_
    rintro _ _ ⟨rfl, inner, rfl, rfl⟩
    cases length with
    | some n =>
      refine (ensures_run _ i).map fun pairs j hpairs => ?_
      obtain ⟨_, rfl, hn, hrow⟩ := row_of_times hpairs
      exact accepted_map_behind (hinside inner rfl) hhead hrow (Nat.le_of_eq hn) (.refl j)
    | none =>
      refine (ensures_run _ i).map fun pairs j hpairs => ?_
      obtain ⟨_, k, rfl, hrounds, hrow, hk⟩ := row_of_untilStop hpairs
      rw [bind_pair] at hrow
      exact accepted_map_behind (hinside inner rfl) hhead hrow hrounds (hk.mono (Nat.zero_le 1))
  | tag number => exact (ensures_run Head.read i).bind fun inner j hinner => ensures_tagged hinside hhead hinner
  | simple code =>
    obtain ⟨b, hsimple⟩ | hsimple | hsimple := ofHeadWith_simple rounds (insideOf rounds budget) code
    · rw [hsimple]
      exact ensures_pure (accepted_behind (.bool b) trivial hi (.refl i))
    · rw [hsimple]
      exact ensures_pure (accepted_behind .null trivial hi (.refl i))
    · rw [hsimple]
      exact ensures_throw _
  | float bits => exact ensures_pure (accepted_behind (.float bits) trivial hi (.refl i))
  | stop => exact ensures_throw _

theorem readsBehind_ofHead (rounds budget : Nat) : ReadsBehind (ofHead rounds budget) rounds budget := by
  induction budget with
  | zero =>
    rw [ofHead_eq]
    exact readsBehind_ofHeadWith fun inner h => nomatch h
  | succ budget ih =>
    rw [ofHead_eq]
    refine readsBehind_ofHeadWith ?_
    rintro _ ⟨⟩
    exact ih

/-- A value that bytes start with opens no more than may be opened, and can be written and read again unless one
of its numbers comes in pieces. -/
theorem accepted_of_decode {b : Bytes} {v : Value} (h : decode b = .ok v) :
    Accepted maxOpen b (places (b.length + 1) maxOpen ⟨0, b⟩) v := by
  obtain ⟨j, hread⟩ := exists_read_of_decode h
  exact ((readsBehind_ofHead _ _).item _ _ _ hread).1

end Value

end CtapEnroll.Cbor
