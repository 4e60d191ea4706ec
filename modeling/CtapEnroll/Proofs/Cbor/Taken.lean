import CtapEnroll.Proofs.Cbor.RoundTrip
/-!
# Bytes that readers take

A reader takes bytes off the front of its input and leaves the rest: at least one for a head, at least as many
as it is long for a string, and at least one for each of several items in a row.
-/

namespace CtapEnroll.Cbor

/-! ## Bytes that are taken -/

/-- At least `n` bytes are taken off the front of the one input, and the other is left. -/
structure Took (n : Nat) (i j : Input) : Prop where
  suffix : j.rest <:+ i.rest
  length : n + j.rest.length ≤ i.rest.length

theorem Took.refl (i : Input) : Took 0 i i := ⟨List.suffix_refl _, by omega⟩

theorem Took.trans {m n : Nat} {i j k : Input} (h : Took m i j) (h' : Took n j k) : Took (m + n) i k := by
  refine ⟨h'.suffix.trans h.suffix, ?_⟩
  have := h.length
  have := h'.length
  omega

theorem Took.le {n : Nat} {i j : Input} (h : Took n i j) : n ≤ i.rest.length :=
  Nat.le_trans (Nat.le_add_right n _) h.length

theorem Took.mono {m n : Nat} {i j : Input} (h : Took n i j) (hle : m ≤ n) : Took m i j := by
  refine ⟨h.suffix, ?_⟩
  have := h.length
  omega

namespace Reader

variable {α β : Type}

/-- Whatever the reader reads from the input, `Q` holds of it and of the input that is left. -/
def Ensures (x : Reader α) (i : Input) (Q : α → Input → Prop) : Prop := ∀ a j, x i = .ok (a, j) → Q a j

section Ensures

variable {x : Reader α} {i : Input} {P : α → Input → Prop} {Q : β → Input → Prop}

theorem ensures_run (x : Reader α) (i : Input) : Ensures x i fun a j => x i = .ok (a, j) := fun _ _ h => h

theorem ensures_pure {a : α} (h : P a i) : Ensures (pure a) i P := by
  rintro _ _ ⟨⟩
  exact h

theorem ensures_throw (fault : Fault) : Ensures (throw fault) i P := by
  rintro _ _ ⟨⟩

theorem ensures_liftM {r : Except Fault α} (h : ∀ a, r = .ok a → P a i) : Ensures (liftM r) i P := by
  cases r with
  | error fault => exact ensures_throw fault
  | ok a => exact ensures_pure (h a rfl)

theorem Ensures.mono (h : Ensures x i P) {P' : α → Input → Prop} (hP : ∀ a j, P a j → P' a j) : Ensures x i P' :=
  fun a j hx => hP a j (h a j hx)

theorem Ensures.bind {f : α → Reader β} (hx : Ensures x i P) (hf : ∀ a j, P a j → Ensures (f a) j Q) :
    Ensures (x >>= f) i Q := by
  intro b k h
  obtain ⟨a, j, hfirst, hthen⟩ := of_bind_ok h
  exact hf a j (hx a j hfirst) b k hthen

theorem Ensures.map {f : α → β} (hx : Ensures x i P) (hf : ∀ a j, P a j → Q (f a) j) : Ensures (f <$> x) i Q := by
  rw [← bind_pure_comp]
  exact hx.bind fun a j ha => ensures_pure (hf a j ha)

end Ensures

theorem ensures_bytes (n : Nat) (i : Input) : Ensures (bytes n) i fun b j => Took b.length i j := by
  intro b j h
  unfold bytes at h
  dsimp only at h
  split at h
  · rename_i hn
    cases h
    refine ⟨List.drop_suffix n i.rest, ?_⟩
    rw [hn, List.length_drop]
    rw [List.length_take] at hn
    omega
  · cases h

theorem ensures_number (width : Nat) (i : Input) : Ensures (number width) i fun _ j => Took 0 i j :=
  (ensures_bytes width i).map fun _ _ h => h.mono (Nat.zero_le _)

/-! ### Rows -/

/-- These are read one behind the other. -/
inductive Row (read : Reader α) : List α → Input → Input → Prop
  | nil (i : Input) : Row read [] i i
  | cons {a : α} {l : List α} {i j k : Input} (h : read i = .ok (a, j)) (hl : Row read l j k) :
    Row read (a :: l) i k

/-- Where each of `n` readings in a row starts, up to the first one that fails. -/
def starts (read : Reader α) : (n : Nat) → Input → List Input
  | 0, _ => []
  | n + 1, i => i ::
    match read i with
    | .ok (_, j) => starts read n j
    | .error _ => []

section Row

variable {read : Reader α} {l : List α} {i j k : Input}

theorem row_of_times {n : Nat} {done : List α} (h : times read n done i = .ok (l, j)) :
    ∃ new, l = done.reverse ++ new ∧ new.length = n ∧ Row read new i j := by
  induction n generalizing done i with
  | zero =>
    cases h
    exact ⟨[], (List.append_nil _).symm, rfl, .nil _⟩
  | succ n ih =>
    obtain ⟨a, k, ha, hrest⟩ := of_bind_ok h
    obtain ⟨new, rfl, hn, hrow⟩ := ih hrest
    refine ⟨a :: new, ?_, congrArg Nat.succ hn, .cons ha hrow⟩
    rw [List.reverse_cons, List.append_assoc, List.singleton_append]

/-- Pairs in a row are twice as many single things in a row. -/
theorem Row.unpair {pairs : List (α × α)} (h : Row (Prod.mk <$> read <*> read) pairs i j) :
    Row read (pairs.flatMap fun pair => [pair.1, pair.2]) i j := by
  induction h with
  | nil i => exact .nil i
  | cons hpair _ ih =>
    rw [pair_eq_bind] at hpair
    obtain ⟨a, k, ha, hrest⟩ := of_bind_ok hpair
    obtain ⟨b, hb, rfl⟩ := of_map_ok hrest
    exact .cons ha (.cons hb ih)

theorem Row.took (hread : ∀ i, Ensures read i fun _ j => Took 1 i j) (h : Row read l i j) : Took l.length i j := by
  induction h with
  | nil i => exact .refl i
  | cons ha _ ih =>
    rw [List.length_cons, Nat.add_comm]
    exact (hread _ _ _ ha).trans ih

/-- Each thing in a row is read where a reading of the row starts. -/
theorem Row.exists_mem_starts {n : Nat} (h : Row read l i j) (hn : l.length ≤ n) {a : α} (ha : a ∈ l) :
    ∃ k ∈ starts read n i, ∃ k', read k = .ok (a, k') := by
  induction h generalizing n with
  | nil i => cases ha
  | @cons b l i j k hb _ ih =>
    obtain ⟨n, rfl⟩ := Nat.exists_eq_add_of_le' (Nat.le_trans (Nat.le_add_left 1 l.length) hn)
    simp only [starts, hb]
    rcases List.mem_cons.1 ha with rfl | ha
    · exact ⟨i, List.mem_cons_self, j, hb⟩
    · obtain ⟨k, hk, hread⟩ := ih (Nat.le_of_succ_le_succ hn) ha
      exact ⟨k, List.mem_cons_of_mem _ hk, hread⟩

theorem suffix_of_mem_starts {n : Nat} (hread : ∀ i, Ensures read i fun _ j => Took 1 i j)
    (hk : k ∈ starts read n i) : k.rest <:+ i.rest := by
  induction n generalizing i with
  | zero => cases hk
  | succ n ih =>
    rcases List.mem_cons.1 hk with rfl | hk
    · exact List.suffix_refl _
    · cases hi : read i with
      | error fault =>
        rw [hi] at hk
        cases hk
      | ok r =>
        rw [hi] at hk
        exact (ih hk).trans (hread i r.1 r.2 hi).suffix

end Row

/-! ### Pieces -/

/-- Behind the things in `done` some more were read, each in as many bytes as it is large. -/
def Collected (size : α → Nat) (done l : List α) (i j : Input) : Prop :=
  ∃ new, l = done.reverse ++ new ∧ Took (new.map size).sum i j

section Collected

variable {size : α → Nat} {done l : List α} {i j k : Input}

theorem collected_reverse (h : Took 0 i j) : Collected size done done.reverse i j :=
  ⟨[], (List.append_nil _).symm, h⟩

theorem Collected.skip (hi : Took 0 i j) (h : Collected size done l j k) : Collected size done l i k := by
  obtain ⟨new, hl, hnew⟩ := h
  refine ⟨new, hl, ?_⟩
  rw [← Nat.zero_add (new.map size).sum]
  exact hi.trans hnew

theorem Collected.cons {a : α} (hi : Took (size a) i j) (h : Collected size (a :: done) l j k) :
    Collected size done l i k := by
  obtain ⟨new, rfl, hnew⟩ := h
  refine ⟨a :: new, ?_, ?_⟩
  · rw [List.reverse_cons, List.append_assoc, List.singleton_append]
  · rw [List.map_cons, List.sum_cons]
    exact hi.trans hnew

end Collected

end Reader

open Reader (Ensures ensures_run ensures_pure ensures_throw ensures_bytes ensures_number Collected collected_reverse)

/-! ## Heads -/

namespace Head

theorem ensures_argument (low : Nat) (i : Input) : Ensures (argument low) i fun _ j => Took 0 i j := by
  unfold argument
  split_ifs
  · exact ensures_number 1 i
  · exact ensures_number 2 i
  · exact ensures_number 4 i
  · exact ensures_number 8 i
  · exact ensures_pure (.refl i)

/-- The argument makes a head without reading on. -/
theorem ensures_ofArgument (start major low argument : Nat) (i : Input) :
    Ensures (ofArgument start major low argument) i fun _ j => Took 0 i j := by
  unfold ofArgument
  split <;> try split_ifs
  all_goals first | exact ensures_pure (.refl i) | exact ensures_throw _

theorem took_of_read {head : Head} {i j : Input} (h : read i = .ok (head, j)) : Took 1 i j := by
  obtain ⟨offset, b⟩ := i
  cases b with
  | nil => cases h
  | cons first rest =>
    rw [read_eq] at h
    split at h
    · cases h
    · obtain ⟨n, k, hargument, hhead⟩ := Reader.of_bind_ok h
      have hfirst : Took 1 ⟨offset, first :: rest⟩ ⟨offset + 1, rest⟩ :=
        ⟨List.suffix_cons first rest, by simp [Nat.add_comm]⟩
      exact hfirst.trans ((ensures_argument _ _ _ _ hargument).trans (ensures_ofArgument _ _ _ _ _ _ _ hhead))

end Head

/-! ## Strings -/

/-- A text is written as the bytes that it was read from. -/
theorem ofText_of_text? {b : Bytes} {s : String} (h : Bytes.text? b = some s) : Bytes.ofText s = b := by
  unfold Bytes.text? String.fromUTF8? at h
  split at h
  · cases h
    unfold Bytes.ofText String.fromUTF8
    rw [List.data_toByteArray]
  · cases h

theorem Text.ensures_read (start n : Nat) (i : Input) :
    Ensures (read start n) i fun s j => Took (Bytes.ofText s).length i j := by
  unfold read
  refine (ensures_run Reader.peekAll i).bind fun available k hpeek => ?_
  cases hpeek
  split
  · rintro _ _ ⟨⟩
  · refine (ensures_bytes n i).bind fun b j hb => ?_
    split
    · rename_i s hs
      rw [← ofText_of_text? hs] at hb
      exact ensures_pure hb
    · exact ensures_throw _

theorem ensures_pieces {α : Type} {size : α → Nat} {length? : Head → Option (Option Nat)}
    {read : (start n : Nat) → Reader α} (hread : ∀ start n i, Ensures (read start n) i fun a j => Took (size a) i j)
    (rounds depth : Nat) (done : List α) (i : Input) : Ensures (pieces length? read rounds depth done) i fun l j =>
      Collected size done l i j := by
  induction rounds generalizing depth done i with
  | zero => exact ensures_throw _
  | succ rounds ih =>
    unfold pieces
    refine (ensures_run Reader.position i).bind fun start k hstart => ?_
    cases hstart
    refine (ensures_run Head.read i).bind fun head j hhead => ?_
    have hi : Took 0 i j := (Head.took_of_read hhead).mono (Nat.zero_le 1)
    split
    · split
      · exact ensures_pure (collected_reverse hi)
      · exact (ih _ done j).mono fun l k hl => hl.skip hi
    · rename_i n _ _
      refine (hread i.offset n j).bind fun piece j' hpiece => ?_
      exact (ih depth (piece :: done) j').mono fun l k hl => (hl.cons hpiece).skip hi
    · exact (ih (depth + 1) done j).mono fun l k hl => hl.skip hi
    · exact ensures_throw _

theorem ensures_byteString (rounds : Nat) (length : Option Nat) (i : Input) :
    Ensures (byteString rounds length) i fun b j => Took b.length i j := by
  cases length with
  | some n => exact ensures_bytes n i
  | none =>
    refine (ensures_pieces (fun _ n i => ensures_bytes n i) rounds 0 [] i).map ?_
    rintro l j ⟨_, rfl, hl⟩
    rwa [List.length_flatten]

theorem length_ofText_join (l : List String) :
    (Bytes.ofText (String.join l)).length = (l.map fun s => (Bytes.ofText s).length).sum := by
  induction l with
  | nil => rfl
  | cons s l ih =>
    rw [String.join_cons, List.map_cons, List.sum_cons, ← ih]
    simp [Bytes.ofText]

theorem ensures_textString (rounds : Nat) (length : Option Nat) (i : Input) :
    Ensures (textString rounds length) i fun s j => Took (Bytes.ofText s).length i j := by
  cases length with
  | some n =>
    refine (ensures_run Reader.position i).bind fun start k hstart => ?_
    cases hstart
    exact Text.ensures_read _ n i
  | none =>
    refine (ensures_pieces Text.ensures_read rounds 0 [] i).map ?_
    rintro l j ⟨_, rfl, hl⟩
    rwa [length_ofText_join]

end CtapEnroll.Cbor
