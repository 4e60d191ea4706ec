import CtapEnroll.Cbor.Fault
/-!
# Reading bytes with a position

A reader takes bytes off the front of its input and knows how many went before. What it reads is
the front of the input and the rest is left: `bytes_append`, and for items in a row
`times_flatMap`.
-/

namespace CtapEnroll.Cbor

/-- The bytes still to be read, and the number of bytes before them. -/
structure Input where
  offset : Nat
  rest : Bytes
  deriving DecidableEq, Repr

abbrev Reader := StateT Input (Except Fault)

namespace Reader

def position : Reader Nat := fun i => .ok (i.offset, i)

def peekAll : Reader Bytes := fun i => .ok (i.rest, i)

def bytes (n : Nat) : Reader Bytes := fun i =>
  let front := i.rest.take n
  if front.length = n then .ok (front, ⟨i.offset + n, i.rest.drop n⟩) else .error .endOfInput

def byte : Reader UInt8
  | ⟨offset, b :: rest⟩ => .ok (b, ⟨offset + 1, rest⟩)
  | ⟨_, []⟩ => .error .endOfInput

def number (width : Nat) : Reader Nat := Bytes.toNat <$> bytes width

/-- What `n` runs of a reader yield. -/
def times (read : Reader α) : (n : Nat) → (done : List α) → Reader (List α)
  | 0, done => pure done.reverse
  | n + 1, done => do
    let a ← read
    times read n (a :: done)

/-! ## Runs that succeed -/

theorem bind_ok {x : Reader α} {f : α → Reader β} {i j : Input} {a : α} (h : x i = .ok (a, j)) :
    (x >>= f) i = f a j := by
  simp [bind, StateT.bind, h, Except.bind]

theorem map_ok {x : Reader α} {f : α → β} {i j : Input} {a : α} (h : x i = .ok (a, j)) :
    (f <$> x) i = .ok (f a, j) := by
  simp [Functor.map, StateT.map, h, bind, Except.bind, pure, Except.pure]

/-- Two readings in a row that make a pair are the one bound to the other. -/
theorem pair_eq_bind (x : Reader α) (y : Reader β) :
    (Prod.mk <$> x <*> y) = x >>= fun a => Prod.mk a <$> y := by
  simp only [seq_eq_bind_map, map_eq_pure_bind, bind_assoc, pure_bind]

theorem seq_ok {x : Reader α} {y : Reader β} {i j k : Input} {a : α} {b : β} (hx : x i = .ok (a, j))
    (hy : y j = .ok (b, k)) : (Prod.mk <$> x <*> y) i = .ok ((a, b), k) := by
  rw [pair_eq_bind, bind_ok hx, map_ok hy]

theorem of_bind_ok {x : Reader α} {f : α → Reader β} {i k : Input} {b : β}
    (h : (x >>= f) i = .ok (b, k)) : ∃ a j, x i = .ok (a, j) ∧ f a j = .ok (b, k) := by
  simp only [bind, StateT.bind, Except.bind] at h
  cases hx : x i with
  | error e => rw [hx] at h; cases h
  | ok r => exact ⟨r.1, r.2, rfl, by rwa [hx] at h⟩

theorem of_map_ok {x : Reader α} {f : α → β} {i j : Input} {b : β} (h : (f <$> x) i = .ok (b, j)) :
    ∃ a, x i = .ok (a, j) ∧ b = f a := by
  rw [← bind_pure_comp] at h
  obtain ⟨a, k, hx, hb⟩ := of_bind_ok h
  cases hb
  exact ⟨a, hx, rfl⟩

theorem of_liftM_ok {r : Except Fault α} {i j : Input} {a : α} (h : (liftM r : Reader α) i = .ok (a, j)) :
    r = .ok a ∧ j = i := by
  cases r with
  | error fault => cases h
  | ok b =>
    cases h
    exact ⟨rfl, rfl⟩

theorem bytes_append (offset : Nat) (front rest : Bytes) :
    bytes front.length ⟨offset, front ++ rest⟩ = .ok (front, ⟨offset + front.length, rest⟩) := by
  simp [bytes]

theorem bytes_of_short {n offset : Nat} {rest : Bytes} (h : rest.length < n) :
    bytes n ⟨offset, rest⟩ = .error .endOfInput := by
  have : ¬ (rest.take n).length = n := by rw [List.length_take]; omega
  rw [bytes, if_neg this]

theorem le_of_bytes {n : Nat} {i j : Input} {b : Bytes} (h : bytes n i = .ok (b, j)) : n ≤ i.rest.length := by
  refine Nat.le_of_not_lt fun hshort => ?_
  obtain ⟨offset, rest⟩ := i
  rw [bytes_of_short hshort] at h
  cases h

theorem length_of_bytes {n : Nat} {i j : Input} {b : Bytes} (h : bytes n i = .ok (b, j)) :
    b.length = n := by
  unfold bytes at h
  dsimp only at h
  split at h
  · cases h
    assumption
  · cases h

theorem number_bytes (offset : Nat) (b rest : Bytes) :
    number b.length ⟨offset, b ++ rest⟩ = .ok (Bytes.toNat b, ⟨offset + b.length, rest⟩) :=
  map_ok (bytes_append offset b rest)

theorem number_bigEndian {width n : Nat} (h : n < 1 <<< (8 * width)) (offset : Nat) (rest : Bytes) :
    number width ⟨offset, Bytes.bigEndian width n ++ rest⟩ = .ok (n, ⟨offset + width, rest⟩) := by
  have hb := number_bytes offset (Bytes.bigEndian width n) rest
  rwa [Bytes.length_bigEndian, Bytes.toNat_bigEndian width n h] at hb

/-- Reading as many items as were written, one behind the other. -/
theorem times_flatMap {read : Reader α} {write : α → Bytes} (items : List α)
    (h : ∀ item ∈ items, ∀ offset rest,
      read ⟨offset, write item ++ rest⟩ = .ok (item, ⟨offset + (write item).length, rest⟩)) :
    ∀ (done : List α) (offset : Nat) (rest : Bytes),
      times read items.length done ⟨offset, items.flatMap write ++ rest⟩ =
        .ok (done.reverse ++ items, ⟨offset + (items.flatMap write).length, rest⟩) := by
  induction items with
  | nil =>
    intro done offset rest
    rw [List.append_nil]
    rfl
  | cons item items ih =>
    intro done offset rest
    -- Behind the first item, the others are read with it on top of what was read before.
    rw [List.length_cons, List.flatMap_cons, List.append_assoc, times,
      bind_ok (h item List.mem_cons_self offset _),
      ih (fun a ha => h a (List.mem_cons_of_mem _ ha)), List.reverse_cons, List.append_assoc,
      List.singleton_append, List.length_append, Nat.add_assoc]

end Reader

namespace Head

/-- Reads an argument after its first byte: the low five bits of that byte hold it themselves, or
tell in how many bytes it follows. -/
def argument (low : Nat) : Reader Nat :=
  if low = 24 then Reader.number 1
  else if low = 25 then Reader.number 2
  else if low = 26 then Reader.number 4
  else if low = 27 then Reader.number 8
  else pure low

/-- The head with a major type and an argument, behind a first byte at `start` with these low bits.
The low bits 31 stand for an absent length, which strings, arrays and maps may have, and for the
break. -/
def ofArgument (start major low argument : Nat) : Reader Head :=
  match major, (if low = 31 then none else some argument) with
  | 0, some n => pure (unsigned (.ofNat n))
  | 1, some n => pure (negative (.ofNat n))
  | 2, length => pure (bytes length)
  | 3, length => pure (text length)
  | 4, length => pure (array length)
  | 5, length => pure (map length)
  | 6, some n => pure (tag (.ofNat n))
  | 7, none => pure stop
  | 7, some n =>
    if low = 25 then pure (float (FloatFormat.half.widen n))
    else if low = 26 then pure (float (FloatFormat.single.widen n))
    else if low = 27 then pure (float (.ofNat n))
    else pure (simple (.ofNat n))
  | _, _ => throw (.malformed start)

/-- Reads a head. The low bits 28, 29 and 30 have no meaning. -/
def read : Reader Head := do
  let start ← Reader.position
  let initial ← Reader.byte
  let low := initial.toNat % 32
  if 28 ≤ low ∧ low ≤ 30 then throw (.malformed start)
  let argument ← argument low
  ofArgument start (initial.toNat / 32) low argument

end Head

end CtapEnroll.Cbor
