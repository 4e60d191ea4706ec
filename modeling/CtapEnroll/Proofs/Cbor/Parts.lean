import Mathlib.Algebra.Order.BigOperators.Group.List
import Mathlib.Data.List.MinMax
import CtapEnroll.Proofs.Cbor.RoundTrip
/-!
# Values by their parts

Induction on values, and what a value needs to be written and read back, said of it directly: its
lengths fit a head, no bignum tag stands around a short byte string that is not written for the number, and
few enough arrays, maps and tags are open at once. `readable_of_opens` says that these are enough, and
`readable_of_depth` says it of values without tagged numbers.
-/

namespace CtapEnroll.Cbor

theorem Head.shortest_pos (argument : Nat) : 0 < shortest argument := by
  unfold shortest
  split_ifs <;> omega

namespace Value

/-- A property of values holds of all of them if it holds of a value as soon as it holds of what the
value is made of. -/
@[elab_as_elim, induction_eliminator]
theorem byParts {motive : Value → Prop} (unsigned : ∀ n, motive (unsigned n))
    (negative : ∀ n, motive (negative n)) (bytes : ∀ content, motive (bytes content))
    (text : ∀ content, motive (text content))
    (array : ∀ items, (∀ item ∈ items, motive item) → motive (array items))
    (map : ∀ pairs, (∀ pair ∈ pairs, motive pair.1 ∧ motive pair.2) → motive (map pairs))
    (tag : ∀ number content, motive content → motive (tag number content))
    (bool : ∀ b, motive (bool b)) (null : motive null) (float : ∀ bits, motive (float bits)) :
    ∀ v, motive v
  | .unsigned n => unsigned n
  | .negative n => negative n
  | .bytes content => bytes content
  | .text content => text content
  | .array items => array items fun item _ =>
    byParts unsigned negative bytes text array map tag bool null float item
  | .map pairs => map pairs fun pair _ =>
    ⟨byParts unsigned negative bytes text array map tag bool null float pair.1,
      byParts unsigned negative bytes text array map tag bool null float pair.2⟩
  | .tag number content =>
    tag number content (byParts unsigned negative bytes text array map tag bool null float content)
  | .bool b => bool b
  | .null => null
  | .float bits => float bits
termination_by v => sizeOf v
decreasing_by
  · exact sizeOf_item_lt ‹_›
  · exact (sizeOf_pair_lt ‹_›).1
  · exact (sizeOf_pair_lt ‹_›).2
  · exact sizeOf_content_lt number content

/-! ## Properties of all parts -/

/-- A property of a value and of everything that stands in it. -/
def Throughout (P : Value → Prop) : Value → Prop
  | array items => P (array items) ∧ ∀ item ∈ items, Throughout P item
  | map pairs => P (map pairs) ∧ ∀ pair ∈ pairs, Throughout P pair.1 ∧ Throughout P pair.2
  | tag number content => P (tag number content) ∧ Throughout P content
  | v => P v
termination_by v => sizeOf v
decreasing_by
  · exact sizeOf_item_lt ‹_›
  · exact (sizeOf_pair_lt ‹_›).1
  · exact (sizeOf_pair_lt ‹_›).2
  · exact sizeOf_content_lt number content

/-- Nothing stands in the value. -/
def IsLeaf : Value → Prop
  | array _ => False
  | map _ => False
  | tag _ _ => False
  | _ => True

section Throughout

variable {P : Value → Prop}

@[simp] theorem throughout_array {items : List Value} :
    Throughout P (array items) ↔ P (array items) ∧ ∀ item ∈ items, Throughout P item := by
  rw [Throughout]

@[simp] theorem throughout_map {pairs : List (Value × Value)} :
    Throughout P (map pairs) ↔
      P (map pairs) ∧ ∀ pair ∈ pairs, Throughout P pair.1 ∧ Throughout P pair.2 := by
  rw [Throughout]

@[simp] theorem throughout_tag {number : UInt64} {content : Value} :
    Throughout P (tag number content) ↔ P (tag number content) ∧ Throughout P content := by
  rw [Throughout]

theorem throughout_of_isLeaf {v : Value} (hv : v.IsLeaf) (h : P v) : Throughout P v := by
  cases v with
  | array items => exact hv.elim
  | map pairs => exact hv.elim
  | tag number content => exact hv.elim
  | _ => rwa [Throughout] <;> nofun

theorem Throughout.self {v : Value} (h : Throughout P v) : P v := by
  cases v with
  | array items => exact (throughout_array.1 h).1
  | map pairs => exact (throughout_map.1 h).1
  | tag number content => exact (throughout_tag.1 h).1
  | _ => rwa [Throughout] at h <;> nofun

theorem Throughout.imp {Q : Value → Prop} (hPQ : ∀ part, P part → Q part) {v : Value} (h : Throughout P v) :
    Throughout Q v := by
  induction v with
  | array items ih =>
    obtain ⟨hself, hitems⟩ := throughout_array.1 h
    exact throughout_array.2 ⟨hPQ _ hself, fun item hi => ih item hi (hitems item hi)⟩
  | map pairs ih =>
    obtain ⟨hself, hpairs⟩ := throughout_map.1 h
    refine throughout_map.2 ⟨hPQ _ hself, fun pair hp => ?_⟩
    exact ⟨(ih pair hp).1 (hpairs pair hp).1, (ih pair hp).2 (hpairs pair hp).2⟩
  | tag number content ih =>
    obtain ⟨hself, hcontent⟩ := throughout_tag.1 h
    exact throughout_tag.2 ⟨hPQ _ hself, ih hcontent⟩
  | _ => exact throughout_of_isLeaf trivial (hPQ _ h.self)

end Throughout

/-- The number that the head of a string, an array or a map gives as its length. -/
def length : Value → Nat
  | bytes content => content.length
  | text content => (Bytes.ofText content).length
  | array items => items.length
  | map pairs => pairs.length
  | _ => 0

/-- Every length in a value fits a head. -/
def Sized : Value → Prop := Throughout fun part => part.length < 2 ^ 64

/-- A tag with a byte string right under it that is read as a number. -/
def IsTaggedNumber : Value → Prop
  | tag number content => IsShortBignum number content
  | _ => False

/-- No tag in a value makes a number of the byte string under it. -/
def HasNoTaggedNumber : Value → Prop := Throughout fun part => ¬ part.IsTaggedNumber

/-- If a tag makes a number of the byte string under it, then the number is one that a decoder gives as this
tag and byte string. -/
def IsSettled (v : Value) : Prop := v.IsTaggedNumber → ∃ i : Int, -2 ^ 127 ≤ i ∧ i < 2 ^ 128 ∧ ofInt i = v

/-- What is read in place of the tagged numbers in a value are these numbers themselves. -/
def Settled : Value → Prop := Throughout IsSettled

theorem settled_of_isLeaf {v : Value} (hv : v.IsLeaf) : Settled v := by
  refine throughout_of_isLeaf hv fun htagged => ?_
  cases v with
  | tag number content => exact hv.elim
  | _ => exact htagged.elim

theorem settled_of_hasNoTaggedNumber {v : Value} (h : HasNoTaggedNumber v) : Settled v :=
  Throughout.imp (fun _ hpart htagged => absurd htagged hpart) h

/-- Every length in a value fits a head, and what is read in place of its tagged numbers are these numbers. -/
def IsWritable : Value → Prop := Throughout fun part => part.length < 2 ^ 64 ∧ part.IsSettled

theorem IsWritable.sized {v : Value} (h : IsWritable v) : Sized v := Throughout.imp (fun _ hpart => hpart.1) h

theorem IsWritable.settled {v : Value} (h : IsWritable v) : Settled v := Throughout.imp (fun _ hpart => hpart.2) h

theorem isWritable_ofInt {i : Int} (hlo : -2 ^ 127 ≤ i) (hhi : i < 2 ^ 128) : IsWritable (ofInt i) := by
  rcases ofInt_cases i with ⟨n, hi⟩ | ⟨n, hi⟩ | ⟨number, content, hi⟩
  · rw [hi]
    exact throughout_of_isLeaf trivial ⟨Nat.two_pow_pos 64, nofun⟩
  · rw [hi]
    exact throughout_of_isLeaf trivial ⟨Nat.two_pow_pos 64, nofun⟩
  · obtain ⟨n, ⟨⟩, hlen, -⟩ := ofInt_eq_tag hlo hhi hi
    rw [hi]
    refine throughout_tag.2 ⟨⟨Nat.two_pow_pos 64, fun _ => ⟨i, hlo, hhi, hi⟩⟩, ?_⟩
    exact throughout_of_isLeaf trivial ⟨Nat.lt_of_le_of_lt hlen (by decide), nofun⟩

/-! ## Lengths of encodings -/

theorem length_encode_pos (v : Value) : 0 < v.encode.length := by
  -- Every encoding starts with a head.
  have hhead : ∀ (major argument : Nat) (body : Bytes), 0 < (Head.write major argument ++ body).length := by
    intro major argument body
    have := Head.shortest_pos argument
    rw [List.length_append, Head.length_write]
    omega
  cases v with
  | unsigned n => rw [encode, ← List.append_nil (Head.write _ _)]; exact hhead ..
  | negative n => rw [encode, ← List.append_nil (Head.write _ _)]; exact hhead ..
  | bool b => rw [encode]; exact Nat.one_pos
  | null => rw [encode]; exact Nat.one_pos
  | float bits =>
    rw [encode, Head.writeFloat]
    split
    · exact Nat.succ_pos _
    · split <;> exact Nat.succ_pos _
  | _ => rw [encode]; exact hhead ..

/-- What is written of each thing in a list, and the number of things, are no more than what is written
of all of them. -/
theorem length_le_length_flatMap {α : Type} (write : α → Bytes) (l : List α) :
    (∀ a ∈ l, (write a).length ≤ (l.flatMap write).length) ∧
      ((∀ a ∈ l, 0 < (write a).length) → l.length ≤ (l.flatMap write).length) := by
  rw [List.length_flatMap]
  refine ⟨fun a ha => List.le_sum_of_mem (List.mem_map_of_mem ha), fun h => ?_⟩
  have hle := List.length_le_sum_of_one_le (l.map fun a => (write a).length) ?_
  · rwa [List.length_map] at hle
  · intro n hn
    obtain ⟨a, ha, rfl⟩ := List.mem_map.1 hn
    exact h a ha

/-- A value fits if its encoding is short enough. -/
theorem sized_of_length_encode {v : Value} (h : v.encode.length < 2 ^ 64) : Sized v := by
  induction v with
  | bytes content =>
    rw [encode, List.length_append] at h
    exact throughout_of_isLeaf trivial (Nat.lt_of_le_of_lt (Nat.le_add_left _ _) h)
  | text content =>
    rw [encode, List.length_append] at h
    exact throughout_of_isLeaf trivial (Nat.lt_of_le_of_lt (Nat.le_add_left _ _) h)
  | array items ih =>
    rw [encode, List.length_append] at h
    obtain ⟨hitem, hlen⟩ := length_le_length_flatMap (fun item => encode item) items
    have hlen := hlen fun item _ => length_encode_pos item
    refine throughout_array.2 ⟨?_, fun item hi => ih item hi ?_⟩
    · change items.length < 2 ^ 64
      omega
    · have := hitem item hi
      omega
  | map pairs ih =>
    rw [encode, List.length_append] at h
    obtain ⟨hpair, hlen⟩ :=
      length_le_length_flatMap (fun pair : Value × Value => encode pair.1 ++ encode pair.2) pairs
    have hpos : ∀ pair ∈ pairs, 0 < (encode pair.1 ++ encode pair.2).length := by
      intro pair _
      have := length_encode_pos pair.1
      rw [List.length_append]
      omega
    have hlen := hlen hpos
    refine throughout_map.2 ⟨?_, fun pair hp => ?_⟩
    · change pairs.length < 2 ^ 64
      omega
    · have hle := hpair pair hp
      rw [List.length_append] at hle
      exact ⟨(ih pair hp).1 (by omega), (ih pair hp).2 (by omega)⟩
  | tag number content ih =>
    rw [encode, List.length_append] at h
    exact throughout_tag.2 ⟨Nat.two_pow_pos 64, ih (by omega)⟩
  | _ => exact throughout_of_isLeaf trivial (Nat.two_pow_pos 64)

/-! ## Depth -/

/-- The most arrays, maps and tags of a value that are open at once. -/
def depth : Value → Nat
  | array items => (items.map fun item => depth item).foldr max 0 + 1
  | map pairs => (pairs.map fun pair => max (depth pair.1) (depth pair.2)).foldr max 0 + 1
  | tag _ content => depth content + 1
  | _ => 0
termination_by v => sizeOf v
decreasing_by
  · exact sizeOf_item_lt ‹_›
  · exact (sizeOf_pair_lt ‹_›).1
  · exact (sizeOf_pair_lt ‹_›).2
  · exact sizeOf_content_lt _ content

theorem depth_item_lt {items : List Value} {item : Value} (h : item ∈ items) :
    item.depth < (array items).depth := by
  rw [depth]
  exact Nat.lt_succ_of_le (List.le_max_of_le' 0 (List.mem_map_of_mem h) (Nat.le_refl _))

theorem depth_pair_lt {pairs : List (Value × Value)} {pair : Value × Value} (h : pair ∈ pairs) :
    pair.1.depth < (map pairs).depth ∧ pair.2.depth < (map pairs).depth := by
  have hle : max pair.1.depth pair.2.depth < (map pairs).depth := by
    rw [depth]
    exact Nat.lt_succ_of_le (List.le_max_of_le' 0 (List.mem_map_of_mem h) (Nat.le_refl _))
  omega

theorem depth_content_lt (number : UInt64) (content : Value) :
    content.depth < (tag number content).depth := by
  rw [depth]
  exact Nat.lt_succ_self _

/-- A value opens no more than `budget` arrays, maps and tags at once. Nothing is open in a tagged number, which
is read in one go. -/
inductive Opens : (budget : Nat) → Value → Prop
  | leaf {budget : Nat} {v : Value} (h : v.IsLeaf) : Opens budget v
  | array {budget : Nat} {items : List Value} (h : ∀ item ∈ items, Opens budget item) :
    Opens (budget + 1) (.array items)
  | map {budget : Nat} {pairs : List (Value × Value)} (hkeys : ∀ pair ∈ pairs, Opens budget pair.1)
    (hvalues : ∀ pair ∈ pairs, Opens budget pair.2) : Opens (budget + 1) (.map pairs)
  | tag {budget : Nat} {number : UInt64} {content : Value} (h : Opens budget content) :
    Opens (budget + 1) (.tag number content)
  | bignum {budget : Nat} {number : UInt64} {content : Value} {i : Int} (hlo : -2 ^ 127 ≤ i)
    (hhi : i < 2 ^ 128) (h : ofInt i = .tag number content) : Opens budget (.tag number content)

theorem opens_of_depth {v : Value} {budget : Nat} (hdepth : v.depth ≤ budget) : Opens budget v := by
  -- What may be opened goes down by one with each array, map and tag.
  induction v generalizing budget with
  | array items ih =>
    cases budget with
    | zero => rw [depth] at hdepth; omega
    | succ budget =>
      refine .array fun item hi => ?_
      have hlt := depth_item_lt hi
      exact ih item hi (by omega)
  | map pairs ih =>
    cases budget with
    | zero => rw [depth] at hdepth; omega
    | succ budget =>
      refine .map (fun pair hp => ?_) fun pair hp => ?_
      · have hlt := (depth_pair_lt hp).1
        exact (ih pair hp).1 (by omega)
      · have hlt := (depth_pair_lt hp).2
        exact (ih pair hp).2 (by omega)
  | tag number content ih =>
    cases budget with
    | zero => rw [depth] at hdepth; omega
    | succ budget =>
      have hlt := depth_content_lt number content
      exact .tag (ih (by omega))
  | _ => exact .leaf trivial

/-! ## Reading back -/

theorem readable_of_isLeaf {v : Value} (hv : v.IsLeaf) (hsized : Sized v) {budget : Nat} : Readable budget v := by
  cases v with
  | unsigned n => exact .unsigned n
  | negative n => exact .negative n
  | bytes content => exact .bytes hsized.self
  | text content => exact .text hsized.self
  | bool b => exact .bool b
  | null => exact .null
  | float bits => exact .float bits
  | _ => exact hv.elim

/-- A value is readable if its lengths fit, its tagged numbers are what they are read as, and it opens no more
than may be opened. -/
theorem readable_of_opens {v : Value} {budget : Nat} (hsized : Sized v) (hsettled : Settled v)
    (h : Opens budget v) : Readable budget v := by
  induction h with
  | leaf hv => exact readable_of_isLeaf hv hsized
  | array _ ih =>
    obtain ⟨hlen, hsized⟩ := throughout_array.1 hsized
    obtain ⟨-, hsettled⟩ := throughout_array.1 hsettled
    exact .array hlen fun item hi => ih item hi (hsized item hi) (hsettled item hi)
  | map _ _ ihk ihv =>
    obtain ⟨hlen, hsized⟩ := throughout_map.1 hsized
    obtain ⟨-, hsettled⟩ := throughout_map.1 hsettled
    refine .map hlen (fun pair hp => ?_) fun pair hp => ?_
    · exact ihk pair hp (hsized pair hp).1 (hsettled pair hp).1
    · exact ihv pair hp (hsized pair hp).2 (hsettled pair hp).2
  | @tag _ number content _ ih =>
    obtain ⟨-, hsized⟩ := throughout_tag.1 hsized
    obtain ⟨hnumber, hsettled⟩ := throughout_tag.1 hsettled
    by_cases htagged : IsShortBignum number content
    · obtain ⟨i, hlo, hhi, hi⟩ := hnumber htagged
      exact .bignum hlo hhi hi
    · exact .tag htagged (ih hsized hsettled)
  | bignum hlo hhi h => exact .bignum hlo hhi h

/-- A value is readable if its lengths fit, no tag makes a number of a byte string, and it opens no
more than may be opened. -/
theorem readable_of_depth {v : Value} (hsized : Sized v) (htags : HasNoTaggedNumber v) {budget : Nat}
    (hdepth : v.depth ≤ budget) : Readable budget v :=
  readable_of_opens hsized (settled_of_hasNoTaggedNumber htags) (opens_of_depth hdepth)

end Value

end CtapEnroll.Cbor
