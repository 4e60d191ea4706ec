import Mathlib.Data.Finset.Card
import CtapEnroll.Proofs.Cbor.ShortestHeads
import CtapEnroll.Proofs.Requests
/-!
# Parameters by their insertions

Parameters are put together one by one, in any order and with values put over others. What comes of it is
written in the canonical way, and depends on nothing but the last value under each key: `params_canonical`.
-/

namespace CtapEnroll

open Cbor (Head Value)

namespace Params

/-! ## Insertions -/

inductive Insertion
  | bytes (key : UInt8) (b : Bytes)
  | unsigned (key : UInt8) (n : UInt64)
  | unsigned? (key : UInt8) (n : Option UInt64)
  | text (key : UInt8) (s : String)
  | value (key : UInt8) (v : Value)

namespace Insertion

def apply (m : Params) : Insertion → Params
  | bytes key b => m.putBytes key b
  | unsigned key n => m.putUnsigned key n
  | unsigned? key n => m.putUnsigned? key n
  | text key s => m.putText key s
  | value key v => m.insert key v

/-- The key and the value that are put in, unless nothing is. -/
def entry? : Insertion → Option (UInt8 × Value)
  | bytes key b => some (key, .bytes b)
  | unsigned key n => some (key, .unsigned n)
  | unsigned? _ none => none
  | unsigned? key (some n) => some (key, .unsigned n)
  | text key s => some (key, .text s)
  | value key v => some (key, v)

end Insertion

def ofInsertions (insertions : List Insertion) : Params := insertions.foldl Insertion.apply .empty

/-- What is put in, in order. -/
def inserted (insertions : List Insertion) : List (UInt8 × Value) := insertions.filterMap Insertion.entry?

/-- The value that is put in last under a key. -/
def last? (insertions : List Insertion) (key : UInt8) : Option Value :=
  ((inserted insertions).reverse.find? fun e => e.1 = key).map (·.2)

theorem apply_eq (m : Params) (i : Insertion) :
    i.apply m = i.entry?.toList.foldl (fun m e => m.insert e.1 e.2) m := by
  cases i with
  | unsigned? key n => cases n <;> rfl
  | _ => rfl

theorem ofInsertions_eq (insertions : List Insertion) : ofInsertions insertions = .ofList (inserted insertions) := by
  unfold ofInsertions SortedMap.ofList inserted
  generalize (SortedMap.empty : Params) = m
  induction insertions generalizing m with
  | nil => rfl
  | cons i rest ih =>
    rw [List.foldl_cons, ih, apply_eq, List.filterMap_cons]
    cases i.entry? <;> rfl

theorem get?_ofInsertions (insertions : List Insertion) (key : UInt8) :
    (ofInsertions insertions).get? key = last? insertions key := by
  rw [ofInsertions_eq]
  exact SortedMap.get?_ofList _ key

/-- Only the last value under each key matters. -/
theorem ofInsertions_eq_of_last? {insertions others : List Insertion}
    (h : ∀ key, last? others key = last? insertions key) : ofInsertions others = ofInsertions insertions := by
  apply SortedMap.ext_get?
  intro key
  rw [get?_ofInsertions, get?_ofInsertions, h]

/-- There are as many parameters as there are keys that something was put under. -/
theorem size_ofInsertions (insertions : List Insertion) :
    (ofInsertions insertions).size = ((inserted insertions).map Prod.fst).toFinset.card := by
  have hkeys : ((inserted insertions).map Prod.fst).toFinset = (ofInsertions insertions).keys.toFinset := by
    ext key
    rw [List.mem_toFinset, List.mem_toFinset, ofInsertions_eq, SortedMap.mem_keys_ofList]
  have hnodup : (ofInsertions insertions).keys.Nodup := (ofInsertions insertions).nodup_keys
  rw [hkeys, List.toFinset_card_of_nodup hnodup]
  exact (List.length_map _).symm

/-! ## Canonical encodings -/

/-- A parameter as it stands in an encoding. -/
structure Written where
  key : UInt8
  code : Bytes
  value : Value

/-- The canonical way to write what is found under keys, of which there are this many: the shortest head of a map,
and then for each key, once, its shortest code and its value. The codes are in ascending order, byte by byte, and
none is longer than one after it. -/
structure IsCanonical (size : Nat) (found : UInt8 → Option Value) (b head : Bytes) (fields : List Written) :
    Prop where
  bytes : b = head ++ fields.flatMap fun f => f.code ++ f.value.encode
  head : Head.IsShortest (.map (some size)) head
  size : fields.length = size
  code : ∀ f ∈ fields, Head.IsShortest (.unsigned f.key.toUInt64) f.code
  once : (fields.map Written.key).Nodup
  ascending : fields.Pairwise fun f g => f.code < g.code ∧ f.code.length ≤ g.code.length
  found : ∀ key v, found key = some v ↔ ∃ f ∈ fields, f.key = key ∧ f.value = v

/-- A key is its own code, behind a byte that says so if it is not small. -/
theorem write_key (key : UInt8) : Head.write 0 key.toNat = if key < 24 then [key] else [24, key] := by
  have hlt := key.toNat_lt
  unfold Head.write
  by_cases h : key < 24
  · have hsmall : key.toNat < 24 := UInt8.lt_iff_toNat_lt.1 h
    rw [if_pos hsmall, if_pos h]
    simp
  · have hlarge : ¬ key.toNat < 24 := fun hsmall => h (UInt8.lt_iff_toNat_lt.2 hsmall)
    rw [if_neg hlarge, if_neg h, if_pos (show key.toNat < UInt8.size from hlt)]
    simp [Bytes.bigEndian]

theorem write_lt_write {a b : UInt8} (h : a < b) :
    Head.write 0 a.toNat < Head.write 0 b.toNat ∧
      (Head.write 0 a.toNat).length ≤ (Head.write 0 b.toNat).length := by
  rw [write_key, write_key]
  by_cases ha : a < 24
  · by_cases hb : b < 24
    · simp [ha, hb, h, List.cons_lt_cons_iff]
    · simp [ha, hb, List.cons_lt_cons_iff]
  · have hb : ¬ b < 24 := fun hb => ha (UInt8.lt_trans h hb)
    simp [ha, hb, h, List.cons_lt_cons_iff]

def written (e : UInt8 × Value) : Written := ⟨e.1, Head.write 0 e.1.toNat, e.2⟩

theorem isCanonical (m : Params) :
    IsCanonical m.size m.get? m.encode (Head.write 5 m.size) (m.entries.map written) where
  bytes := by
    rw [encode_eq, List.flatMap_map]
    rfl
  head := by
    have hsize : m.size < 2 ^ 64 := Nat.lt_of_le_of_lt m.size_le (by decide)
    exact Head.isShortest_write (show 5 < 7 by decide) hsize
  size := List.length_map ..
  code := by
    intro f hf
    obtain ⟨e, -, rfl⟩ := List.mem_map.1 hf
    have hkey : e.1.toNat < 2 ^ 64 := Nat.lt_trans e.1.toNat_lt (by decide)
    have hhead : Head.ofMajor 0 e.1.toNat = .unsigned e.1.toUInt64 := congrArg Head.unsigned (UInt64.ofNat_uInt8ToNat e.1)
    have hshortest := Head.isShortest_write (show 0 < 7 by decide) hkey
    rwa [hhead] at hshortest
  once := by
    rw [List.map_map]
    exact m.nodup_keys
  ascending := by
    rw [List.pairwise_map]
    exact m.sorted.imp write_lt_write
  found := by
    intro key v
    rw [SortedMap.get?_eq_some_iff]
    constructor
    · intro he
      exact ⟨_, List.mem_map_of_mem he, rfl, rfl⟩
    · rintro ⟨f, hf, rfl, rfl⟩
      obtain ⟨e, he, rfl⟩ := List.mem_map.1 hf
      exact he

/-- Whatever is put into parameters in whatever order, what is found under a key is what was put there last. There
are as many parameters as keys that something was put under, and none if there are no such keys. They are written
in the canonical way, so other insertions that leave the same value last under each key give the same bytes, and
the same transcripts are signed for them. -/
theorem params_canonical (insertions : List Insertion) :
    let m := ofInsertions insertions
    let keys := ((inserted insertions).map Prod.fst).toFinset
    (∀ key, m.get? key = last? insertions key) ∧ m.size = keys.card ∧ (m.isEmpty = true ↔ keys.card = 0) ∧
      (∃ head fields, IsCanonical keys.card (last? insertions) m.encode head fields) ∧
      ∀ others, (∀ key, last? others key = last? insertions key) →
        (ofInsertions others).encode = m.encode ∧ ∀ modality subCommand,
          Request.transcript modality subCommand (some (ofInsertions others)) =
            Request.transcript modality subCommand (some m) := by
  intro m keys
  have hget : m.get? = last? insertions := funext (get?_ofInsertions insertions)
  have hsize : m.size = keys.card := size_ofInsertions insertions
  refine ⟨congrFun hget, hsize, ?_, ?_, ?_⟩
  · rw [← hsize, SortedMap.isEmpty, SortedMap.size, List.isEmpty_iff, List.length_eq_zero_iff]
  · rw [← hsize, ← hget]
    exact ⟨_, _, isCanonical m⟩
  · intro others h
    rw [ofInsertions_eq_of_last? h]
    exact ⟨rfl, fun _ _ => rfl⟩

/-- Keys on both sides of the boundary where they take a second byte, put in in two orders, with a value that is put
over another one and a number that is left out. -/
theorem params_canonical_of_either_order :
    let insertions : List Insertion :=
      [.unsigned 0x18 5, .bytes 0x01 [0xaa], .unsigned? 0x03 none, .text 0x01 "a", .value 0x17 .null]
    let others : List Insertion := [.value 0x17 .null, .text 0x01 "a", .unsigned? 0x18 (some 5)]
    (∀ key, last? others key = last? insertions key) ∧
      (ofInsertions insertions).encode = [0xa3, 0x01, 0x61, 0x61, 0x17, 0xf6, 0x18, 0x18, 0x05] ∧
      (ofInsertions others).encode = (ofInsertions insertions).encode := by
  intro insertions others
  have hlast : ∀ key, last? others key = last? insertions key := by
    intro key
    by_cases h1 : 0x01 = key
    · subst h1
      rfl
    by_cases h17 : 0x17 = key
    · subst h17
      rfl
    by_cases h18 : 0x18 = key
    · subst h18
      rfl
    have hnone : ∀ l : List (UInt8 × Value), (∀ e ∈ l, 0x01 = e.1 ∨ 0x17 = e.1 ∨ 0x18 = e.1) →
        (l.find? fun e => e.1 = key).map (·.2) = none := by
      intro l hl
      rw [Option.map_eq_none_iff, List.find?_eq_none]
      intro e he hkey
      have hkey : e.1 = key := of_decide_eq_true hkey
      obtain h | h | h := hkey ▸ hl e he <;> contradiction
    exact (hnone _ (by decide)).trans (hnone _ (by decide)).symm
  exact ⟨hlast, by decide +kernel, ((params_canonical insertions).2.2.2.2 others hlast).1⟩

end Params

end CtapEnroll
