import Mathlib.Data.List.Induction
import Mathlib.Data.List.Sort
import CtapEnroll.SortedMap
/-!
# Maps by what they hold

A map is determined by what is found under each key: `ext_get?`. So the order in which its entries are
put in makes no difference, as long as no key is put in twice: `ofList_of_perm`.
-/

namespace CtapEnroll.SortedMap

universe u v

variable {κ : Type u} {α : Type v}

/-- Under keys that do not repeat, the one that is found is the one that is there. -/
theorem find?_eq_some_iff [DecidableEq κ] {l : List (κ × α)} (hl : (l.map (·.1)).Nodup) (k : κ) (a : α) :
    (l.find? (fun e => e.1 = k)).map (·.2) = some a ↔ (k, a) ∈ l := by
  constructor
  · intro h
    obtain ⟨e, he, rfl⟩ := Option.map_eq_some_iff.1 h
    obtain rfl : e.1 = k := by simpa using List.find?_some he
    exact List.mem_of_find?_eq_some he
  · intro h
    cases hfind : l.find? (fun e => e.1 = k) with
    | none =>
      have hkey : ¬ decide (k = k) = true := List.find?_eq_none.1 hfind _ h
      exact absurd (decide_eq_true rfl) hkey
    | some e =>
      have hkey : e.1 = k := by simpa using List.find?_some hfind
      rw [List.inj_on_of_nodup_map hl (List.mem_of_find?_eq_some hfind) h hkey]
      rfl

variable [LT κ] [LE κ] [Std.LawfulOrderLT κ]

theorem nodup_keys (m : SortedMap κ α) : (m.entries.map (·.1)).Nodup := by
  refine List.Pairwise.map _ ?_ m.sorted
  intro e d h
  exact Std.ne_of_lt h

variable [DecidableEq κ]

theorem get?_eq_some_iff {m : SortedMap κ α} {k : κ} {a : α} :
    m.get? k = some a ↔ (k, a) ∈ m.entries :=
  find?_eq_some_iff m.nodup_keys k a

theorem mem_keys_iff {m : SortedMap κ α} {k : κ} : k ∈ m.keys ↔ ∃ a, m.get? k = some a := by
  unfold keys
  simp only [get?_eq_some_iff, List.mem_map, Prod.exists, exists_and_right, exists_eq_right]

variable [Std.IsLinearOrder κ]

/-- Maps in which the same is found are the same. -/
theorem ext_get? {m m' : SortedMap κ α} (h : ∀ k, m.get? k = m'.get? k) : m = m' := by
  have hirrefl : Std.Irrefl fun e d : κ × α => e.1 < d.1 := ⟨fun e => Std.lt_irrefl⟩
  have hantisymm : Std.Antisymm fun e d : κ × α => e.1 < d.1 :=
    ⟨fun e d hed hde => absurd hde (Std.not_lt.2 (Std.le_of_lt hed))⟩
  refine ext_entries (m.sorted.eq_of_mem_iff m'.sorted ?_)
  intro e
  rw [← get?_eq_some_iff, h, get?_eq_some_iff]

variable [DecidableLT κ]

/-- What is found in the map of a list is the last pair with the key. -/
theorem get?_ofList (l : List (κ × α)) (k : κ) :
    (ofList l).get? k = (l.reverse.find? (fun e => e.1 = k)).map (·.2) := by
  -- On the pairs from the last one on, since that is the one put in last.
  induction l using List.reverseRecOn with
  | nil => rfl
  | append_singleton l e ih =>
    have hinsert : ofList (l ++ [e]) = (ofList l).insert e.1 e.2 := List.foldl_concat ..
    rw [hinsert, get?_insert, ih, List.reverse_concat, List.find?_cons]
    by_cases h : e.1 = k <;> simp [h]

theorem mem_keys_ofList {l : List (κ × α)} {k : κ} : k ∈ (ofList l).keys ↔ k ∈ l.map (·.1) := by
  simp only [mem_keys_iff, get?_ofList, ← Option.isSome_iff_exists, Option.isSome_map, List.find?_isSome,
    List.mem_reverse, decide_eq_true_eq, List.mem_map]

/-- A map is put together again from its entries in any order. -/
theorem ofList_of_perm {l : List (κ × α)} {m : SortedMap κ α} (h : l.Perm m.entries) : ofList l = m := by
  have hl : (l.reverse.map (·.1)).Nodup :=
    (((List.reverse_perm l).trans h).map (·.1)).nodup_iff.2 m.nodup_keys
  apply ext_get?
  intro k
  apply Option.ext
  intro a
  rw [get?_ofList, find?_eq_some_iff hl, get?_eq_some_iff, List.mem_reverse, h.mem_iff]

/-! ### Insertions behind all keys -/

theorem lt_of_mem_insert? {m : SortedMap κ α} {k bound : κ} (hm : ∀ e ∈ m.entries, e.1 < bound)
    (hk : k < bound) (a : Option α) : ∀ e ∈ (m.insert? k a).entries, e.1 < bound := by
  cases a with
  | none => exact hm
  | some a =>
    intro e he
    rcases mem_insertEntry he with rfl | he
    · exact hk
    · exact hm e he

theorem entries_insert?_of_forall_lt {m : SortedMap κ α} {k : κ} (h : ∀ e ∈ m.entries, e.1 < k)
    (a : Option α) : (m.insert? k a).entries = m.entries ++ (a.map fun a => (k, a)).toList := by
  cases a with
  | none => exact (List.append_nil _).symm
  | some a => exact insertEntry_of_forall_lt h

end CtapEnroll.SortedMap
