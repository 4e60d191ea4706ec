/-!
# Finite maps in key order

A `SortedMap` keeps its entries in strictly ascending order of keys, so that maps with the same
contents are equal and listing a map needs no sorting. `get?_insert` says what an insertion does to
every key: the last value inserted under a key is the one that is found.
-/

namespace CtapEnroll

universe u v

/-- A finite map whose entries stand in strictly ascending order of keys. -/
structure SortedMap (κ : Type u) (α : Type v) [LT κ] where
  entries : List (κ × α)
  sorted : entries.Pairwise (fun a b => a.1 < b.1)

namespace SortedMap

variable {κ : Type u} {α : Type v} [LT κ]

def empty : SortedMap κ α := ⟨[], .nil⟩

instance : EmptyCollection (SortedMap κ α) := ⟨empty⟩

instance : Inhabited (SortedMap κ α) := ⟨empty⟩

theorem ext_entries {m m' : SortedMap κ α} (h : m.entries = m'.entries) : m = m' := by
  cases m; cases m'; cases h; rfl

def size (m : SortedMap κ α) : Nat := m.entries.length

def isEmpty (m : SortedMap κ α) : Bool := m.entries.isEmpty

def keys (m : SortedMap κ α) : List κ := m.entries.map (·.1)

def get? [DecidableEq κ] (m : SortedMap κ α) (k : κ) : Option α :=
  (m.entries.find? (fun e => e.1 = k)).map (·.2)

def contains [DecidableEq κ] (m : SortedMap κ α) (k : κ) : Bool := (m.get? k).isSome

section Insert
variable [DecidableEq κ] [DecidableLT κ]

/-- Puts an entry before the first larger key, in place of an entry with the same key. -/
def insertEntry (k : κ) (a : α) : List (κ × α) → List (κ × α)
  | [] => [(k, a)]
  | e :: rest =>
    if k < e.1 then (k, a) :: e :: rest
    else if k = e.1 then (k, a) :: rest
    else e :: insertEntry k a rest

theorem mem_insertEntry {k : κ} {a : α} {e : κ × α} {l : List (κ × α)}
    (h : e ∈ insertEntry k a l) : e = (k, a) ∨ e ∈ l := by
  induction l with
  | nil => simpa [insertEntry] using h
  | cons d rest ih =>
    rw [insertEntry] at h
    split at h
    · simpa using h
    · split at h
      · rcases List.mem_cons.1 h with rfl | h
        · exact .inl rfl
        · exact .inr (List.mem_cons_of_mem _ h)
      · rcases List.mem_cons.1 h with rfl | h
        · exact .inr (List.mem_cons_self ..)
        · exact (ih h).imp id (List.mem_cons_of_mem _)

theorem find?_insertEntry (k k' : κ) (a : α) (l : List (κ × α)) :
    ((insertEntry k a l).find? (fun e => e.1 = k')).map (·.2) =
      if k = k' then some a else (l.find? (fun e => e.1 = k')).map (·.2) := by
  induction l with
  | nil => by_cases h : k = k' <;> simp [insertEntry, h]
  | cons d rest ih =>
    rw [insertEntry]
    split
    · by_cases h : k = k' <;> simp [List.find?_cons, h]
    · split
      · rename_i h
        by_cases hk : k = k'
        · simp [hk]
        · simp [hk, ← h]
      · rename_i h
        by_cases hd : d.1 = k'
        · have : k ≠ k' := fun hk => h (hk.trans hd.symm)
          simp [hd, this]
        · simpa [List.find?_cons, hd] using ih

variable [LE κ] [Std.IsLinearOrder κ] [Std.LawfulOrderLT κ]

theorem pairwise_insertEntry (k : κ) (a : α) {l : List (κ × α)}
    (h : l.Pairwise (fun a b => a.1 < b.1)) :
    (insertEntry k a l).Pairwise (fun a b => a.1 < b.1) := by
  induction l with
  | nil => simp [insertEntry]
  | cons d rest ih =>
    obtain ⟨hd, hrest⟩ := List.pairwise_cons.1 h
    rw [insertEntry]
    split
    · rename_i hlt
      refine List.pairwise_cons.2 ⟨fun e he => ?_, h⟩
      rcases List.mem_cons.1 he with rfl | he
      · exact hlt
      · exact Std.lt_trans hlt (hd e he)
    · rename_i hge
      split
      · rename_i heq
        exact List.pairwise_cons.2 ⟨fun e he => heq ▸ hd e he, hrest⟩
      · rename_i hne
        refine List.pairwise_cons.2 ⟨fun e he => ?_, ih hrest⟩
        rcases mem_insertEntry he with rfl | he
        · exact Std.lt_of_le_of_ne (Std.not_lt.1 hge) (Ne.symm hne)
        · exact hd e he

def insert (m : SortedMap κ α) (k : κ) (a : α) : SortedMap κ α :=
  ⟨insertEntry k a m.entries, pairwise_insertEntry k a m.sorted⟩

/-- An insertion changes what is found under its own key, and under no other. -/
theorem get?_insert (m : SortedMap κ α) (k k' : κ) (a : α) :
    (m.insert k a).get? k' = if k = k' then some a else m.get? k' :=
  find?_insertEntry k k' a m.entries

def insert? (m : SortedMap κ α) (k : κ) : Option α → SortedMap κ α
  | some a => m.insert k a
  | none => m

theorem get?_insert? (m : SortedMap κ α) (k k' : κ) (a : Option α) :
    (m.insert? k a).get? k' = if k = k' then a.or (m.get? k') else m.get? k' := by
  cases a with
  | none => simp [insert?]
  | some a => simp [insert?, get?_insert]

/-- The map of a list of pairs; the last pair with a key counts. -/
def ofList (pairs : List (κ × α)) : SortedMap κ α :=
  pairs.foldl (fun m p => m.insert p.1 p.2) empty

theorem insertEntry_of_forall_lt {k : κ} {a : α} {l : List (κ × α)} (h : ∀ e ∈ l, e.1 < k) :
    insertEntry k a l = l ++ [(k, a)] := by
  induction l with
  | nil => rfl
  | cons e rest ih =>
    have he : e.1 < k := h e List.mem_cons_self
    rw [insertEntry, if_neg (Std.not_lt.2 (Std.le_of_lt he)), if_neg (Ne.symm (Std.ne_of_lt he)),
      ih fun d hd => h d (List.mem_cons_of_mem _ hd), List.cons_append]

theorem entries_foldl_insert (l : List (κ × α)) (m : SortedMap κ α)
    (h : (m.entries ++ l).Pairwise (fun a b => a.1 < b.1)) :
    (l.foldl (fun m p => m.insert p.1 p.2) m).entries = m.entries ++ l := by
  induction l generalizing m with
  | nil => simp
  | cons p rest ih =>
    have hlt : ∀ e ∈ m.entries, e.1 < p.1 := fun e he =>
      (List.pairwise_append.1 h).2.2 e he p List.mem_cons_self
    have hm : (m.insert p.1 p.2).entries = m.entries ++ [p] := insertEntry_of_forall_lt hlt
    rw [List.foldl_cons, ih _ (by rw [hm]; simpa using h), hm]
    simp

theorem entries_ofList {l : List (κ × α)} (h : l.Pairwise (fun a b => a.1 < b.1)) :
    (ofList l).entries = l :=
  entries_foldl_insert l empty h

end Insert

@[simp] theorem get?_empty [DecidableEq κ] (k : κ) : (empty : SortedMap κ α).get? k = none := rfl

end SortedMap

end CtapEnroll
