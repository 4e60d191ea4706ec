import CtapEnroll.Proofs.Readings
import CtapEnroll.Proofs.SortedMaps
/-!
# Answers as maps

An answer is made of the pairs of a CBOR map, which may repeat a key; the last pair with a key counts. Its
accessors never take an absent field for one that holds the wrong thing, or the other way round: `fields_exact`.
-/

namespace CtapEnroll

open Cbor (Value)

/-- The value under a key of a map that may repeat it: the last one. -/
def Listing.lastUnder (key : Int) (pairs : List (Value × Value)) : Option Value :=
  (pairs.reverse.find? fun p => p.1.int? = some key).map (·.2)

namespace Answer

/-! ## The pairs of an answer -/

/-- A pair of a map as an entry of an answer. -/
def IsEntry (e : Int × Value) (p : Value × Value) : Prop := p.1.int? = some e.1 ∧ e.2 = p.2

theorem ofValue_map_eq_ok_iff {pairs : List (Value × Value)} {m : Answer} :
    ofValue (.map pairs) = .ok m ↔ ∃ entries, List.Forall₂ IsEntry entries pairs ∧ SortedMap.ofList entries = m := by
  have hread : ∀ (e : Int × Value) (p : Value × Value),
      (p.1.int?.map fun key => (key, p.2)) = some e ↔ IsEntry e p := by
    rintro ⟨key, v⟩ p
    simp [IsEntry, eq_comm]
  simp only [ofValue]
  constructor
  · intro h
    split at h
    · rename_i entries hmapM
      have hentries := forall₂_of_mapM Option.some.inj Option.bind_eq_some_iff.1 hmapM
      exact ⟨entries, hentries.imp fun e p => (hread e p).1, Except.ok.inj h⟩
    · cases h
  · rintro ⟨entries, hentries, rfl⟩
    have hmapM : (pairs.mapM fun p => p.1.int?.map fun key => (key, p.2)) = some entries :=
      mapM_eq_pure_of_forall₂ (hentries.imp fun e p => (hread e p).2)
    rw [hmapM]

theorem get?_ofList_of_forall₂ {entries : List (Int × Value)} {pairs : List (Value × Value)}
    (h : List.Forall₂ IsEntry entries pairs) (key : Int) :
    (SortedMap.ofList entries).get? key = Listing.lastUnder key pairs := by
  rw [SortedMap.get?_ofList]
  refine map_find?_of_forall₂ ((List.forall₂_reverse_iff.2 h).imp ?_)
  rintro ⟨key', v⟩ p ⟨hkey, hv⟩
  simp [hkey, ← hv]

/-- A map is taken for an answer only if all of its keys are integers. Under each of them the answer has the last
value. -/
theorem get?_of_ofValue {pairs : List (Value × Value)} {m : Answer} (h : ofValue (.map pairs) = .ok m) :
    (∀ p ∈ pairs, p.1.int? ≠ none) ∧ ∀ key, m.get? key = Listing.lastUnder key pairs := by
  obtain ⟨entries, hentries, rfl⟩ := ofValue_map_eq_ok_iff.1 h
  refine ⟨?_, get?_ofList_of_forall₂ hentries⟩
  intro p hp hnone
  obtain ⟨e, -, hkey, -⟩ := exists_of_mem_forall₂ hentries hp
  rw [hnone] at hkey
  cases hkey

theorem exists_ofValue {pairs : List (Value × Value)} (h : ∀ p ∈ pairs, p.1.int? ≠ none) :
    ∃ m, ofValue (.map pairs) = .ok m := by
  have hentry : ∀ p ∈ pairs, ∃ e, IsEntry e p := by
    intro p hp
    obtain ⟨key, hkey⟩ := Option.ne_none_iff_exists'.1 (h p hp)
    exact ⟨(key, p.2), hkey, rfl⟩
  obtain ⟨entries, hentries⟩ := exists_forall₂ hentry
  exact ⟨_, ofValue_map_eq_ok_iff.2 ⟨entries, hentries, rfl⟩⟩

/-- An answer that holds, under each key, the last value of the pairs, which have integers for keys. -/
structure IsMapOf (m : Answer) (pairs : List (Value × Value)) : Prop where
  keys : ∀ p ∈ pairs, ∃ key, p.1.int? = some key
  last : ∀ key, m.get? key = Listing.lastUnder key pairs

theorem ofValue_map_iff_isMapOf {m : Answer} {pairs : List (Value × Value)} :
    ofValue (.map pairs) = .ok m ↔ m.IsMapOf pairs := by
  constructor
  · intro h
    obtain ⟨hkeys, hlast⟩ := get?_of_ofValue h
    exact ⟨fun p hp => Option.ne_none_iff_exists'.1 (hkeys p hp), hlast⟩
  · rintro ⟨hkeys, hlast⟩
    obtain ⟨m', hm'⟩ := exists_ofValue fun p hp => Option.ne_none_iff_exists'.2 (hkeys p hp)
    have hsame : m' = m := by
      apply SortedMap.ext_get?
      intro key
      rw [hlast, (get?_of_ofValue hm').2]
    rw [hm', hsame]

/-- Pairs that make up no answer are refused for a key. -/
theorem ofValue_map_of_forall_not {pairs : List (Value × Value)} (h : ∀ m : Answer, ¬ m.IsMapOf pairs) :
    ofValue (.map pairs) = .error (.badMap .keyNotInteger) := by
  cases hentries : pairs.mapM fun p => p.1.int?.map fun key => (key, p.2) with
  | none => simp only [ofValue, hentries]
  | some entries =>
    have hmap : ofValue (.map pairs) = .ok (.ofList entries) := by simp only [ofValue, hentries]
    exact absurd (ofValue_map_iff_isMapOf.1 hmap) (h _)

theorem exists_isMapOf_iff {pairs : List (Value × Value)} :
    (∃ m : Answer, m.IsMapOf pairs) ↔ ∀ p ∈ pairs, ∃ key, p.1.int? = some key := by
  constructor
  · rintro ⟨m, hm⟩
    exact hm.keys
  · intro h
    obtain ⟨m, hm⟩ := exists_ofValue fun p hp => Option.ne_none_iff_exists'.2 (h p hp)
    exact ⟨m, ofValue_map_iff_isMapOf.1 hm⟩

theorem isPlain_of_isMapOf {m : Answer} {pairs : List (Value × Value)} (h : m.IsMapOf pairs) :
    ∀ e ∈ m.entries, Value.IsPlain e.1 := by
  rintro ⟨key, v⟩ he
  have hget : m.get? key = some v := SortedMap.get?_eq_some_iff.2 he
  rw [h.last] at hget
  obtain ⟨p, hp, -⟩ := Option.map_eq_some_iff.1 hget
  exact Value.isPlain_of_int? (by simpa using List.find?_some hp)

/-- A value that lists, with every key once and the keys in ascending order, what is found. -/
def IsListedBy (find? : Int → Option Value) (v : Value) : Prop :=
  ∃ entries : List (Int × Value), v = .map (entries.map fun e => (Value.ofInt e.1, e.2)) ∧
    entries.Pairwise (fun e d => e.1 < d.1) ∧ ∀ key value, (key, value) ∈ entries ↔ find? key = some value

theorem isListedBy_toValue {m : Answer} (h : ∀ e ∈ m.entries, Value.IsPlain e.1) :
    IsListedBy m.get? m.toValue := by
  refine ⟨m.entries, ?_, m.sorted, fun key value => SortedMap.get?_eq_some_iff.symm⟩
  unfold toValue
  congr 1
  apply List.map_congr_left
  intro e he
  rw [keyValue_of_isPlain (h e he)]

/-! ## Accessors -/

/-- An accessor that says of every field what it is: absent, of its kind and holding something, or at fault. -/
structure Classifies {α : Type} (get : Answer → Int → Except WireError α) (Holds : Value → α → Prop)
    (fault : Int → Value → WireError) : Prop where
  missing : ∀ m key, get m key = .error (.missingField key) ↔ m.get? key = none
  held : ∀ m key a, get m key = .ok a ↔ ∃ v, m.get? key = some v ∧ Holds v a
  wrong : ∀ m key v, m.get? key = some v → (∀ a, ¬ Holds v a) → get m key = .error (fault key v)

/-- The optional form of an accessor, which takes absence as an answer and is like the plain form otherwise. -/
structure IsOptionalForm {α : Type} (get? : Answer → Int → Except WireError (Option α))
    (get : Answer → Int → Except WireError α) : Prop where
  absent : ∀ m key, get? m key = .ok none ↔ m.get? key = none
  present : ∀ m key, m.get? key ≠ none → get? m key = (get m key).map some

theorem classifies_field {α : Type} {expected : FieldType} {view : Value → Option α} {Holds : Value → α → Prop}
    (hview : ∀ v a, view v = some a ↔ Holds v a) :
    Classifies (fun m key => m.field key expected view) Holds fun key _ => .wrongType key expected where
  missing m key := by
    unfold field
    cases m.get? key with
    | none => simp
    | some v => cases hv : view v <;> simp [hv]
  held m key a := by
    unfold field
    cases m.get? key with
    | none => simp
    | some v => cases hv : view v <;> simp [hv, ← hview]
  wrong m key v hv hno := by
    unfold field
    cases hread : view v with
    | none => simp [hv, hread]
    | some a => exact absurd ((hview v a).1 hread) (hno a)

/-- What is wrong with a field that is no map with integer keys. -/
def mapFault (key : Int) : Value → WireError
  | .map _ => .badMap .keyNotInteger
  | _ => .wrongType key .map

theorem map_of_none {m : Answer} {key : Int} (h : m.get? key = none) : m.map key = .error (.missingField key) := by
  simp only [map, field, h]
  rfl

/-- Where something stands under a key, it is a map, and of integer keys, or it is at fault. -/
theorem map_cases {m : Answer} {key : Int} {v : Value} (h : m.get? key = some v) :
    (∃ pairs fields, v = .map pairs ∧ IsMapOf fields pairs ∧ m.map key = .ok fields) ∨
      ((∀ pairs fields, v = .map pairs → ¬ IsMapOf fields pairs) ∧ m.map key = .error (mapFault key v)) := by
  by_cases hv : ∃ pairs, v = .map pairs
  · obtain ⟨pairs, rfl⟩ := hv
    rw [map_of_get? h]
    by_cases hpairs : ∃ fields : Answer, fields.IsMapOf pairs
    · obtain ⟨fields, hfields⟩ := hpairs
      exact .inl ⟨pairs, fields, rfl, hfields, ofValue_map_iff_isMapOf.2 hfields⟩
    · simp only [not_exists] at hpairs
      refine .inr ⟨?_, ofValue_map_of_forall_not hpairs⟩
      rintro _ fields ⟨⟩
      exact hpairs fields
  · refine .inr ⟨fun pairs fields he => absurd ⟨pairs, he⟩ hv, ?_⟩
    simp only [map, field, h]
    cases v with
    | map pairs => exact absurd ⟨pairs, rfl⟩ hv
    | _ => rfl

theorem classifies_map :
    Classifies map (fun v fields => ∃ pairs, v = .map pairs ∧ fields.IsMapOf pairs) mapFault where
  missing m key := by
    cases hget : m.get? key with
    | none => simp [map_of_none hget]
    | some v =>
      rcases map_cases hget with ⟨pairs, fields, -, -, hmap⟩ | ⟨-, hmap⟩
      · simp [hmap]
      · cases v <;> simp [hmap, mapFault]
  held m key fields := by
    constructor
    · intro h
      cases hget : m.get? key with
      | none => simp [map_of_none hget] at h
      | some v =>
        rcases map_cases hget with ⟨pairs, found, hv, hfound, hmap⟩ | ⟨-, hmap⟩
        · rw [h] at hmap
          cases hmap
          exact ⟨v, rfl, pairs, hv, hfound⟩
        · simp [hmap] at h
    · rintro ⟨_, hget, pairs, rfl, hfields⟩
      rw [map_of_get? hget, ofValue_map_iff_isMapOf]
      exact hfields
  wrong m key v hget hno := by
    rcases map_cases hget with ⟨pairs, fields, hv, hfields, -⟩ | ⟨-, hmap⟩
    · exact absurd ⟨pairs, hv, hfields⟩ (hno fields)
    · exact hmap

theorem isOptionalForm_optional {α : Type} {get : Answer → Int → Except WireError α} :
    IsOptionalForm (fun m key => m.optional key get) get where
  absent m key := by
    unfold optional SortedMap.contains
    cases m.get? key with
    | none => simp
    | some v => cases get m key <;> simp [Except.map]
  present m key h := by
    obtain ⟨v, hv⟩ := Option.ne_none_iff_exists'.1 h
    unfold optional SortedMap.contains
    simp [hv]

/-- A CBOR map is taken for an answer exactly if all of its keys are integers, however often one is repeated. The
answer holds the last value under each key, and is written with every key once, in ascending order. Every
accessor tells a field that is absent from one that holds something else than it asks for, and finds what a field
of its kind holds; the optional forms differ from the plain ones for absent fields only. -/
theorem fields_exact :
    (∀ pairs, (∃ m, ofValue (.map pairs) = .ok m) ↔ ∀ p ∈ pairs, ∃ key, p.1.int? = some key) ∧
      (∀ pairs m, ofValue (.map pairs) = .ok m → (∀ key, m.get? key = Listing.lastUnder key pairs) ∧
        IsListedBy (Listing.lastUnder · pairs) m.toValue) ∧
      Classifies bytes (fun v b => v = .bytes b) (fun key _ => .wrongType key .bytes) ∧
      Classifies unsigned (fun v n => v.int? = some (n.toNat : Int)) (fun key _ => .wrongType key .unsigned) ∧
      Classifies text (fun v s => v = .text s) (fun key _ => .wrongType key .text) ∧
      Classifies array (fun v items => v = .array items) (fun key _ => .wrongType key .array) ∧
      Classifies map (fun v fields => ∃ pairs, v = .map pairs ∧ fields.IsMapOf pairs) mapFault ∧
      IsOptionalForm bytes? bytes ∧ IsOptionalForm unsigned? unsigned ∧ IsOptionalForm text? text := by
  refine ⟨fun pairs => ?_, fun pairs m h => ?_, ?_, ?_, ?_, ?_, classifies_map, ?_, ?_, ?_⟩
  · simp only [ofValue_map_iff_isMapOf, exists_isMapOf_iff]
  · have hm := ofValue_map_iff_isMapOf.1 h
    have hlisted := isListedBy_toValue (isPlain_of_isMapOf hm)
    rw [funext hm.last] at hlisted
    exact ⟨hm.last, hlisted⟩
  · exact classifies_field fun v b => by cases v <;> simp
  · refine classifies_field fun v n => ?_
    cases v with
    | unsigned k => simp [Value.int?, UInt64.toNat_inj]
    | negative k => simp [Value.int?]
    | _ => simp [Value.int?]
  · exact classifies_field fun v s => by cases v <;> simp
  · exact classifies_field fun v items => by cases v <;> simp
  · exact isOptionalForm_optional
  · exact isOptionalForm_optional
  · exact isOptionalForm_optional

end Answer

end CtapEnroll
