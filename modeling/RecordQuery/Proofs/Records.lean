import Mathlib.Data.List.Nodup
import RecordQuery.Json.Printer
import RecordQuery.Proofs.Integers
import RecordQuery.Store.Row
import Std.Data.String.ToInt
/-!
# Records

What a record holds after members are put in, taken out, or read from a row: `get?_ofList_map`,
`get?_without`, `Record.get?_ofCells`. A record holds a key once (`Members.IsUnique`).
-/

namespace RecordQuery

namespace Members

variable {ms : Members} {key : String} {value : Json}

/-- Every key of an object is there once. -/
def IsUnique (ms : Members) : Prop := (ms.map Prod.fst).Nodup

theorem has_eq_isSome (ms : Members) (key : String) : ms.has key = (ms.get? key).isSome := by
  induction ms with
  | nil => rfl
  | cons m ms ih =>
    obtain ⟨k, v⟩ := m
    rw [get?_cons, has, List.any_cons, ← has, ih]
    by_cases h : key = k
    · simp [h]
    · simp [h, Ne.symm h]

theorem mem_keys_iff : key ∈ ms.map Prod.fst ↔ (ms.get? key).isSome := by
  rw [← has_eq_isSome, has, List.any_eq_true, List.mem_map]
  simp only [beq_iff_eq]

theorem mem_keys_insert {k : String} :
    k ∈ (ms.insert key value).map Prod.fst ↔ k = key ∨ k ∈ ms.map Prod.fst := by
  rw [mem_keys_iff, mem_keys_iff, get?_insert]
  by_cases h : k = key <;> simp [h]

theorem IsUnique.insert (h : ms.IsUnique) (key : String) (value : Json) :
    (ms.insert key value).IsUnique := by
  induction ms with
  | nil => exact List.nodup_singleton key
  | cons m ms ih =>
    obtain ⟨k, v⟩ := m
    obtain ⟨hk, hms⟩ := List.nodup_cons.1 h
    rw [Members.insert]
    split
    · exact h
    next hne =>
      refine List.nodup_cons.2 ⟨fun hmem => ?_, ih hms⟩
      rcases mem_keys_insert.1 hmem with rfl | hmem
      · exact hne rfl
      · exact hk hmem

theorem IsUnique.erase (h : ms.IsUnique) (key : String) : (ms.erase key).IsUnique :=
  h.sublist (List.filter_sublist.map Prod.fst)

theorem IsUnique.merge (h : ms.IsUnique) (patch : Members) : (ms.merge patch).IsUnique := by
  rw [Members.merge]
  induction patch generalizing ms with
  | nil => exact h
  | cons m patch ih => exact ih (h.insert m.1 m.2)

theorem isUnique_ofList (pairs : List (String × Json)) : (ofList pairs).IsUnique :=
  IsUnique.merge (show IsUnique [] from List.nodup_nil) pairs

theorem get?_merge_map (ms : Members) (f : String → Json) (names : List String) (key : String) :
    get? (ms.merge (names.map fun name => (name, f name))) key =
      if key ∈ names then some (f key) else ms.get? key := by
  rw [merge, List.foldl_map]
  induction names generalizing ms with
  | nil => rfl
  | cons name names ih =>
    rw [List.foldl_cons, ih, get?_insert]
    by_cases hn : key ∈ names
    · simp [hn]
    · by_cases h : key = name <;> simp [hn, h]

/-- A value for each name. -/
theorem get?_ofList_map (f : String → Json) (names : List String) (key : String) :
    get? (ofList (names.map fun name => (name, f name))) key =
      if key ∈ names then some (f key) else none :=
  get?_merge_map [] f names key

end Members

namespace Record

variable {ι : Type} {s : Schema ι} {record : Record}

theorem get?_without (record : Record) (names : List String) (key : String) :
    Members.get? (record.without names) key = if key ∈ names then none else record.get? key := by
  rw [without]
  induction names generalizing record with
  | nil => rfl
  | cons name names ih =>
    rw [List.foldl_cons, ih, Members.get?_erase]
    by_cases hn : key ∈ names
    · simp [hn]
    · by_cases h : key = name <;> simp [hn, h]

theorem isUnique_without (h : record.IsUnique) (names : List String) : (record.without names).IsUnique := by
  rw [without]
  induction names generalizing record with
  | nil => exact h
  | cons name names ih => exact ih (h.erase name)

/-- The record of a row holds the cell of each column, read as the column's kind. -/
theorem get?_ofCells (s : Schema ι) (names : List String) (f : String → Sql.Cell) (key : String) :
    Members.get? (ofCells s names (names.map f)) key =
      if key ∈ names then some ((kindOf s key).decode (f key)) else none := by
  rw [ofCells, ← List.map_prod_left_eq_zip, List.map_map]
  exact Members.get?_ofList_map (fun name => (kindOf s name).decode (f name)) names key

end Record

/-! ## Integers -/

/-- Integers are told apart by their texts. -/
theorem Json.compact_ofInt64_inj {i j : Int64} : (ofInt64 i).compact = (ofInt64 j).compact ↔ i = j := by
  constructor
  · intro h
    have hrepr : i.toInt.repr = j.toInt.repr := by
      simpa [ofInt64, compact, Number.compact] using h
    exact Int64.toInt_inj.1 (Int.repr_inj.1 hrepr)
  · exact congrArg fun i => (ofInt64 i).compact

/-- An integer is not written as null. -/
theorem Json.compact_ofInt64_ne_null (i : Int64) : (ofInt64 i).compact ≠ Json.null.compact := by
  intro h
  have hrepr : i.toInt.repr = "null" := by
    simpa [ofInt64, compact, Number.compact] using h
  have hletter : 'n' ∈ (toString i.toInt).toList := by
    rw [show toString i.toInt = "null" from hrepr]
    decide
  rcases Text.mem_toString_int hletter with h | h <;> exact absurd h (by decide)

end RecordQuery
