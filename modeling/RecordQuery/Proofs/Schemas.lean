import RecordQuery.Schema.Check
/-!
# What a check of schemas gives

A graph of schemas is a root and the schemas of a catalog. `Schema.IsSound` says that a check finds no flaw
in any of them, and the lemmas say what follows: keys, deletion marks and the columns that relations join
by are columns.
-/

namespace RecordQuery.Schema

variable {ι : Type} {catalog : Catalog ι} {s root : Schema ι} {r : Relation ι} {name : String}

/-- Whether a schema is the root of a graph or one that relations may lead to. -/
def IsIn (catalog : Catalog ι) (root s : Schema ι) : Prop := s = root ∨ ∃ i, s = catalog i

/-- No schema of a graph has a flaw. -/
def IsSound (catalog : Catalog ι) (root : Schema ι) : Prop :=
  ∀ s, IsIn catalog root s → s.flaw? catalog = none

theorem isIn_root : IsIn catalog root root := .inl rfl

theorem isIn_catalog (i : ι) : IsIn catalog root (catalog i) := .inr ⟨i, rfl⟩

/-- A graph whose root is in the catalog has no other schemas. -/
theorem exists_of_isIn {kind : ι} (h : IsIn catalog (catalog kind) s) : ∃ i, s = catalog i := by
  rcases h with rfl | h
  · exact ⟨kind, rfl⟩
  · exact h

theorem check_eq_ok_iff : s.check catalog = .ok () ↔ s.flaw? catalog = none := by
  cases h : s.flaw? catalog <;> simp [check, h]

theorem relation?_eq_some (h : s.relation? name = some r) : r ∈ s.relations ∧ r.name = name :=
  ⟨List.mem_of_find?_eq_some h, by simpa using List.find?_some h⟩

theorem hasColumn_of_mem {c : Column} (h : c ∈ s.columns) : s.hasColumn c.name := by
  rw [hasColumn, column?, List.find?_isSome]
  exact ⟨c, h, by simp⟩

theorem hasColumn_iff : s.hasColumn name ↔ name ∈ s.columnNames := by
  simp [hasColumn, column?, List.find?_isSome, columnNames]

/-- The mark of deleted rows is a column. -/
theorem hasColumn_mark {mark : String} (h : s.deletionMark? = some mark) : s.hasColumn mark := by
  cases hd : s.deletion with
  | hard => simp [deletionMark?, hd] at h
  | soft =>
    simp only [deletionMark?, hd, Option.map_eq_some_iff, columnFor?] at h
    obtain ⟨c, hc, rfl⟩ := h
    exact hasColumn_of_mem (List.mem_of_find?_eq_some hc)

/-- The parts of a check that finds no flaw. -/
theorem flaw?_eq_none_iff : s.flaw? catalog = none ↔
    s.keyFlaw? = none ∧ s.hiddenFlaw? = none ∧ s.deletionFlaw? = none ∧
      ∀ r ∈ s.relations, s.relationFlaw? catalog r = none := by
  simp [flaw?, List.findSome?_eq_none_iff]

/-- The key is a column that is declared as one. -/
theorem key_of_flaw?_eq_none (h : s.flaw? catalog = none) :
    ∃ c, s.column? s.key = some c ∧ c.isKey := by
  have hk := (flaw?_eq_none_iff.1 h).1
  cases hc : s.column? s.key with
  | none => simp [keyFlaw?, hc] at hk
  | some c => exact ⟨c, rfl, by simpa [keyFlaw?, hc] using hk⟩

theorem hasColumn_key (h : s.flaw? catalog = none) : s.hasColumn s.key := by
  obtain ⟨c, hc, -⟩ := key_of_flaw?_eq_none h
  simp [hasColumn, hc]

/-- A relation has a name that no column has. -/
theorem not_hasColumn_relation (h : s.flaw? catalog = none) (hr : r ∈ s.relations) :
    s.hasColumn r.name = false := by
  have hf := (flaw?_eq_none_iff.1 h).2.2.2 r hr
  cases hc : s.hasColumn r.name
  · rfl
  · simp [relationFlaw?, hc] at hf

/-- A relation joins by a column here. -/
theorem hasColumn_joinKeys_fst (h : s.flaw? catalog = none) (hr : r ∈ s.relations) :
    s.hasColumn (s.joinKeys catalog r).1 := by
  have hf := (flaw?_eq_none_iff.1 h).2.2.2 r hr
  have hn := not_hasColumn_relation h hr
  cases hj : r.join with
  | belongsTo localKey => simpa [relationFlaw?, hn, hj, joinKeys] using hf
  | hasMany foreignKey => simpa [joinKeys, hj] using hasColumn_key h

/-- A relation joins by a column there. -/
theorem hasColumn_joinKeys_snd (h : s.flaw? catalog = none) (hr : r ∈ s.relations)
    (ht : (catalog r.target).flaw? catalog = none) :
    (catalog r.target).hasColumn (s.joinKeys catalog r).2 := by
  have hf := (flaw?_eq_none_iff.1 h).2.2.2 r hr
  have hn := not_hasColumn_relation h hr
  cases hj : r.join with
  | belongsTo localKey => simpa [joinKeys, hj] using hasColumn_key ht
  | hasMany foreignKey => simpa [relationFlaw?, hn, hj, joinKeys] using hf

end RecordQuery.Schema
