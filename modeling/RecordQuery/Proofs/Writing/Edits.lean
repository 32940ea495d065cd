import RecordQuery.Database.Writing
import RecordQuery.Proofs.Outcome
import RecordQuery.Proofs.Tables
/-!
# Changes of one table

Where no table refers to another and no rule puts rows away (`Database.IsPlain`), a change brings about no
other: an edit comes to one table with a row changed or removed in it (`edit_remove_eq_ok`,
`edit_assign_eq_ok`), and a statement that is executed leaves nothing loose behind (`settle_of_isPlain`).
-/

namespace RecordQuery.Database

open Outcome Sql

variable {db after : Database} {t t' : Table} {name : String} {row : Row} {n : Nat}
  {said : Option Resolution} {values : List (String × Cell)}

/-- A table that refers to none, and whose rules put no row and no value in the place of another. -/
structure Table.IsPlain (t : Table) : Prop where
  references : t.references = []
  onTaken : t.onTaken ≠ .replace
  uniques : ∀ u ∈ t.uniques, u.resolution ≠ .replace
  onNull : ∀ f ∈ t.fields, f.onNull ≠ .replace

theorem Table.IsPlain.of_definition (h : t.IsPlain) (heq : t'.toDefinition = t.toDefinition) : t'.IsPlain := by
  obtain ⟨hreferences, honTaken, huniques, honNull⟩ := h
  rw [← heq] at hreferences honTaken huniques honNull
  exact ⟨hreferences, honTaken, huniques, honNull⟩

/-- A database of such tables. -/
def IsPlain (db : Database) : Prop := ∀ t ∈ db.tables, t.IsPlain

/-! ## Tables by name -/

theorem IsPlain.of_table? (h : db.IsPlain) (ht : db.table? name = some t) : t.IsPlain := by
  rw [table?] at ht
  split at ht
  · rw [sequence?] at ht
    split at ht
    · cases ht
    · obtain rfl := Option.some.inj ht
      exact ⟨rfl, by simp, by simp, by simp⟩
  · exact h t (List.mem_of_find?_eq_some ht)

theorem IsPlain.replace (h : db.IsPlain) (ht : t.IsPlain) (name : String) : (db.replace name t).IsPlain := by
  intro u hu
  obtain ⟨v, hv, rfl⟩ := List.mem_map.1 hu
  split
  · exact ht
  · exact h v hv

/-- The table that is found by a name has it. -/
theorem same_of_table? (hname : Text.Ascii.same name sequenceName = false) (ht : db.table? name = some t) :
    Text.Ascii.same t.name name := by
  rw [table?, if_neg (by simp [hname])] at ht
  exact List.find?_some (p := fun t : Table => Text.Ascii.same t.name name) ht

/-- A table that was put in its place is found there. -/
theorem table?_replace (hname : Text.Ascii.same name sequenceName = false) (ht : db.table? name = some t)
    (ht' : Text.Ascii.same t'.name name) : (db.replace name t').table? name = some t' := by
  rw [table?, if_neg (by simp [hname])] at ht ⊢
  rw [replace, List.find?_map]
  obtain ⟨u, hu⟩ : ∃ u, db.tables.find? (fun u => Text.Ascii.same u.name name) = some u := ⟨t, ht⟩
  have hcomp : ((fun u : Table => Text.Ascii.same u.name name) ∘ fun u : Table =>
      if Text.Ascii.same u.name name then t' else u) = fun u => Text.Ascii.same u.name name := by
    funext u
    rw [Function.comp_apply]
    split
    · next h => rw [ht', h]
    · rfl
  rw [hcomp, hu, Option.map_some, if_pos (List.find?_some hu)]

/-- The others stay where they are. -/
theorem table?_replace_of_ne {other : String} (hother : Text.Ascii.same other sequenceName = false)
    (hne : Text.Ascii.same other name = false) (ht' : Text.Ascii.same t'.name name) :
    (db.replace name t').table? other = db.table? other := by
  have hdifferent : ∀ {a : String}, Text.Ascii.same a name → Text.Ascii.same a other = false := by
    intro a ha
    rw [← Bool.not_eq_true, Text.Ascii.same_iff] at hne ⊢
    rw [Text.Ascii.same_iff] at ha
    exact fun h => hne (h.symm.trans ha)
  rw [table?, table?, if_neg (by simp [hother]), if_neg (by simp [hother]), replace, List.find?_map]
  have hcomp : ((fun u : Table => Text.Ascii.same u.name other) ∘ fun u : Table =>
      if Text.Ascii.same u.name name then t' else u) = fun u => Text.Ascii.same u.name other := by
    funext u
    rw [Function.comp_apply]
    split
    · next h => rw [hdifferent ht', hdifferent h]
    · rfl
  rw [hcomp]
  cases hfound : db.tables.find? fun u => Text.Ascii.same u.name other with
  | none => rfl
  | some u =>
    have hu := List.find?_some hfound
    rw [Option.map_some, if_neg fun h => by simp [hdifferent h] at hu]

/-- Of two tables that are put in one place the last one stays. -/
theorem replace_replace (ht : Text.Ascii.same t.name name) :
    (db.replace name t).replace name t' = db.replace name t' := by
  simp only [replace, List.map_map, Database.mk.injEq, and_true]
  refine List.map_congr_left fun u _ => ?_
  rw [Function.comp_apply]
  split <;> simp [*]

/-! ## Nothing refers to anything -/

theorem IsPlain.referring_eq_nil (h : db.IsPlain) (name : String) : db.referring name = [] := by
  simp only [referring, List.flatMap_eq_nil_iff, List.mem_reverse]
  intro t ht
  simp [(h t ht).references]

theorem IsPlain.hasLoose_eq_false (h : db.IsPlain) (isDeferred : Bool) : db.hasLoose isDeferred = false := by
  simp only [hasLoose, List.any_eq_false]
  intro t ht
  simp [(h t ht).references]

/-- What a statement came to stays as it is. -/
theorem settle_of_isPlain {α : Type} {answer : α} {isAnswered : Bool} (h : after.IsPlain) :
    db.settle isAnswered (.ok (answer, after)) = (.ok answer, after) := by
  simp [settle, h.hasLoose_eq_false]

theorem follow_of_isPlain (h : db.IsPlain) {apply : Database → String → Edit → Row →
    Except Fault (Option Row × Database)} {changed : Option Row} : follow apply t row changed db = .ok db := by
  rw [follow, h.referring_eq_nil]
  rfl

/-! ## Nothing is put away -/

theorem yielding_eq_ok {resolution : Resolution} {fault : Fault} {rows put : List Row}
    (hresolution : resolution ≠ .replace) (h : Table.yielding resolution fault rows = .ok put) :
    rows = [] ∧ put = [] := by
  unfold Table.yielding at h
  split at h
  · next hrows => exact ⟨List.isEmpty_iff.1 hrows, (Except.ok.inj h).symm⟩
  · split at h
    · exact absurd rfl hresolution
    · cases h
    · cases h

/-- A row that is not refused puts no row away, and no other row has its key. -/
theorem Table.IsPlain.displaced_eq_ok (ht : t.IsPlain) {others rows : List Row}
    (h : t.displaced none row others = .ok rows) : rows = [] ∧ ∀ other ∈ others, other.key ≠ row.key := by
  obtain ⟨same, hsame, h⟩ := bind_eq_ok_iff.1 h
  obtain ⟨alike, halike, h⟩ := bind_eq_ok_iff.1 h
  obtain rfl := Except.ok.inj h
  obtain ⟨hfree, rfl⟩ := yielding_eq_ok ht.onTaken hsame
  rw [mapM_eq_ok_iff] at halike
  refine ⟨?_, fun other ho => by simpa using List.filter_eq_nil_iff.1 hfree other ho⟩
  rw [List.append_nil, List.flatten_eq_nil_iff]
  intro put hput
  have hmem : (.ok put : Except Fault (List Row)) ∈ alike.map .ok := List.mem_map_of_mem hput
  rw [← halike] at hmem
  obtain ⟨u, hu, hyielding⟩ := List.mem_map.1 hmem
  exact (yielding_eq_ok (ht.uniques u hu) hyielding).2

/-! ## Edits -/

theorem Table.mem_of_rowAt? {key : Int64} (h : t.rowAt? key = some row) : row ∈ t.rows ∧ row.key = key :=
  ⟨List.mem_of_find?_eq_some h, by simpa using List.find?_some h⟩

/-- Removing a row that is there changes its table only. -/
theorem edit_remove (hdb : db.IsPlain) (ht : db.table? name = some t) :
    edit (n + 1) said db name .remove row = .ok (match t.rowAt? row.key with
      | none => (none, db)
      | some found => (some found, db.replace name (t.removing found))) := by
  simp only [edit, table_eq_ok_iff.2 ht, bind, Except.bind]
  cases hfound : t.rowAt? row.key with
  | none => rfl
  | some found =>
    have hremoving : (t.removing found).IsPlain := (hdb.of_table? ht).of_definition rfl
    simp only [follow_of_isPlain (hdb.replace hremoving name)]

/-- What a change of a row that keeps the rules comes to. -/
theorem edit_assign_eq_ok (hdb : db.IsPlain) (ht : db.table? name = some t) {done : Option Row}
    (h : edit (n + 1) none db name (.assign values) row = .ok (done, after)) :
    (done = none ∧ after = db) ∨
      ∃ found changed, t.rowAt? row.key = some found ∧ t.changedRow db.now none values found = .ok changed ∧
        done = some changed ∧ after = db.replace name (t.changing found changed) := by
  obtain ⟨u, hu, h⟩ := bind_eq_ok_iff.1 h
  obtain rfl : t = u := Option.some.inj (ht.symm.trans (table_eq_ok_iff.1 hu))
  split at h
  · obtain ⟨rfl, rfl⟩ := Prod.mk.inj (Except.ok.inj h)
    exact .inl ⟨rfl, rfl⟩
  · next found hfound =>
    obtain ⟨changed, hchanged, h⟩ := bind_eq_ok_iff.1 h
    obtain ⟨rows, hrows, h⟩ := bind_eq_ok_iff.1 h
    obtain ⟨rfl, -⟩ := (hdb.of_table? ht).displaced_eq_ok hrows
    obtain ⟨now, hnow, h⟩ := bind_eq_ok_iff.1 h
    obtain rfl : db = now := Except.ok.inj hnow
    obtain ⟨u, hu, h⟩ := bind_eq_ok_iff.1 h
    obtain rfl : t = u := Option.some.inj (ht.symm.trans (table_eq_ok_iff.1 hu))
    have hchanging : (t.changing found changed).IsPlain := (hdb.of_table? ht).of_definition rfl
    simp only [(Table.mem_of_rowAt? hfound).2, hfound, follow_of_isPlain (hdb.replace hchanging name)] at h
    obtain ⟨rfl, rfl⟩ := Prod.mk.inj (Except.ok.inj h)
    exact .inr ⟨found, changed, hfound, hchanged, rfl, rfl⟩

end RecordQuery.Database
