import RecordQuery.Proofs.Outcome
import RecordQuery.Proofs.Predicates
import RecordQuery.Proofs.Records
import RecordQuery.Proofs.Tables
import RecordQuery.Store.InDatabase
/-!
# Rows that are fetched

What a statement that is executed comes to: the rows that it chooses, as cells (`Database.select_eq_ok`)
and as records (`Loading.fetch_eq_ok`).
-/

namespace RecordQuery

open Outcome Sql
open Database (Row Table)

variable {ι : Type} {s : Schema ι} {db : Database} {q : Select} {names : List String}
  {records : List Record}

/-- The record of a row's columns. -/
def Record.ofRow (s : Schema ι) (names : List String) (row : Scope) : Record :=
  Record.ofCells s names (names.map (Database.cellOf row))

theorem Record.get?_ofRow (s : Schema ι) (names : List String) (row : Scope) (name : String) :
    Members.get? (ofRow s names row) name =
      if name ∈ names then some ((kindOf s name).decode (Database.cellOf row name)) else none :=
  Record.get?_ofCells s names (Database.cellOf row) name

theorem Record.isUnique_ofRow (s : Schema ι) (names : List String) (row : Scope) : (ofRow s names row).IsUnique :=
  Members.isUnique_ofList _

/-- A statement that is executed gives the cells of the rows that it chooses. -/
theorem Database.select_eq_ok {cells : List (List Cell)} (h : db.select q names = .ok cells) :
    ∃ t, db.table? q.table = some t ∧ (db.chosen q names t).map (t.returned · names) = cells := by
  rw [select] at h
  split at h
  · cases h
  split at h
  · cases h
  obtain ⟨t, ht, h⟩ := bind_eq_ok_iff.1 h
  obtain ⟨-, -, h⟩ := bind_eq_ok_iff.1 h
  obtain ⟨-, -, h⟩ := bind_eq_ok_iff.1 h
  obtain ⟨-, -, h⟩ := bind_eq_ok_iff.1 h
  exact ⟨t, table_eq_ok_iff.1 ht, Except.ok.inj h⟩

theorem Sql.Select.table_of_sort {catalog : Catalog ι} {keys : SortKeys} {q' : Select}
    (h : q.sort catalog s keys = .ok q') : q'.table = q.table := by
  induction keys generalizing q with
  | nil =>
    obtain rfl := Except.ok.inj h
    rfl
  | cons key keys ih =>
    rw [sort, List.foldlM_cons] at h
    obtain ⟨next, hnext, h⟩ := bind_eq_ok_iff.1 h
    obtain ⟨term, -, rfl⟩ := map_eq_ok_iff.1 hnext
    rw [ih h]

/-- The statement of a query reads the table of its schema. -/
theorem Database.table_of_statement {catalog : Catalog ι} {query : Query} {single : Bool}
    (h : statement catalog s query single = .ok q) : q.table = s.table := by
  obtain ⟨filtered, hf, h⟩ := bind_eq_ok_iff.1 h
  obtain ⟨sorted, hsort, h⟩ := bind_eq_ok_iff.1 h
  have hfiltered : filtered.table = s.table := by
    rcases Select.filter_eq_ok_iff.1 hf with ⟨-, rfl⟩ | ⟨-, c, -, rfl⟩ <;> rfl
  have hsorted := (Select.table_of_sort hsort).trans hfiltered
  obtain rfl := Except.ok.inj h
  split
  · exact hsorted
  · split
    · rw [Select.sortByKey]
      cases query.page <;> split <;> exact hsorted
    · exact hsorted

theorem Record.ofCells?_eq_ok {cells : List Cell} {record : Record}
    (h : ofCells? s names cells = .ok record) : ofCells s names cells = record := by
  obtain ⟨-, -, rfl⟩ := map_eq_ok_iff.1 h
  rfl

/-- Records that are fetched are those of the rows that the statement chooses. -/
theorem Loading.fetch_eq_ok (h : fetch db s q names = .ok records) : ∃ t, db.table? q.table = some t ∧
    (∀ name ∈ names, s.hasColumn name) ∧
    records = (db.chosen q names t).map fun r => Record.ofRow s names (t.scope r) := by
  obtain ⟨⟨⟩, hnames, h⟩ := bind_eq_ok_iff.1 h
  obtain ⟨rows, hrows, h⟩ := bind_eq_ok_iff.1 h
  obtain ⟨t, ht, rfl⟩ := Database.select_eq_ok (mapError_eq_ok_iff.1 hrows)
  refine ⟨t, ht, fun name hn => ?_, ?_⟩
  · exact Condition.requireColumn_eq_ok_iff.1 (forM_eq_ok_iff.1 (mapError_eq_ok_iff.1 hnames) name hn)
  · rw [← map_eq_of_mapM_eq_ok (mapError_eq_ok_iff.1 h) fun _ _ => Record.ofCells?_eq_ok, List.map_map]
    rfl

/-- A statement that is executed keeps the limits and speaks of tables and columns that are there. -/
theorem Loading.of_fetch_eq_ok (h : fetch db s q names = .ok records) : q.isWithinLimits ∧
    db.requireTables q.conditions = .ok () ∧
    ∀ t, db.table? q.table = some t → ∀ e ∈ q.order, db.requireTerm t e.1 = .ok () := by
  obtain ⟨⟨⟩, -, h⟩ := bind_eq_ok_iff.1 h
  obtain ⟨rows, hrows, -⟩ := bind_eq_ok_iff.1 h
  have hselect := mapError_eq_ok_iff.1 hrows
  rw [Database.select] at hselect
  split at hselect
  · cases hselect
  split at hselect
  · cases hselect
  next hlimits =>
  obtain ⟨t, ht, hselect⟩ := bind_eq_ok_iff.1 hselect
  obtain ⟨⟨⟩, -, hselect⟩ := bind_eq_ok_iff.1 hselect
  obtain ⟨⟨⟩, hconditions, hselect⟩ := bind_eq_ok_iff.1 hselect
  obtain ⟨⟨⟩, horder, -⟩ := bind_eq_ok_iff.1 hselect
  refine ⟨by simpa using hlimits, hconditions, fun t' ht' => ?_⟩
  obtain rfl := Option.some.inj ((Database.table_eq_ok_iff.1 ht).symm.trans ht')
  exact forM_eq_ok_iff.1 horder

/-- A statement that chooses only rows which another one chooses can be executed where that one can. -/
theorem Loading.fetch_of_fetch {q' : Select} (h : fetch db s q names = .ok records) (htable : q'.table = q.table)
    (hlimits : q'.isWithinLimits) (hconditions : db.requireTables q'.conditions = .ok ())
    (horder : ∀ t, db.table? q.table = some t → ∀ e ∈ q'.order, db.requireTerm t e.1 = .ok ())
    (hchosen : ∀ t, db.table? q.table = some t → db.chosen q' names t ⊆ db.chosen q names t) :
    ∃ t, db.table? q.table = some t ∧
      fetch db s q' names = .ok ((db.chosen q' names t).map fun r => Record.ofRow s names (t.scope r)) := by
  obtain ⟨⟨⟩, hnames, h⟩ := bind_eq_ok_iff.1 h
  obtain ⟨rows, hrows, h⟩ := bind_eq_ok_iff.1 h
  have hselect := mapError_eq_ok_iff.1 hrows
  obtain ⟨t, ht, rfl⟩ := Database.select_eq_ok hselect
  have hselect' : db.select q' names = .ok ((db.chosen q' names t).map (t.returned · names)) := by
    rw [Database.select] at hselect
    split at hselect
    · cases hselect
    next hnonempty =>
    split at hselect
    · cases hselect
    obtain ⟨t', ht', hselect⟩ := bind_eq_ok_iff.1 hselect
    obtain rfl := Option.some.inj (ht.symm.trans (Database.table_eq_ok_iff.1 ht'))
    obtain ⟨⟨⟩, hrequired, -⟩ := bind_eq_ok_iff.1 hselect
    rw [Database.select, if_neg hnonempty, hlimits, htable]
    refine bind_eq_ok_iff.2 ⟨t, ht', bind_eq_ok_iff.2 ⟨(), hrequired, bind_eq_ok_iff.2 ⟨(), hconditions, ?_⟩⟩⟩
    exact bind_eq_ok_iff.2 ⟨(), forM_eq_ok_iff.2 (horder t ht), rfl⟩
  have hread : ∀ cells ∈ (db.chosen q' names t).map (t.returned · names),
      ∃ record, Record.ofCells? s names cells = .ok record := by
    intro cells hcells
    refine exists_mapM_eq_ok_iff.1 ⟨_, mapError_eq_ok_iff.1 h⟩ cells ?_
    exact List.map_subset _ (hchosen t ht) hcells
  obtain ⟨found, hfound⟩ := exists_mapM_eq_ok_iff.2 hread
  refine ⟨t, ht, bind_eq_ok_iff.2 ⟨(), hnames, bind_eq_ok_iff.2 ⟨_, mapError_eq_ok_iff.2 hselect', ?_⟩⟩⟩
  rw [hfound, ← map_eq_of_mapM_eq_ok hfound fun _ _ => Record.ofCells?_eq_ok, List.map_map]
  rfl

end RecordQuery
