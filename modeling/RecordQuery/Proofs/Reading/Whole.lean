import RecordQuery.Proofs.Gateway
import RecordQuery.Proofs.Reading.Searches
import RecordQuery.Proofs.Requests
/-!
# Reading whole records

A request that says nothing asks for whole records: for that of a key (`Query.ofRequest_key`), or for those of all
live rows (`Query.ofRequest_all`). Their statements are executed, so what they come to depends on nothing but the
rows that they choose: each has to be one that can be read (`Database.find_whole_eq_ok_iff`).
-/

namespace RecordQuery

open Outcome Sql
open Database (Row Table)

variable {ι : Type} {catalog : Catalog ι} {s : Schema ι} {db : Database} {t : Table} {p : Predicate} {q : Select}
  {names : List String} {records : List Record} {limits : PageLimits} {id : Scalar}

/-! ## Rows that can be read -/

namespace Record

/-- A row of which columns can be read: where a text is wanted, none of them holds what is no text. -/
def IsReadable (s : Schema ι) (names : List String) (row : Scope) : Prop :=
  ∀ name ∈ names, (kindOf s name).affinity = .text → (Database.cellOf row name).isReadable

theorem IsReadable.subset {row : Scope} {others : List String} (h : IsReadable s names row)
    (hothers : others ⊆ names) : IsReadable s others row :=
  fun name hn => h name (hothers hn)

theorem requireReadable_eq_ok_iff {row : Scope} :
    requireReadable s names (names.map (Database.cellOf row)) = .ok () ↔ IsReadable s names row := by
  rw [requireReadable, ← List.map_prod_left_eq_zip, forM_eq_ok_iff, List.forall_mem_map]
  refine forall₂_congr fun name _ => ?_
  dsimp only
  cases hreadable : (Database.cellOf row name).isReadable <;>
    cases htext : decide ((kindOf s name).affinity = .text) <;> simp_all

/-- The cells of a row are read as its record, if they can be read. -/
theorem ofCells?_eq_ok_iff {row : Scope} {record : Record} :
    ofCells? s names (names.map (Database.cellOf row)) = .ok record ↔
      IsReadable s names row ∧ ofRow s names row = record := by
  rw [ofCells?, map_eq_ok_iff, ← requireReadable_eq_ok_iff]
  exact ⟨fun ⟨_, h, hrecord⟩ => ⟨h, hrecord⟩, fun ⟨h, hrecord⟩ => ⟨(), h, hrecord⟩⟩

/-- Rows are read as their records if all of them can be read. -/
theorem mapM_ofCells?_eq_ok_iff {rows : List Scope} :
    (rows.map fun row => names.map (Database.cellOf row)).mapM (ofCells? s names) = .ok records ↔
      (∀ row ∈ rows, IsReadable s names row) ∧ rows.map (ofRow s names) = records := by
  rw [mapM_eq_ok_iff]
  induction rows generalizing records with
  | nil => simp [eq_comm]
  | cons row rows ih =>
    cases records with
    | nil => simp
    | cons record records =>
      simp only [List.map_cons, List.cons.injEq, ih, ofCells?_eq_ok_iff, List.forall_mem_cons]
      tauto

end Record

/-! ## Statements for whole records -/

/-- A statement without an order that reads one table and keeps the limits gives the records of the rows that it
chooses, if all of them can be read. -/
theorem Loading.fetch_eq_ok_iff (ht : db.table? q.table = some t) (hcovers : t.Covers s) (hnonempty : names ≠ [])
    (hnames : ∀ name ∈ names, s.hasColumn name) (hlimits : q.isWithinLimits)
    (htables : Condition.listTables q.conditions = []) (horder : q.order = []) :
    fetch db s q names = .ok records ↔
      (∀ r ∈ db.chosen q names t, Record.IsReadable s names (t.scope r)) ∧
        (db.chosen q names t).map (fun r => Record.ofRow s names (t.scope r)) = records := by
  have hselect : db.select q names = .ok ((db.chosen q names t).map (t.returned · names)) := by
    have hknown : names.forM t.requireName = .ok () :=
      forM_eq_ok_iff.2 fun name hn => by rw [Table.requireName, hcovers name (hnames name hn)]; rfl
    have htable : db.table q.table = .ok t := Database.table_eq_ok_iff.2 ht
    rw [Database.select, if_neg (by simpa using hnonempty), hlimits, htable]
    refine bind_eq_ok_iff.2 ⟨t, rfl, bind_eq_ok_iff.2 ⟨(), hknown, bind_eq_ok_iff.2 ⟨(), ?_, ?_⟩⟩⟩
    · rw [Database.requireTables, htables]
      rfl
    · rw [horder]
      rfl
  have hcolumns : names.forM (requireColumn s) = .ok () :=
    forM_eq_ok_iff.2 fun name hn => by rw [requireColumn, if_pos (hnames name hn)]
  have hrows : (db.chosen q names t).map (t.returned · names) =
      ((db.chosen q names t).map t.scope).map fun row => names.map (Database.cellOf row) := by
    rw [List.map_map]
    rfl
  rw [fetch, hcolumns, hselect, hrows]
  refine (mapError_eq_ok_iff.trans Record.mapM_ofCells?_eq_ok_iff).trans ?_
  rw [List.forall_mem_map, List.map_map]
  rfl

/-- A query for whole records gives those of the rows that its statement chooses, if all of them can be read. -/
theorem Database.find_whole_eq_ok_iff (ht : db.table? s.table = some t) (hcovers : t.Covers s)
    (hvisible : Projection.visible s [] ≠ []) (hq : (Select.live s).filter catalog s p = .ok q)
    (hlimits : q.isWithinLimits) (htables : Condition.listTables q.conditions = []) (single : Bool) :
    let chosen := db.chosen (if single then q.atMost 1 else q) (Projection.visible s []) t
    db.find catalog s { predicate := p, projection := .whole s } single = .ok records ↔
      (∀ r ∈ chosen, Record.IsReadable s (Projection.visible s []) (t.scope r)) ∧
        chosen.map (fun r => Record.ofRow s (Projection.visible s []) (t.scope r)) = records := by
  obtain ⟨htable, horder, -, -⟩ := Select.plain_of_filter hq
  generalize hselect : (if single then q.atMost 1 else q) = select
  intro chosen
  have hparts : select.table = s.table ∧ select.conditions = q.conditions ∧ select.order = [] ∧
      select.isWithinLimits := by
    subst hselect
    cases single <;> exact ⟨htable, rfl, horder, hlimits⟩
  have hstatement : statement catalog s { predicate := p, projection := .whole s } single = .ok select := by
    rw [statement, hq, ← hselect]
    rfl
  have hfind : db.find catalog s { predicate := p, projection := .whole s } single =
      Loading.fetch db s select (Projection.visible s []) := by
    have hcolumns : Projection.visible s [] ++ Loading.internalColumns (Projection.visible s [])
        (Loading.neededKeys catalog s (.whole s) "") = Projection.visible s [] := List.append_nil _
    rw [find, hstatement]
    dsimp only [mapError_ok, bind, Except.bind]
    rw [show (Projection.whole s).columns = Projection.visible s [] from rfl, hcolumns]
    cases Loading.fetch db s select (Projection.visible s []) with
    | error e => rfl
    | ok records => exact congrArg Except.ok (List.map_id records)
  rw [hfind]
  exact Loading.fetch_eq_ok_iff (hparts.1 ▸ ht) hcovers hvisible
    (fun name hn => (Projection.mem_visible_iff.1 hn).1) hparts.2.2.2 (hparts.2.1 ▸ htables) hparts.2.2.1

/-! ## Requests that say nothing -/

/-- With a key, a request that says nothing asks for the record of the key. -/
theorem Query.ofRequest_key : Query.ofRequest catalog s limits {} (some (s.key, id)) = .ok (.byKey s id) := rfl

/-- A request that says nothing asks for all records. -/
theorem Query.ofRequest_all :
    Query.ofRequest catalog s limits {} = .ok { predicate := .everything, projection := .whole s } := rfl

namespace Gateway

/-- Finding the record of a key. -/
theorem run_find_key {record : Record} (h : db.find catalog s (.byKey s id) true = .ok [record]) :
    db.run ((inDatabase catalog s limits).find id {}) = (.ok (Concealment.record catalog s record), db) := by
  rw [run_find, answerOfFind, Query.ofRequest_key]
  dsimp only [mapError_ok, bind, Except.bind]
  rw [h]
  rfl

/-- Listing all records. -/
theorem run_list_all : db.run ((inDatabase catalog s limits).list {}) =
    (((db.find catalog s { predicate := .everything, projection := .whole s } false).mapError
      fun _ => .storeFailure readFailed).map fun records => ⟨records.map (Concealment.record catalog s), none⟩, db) := by
  rw [run_list, answerOfList, Query.ofRequest_all]
  dsimp only [mapError_ok, bind, Except.bind]
  cases db.find catalog s { predicate := .everything, projection := .whole s } false <;> rfl

end Gateway

/-! ## Their statements -/

namespace Sql.Select

/-- The statement for the record of a key. -/
theorem exists_filter_key (catalog : Catalog ι) (hs : s.hasColumn s.key) (id : Scalar) :
    ∃ q, (Select.live s).filter catalog s (.eq s.key id) = .ok q ∧ q.isWithinLimits ∧
      Condition.listTables q.conditions = [] := by
  refine ⟨{ live s with conditions := Condition.unmarked s ++ [.all [Condition.ofTest s.key (.eq id)]] }, ?_, ?_, ?_⟩
  · have htest : Condition.ofPredicate catalog s (.eq s.key id) = .ok (.all [Condition.ofTest s.key (.eq id)]) := by
      rw [Predicate.eq, Condition.ofPredicate, Condition.ofFields, Condition.ofConstraint, requireColumn, if_pos hs]
      rfl
    rw [filter, if_neg (by simp [Predicate.eq, Predicate.isEverything]), htest]
    rfl
  · cases hmark : s.deletionMark? <;> cases id <;> simp only [Condition.unmarked, hmark] <;> rfl
  · cases hmark : s.deletionMark? <;> cases id <;> simp only [Condition.unmarked, hmark] <;> rfl

/-- The statement for all records. -/
theorem filter_everything : (Select.live s).filter catalog s .everything = .ok (live s) := rfl

theorem isWithinLimits_live : (live s).isWithinLimits := by
  rw [live, Condition.unmarked]
  cases s.deletionMark? <;> rfl

theorem listTables_live : Condition.listTables (live s).conditions = [] := by
  rw [live, Condition.unmarked]
  cases s.deletionMark? <;> rfl

end Sql.Select

/-- Without an order, the rows that a statement chooses are a stretch of those that satisfy it, as they are met. -/
theorem Database.chosen_of_order_eq_nil (h : q.order = []) :
    db.chosen q names t = stretch q.limit q.offset (db.met q names t) := by
  rw [chosen, sorted, h]
  rfl

end RecordQuery
