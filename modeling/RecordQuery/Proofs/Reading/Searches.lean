import RecordQuery.Proofs.Reading.Fetched
import RecordQuery.Proofs.Reading.Order
import RecordQuery.Proofs.Where.Meaning
/-!
# Queries for whole records

A query that asks for all that is shown of the rows of which a predicate is true, and for nothing else,
gives their records (`Database.find_whole_eq_ok`), and the rows are the live ones of which the predicate is
true (`Database.matching_filter`).
-/

namespace RecordQuery

open Outcome Sql
open Database (Row Table)

variable {ι : Type} {catalog : Catalog ι} {s : Schema ι} {db : Database} {p : Predicate} {q : Select}

/-- The live rows of a schema's table. -/
def Database.live (db : Database) (s : Schema ι) : List Scope := (db.scopes s.table).filter s.isLive

/-- The statement of a predicate asks for rows of the schema's table, in no order. -/
theorem Sql.Select.plain_of_filter (h : (Select.live s).filter catalog s p = .ok q) :
    q.table = s.table ∧ q.order = [] ∧ q.limit = none ∧ q.offset = none := by
  rcases filter_eq_ok_iff.1 h with ⟨-, rfl⟩ | ⟨-, c, -, rfl⟩ <;> exact ⟨rfl, rfl, rfl, rfl⟩

/-- The rows of a table that satisfy the statement of a predicate are the live ones of which it is true. -/
theorem Database.matching_eq_of_filter (hsound : Schema.IsSound catalog s) (hcover : db.Covers catalog s) {t : Table}
    (ht : db.table? s.table = some t) {q : Select} (hq : (Select.live s).filter catalog s p = .ok q) :
    db.matching q t =
      t.rows.filter fun r => s.isLive (t.scope r) && (p.truth catalog db.scopes s (t.scope r)).holds := by
  have hknown : Schema.AreKnown catalog s db.scopes := fun _ hs _ hrow _ hname =>
    isSome_of_mem_scopes hcover hs hrow hname
  rw [matching_eq_filter]
  refine List.filter_congr fun r hr => ?_
  have hrow : t.scope r ∈ db.scopes s.table := by
    rw [scopes_eq_map ht]
    exact List.mem_map_of_mem hr
  rw [satisfies, Select.evalAll_filter hsound hknown Schema.isIn_root (hknown s Schema.isIn_root _ hrow) hq [],
    Truth.holds_and, Truth.holds_ofBool]

/-- The rows that satisfy the statement of a predicate. -/
theorem Database.matching_filter (hsound : Schema.IsSound catalog s) (hcover : db.Covers catalog s) {t : Table}
    (ht : db.table? s.table = some t) {q : Select} (hq : (Select.live s).filter catalog s p = .ok q) :
    (db.matching q t).map t.scope =
      (db.live s).filter fun row => (p.truth catalog db.scopes s row).holds := by
  rw [matching_eq_of_filter hsound hcover ht hq, live, scopes_eq_map ht, List.filter_filter, List.filter_map]
  exact congrArg _ (List.filter_congr fun r _ => Bool.and_comm _ _)

/-- The records of a query for whole records are those of the rows that its statement chooses. -/
theorem Database.find_whole_eq_ok {single : Bool} {records : List Record}
    (h : db.find catalog s { predicate := p, projection := .whole s } single = .ok records) :
    ∃ q t, (Select.live s).filter catalog s p = .ok q ∧ db.table? s.table = some t ∧
      records = (db.chosen (if single then q.atMost 1 else q) (Projection.visible s []) t).map fun r =>
        Record.ofRow s (Projection.visible s []) (t.scope r) := by
  obtain ⟨select, hselect, h⟩ := bind_eq_ok_iff.1 h
  obtain ⟨fetched, hfetch, h⟩ := bind_eq_ok_iff.1 h
  obtain ⟨loaded, hload, h⟩ := bind_eq_ok_iff.1 h
  obtain rfl := Except.ok.inj h
  obtain ⟨q, hq, hselect⟩ := bind_eq_ok_iff.1 (mapError_eq_ok_iff.1 hselect)
  obtain rfl : (if single then q.atMost 1 else q) = select := Except.ok.inj hselect
  obtain rfl : fetched = loaded := Except.ok.inj hload
  obtain ⟨t, ht, -, rfl⟩ := Loading.fetch_eq_ok hfetch
  have htable : (if single then q.atMost 1 else q).table = s.table := by
    split <;> exact (Select.plain_of_filter hq).1
  refine ⟨q, t, hq, htable ▸ ht, ?_⟩
  have hcolumns : Projection.visible s [] ++ Loading.internalColumns (Projection.visible s [])
      (Loading.neededKeys catalog s (.whole s) "") = Projection.visible s [] := List.append_nil _
  rw [show (Projection.whole s).columns = Projection.visible s [] from rfl, hcolumns, List.map_map]
  exact List.map_congr_left fun r _ => rfl

end RecordQuery
