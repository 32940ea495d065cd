import RecordQuery.Demo.Shop
import RecordQuery.Proofs.Paths
import RecordQuery.Proofs.Tables
/-!
# The demonstration shop is consistent

The schemas of the shop have no flaw, their relations have names, and its tables cover them, whatever
rows they have.
-/

namespace RecordQuery.Demo.Shop

open Database (Row Table)

variable {rows : Shop → List Row}

/-- No schema of the shop has a flaw. -/
theorem flaw?_eq_none (kind : Shop) : (catalog kind).flaw? catalog = none := by
  cases kind <;> decide

theorem isSound (kind : Shop) : Schema.IsSound catalog (catalog kind) := by
  intro s hs
  obtain ⟨i, rfl⟩ := Schema.exists_of_isIn hs
  exact flaw?_eq_none i

theorem isNamed (kind : Shop) : Schema.IsNamed catalog (catalog kind) := by
  intro s hs
  obtain ⟨i, rfl⟩ := Schema.exists_of_isIn hs
  cases i <;> decide

/-- The tables of the shop with rows. -/
def database (rows : Shop → List Row) : Database where
  tables := all.map fun kind => Table.ofSchema (catalog kind) (rows kind)

theorem table?_database (rows : Shop → List Row) (kind : Shop) :
    (database rows).table? (catalog kind).table = some (Table.ofSchema (catalog kind) (rows kind)) := by
  refine Database.table?_eq_ofSchema rfl (fun i => ?_) (fun i => ?_) (fun i j => ?_) kind
  · cases i <;> decide
  · cases i <;> decide
  · cases i <;> cases j <;> decide

/-- The tables of the shop cover its schemas. -/
theorem covers_database (rows : Shop → List Row) (kind : Shop) :
    (database rows).Covers catalog (catalog kind) :=
  Database.covers_of_table? (table?_database rows) kind

end RecordQuery.Demo.Shop
