import RecordQuery.Schema.Basic
import RecordQuery.Sql.Cell
/-!
# Table definitions

The statement that makes the table of a schema. A key is automatic, a column that is neither a key
nor nullable has to be filled, and a default is written as it is declared.
-/

namespace RecordQuery

/-- The type that columns of a kind prefer. Truth values are kept as 0 and 1 and times as text. -/
def Kind.affinity : Kind → Sql.Affinity
  | .integer => .integer
  | .boolean => .integer
  | .real => .real
  | .text => .text
  | .timestamp => .text

/-- The name of a column type. -/
def Sql.Affinity.typeName : Sql.Affinity → String
  | .integer => "INTEGER"
  | .real => "REAL"
  | .text => "TEXT"
  | .none => "BLOB"

/-- The definition of a column. -/
def Column.definition (c : Column) : String :=
  "\"" ++ c.name ++ "\" " ++ c.kind.affinity.typeName ++
    (if c.isKey then " PRIMARY KEY AUTOINCREMENT" else "") ++
    (if c.nullable || c.isKey then "" else " NOT NULL") ++
    (match c.standard with
      | some text => " DEFAULT " ++ text
      | none => "")

/-- The statement that makes the table of a schema if it is not there. -/
def Schema.createText {ι : Type} (s : Schema ι) : String :=
  "CREATE TABLE IF NOT EXISTS \"" ++ s.table ++ "\" (\n  " ++
    ",\n  ".intercalate (s.columns.map Column.definition) ++ "\n)"

end RecordQuery
