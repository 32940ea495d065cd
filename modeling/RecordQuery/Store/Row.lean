import RecordQuery.Store.Basic
/-!
# Rows as records

A row becomes a record by reading each cell as its column's kind (`Kind.decode`), unless it holds bytes
that are no text where a text is wanted. A record becomes the values of a row by its members that are
columns, the key apart (`Record.values`).
-/

namespace RecordQuery

/-- A cell as the JSON value of a column. -/
def Kind.decode (kind : Kind) (cell : Sql.Cell) : Json :=
  match kind with
  | .integer => cell.asInteger?.elim .null Json.ofInt64
  | .boolean => cell.asInteger?.elim .null fun i => .bool (i != 0)
  | .real => cell.asReal?.elim .null Json.ofBinary64
  | .text => cell.asText?.elim .null Json.string
  | .timestamp => cell.asText?.elim .null Json.string

namespace Record

variable {ι : Type}

/-- The kind of a column. -/
def kindOf (s : Schema ι) (name : String) : Kind :=
  ((s.column? name).map Column.kind).getD .text

/-- The record of a row's cells under column names. -/
def ofCells (s : Schema ι) (names : List String) (cells : List Sql.Cell) : Record :=
  Members.ofList ((names.zip cells).map fun (name, cell) => (name, (kindOf s name).decode cell))

/-- Refuses cells that are wanted as text and cannot be read as one. -/
def requireReadable (s : Schema ι) (names : List String) (cells : List Sql.Cell) :
    Except Database.Fault Unit :=
  (names.zip cells).forM fun (name, cell) =>
    if (kindOf s name).affinity == .text && !cell.isReadable then .error (.unreadable name)
    else .ok ()

/-- The record of a row's cells, if they can be read. -/
def ofCells? (s : Schema ι) (names : List String) (cells : List Sql.Cell) :
    Except Database.Fault Record :=
  (requireReadable s names cells).map fun _ => ofCells s names cells

/-- The values of a record's members that are columns, the key apart. -/
def values (s : Schema ι) : Record → Except Sql.Fault (List (String × Sql.Param))
  | [] => .ok []
  | (name, json) :: record =>
    if name == s.key || !s.hasColumn name then values s record
    else
      match Sql.Param.ofJson? json with
      | none => .error (.nestedValue name)
      | some p => (values s record).map ((name, p) :: ·)

/-- The key that a record carries, if it has one that is neither null nor nested. -/
def key? (s : Schema ι) (record : Record) : Option Sql.Param :=
  match record.get? s.key with
  | some .null => none
  | some json => Sql.Param.ofJson? json
  | none => none

/-- The record without the given columns. -/
def without (record : Record) (names : List String) : Record :=
  names.foldl Members.erase record

end Record

end RecordQuery
