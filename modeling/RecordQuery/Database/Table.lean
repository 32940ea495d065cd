import RecordQuery.Sql.Definition
import RecordQuery.Sql.Evaluation
/-!
# Tables

A `Table` is a definition with rows, kept by ascending key. The cells of the fields that are not the key
are kept by name. Names are compared without regard to case, and a cell is converted to the affinity of
its field before it is stored. A row is refused, left out or preferred to others that leaves a required
field empty, fails a check, or shares what no two rows may share.
-/

namespace RecordQuery.Database

open Sql

/-- Why a statement fails. -/
inductive Fault where
  | noTable (name : String)
  | noColumn (name : String)
  /-- A SELECT without columns. -/
  | noColumns
  /-- A statement that nests too deep or binds too many values. -/
  | tooLarge
  | required (column : String)
  | checkFailed
  | notUnique
  | keyTaken
  | badKey
  | noKeyLeft
  /-- A row that breaks a rule and is left out. -/
  | skipped
  /-- A reference to columns that are no key. -/
  | noTarget
  /-- A reference to a row that is not there. -/
  | loose
  /-- A reference that keeps a row from being removed or changed. -/
  | restricted
  /-- Changes that bring about too many others. -/
  | tooDeep
  /-- A default or a check that has no value. -/
  | noValue
  /-- No row was there to be changed. -/
  | noRow
  /-- Content that cannot be read as text. -/
  | unreadable (column : String)
  | badDefinition
  deriving DecidableEq

/-- A row. -/
structure Row where
  key : Int64
  cells : List (String × Cell)
  deriving DecidableEq

/-- A table; `lastKey` is the greatest key that was ever given to a new row. -/
structure Table extends Definition where
  rows : List Row := []
  lastKey : Int64 := 0

namespace Table

/-! ## Rows -/

/-- The field of a name. -/
def field? (t : Table) (name : String) : Option Field :=
  t.fields.find? fun f => Text.Ascii.same f.name name

/-- Whether a name means the key. -/
def isKeyName (t : Table) (name : String) : Bool :=
  match t.field? name with
  | some f => f.isKey
  | none => isKeyAlias name

/-- Refuses a name that means nothing in the table. -/
def requireName (t : Table) (name : String) : Except Fault Unit :=
  if (t.field? name).isSome || isKeyAlias name then .ok () else .error (.noColumn name)

end Table

/-- The cell of a field. -/
def Row.cell (r : Row) (f : Field) : Cell :=
  if f.isKey then .integer r.key else (r.cells.lookup f.name).getD .null

namespace Table

/-- A row by column name. -/
def scope (t : Table) (r : Row) : Scope := fun name =>
  match t.field? name with
  | some f => some ⟨some f.affinity, some f.collation, r.cell f⟩
  | none => if isKeyAlias name then some ⟨some .integer, none, .integer r.key⟩ else none

/-- The rows by column name. -/
def scopes (t : Table) : List Scope := t.rows.map t.scope

/-- The content of a row under names, one that is no field being a text. -/
def returned (t : Table) (r : Row) (names : List String) : List Cell :=
  names.map fun name => (Scope.resolve [t.scope r] name).cell

/-- Puts a row in the place of its key. -/
def place (row : Row) : List Row → List Row
  | [] => [row]
  | r :: rows => if row.key < r.key then row :: r :: rows else r :: place row rows

/-! ## What a row must satisfy

A rule says what is done about a row that breaks it, unless the statement says so for all rules. -/

/-- The value of a field that is not given. -/
def standardCell (now : Instant) (f : Field) : Except Fault Cell :=
  match f.standard.constant? now with
  | some cell => .ok cell
  | none => .error .noValue

/-- A cell as a field stores it. If the field has to be filled and is not, its default may stand in. -/
def stored (now : Instant) (said : Option Resolution) (f : Field) (cell : Cell) : Except Fault Cell :=
  let cell := f.affinity.store cell
  if f.required && cell.isNull then
    match said.getD f.onNull with
    | .skip => .error .skipped
    | .replace => do
      let cell := f.affinity.store (← standardCell now f)
      if cell.isNull then .error (.required f.name) else .ok cell
    | _ => .error (.required f.name)
  else .ok cell

/-- Refuses a row that fails a check; one that is unknown is passed. -/
def requireChecks (t : Table) (now : Instant) (said : Option Resolution) (row : Row) :
    Except Fault Unit :=
  t.checks.forM fun e =>
    match if e.isSound then e.eval ⟨now, t.scope row, true⟩ else none with
    | none => .error .noValue
    | some cell =>
      if cell.truth = .no then .error (if said = some .skip then .skipped else .checkFailed) else .ok ()

/-- Whether two rows share columns; null is shared with none. -/
def share (t : Table) (columns : List (String × Collation)) (row other : Row) : Bool :=
  columns.all fun (name, collation) =>
    match t.field? name with
    | none => false
    | some f => (Cell.compare? collation (row.cell f) (other.cell f)).any Ordering.isEq

/-- What is done about rows that stand in a row's way: they are put away, or the row is refused. -/
def yielding (resolution : Resolution) (fault : Fault) (rows : List Row) : Except Fault (List Row) :=
  if rows.isEmpty then .ok []
  else
    match resolution with
    | .replace => .ok rows
    | .skip => .error .skipped
    | _ => .error fault

/-- The rows that are put away for a row: those with its key, and those that share with it what no two
rows may share. -/
def displaced (t : Table) (said : Option Resolution) (row : Row) (others : List Row) :
    Except Fault (List Row) := do
  let same ← yielding (said.getD t.onTaken) .keyTaken (others.filter (·.key == row.key))
  let alike ← t.uniques.mapM fun u =>
    yielding (said.getD u.resolution) .notUnique (others.filter (t.share u.columns row))
  .ok (alike.flatten ++ same)

/-! ## Adding rows -/

/-- The value given for a field. -/
def given? (values : List (String × Cell)) (f : Field) : Option Cell :=
  (values.find? fun v => Text.Ascii.same f.name v.1).map Prod.snd

/-- The value given for the key. -/
def givenKey? (t : Table) (values : List (String × Cell)) : Option Cell :=
  (values.find? fun v => t.isKeyName v.1).map Prod.snd

/-- The cells of a new row: the values given, and defaults for the rest. -/
def newCells (now : Instant) (said : Option Resolution) (values : List (String × Cell)) :
    List Field → Except Fault (List (String × Cell))
  | [] => .ok []
  | f :: fields =>
    if f.isKey then newCells now said values fields
    else do
      let given ← match given? values f with
        | some cell => .ok cell
        | none => standardCell now f
      let cell ← stored now said f given
      let cells ← newCells now said values fields
      .ok ((f.name, cell) :: cells)

/-- The greatest key of a row, if there is a row. -/
def greatestKey? (t : Table) : Option Int64 := t.rows.getLast?.map Row.key

/-- The key of a new row that none is given for: the one after the greatest. Where keys are automatic, it
is also greater than those of rows that are gone. -/
def freshKey (t : Table) : Except Fault Int64 :=
  let last :=
    if t.isAutomatic then max t.lastKey (t.greatestKey?.getD 0) else t.greatestKey?.getD 0
  if last = Int64.maxValue then .error .noKeyLeft else .ok (last + 1)

/-- The key of a new row: the one given last, or a fresh one. -/
def newKey (t : Table) (values : List (String × Cell)) : Except Fault Int64 :=
  match Affinity.integer.store ((t.givenKey? values.reverse).getD .null) with
  | .null => t.freshKey
  | .integer key => .ok key
  | _ => .error .badKey

/-- A new row of a key with the given values. -/
def newRow (t : Table) (now : Instant) (said : Option Resolution) (key : Int64)
    (values : List (String × Cell)) : Except Fault Row := do
  let cells ← newCells now said values t.fields
  let row : Row := ⟨key, cells⟩
  t.requireChecks now said row
  .ok row

/-- The table that has given a key to a row, whether or not the row is in it. -/
def counting (t : Table) (key : Int64) : Table := { t with lastKey := max t.lastKey key }

/-- The table with a row more. -/
def adding (t : Table) (row : Row) : Table := { t with rows := place row t.rows }

/-! ## Changing and removing rows -/

/-- The cells of a changed row: the values given, and the old ones for the rest. -/
def changedCells (now : Instant) (said : Option Resolution) (values : List (String × Cell)) (row : Row) :
    List Field → Except Fault (List (String × Cell))
  | [] => .ok []
  | f :: fields =>
    if f.isKey then changedCells now said values row fields
    else do
      let cell ← match given? values f with
        | some cell => stored now said f cell
        | none => .ok (row.cell f)
      let cells ← changedCells now said values row fields
      .ok ((f.name, cell) :: cells)

/-- The key of a changed row. -/
def changedKey (t : Table) (values : List (String × Cell)) (row : Row) : Except Fault Int64 :=
  match t.givenKey? values with
  | none => .ok row.key
  | some cell =>
    match Affinity.integer.store cell with
    | .integer key => .ok key
    | _ => .error .badKey

/-- A row with new values. -/
def changedRow (t : Table) (now : Instant) (said : Option Resolution) (values : List (String × Cell))
    (row : Row) : Except Fault Row := do
  let key ← t.changedKey values row
  let cells ← changedCells now said values row t.fields
  let changed : Row := ⟨key, cells⟩
  t.requireChecks now said changed
  .ok changed

/-- The row of a key. -/
def rowAt? (t : Table) (key : Int64) : Option Row := t.rows.find? (·.key == key)

/-- The rows with other keys than a row. -/
def besides (t : Table) (row : Row) : List Row := t.rows.filter fun r => r.key != row.key

/-- The table with a changed row in the place of the row that it was. -/
def changing (t : Table) (row changed : Row) : Table :=
  { t with
    rows :=
      if changed.key = row.key then t.rows.map fun r => if r.key = row.key then changed else r
      else place changed (t.besides row) }

/-- The table without a row. -/
def removing (t : Table) (row : Row) : Table := { t with rows := t.besides row }

end Table

end RecordQuery.Database
