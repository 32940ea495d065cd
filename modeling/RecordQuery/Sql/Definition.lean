import RecordQuery.Sql.Expression.Evaluation
import RecordQuery.Sql.Rule
/-!
# Table definitions

What a table is made of: its columns, the conditions on its rows (`checks`), the columns that no two rows
may share (`uniques`) and those that hold keys of tables (`references`). A `Draft` is a definition as it is
written, `Draft.finish?` is the definition if it makes sense.
-/

namespace RecordQuery.Sql

/-- A column of a table. -/
structure Field where
  name : String
  affinity : Affinity
  collation : Collation := .binary
  /-- The width of its cells, of which that of an integer is one. -/
  width : Nat := 1
  required : Bool := false
  /-- What is done about a row that leaves it empty though it is required. -/
  onNull : Resolution := .abort
  /-- The value of a row that is added without one. -/
  standard : Expression := .null
  /-- Whether the column is the key of the rows. -/
  isKey : Bool := false

/-- A table without its rows. -/
structure Definition where
  name : String
  fields : List Field
  checks : List Expression := []
  /-- In the order in which they are checked. -/
  uniques : List Unique := []
  primaryKey : List String := []
  /-- What is done about a row whose key is another one's. -/
  onTaken : Resolution := .abort
  references : List Reference := []
  /-- Whether a new key is greater than all that were ever given. -/
  isAutomatic : Bool := false

/-- The names that mean the key of a row where no column has them. -/
def keyAliases : List String := ["rowid", "oid", "_rowid_"]

/-- Whether a name means the key of a row where no column has it. -/
def isKeyAlias (name : String) : Bool := keyAliases.contains (Text.Ascii.lower name)

/-- Whether each name occurs once, whatever its case. -/
def distinct : List String → Bool
  | [] => true
  | name :: names => !names.any (Text.Ascii.same name) && distinct names

namespace Draft

/-- A column as it is written. -/
structure Column where
  field : Field
  /-- Whether the type is that of keys. -/
  isInteger : Bool
  checks : List Expression := []
  /-- How each rule that no two rows share the column is resolved, if that is said. -/
  uniques : List (Option Resolution) := []
  onTaken : Resolution := .abort
  references : List Reference := []
  /-- The number of times that the column is declared to be the primary key. -/
  keys : Nat := 0
  isAutomatic : Bool := false
  isSound : Bool := true

/-- Declares a column to be the primary key. Only an integer in ascending order is the key of the rows. -/
def Column.withKey (c : Column) (descending automatic : Bool) (resolution : Option Resolution) :
    Column :=
  let isKey := c.isInteger && !descending
  { c with
    field := { c.field with isKey := c.field.isKey || isKey }
    uniques := if isKey then c.uniques else c.uniques ++ [resolution]
    onTaken := if isKey then resolution.getD .abort else c.onTaken
    keys := c.keys + 1
    isAutomatic := c.isAutomatic || automatic
    isSound := c.isSound && (isKey || !automatic) }

/-- Gives a column a default, which must not depend on anything. -/
def Column.withStandard (c : Column) (e : Expression) : Column :=
  { c with
    field := { c.field with standard := e }
    isSound := c.isSound && e.isConstant }

/-- Gives a column a collation. -/
def Column.withCollation (c : Column) (name : String) : Column :=
  match Collation.named? name with
  | some collation => { c with field := { c.field with collation } }
  | none => { c with isSound := false }

end Draft

/-- A definition as it is written. -/
structure Draft where
  name : String
  columns : List Draft.Column := []
  checks : List Expression := []
  uniques : List (List (String × Option Collation) × Option Resolution) := []
  primaryKey : List String := []
  onTaken : Resolution := .abort
  references : List Reference := []
  keys : Nat := 0
  isAutomatic : Bool := false
  isSound : Bool := true

namespace Draft

/-- The greatest number of columns. -/
def maxColumns : Nat := 2000

/-- The field of a name. -/
def field? (fields : List Field) (name : String) : Option Field :=
  fields.find? fun f => Text.Ascii.same f.name name

/-- Whether a check may speak of a name. -/
def isKnown (table : String) (fields : List Field) (qualifiers : List String) (name : String) : Bool :=
  let isHere := match qualifiers with
    | [] => true
    | [t] => Text.Ascii.same t table
    | [d, t] => Text.Ascii.same d "main" && Text.Ascii.same t table
    | _ => false
  isHere && ((field? fields name).isSome || isKeyAlias name)

/-- A list of columns that no two rows may share, each with its collation. -/
def unique? (fields : List Field) (columns : List (String × Option Collation)) :
    Option (List (String × Collation)) :=
  columns.mapM fun (name, collation) =>
    (field? fields name).map fun f => (f.name, collation.getD f.collation)

/-- Adds a rule that no two rows share columns, unless there is the same one. -/
def addUnique? (columns : List (String × Collation)) (resolution : Option Resolution) :
    List (List (String × Collation) × Option Resolution) →
    Option (List (List (String × Collation) × Option Resolution))
  | [] => some [(columns, resolution)]
  | (others, said) :: rest =>
    if others = columns then (Resolution.agree? said resolution).map fun r => (others, r) :: rest
    else (addUnique? columns resolution rest).map ((others, said) :: ·)

/-- The rules that no two rows share columns: the newest first, but those that replace rows last. -/
def uniques? (d : Draft) (fields : List Field) : Option (List Unique) := do
  let single := d.columns.flatMap fun c => c.uniques.map fun r => ([(c.field.name, none)], r)
  let found ← (single ++ d.uniques).foldlM
    (fun found (columns, resolution) => do addUnique? (← unique? fields columns) resolution found) []
  let rules := found.reverse.map fun (columns, resolution) => Unique.mk columns (resolution.getD .abort)
  let (last, first) := rules.partition (·.resolution = .replace)
  some (first ++ last)

/-- A reference, if its columns are there and as many as those that it leads to. -/
def reference? (fields : List Field) (r : Reference) : Option Reference := do
  let columns ← r.columns.mapM fun name => (field? fields name).map Field.name
  if r.keys.all (·.length = columns.length) then some { r with columns } else none

/-- The definition, if there are columns, each once, at most one primary key, and nothing that means
nothing. -/
def finish? (d : Draft) : Option Definition := do
  let fields := d.columns.map Column.field
  let checks := d.columns.flatMap Column.checks ++ d.checks
  let uniques ← d.uniques? fields
  let references ← (d.columns.flatMap Column.references ++ d.references).mapM (reference? fields)
  let declared := (d.columns.filter fun c => c.keys != 0).map fun c => c.field.name
  let keys := d.columns.foldr (fun c count => c.keys + count) d.keys
  if d.isSound && d.columns.all Column.isSound && !fields.isEmpty && fields.length ≤ maxColumns &&
      distinct (fields.map Field.name) && keys ≤ 1 &&
      checks.all (Expression.isMeaningful (isKnown d.name fields) Expression.isCallable) then
    some
      { name := d.name, fields, checks, uniques, references
        primaryKey := declared ++ d.primaryKey
        onTaken := ((d.columns.find? fun c => c.onTaken != .abort).map Column.onTaken).getD d.onTaken
        isAutomatic := d.isAutomatic || d.columns.any Column.isAutomatic }
  else none

end Draft

end RecordQuery.Sql
