import RecordQuery.Sql.Build
import RecordQuery.Sql.Rule
/-!
# Writing statements

INSERT, UPDATE and DELETE for one row of a schema's table. Values are bound in the order of their
columns, and the key of the row that is changed comes last. The first two return the row as it is
stored.
-/

namespace RecordQuery.Sql

/-- Adds a row. It may say what is done if the row breaks a rule, whatever the rules say. -/
structure Insert where
  table : String
  values : List (String × Param)
  returning : List String := []
  resolution : Option Resolution := none
  deriving DecidableEq

/-- Changes the row of a key. -/
structure Update where
  table : String
  values : List (String × Param)
  key : String
  returning : List String
  deriving DecidableEq

/-- Removes the row of a key. -/
structure Delete where
  table : String
  key : String
  deriving DecidableEq

/-- Names, quoted, between commas. -/
def nameList (names : List String) : String :=
  ", ".intercalate (names.map quote)

/-- The `n`-th place of a bound value. -/
def place (n : Nat) : String := "?" ++ toString n

namespace Insert

variable {ι : Type}

/-- The statement that adds a row with the given values. -/
def ofValues (s : Schema ι) (values : List (String × Param)) : Except Fault Insert := do
  values.forM fun v => requireColumn s v.1
  .ok { table := s.table, values, returning := s.columnNames }

/-- The text of the statement. Without values the row has its defaults only. -/
def text (i : Insert) : String :=
  let filled :=
    if i.values.isEmpty then "DEFAULT VALUES"
    else "(" ++ nameList (i.values.map Prod.fst) ++ ") VALUES (" ++
      ", ".intercalate ((List.range i.values.length).map fun n => place (n + 1)) ++ ")"
  let resolved := match i.resolution with
    | some r => "OR " ++ r.word ++ " "
    | none => ""
  let answer := if i.returning.isEmpty then "" else " RETURNING " ++ nameList i.returning
  "INSERT " ++ resolved ++ "INTO " ++ quote i.table ++ " " ++ filled ++ answer

end Insert

namespace Update

variable {ι : Type}

/-- The statement that gives the row of a key new values. -/
def ofValues (s : Schema ι) (values : List (String × Param)) : Except Fault Update := do
  values.forM fun v => requireColumn s v.1
  .ok ⟨s.table, values, s.key, s.columnNames⟩

/-- The text of the statement. Without values the key is set to itself, so that the row is returned
all the same. -/
def text (u : Update) : String :=
  let assignments :=
    if u.values.isEmpty then quote u.key ++ " = " ++ quote u.key
    else ", ".intercalate (u.values.zipIdx.map fun (v, n) => quote v.1 ++ " = " ++ place (n + 1))
  "UPDATE " ++ quote u.table ++ " SET " ++ assignments ++ " WHERE " ++ quote u.key ++ " = " ++
    place (u.values.length + 1) ++ " RETURNING " ++ nameList u.returning

end Update

namespace Delete

/-- The statement that removes the row of a key. -/
def ofSchema {ι : Type} (s : Schema ι) : Delete := ⟨s.table, s.key⟩

/-- The text of the statement. -/
def text (d : Delete) : String :=
  "DELETE FROM " ++ quote d.table ++ " WHERE " ++ quote d.key ++ " = ?1"

end Delete

end RecordQuery.Sql
