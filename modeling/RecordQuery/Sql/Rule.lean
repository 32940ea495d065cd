import RecordQuery.Sql.Collation
/-!
# Rules of tables

A table may keep its rows apart (`Unique`) and lead them to the rows of a table (`Reference`). A rule says
what is done about a row that breaks it: a `Resolution` where rows are too much alike or lack something,
an `Action` where a row is left without the one that it refers to.
-/

namespace RecordQuery.Sql

/-- What is done about a row that breaks a rule. The first three refuse the statement, `skip` leaves the
row out, and `replace` puts away what stands in its way. -/
inductive Resolution where
  | rollback
  | abort
  | fail
  | skip
  | replace
  deriving DecidableEq

namespace Resolution

/-- The word for a resolution. -/
def word : Resolution → String
  | rollback => "ROLLBACK"
  | abort => "ABORT"
  | fail => "FAIL"
  | skip => "IGNORE"
  | replace => "REPLACE"

/-- All resolutions. -/
def all : List Resolution := [rollback, abort, fail, skip, replace]

/-- What two rules that say the same come to: they may not be resolved in two ways. -/
def agree? : Option Resolution → Option Resolution → Option (Option Resolution)
  | none, r => some r
  | r, none => some r
  | some r, some r' => if r = r' then some (some r) else none

end Resolution

/-- Columns that no two rows share. -/
structure Unique where
  columns : List (String × Collation)
  resolution : Resolution := .abort
  deriving DecidableEq

/-- What is done to a row when the one that it refers to is removed or gets another key. -/
inductive Action where
  | nothing
  | restrict
  | cascade
  | setNull
  | setDefault
  deriving DecidableEq

/-- Columns that hold a key of a table: that of the given columns, or its primary key. -/
structure Reference where
  columns : List String
  target : String
  keys : Option (List String) := none
  onRemoval : Action := .nothing
  onChange : Action := .nothing
  /-- Whether it may lead nowhere until the end of a statement's answer. -/
  isDeferred : Bool := false
  deriving DecidableEq

end RecordQuery.Sql
