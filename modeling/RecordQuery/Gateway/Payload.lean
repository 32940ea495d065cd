import RecordQuery.Schema.Check
import RecordQuery.Store.Basic
/-!
# Payloads

What a caller may write. Every member has to name a column that is neither the key nor maintained by
the gateway, and hold a scalar, null only where the column may be empty. A new record needs all
columns that have no default.
-/

namespace RecordQuery.Payload

variable {ι : Type}

/-- Whether a value is an array or an object. -/
def isNested : Json → Bool
  | .array _ => true
  | .object _ => true
  | _ => false

/-- Checks one member. -/
def checkMember (s : Schema ι) (name : String) (value : Json) : Checked Unit :=
  if name == s.key then .error (.keyPayload name s.name)
  else
    match s.column? name with
    | none => .error (.unknownPayloadField name s.name)
    | some column =>
      if column.role.isSome then .error (.maintainedField name s.name)
      else if isNested value then .error (.nestedPayload name)
      else if value.isNull && !column.nullable then .error (.nullPayload name)
      else .ok ()

/-- Checks all members, in their order. -/
def checkMembers (s : Schema ι) (data : Record) : Checked Unit :=
  data.forM fun m => checkMember s m.1 m.2

/-- Whether a new record has to name a column. -/
def isRequired (column : Column) : Bool :=
  !column.isKey && !column.nullable && column.standard.isNone && column.role.isNone

/-- Checks that a new record names every column that it has to. -/
def checkComplete (s : Schema ι) (data : Record) : Checked Unit :=
  match s.columns.find? fun column => isRequired column && !data.has column.name with
  | some column => .error (.missingPayload column.name)
  | none => .ok ()

end RecordQuery.Payload
