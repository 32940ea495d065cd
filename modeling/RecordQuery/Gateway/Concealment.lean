import RecordQuery.Store.Basic
/-!
# Concealing hidden columns

Before a record leaves the gateway its hidden columns are taken away, and those of the records that
are attached to it under its relations, at any depth. Where several relations have one name, the
attached records lose what any of their schemas hides.
-/

namespace RecordQuery.Concealment

variable {ι : Type}

/-- The schemas of what is attached under a name. -/
def attached (catalog : Catalog ι) (schemas : List (Schema ι)) (name : String) :
    List (Schema ι) :=
  schemas.flatMap fun s =>
    (s.relations.filter (·.name == name)).map fun r => catalog r.target

mutual

/-- The members that no schema hides, with nothing hidden in what is attached. -/
def members (catalog : Catalog ι) (schemas : List (Schema ι)) :
    List (String × Json) → List (String × Json)
  | [] => []
  | (name, json) :: rest =>
    if schemas.any (·.isHidden name) then members catalog schemas rest
    else (name, value catalog (attached catalog schemas name) json) ::
      members catalog schemas rest

/-- An attached record, or an array of them. -/
def value (catalog : Catalog ι) (schemas : List (Schema ι)) : Json → Json
  | .object ms => .object (members catalog schemas ms)
  | .array xs => .array (items catalog schemas xs)
  | json => json

/-- The items of an array, of which only objects are records. -/
def items (catalog : Catalog ι) (schemas : List (Schema ι)) : List Json → List Json
  | [] => []
  | .object ms :: rest => .object (members catalog schemas ms) :: items catalog schemas rest
  | item :: rest => item :: items catalog schemas rest

end

/-- A record of a schema without anything hidden. -/
def record (catalog : Catalog ι) (s : Schema ι) (r : Record) : Record :=
  members catalog [s] r

end RecordQuery.Concealment
