import RecordQuery.Error
import RecordQuery.Filter.Basic
import RecordQuery.Json.Reader
/-!
# Reading filters

`Filter.decode` reads a filter from a value, key by key in ascending order, and refuses whatever it
does not know: a composite key beside others, a key beside operators that is none, a list where a
scalar belongs. `Filter.parse` reads JSON text.
-/

namespace RecordQuery

namespace Operators

/-- The scalar that an operator takes. -/
def scalarOf (field key : String) (value : Value) : Checked Scalar :=
  match value with
  | .scalar s => .ok s
  | _ => .error (.operatorScalar key field)

/-- The scalars of a list. -/
def scalarsOf : List Value → Checked (List Scalar)
  | [] => .ok []
  | .scalar s :: values => (scalarsOf values).map (s :: ·)
  | value :: _ => .error (.notScalar value.kind)

/-- Adds the operator under a key. -/
def add (field : String) (spec : Operators) (key : String) (value : Value) : Checked Operators :=
  let scalar := scalarOf field key value
  match key with
  | "like" => scalar.map fun s => { spec with like := some s }
  | "startsWith" => scalar.map fun s => { spec with startsWith := some s }
  | "endsWith" => scalar.map fun s => { spec with endsWith := some s }
  | "from" => scalar.map fun s => { spec with lower := some s }
  | "to" => scalar.map fun s => { spec with upper := some s }
  | "gt" => scalar.map fun s => { spec with gt := some s }
  | "gte" => scalar.map fun s => { spec with gte := some s }
  | "lt" => scalar.map fun s => { spec with lt := some s }
  | "lte" => scalar.map fun s => { spec with lte := some s }
  | "not" => scalar.map fun s => { spec with differs := some s }
  | "in" =>
    match value with
    | .list values => (scalarsOf values).map fun values => { spec with oneOf := some values }
    | value => .error (.operatorArray field value.kind)
  | "isNull" =>
    match value with
    | .scalar (.bool flag) => .ok { spec with isNull := some flag }
    | value => .error (.operatorBoolean field value.kind)
  | key => .error (.unknownOperator key field)

/-- Adds all operators of an object. -/
def decode (field : String) : Operators → List (String × Value) → Checked Operators
  | spec, [] => .ok spec
  | spec, (key, value) :: entries => do decode field (← spec.add field key value) entries

end Operators

namespace Filter

/-- The keys of composites. -/
def compositeKeys : List String := ["and", "or", "not"]

mutual

/-- Reads a filter. -/
def decode : Value → Checked Filter
  | .object entries => decodeObject entries
  | value => .error (.searchKind value.kind)

/-- Reads a filter from an object's entries: one composite, or a map of fields. -/
def decodeObject : List (String × Value) → Checked Filter
  | [] => .ok .trivial
  | (key, value) :: entries => do
    if ((key, value) :: entries).any (fun e => compositeKeys.contains e.1) then
      match entries with
      | [] =>
        match key with
        | "and" => (decodeList "and" value).map .and
        | "or" => (decodeList "or" value).map .or
        | _ => (decode value).map .not
      | _ :: _ => .error (.mixedComposite (key :: entries.map Prod.fst))
    else
      let condition ← decodeCondition key value
      let conditions ← decodeConditions entries
      .ok (.fields ((key, condition) :: conditions))

/-- Reads the branches of a composite. -/
def decodeList (key : String) : Value → Checked (List Filter)
  | .list items => decodeItems items
  | value => .error (.compositeKind key value.kind)

/-- Reads each item as a filter. -/
def decodeItems : List Value → Checked (List Filter)
  | [] => .ok []
  | item :: items => do
    let branch ← decode item
    let branches ← decodeItems items
    .ok (branch :: branches)

/-- Reads each entry as a field. -/
def decodeConditions : List (String × Value) → Checked (List (String × FieldCondition))
  | [] => .ok []
  | (field, value) :: entries => do
    let condition ← decodeCondition field value
    let conditions ← decodeConditions entries
    .ok ((field, condition) :: conditions)

/-- Reads what is asked of a field: an object with an operator among its keys holds operators. -/
def decodeCondition (field : String) : Value → Checked FieldCondition
  | .scalar s => .ok (.equals s)
  | .list _ => .error (.arrayComparison field)
  | .object entries =>
    if entries.any fun e => Operators.keys.contains e.1 then
      (Operators.decode field {} entries).map .operators
    else (decodeObject entries).map .nested

end

/-- Reads a filter from JSON text. -/
def parse (text : String) : Checked Filter :=
  match Json.read? text with
  | some json => decode (Value.ofJson json)
  | none => .error .searchJson

end Filter

end RecordQuery
