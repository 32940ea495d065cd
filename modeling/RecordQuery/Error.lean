/-!
# Errors

`Malformed` lists what can be wrong with a request or a payload, one constructor per cause, and
`Malformed.message` holds all the wording. `Error` is what an operation reports: a malformed input, a
missing record, a failed store in words that are safe to show, or an inconsistent schema, whose
details stay inside.
-/

namespace RecordQuery

/-- What is wrong with an input. A `got` is the offending value: its kind, or its JSON text. -/
inductive Malformed where
  /-- The brackets of a parameter's name do not close. -/
  | parameterName (key : String)
  /-- A parameter wants to be a list, a map or a text where an earlier one is something else. -/
  | parameterConflict (key : String)
  | notScalar (got : String)
  | searchKind (got : String)
  | searchJson
  | searchShape (got : String)
  /-- A composite key stands beside other keys. -/
  | mixedComposite (keys : List String)
  | compositeKind (key got : String)
  | arrayComparison (field : String)
  | operatorScalar (operator field : String)
  | operatorArray (field got : String)
  | operatorBoolean (field got : String)
  | unknownOperator (operator field : String)
  /-- Two branches of a conjunction name the same field. -/
  | repeatedField (field : String)
  | noOperators
  | relationEntry (got : String)
  | relationsShape (got : String)
  | excludeEntry (got : String)
  | excludeShape (got : String)
  | notInteger (name got : String)
  | sortJson
  | sortShape (got : String)
  | direction (path got : String)
  | optionsShape (got : String)
  | unknownRelation (path entity : String)
  | notRelation (name entity : String)
  /-- A relation is compared with a scalar. -/
  | bareRelation (name : String)
  | unknownFilterField (field entity : String)
  | unsortable (entity key : String)
  | keyPayload (field entity : String)
  | unknownPayloadField (field entity : String)
  | maintainedField (field entity : String)
  | nestedPayload (field : String)
  | nullPayload (field : String)
  | missingPayload (field : String)
  /-- A complaint in the application's own words. -/
  | note (text : String)
  deriving DecidableEq

/-- The wording of a complaint. -/
def Malformed.message : Malformed → String
  | .parameterName key => "malformed query parameter name `" ++ key ++ "`"
  | .parameterConflict key => "conflicting query parameter `" ++ key ++ "`"
  | .notScalar got => "expected a scalar value, got " ++ got
  | .searchKind got => "search must be an object, got " ++ got
  | .searchJson => "search must be valid JSON"
  | .searchShape got => "search must be an object, got " ++ got
  | .mixedComposite keys =>
    "a filter node must contain exactly one of and/or/not and no field keys, got [" ++
      ", ".intercalate keys ++ "]"
  | .compositeKind key got => "`" ++ key ++ "` must be an array of filter objects, got " ++ got
  | .arrayComparison field =>
    "field `" ++ field ++ "` cannot be compared to an array; use \x7b\"in\": [...]\x7d"
  | .operatorScalar operator field =>
    "operator `" ++ operator ++ "` on field `" ++ field ++ "` expects a scalar"
  | .operatorArray field got =>
    "operator `in` on field `" ++ field ++ "` expects an array, got " ++ got
  | .operatorBoolean field got =>
    "operator `isNull` on field `" ++ field ++ "` expects a boolean, got " ++ got
  | .unknownOperator operator field =>
    "unknown operator `" ++ operator ++ "` on field `" ++ field ++ "`"
  | .repeatedField field =>
    "field `" ++ field ++
      "` is constrained by more than one `and` branch; combine the operators in a single condition"
  | .noOperators => "operator condition has no operators"
  | .relationEntry got => "relations entries must be strings, got " ++ got
  | .relationsShape got => "relations must be a string, array or object, got " ++ got
  | .excludeEntry got => "exclude entries must be strings, got " ++ got
  | .excludeShape got => "exclude must be a string, got " ++ got
  | .notInteger name got => name ++ " must be an integer, got " ++ got
  | .sortJson => "sort must be valid JSON"
  | .sortShape got => "sort must be an object, got " ++ got
  | .direction path got =>
    "invalid sort direction for `" ++ path ++ "`: expected ASC or DESC, got " ++ got
  | .optionsShape got => "query options must be an object, got " ++ got
  | .unknownRelation path entity => "unknown relation `" ++ path ++ "` on " ++ entity
  | .notRelation name entity => "`" ++ name ++ "` is not a relation of " ++ entity
  | .bareRelation name =>
    "relation `" ++ name ++ "` must be filtered with a nested condition, e.g. \x7b\"" ++ name ++
      "\": \x7b\"id\": 1\x7d\x7d"
  | .unknownFilterField field entity => "unknown filter field `" ++ field ++ "` on " ++ entity
  | .unsortable entity key => "cannot sort " ++ entity ++ " by `" ++ key ++ "`"
  | .keyPayload field entity => "`" ++ field ++ "` of " ++ entity ++ " cannot be written"
  | .unknownPayloadField field entity => "unknown field `" ++ field ++ "` on " ++ entity
  | .maintainedField field entity =>
    "`" ++ field ++ "` of " ++ entity ++ " is maintained automatically"
  | .nestedPayload field => "`" ++ field ++ "` must be a scalar value"
  | .nullPayload field => "`" ++ field ++ "` cannot be null"
  | .missingPayload field => "missing required field `" ++ field ++ "`"
  | .note text => text

/-- What an operation reports instead of a result. -/
inductive Error where
  | malformed (cause : Malformed)
  | notFound (entity id : String)
  | storeFailure (message : String)
  | invalidSchema (detail : String)
  deriving DecidableEq

namespace Error

/-- The full wording. -/
def message : Error → String
  | .malformed cause => cause.message
  | .notFound entity id => entity ++ " with id " ++ id ++ " not found"
  | .storeFailure message => message
  | .invalidSchema detail => "invalid schema: " ++ detail

/-- The wording for callers, who are not shown the details of a schema. -/
def publicMessage : Error → String
  | .invalidSchema _ => "Internal server error"
  | e => e.message

/-- The status code of the answer. -/
def status : Error → Nat
  | .malformed _ => 400
  | .notFound _ _ => 404
  | .storeFailure _ => 400
  | .invalidSchema _ => 500

/-- The name of the answer's kind of error. -/
def name : Error → String
  | .malformed _ => "MalformedInput"
  | .notFound _ _ => "NotFound"
  | .storeFailure _ => "StoreFailure"
  | .invalidSchema _ => "InternalServerError"

end Error

/-- A result, or what was wrong with the input. -/
abbrev Checked (α : Type) := Except Malformed α

end RecordQuery
