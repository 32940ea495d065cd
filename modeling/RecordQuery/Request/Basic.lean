import RecordQuery.Coercion
import RecordQuery.Filter.Decode
import RecordQuery.Form.Brackets
import RecordQuery.Request.Page
import RecordQuery.Request.Relations
import RecordQuery.Request.SortKeys
/-!
# Requests

A `Request` is everything that a caller may say about a reading. It comes as a JSON object, whose
values stand as they are, or as a query string, whose search is typed by its texts. Members are read
in their order, and the first bad one is reported; unknown members are passed over.
-/

namespace RecordQuery

/-- What a caller asks for. -/
structure Request where
  relations : Option RelationNames := none
  exclude : Option String := none
  search : Option Filter := none
  sort : SortKeys := []
  page : Option Int64 := none
  pageSize : Option Int64 := none

namespace Request

/-- Whether the caller asks for a page. -/
def wantsPage (r : Request) : Bool := r.page.isSome || r.pageSize.isSome

/-- Reads a search, with `value` giving the tree of an object. -/
def searchOf (value : Json → Value) : Json → Checked (Option Filter)
  | .null => .ok none
  | .string s => if Text.trimmed s = "" then .ok none else (Filter.parse s).map some
  | .object members => (Filter.decode (value (.object members))).map some
  | json => .error (.searchShape json.compact)

/-- The texts of a list of exclusions. -/
def excludeItems : List Json → Checked (List String)
  | [] => .ok []
  | .string s :: items => (excludeItems items).map (s :: ·)
  | item :: _ => .error (.excludeEntry item.compact)

/-- Reads exclusions: a text, or a list of texts that stand between commas. -/
def excludeOf : Json → Checked (Option String)
  | .null => .ok none
  | .string s => .ok (some s)
  | .array items => (excludeItems items).map fun paths => some (",".intercalate paths)
  | json => .error (.excludeShape json.compact)

/-- Reads an integer: a number, or a text that spells one between blanks. -/
def integerOf (name : String) (json : Json) : Checked (Option Int64) :=
  let value := match json with
    | .number n => n.int64?
    | .string s => Text.Integer.int64? (Text.trim s.toList)
    | _ => none
  match json, value with
  | .null, _ => .ok none
  | _, some i => .ok (some i)
  | json, none => .error (.notInteger name json.compact)

/-- Adds what one member of the request's object says. -/
def add (value : Json → Value) (r : Request) (key : String) (json : Json) : Checked Request :=
  match key with
  | "relations" => (RelationNames.ofJson json).map fun names => { r with relations := some names }
  | "exclude" => (excludeOf json).map fun exclude => { r with exclude }
  | "search" => (searchOf value json).map fun search => { r with search }
  | "sort" => (SortKeys.ofJson json).map fun sort => { r with sort }
  | "page" => (integerOf "page" json).map fun page => { r with page }
  | "pageSize" => (integerOf "pageSize" json).map fun pageSize => { r with pageSize }
  | _ => .ok r

/-- Reads the members of a request's object. -/
def ofMembers (value : Json → Value) (members : Members) : Checked Request :=
  members.foldlM (fun r m => r.add value m.1 m.2) {}

/-- Reads a request from JSON; null asks for nothing in particular. -/
def ofJson : Json → Checked Request
  | .null => .ok {}
  | .object members => ofMembers Value.ofJson members
  | json => .error (.optionsShape json.compact)

/-- Reads a request from a query string. -/
def ofQueryString (query : String) : Checked Request := do
  ofMembers Coercion.normalize (← Form.read query)

end Request

end RecordQuery
