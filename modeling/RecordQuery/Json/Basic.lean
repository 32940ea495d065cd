import RecordQuery.Decimal.Binary64
/-!
# JSON values

Objects keep their members in the order of insertion and hold a key once. `Members` is the view of an
object as a list of pairs, with `get?`, `insert` (in place, or at the end for a new key) and `erase`.
The main statements say what a look-up finds after each of them.
-/

namespace RecordQuery

/-- Numbers keep how they were written: as an integer that fits a signed word, as a larger one that
fits an unsigned word, or as a double. -/
inductive Json.Number where
  | integer (i : Int64)
  | large (n : UInt64)
  | real (x : Binary64)
  deriving DecidableEq

/-- A JSON value. -/
inductive Json where
  | null
  | bool (b : Bool)
  | number (n : Json.Number)
  | string (s : String)
  | array (items : List Json)
  | object (members : List (String × Json))
  deriving Inhabited

/-- The members of an object. -/
abbrev Members := List (String × Json)

namespace Members

/-- The value under a key. -/
def get? (ms : Members) (key : String) : Option Json :=
  ms.lookup key

/-- Puts a value under a key: in the key's place if it is there, else at the end. -/
def insert : Members → String → Json → Members
  | [], key, value => [(key, value)]
  | (k, v) :: ms, key, value =>
    if k = key then (k, value) :: ms else (k, v) :: insert ms key value

/-- Removes a key. -/
def erase (ms : Members) (key : String) : Members :=
  ms.filter fun m => m.1 != key

/-- Puts all members of the second object over the first. -/
def merge (ms patch : Members) : Members :=
  patch.foldl (fun ms m => insert ms m.1 m.2) ms

/-- Whether the object holds a key. -/
def has (ms : Members) (key : String) : Bool :=
  ms.any fun m => m.1 == key

/-- The members in the order given, where a repeated key keeps its first place and its last value. -/
def ofList (pairs : List (String × Json)) : Members :=
  merge [] pairs

@[simp] theorem get?_nil (key : String) : get? [] key = none := rfl

theorem get?_cons (k : String) (v : Json) (ms : Members) (key : String) :
    get? ((k, v) :: ms) key = if key = k then some v else get? ms key := by
  have h : get? ((k, v) :: ms) key = bif key == k then some v else get? ms key := by
    change (match key == k with | true => some v | false => get? ms key) = _
    cases key == k <;> rfl
  rw [h]
  by_cases hk : key = k
  · simp [hk]
  · simp [beq_false_of_ne hk, hk]

theorem get?_insert (ms : Members) (key : String) (value : Json) (k : String) :
    get? (insert ms key value) k = if k = key then some value else get? ms k := by
  induction ms with
  | nil => by_cases h : k = key <;> simp [insert, get?_cons, h]
  | cons m ms ih =>
    obtain ⟨k', v'⟩ := m
    unfold insert
    split
    next h =>
      subst h
      by_cases hk : k = k' <;> simp [get?_cons, hk]
    next h =>
      by_cases hk : k = k'
      · subst hk
        simp [get?_cons, h]
      · simp [get?_cons, hk, ih]

theorem get?_erase (ms : Members) (key k : String) :
    get? (erase ms key) k = if k = key then none else get? ms k := by
  induction ms with
  | nil => simp [erase]
  | cons m ms ih =>
    obtain ⟨k', v'⟩ := m
    unfold erase at ih ⊢
    by_cases hk' : k' = key
    · subst hk'
      by_cases hk : k = k' <;> simp_all [get?_cons]
    · by_cases hk : k = k'
      · subst hk
        simp [get?_cons, hk']
      · simp [get?_cons, hk, hk', ih]

end Members

namespace Json

/-- An integer as a JSON value. -/
def ofInt64 (i : Int64) : Json := .number (.integer i)

/-- A double as a JSON value; JSON has no infinities and no NaN, so they become null. -/
def ofBinary64 (x : Binary64) : Json := if x.isFinite then .number (.real x) else .null

/-- Whether the value is null. -/
def isNull : Json → Bool
  | .null => true
  | _ => false

/-- The number as an integer, if it was written as one that fits a signed word. -/
def Number.int64? : Number → Option Int64
  | .integer i => some i
  | _ => none

/-- The number as a double. -/
def Number.binary64 : Number → Binary64
  | .integer i => Binary64.ofInt i.toInt
  | .large n => Binary64.ofInt n.toNat
  | .real x => x

end Json

end RecordQuery
