import RecordQuery.Calendar.Instant
import RecordQuery.Decimal.Layout
import RecordQuery.Json.Basic
/-!
# Values of a request

A `Scalar` is what a column can be compared with; a `Value` is a tree of scalars, in which objects
hold their keys once and in ascending order (`Value.Ordered`). JSON has no dates, so `Value.ofJson`
never gives one and `Value.toJson` writes one as text.
-/

namespace RecordQuery

/-- A value that a column can be compared with. -/
inductive Scalar where
  | null
  | bool (b : Bool)
  | int (i : Int64)
  | real (x : Binary64)
  | text (s : String)
  | date (t : Instant)
  deriving DecidableEq

/-- A tree of scalars. -/
inductive Value where
  | scalar (s : Scalar)
  | list (items : List Value)
  | object (entries : List (String × Value))

/-! ## Keys in ascending order -/

/-- Puts a value under a key of an ascending list: over the key's old value, or in the key's place. -/
def insertKey {α : Type} (key : String) (a : α) : List (String × α) → List (String × α)
  | [] => [(key, a)]
  | (k, b) :: entries =>
    if key < k then (key, a) :: (k, b) :: entries
    else if key = k then (key, a) :: entries
    else (k, b) :: insertKey key a entries

/-- The pairs by ascending key; of a repeated key the last value stays. -/
def sortKeys {α : Type} (pairs : List (String × α)) : List (String × α) :=
  pairs.foldl (fun entries p => insertKey p.1 p.2 entries) []

/-- Each key once, in ascending order. -/
def Ascending {α : Type} (entries : List (String × α)) : Prop :=
  (entries.map Prod.fst).Pairwise (· < ·)

theorem mem_keys_insertKey {α : Type} {key k : String} {a : α} {entries : List (String × α)}
    (h : k ∈ (insertKey key a entries).map Prod.fst) : k = key ∨ k ∈ entries.map Prod.fst := by
  induction entries with
  | nil => simpa [insertKey] using h
  | cons e entries ih =>
    obtain ⟨k', b⟩ := e
    simp only [insertKey] at h
    split at h
    · simpa using h
    · split at h
      · simp only [List.map_cons, List.mem_cons] at h ⊢
        exact h.elim Or.inl fun h => Or.inr (Or.inr h)
      · simp only [List.map_cons, List.mem_cons] at h ⊢
        exact h.elim (fun h => Or.inr (Or.inl h)) fun h => (ih h).elim Or.inl fun h => Or.inr (Or.inr h)

theorem ascending_insertKey {α : Type} {key : String} {a : α} {entries : List (String × α)}
    (h : Ascending entries) : Ascending (insertKey key a entries) := by
  induction entries with
  | nil => simp [insertKey, Ascending]
  | cons e entries ih =>
    obtain ⟨k, b⟩ := e
    simp only [Ascending, List.map_cons, List.pairwise_cons] at h
    obtain ⟨hk, hs⟩ := h
    simp only [insertKey]
    split
    next hlt =>
      simp only [Ascending, List.map_cons, List.pairwise_cons, List.mem_cons]
      refine ⟨fun k' hk' => ?_, hk, hs⟩
      rcases hk' with rfl | hk'
      · exact hlt
      · exact String.lt_trans hlt (hk _ hk')
    next hlt =>
      split
      next heq =>
        subst heq
        simpa only [Ascending, List.map_cons, List.pairwise_cons] using And.intro hk hs
      next hne =>
        have hgt : k < key := Decidable.byContradiction fun h =>
          hne (String.le_antisymm (String.not_lt.1 h) (String.not_lt.1 hlt))
        simp only [Ascending, List.map_cons, List.pairwise_cons]
        refine ⟨fun k' hk' => ?_, ih hs⟩
        rcases mem_keys_insertKey hk' with rfl | hk'
        · exact hgt
        · exact hk _ hk'

theorem ascending_sortKeys {α : Type} (pairs : List (String × α)) : Ascending (sortKeys pairs) := by
  suffices h : ∀ entries : List (String × α), Ascending entries →
      Ascending (pairs.foldl (fun entries p => insertKey p.1 p.2 entries) entries) from
    h [] (by simp [Ascending])
  induction pairs with
  | nil => exact fun _ h => h
  | cons p pairs ih => exact fun entries h => ih _ (ascending_insertKey h)

namespace Value

mutual

/-- Every object of the tree has its keys in ascending order. -/
def Ordered : Value → Prop
  | .scalar _ => True
  | .list items => OrderedItems items
  | .object entries => Ascending entries ∧ OrderedEntries entries

/-- Every object below the items has its keys in ascending order. -/
def OrderedItems : List Value → Prop
  | [] => True
  | item :: items => item.Ordered ∧ OrderedItems items

/-- Every object below the entries has its keys in ascending order. -/
def OrderedEntries : List (String × Value) → Prop
  | [] => True
  | (_, value) :: entries => value.Ordered ∧ OrderedEntries entries

end

/-! ## JSON -/

/-- A number keeps whether it is whole as long as it fits a signed word. -/
def ofNumber (n : Json.Number) : Scalar :=
  match n.int64? with
  | some i => .int i
  | none => .real n.binary64

mutual

/-- A JSON value as it stands: texts stay texts. -/
def ofJson : Json → Value
  | .null => .scalar .null
  | .bool b => .scalar (.bool b)
  | .number n => .scalar (ofNumber n)
  | .string s => .scalar (.text s)
  | .array items => .list (ofJsonItems items)
  | .object members => .object (sortKeys (ofJsonMembers members))

/-- The items of an array. -/
def ofJsonItems : List Json → List Value
  | [] => []
  | item :: items => ofJson item :: ofJsonItems items

/-- The members of an object, in their own order. -/
def ofJsonMembers : List (String × Json) → List (String × Value)
  | [] => []
  | (key, value) :: members => (key, ofJson value) :: ofJsonMembers members

end

theorem ofJsonItems_eq_map (items : List Json) : ofJsonItems items = items.map ofJson := by
  induction items with
  | nil => rfl
  | cons item items ih => rw [ofJsonItems, ih, List.map_cons]

theorem ofJsonMembers_eq_map (members : List (String × Json)) :
    ofJsonMembers members = members.map fun m => (m.1, ofJson m.2) := by
  induction members with
  | nil => rfl
  | cons m members ih => rw [ofJsonMembers, ih, List.map_cons]

/-- A scalar in JSON; a date becomes its stored text. -/
def scalarJson : Scalar → Json
  | .null => .null
  | .bool b => .bool b
  | .int i => .ofInt64 i
  | .real x => .ofBinary64 x
  | .text s => .string s
  | .date t => .string t.text

mutual

/-- A tree in JSON. -/
def toJson : Value → Json
  | .scalar s => scalarJson s
  | .list items => .array (toJsonItems items)
  | .object entries => .object (toJsonEntries entries)

/-- The items of a list. -/
def toJsonItems : List Value → List Json
  | [] => []
  | item :: items => item.toJson :: toJsonItems items

/-- The entries of an object. -/
def toJsonEntries : List (String × Value) → List (String × Json)
  | [] => []
  | (key, value) :: entries => (key, value.toJson) :: toJsonEntries entries

end

theorem toJsonItems_eq_map (items : List Value) : toJsonItems items = items.map toJson := by
  induction items with
  | nil => rfl
  | cons item items ih => rw [toJsonItems, ih, List.map_cons]

theorem toJsonEntries_eq_map (entries : List (String × Value)) :
    toJsonEntries entries = entries.map fun e => (e.1, e.2.toJson) := by
  induction entries with
  | nil => rfl
  | cons e entries ih => rw [toJsonEntries, ih, List.map_cons]

/-! ## Kinds -/

/-- The name of a value's kind in messages. -/
def kind : Value → String
  | .scalar .null => "null"
  | .scalar (.bool _) => "boolean"
  | .scalar (.int _) => "number"
  | .scalar (.real _) => "number"
  | .scalar (.text _) => "string"
  | .scalar (.date _) => "date"
  | .list _ => "array"
  | .object _ => "object"

/-- Whether the value is an object. -/
def isObject : Value → Bool
  | .object _ => true
  | _ => false

/-- The scalar, if the tree is one. -/
def scalar? : Value → Option Scalar
  | .scalar s => some s
  | _ => none

end Value

namespace Scalar

/-- Whether the scalar is null. -/
def isNull : Scalar → Bool
  | .null => true
  | _ => false

/-- The scalar that a JSON leaf gives. -/
def ofJson? (json : Json) : Option Scalar :=
  (Value.ofJson json).scalar?

/-- The scalar in JSON. -/
def toJson (s : Scalar) : Json := Value.scalarJson s

/-- The scalar as plain text, as patterns and messages hold it. -/
def display : Scalar → String
  | .null => "null"
  | .bool true => "true"
  | .bool false => "false"
  | .int i => toString i.toInt
  | .real x => x.text
  | .text s => s
  | .date t => t.text

end Scalar

end RecordQuery
