import RecordQuery.Proofs.Form.Typing
import RecordQuery.Request.Basic
/-!
# Requests as query strings

A request may come as a JSON object or as a query string. `Request.ofQueryString_encode` says that the two agree: if
the object can be read, the query string that spells it in brackets is read as the same request.

The query string tells every leaf as a text. Each member of the request reads its texts as it reads its leaves
(`Request.add_worded`): names of relations and exclusions are texts anyway, a direction and a page are also read from
the text of their integer, and a search is typed by what its texts spell.
-/

namespace RecordQuery

open Outcome Json

/-! ## Names -/

/-- Texts in a list are told as they are. -/
theorem Json.wordedItems_texts {items : List Json} (h : ∀ item ∈ items, ∃ s, item = .string s) :
    wordedItems items = items := by
  induction items with
  | nil => rfl
  | cons item items ih =>
    obtain ⟨⟨s, rfl⟩, hrest⟩ := List.forall_mem_cons.1 h
    rw [wordedItems, ih hrest]
    rfl

/-- What reads a list item by item, and of the items reads texts only, has read texts. -/
theorem Json.texts_of_itemwise {ε : Type} {read : List Json → Except ε (List String)}
    (hstep : ∀ item items paths, read (item :: items) = .ok paths →
      (∃ s, item = .string s) ∧ ∃ rest, read items = .ok rest)
    {items : List Json} {paths : List String} (h : read items = .ok paths) : ∀ item ∈ items, ∃ s, item = .string s := by
  induction items generalizing paths with
  | nil => exact fun _ hi => nomatch hi
  | cons item items ih =>
    obtain ⟨htext, rest, hrest⟩ := hstep item items paths h
    exact List.forall_mem_cons.2 ⟨htext, ih hrest⟩

theorem Json.keys_wordedMembers (members : List (String × Json)) :
    (wordedMembers members).map Prod.fst = members.map Prod.fst := by
  induction members with
  | nil => rfl
  | cons m members ih => rw [wordedMembers, List.map_cons, List.map_cons, ih]

namespace RelationNames

theorem texts_of_items {items : List Json} {paths : List String} (h : ofItems items = .ok paths) :
    ∀ item ∈ items, ∃ s, item = .string s := by
  refine Json.texts_of_itemwise (fun item items paths h => ?_) h
  cases item with
  | string s => exact ⟨⟨s, rfl⟩, (map_eq_ok_iff.1 h).imp fun _ => And.left⟩
  | _ => cases h

/-- Relations are named by texts, or by keys alone. -/
theorem ofJson_worded {json : Json} {names : RelationNames} (hnull : json ≠ .null) (h : ofJson json = .ok names) :
    ofJson json.worded = .ok names := by
  cases json with
  | null => exact absurd rfl hnull
  | bool b => cases h
  | number n => cases h
  | string s => exact h
  | array items =>
    obtain ⟨paths, hpaths, -⟩ := map_eq_ok_iff.1 h
    rw [worded, wordedItems_texts (texts_of_items hpaths)]
    exact h
  | object members =>
    rw [worded, ofJson, keys_wordedMembers]
    exact h

end RelationNames

/-! ## Directions -/

/-- A direction is also read from the text of its integer. -/
theorem Direction.ofJson?_leafText {json : Json} {d : Direction} (h : ofJson? json = some d) :
    ofJson? (.string json.leafText) = some d := by
  cases json with
  | string s => exact h
  | number n =>
    cases n with
    | integer i =>
      rw [ofJson?] at h
      split at h
      · next hone =>
        obtain rfl := Option.some.inj hone
        obtain rfl := Option.some.inj h
        decide
      split at h
      · next hone =>
        obtain rfl := Option.some.inj hone
        obtain rfl := Option.some.inj h
        decide
      · cases h
    | _ => cases h
  | _ => cases h

namespace SortKeys

/-- A leaf is a direction. -/
theorem ofValue_leaf {path : String} {json : Json} (h : ∀ members, json ≠ .object members) {keys : SortKeys} :
    ofValue path json = .ok keys ↔ ∃ d, Direction.ofJson? json = some d ∧ keys = [(path, d)] := by
  rw [ofValue]
  · cases Direction.ofJson? json <;> simp [eq_comm]
  · exact h

/-- A leaf that is read is told as a text. -/
theorem ofValue_leafText {path : String} {json : Json} (h : ∀ members, json ≠ .object members) {keys : SortKeys}
    (hread : ofValue path json = .ok keys) {told : Json} (htold : told = .string json.leafText) :
    ofValue path told = .ok keys := by
  rw [htold]
  obtain ⟨d, hd, rfl⟩ := (ofValue_leaf h).1 hread
  exact (ofValue_leaf (by simp)).2 ⟨d, Direction.ofJson?_leafText hd, rfl⟩

mutual

theorem ofValue_worded (path : String) : ∀ (json : Json) {keys : SortKeys}, ofValue path json = .ok keys →
    ofValue path json.worded = .ok keys
  | .object members => by
    intro h
    rw [ofValue] at h
    rw [worded, ofValue]
    exact ofMembers_worded path members h
  | .array _ => by
    intro h
    obtain ⟨d, hd, -⟩ := (ofValue_leaf (by simp)).1 h
    simp [Direction.ofJson?] at hd
  | .null => fun h => ofValue_leafText (by simp) h rfl
  | .bool _ => fun h => ofValue_leafText (by simp) h rfl
  | .string _ => fun h => ofValue_leafText (by simp) h rfl
  | .number _ => fun h => ofValue_leafText (by simp) h rfl

theorem ofMembers_worded (path : String) : ∀ (members : List (String × Json)) {keys : SortKeys},
    ofMembers path members = .ok keys → ofMembers path (wordedMembers members) = .ok keys
  | [] => id
  | (key, value) :: members => by
    intro h
    rw [ofMembers] at h
    obtain ⟨first, hfirst, h⟩ := bind_eq_ok_iff.1 h
    obtain ⟨rest, hrest, h⟩ := bind_eq_ok_iff.1 h
    rw [wordedMembers, ofMembers, ofValue_worded _ value hfirst, ofMembers_worded path members hrest]
    exact h

end

theorem ofJson_worded {json : Json} {keys : SortKeys} (hnull : json ≠ .null) (h : ofJson json = .ok keys) :
    ofJson json.worded = .ok keys := by
  cases json with
  | null => exact absurd rfl hnull
  | string s => exact h
  | object members => exact ofMembers_worded _ members h
  | _ => cases h

end SortKeys

/-! ## Members -/

namespace Request

theorem texts_of_excludeItems {items : List Json} {paths : List String} (h : excludeItems items = .ok paths) :
    ∀ item ∈ items, ∃ s, item = .string s := by
  refine Json.texts_of_itemwise (fun item items paths h => ?_) h
  cases item with
  | string s => exact ⟨⟨s, rfl⟩, (map_eq_ok_iff.1 h).imp fun _ => And.left⟩
  | _ => cases h

theorem excludeOf_worded {json : Json} {exclude : Option String} (hnull : json ≠ .null)
    (h : excludeOf json = .ok exclude) : excludeOf json.worded = .ok exclude := by
  cases json with
  | null => exact absurd rfl hnull
  | string s => exact h
  | array items =>
    obtain ⟨paths, hpaths, -⟩ := map_eq_ok_iff.1 h
    rw [worded, wordedItems_texts (texts_of_excludeItems hpaths)]
    exact h
  | _ => cases h

/-- An integer is also read from its text. -/
theorem integerOf_worded {name : String} {json : Json} {i : Option Int64} (hnull : json ≠ .null)
    (h : integerOf name json = .ok i) : integerOf name json.worded = .ok i := by
  cases json with
  | null => exact absurd rfl hnull
  | string s => exact h
  | number n =>
    cases n with
    | integer j =>
      obtain rfl := Except.ok.inj h
      have hread : Text.Integer.int64? (Text.trim (leafText (.number (.integer j))).toList) = some j :=
        Text.Integer.int64?_trim_repr j
      simp only [worded, integerOf, hread]
    | _ => cases h
  | _ => cases h

/-- A search that can be read and whose leaves are plain is typed by its texts. -/
theorem searchOf_worded {search : Members} {filter : Option Filter} (hplain : ArePlainMembers search)
    (hspelled : (Json.object search).IsSpelled) (h : searchOf Value.ofJson (.object search) = .ok filter) :
    searchOf Coercion.normalize (Json.object search).worded = .ok filter := by
  obtain ⟨f, hf, -⟩ := map_eq_ok_iff.1 h
  have hplain : (Json.object search).IsPlain "search" := by
    rw [IsPlain]
    exact hplain
  have hvalue := Coercion.normalize_worded hplain hspelled (Filter.Takes.filter hf)
  rw [worded] at hvalue ⊢
  rw [searchOf, hvalue]
  exact h

/-- The names of a request's members. -/
def memberNames : List String := ["relations", "exclude", "search", "sort", "page", "pageSize"]

/-- A request's object that a query string can spell: its members are known and each there once, none is null, its
objects and arrays can be told in brackets, and its search is an object with plain leaves. -/
structure IsTextual (members : Members) : Prop where
  keys : (members.map Prod.fst).Nodup
  known : ∀ m ∈ members, m.1 ∈ memberNames
  spelled : ∀ m ∈ members, m.2.IsSpelled
  present : ∀ m ∈ members, m.2 ≠ .null
  search : ∀ value, ("search", value) ∈ members → ∃ search, value = .object search ∧ ArePlainMembers search

/-- A member says the same when its leaves are told as texts. -/
theorem add_worded {r r' : Request} {key : String} {json : Json} (hspelled : json.IsSpelled) (hnull : json ≠ .null)
    (hsearch : key = "search" → ∃ search, json = .object search ∧ ArePlainMembers search)
    (h : r.add Value.ofJson key json = .ok r') : r.add Coercion.normalize key json.worded = .ok r' := by
  unfold add at h ⊢
  split at h
  · obtain ⟨names, hnames, rfl⟩ := map_eq_ok_iff.1 h
    exact map_eq_ok_iff.2 ⟨names, RelationNames.ofJson_worded hnull hnames, rfl⟩
  · obtain ⟨exclude, hexclude, rfl⟩ := map_eq_ok_iff.1 h
    exact map_eq_ok_iff.2 ⟨exclude, excludeOf_worded hnull hexclude, rfl⟩
  · obtain ⟨filter, hfilter, rfl⟩ := map_eq_ok_iff.1 h
    obtain ⟨search, rfl, hplain⟩ := hsearch rfl
    exact map_eq_ok_iff.2 ⟨filter, searchOf_worded hplain hspelled hfilter, rfl⟩
  · obtain ⟨sort, hsort, rfl⟩ := map_eq_ok_iff.1 h
    exact map_eq_ok_iff.2 ⟨sort, SortKeys.ofJson_worded hnull hsort, rfl⟩
  · obtain ⟨page, hpage, rfl⟩ := map_eq_ok_iff.1 h
    exact map_eq_ok_iff.2 ⟨page, integerOf_worded hnull hpage, rfl⟩
  · obtain ⟨size, hsize, rfl⟩ := map_eq_ok_iff.1 h
    exact map_eq_ok_iff.2 ⟨size, integerOf_worded hnull hsize, rfl⟩
  · exact h

theorem foldlM_add_worded {members : Members} {r x : Request} (hspelled : ∀ m ∈ members, m.2.IsSpelled)
    (hnull : ∀ m ∈ members, m.2 ≠ .null)
    (hsearch : ∀ value, ("search", value) ∈ members → ∃ search, value = .object search ∧ ArePlainMembers search)
    (h : members.foldlM (fun r m => r.add Value.ofJson m.1 m.2) r = .ok x) :
    (wordedMembers members).foldlM (fun r m => r.add Coercion.normalize m.1 m.2) r = .ok x := by
  induction members generalizing r with
  | nil => exact h
  | cons m members ih =>
    obtain ⟨key, json⟩ := m
    rw [List.foldlM_cons] at h
    obtain ⟨next, hnext, h⟩ := bind_eq_ok_iff.1 h
    obtain ⟨hfirst, hspelled⟩ := List.forall_mem_cons.1 hspelled
    obtain ⟨hpresent, hnull⟩ := List.forall_mem_cons.1 hnull
    rw [wordedMembers, List.foldlM_cons]
    refine bind_eq_ok_iff.2 ⟨next, add_worded hfirst hpresent ?_ hnext, ih hspelled hnull ?_ h⟩
    · rintro rfl
      exact hsearch json List.mem_cons_self
    · exact fun value hvalue => hsearch value (List.mem_cons_of_mem _ hvalue)

/-- The names of a request's members are keys, and have no brackets. -/
theorem key_of_memberNames {name : String} (h : name ∈ memberNames) :
    Json.IsSpelled.Key name ∧ '[' ∉ name.toList := by
  simp only [memberNames, List.mem_cons, List.not_mem_nil, or_false] at h
  rcases h with rfl | rfl | rfl | rfl | rfl | rfl <;>
    exact ⟨⟨by decide, by decide, by decide⟩, by decide⟩

theorem areSpelledMembers_of_forall {members : Members} (hkeys : ∀ m ∈ members, Json.IsSpelled.Key m.1)
    (h : ∀ m ∈ members, m.2.IsSpelled) : AreSpelledMembers members := by
  induction members with
  | nil => trivial
  | cons m members ih =>
    rw [List.forall_mem_cons] at hkeys h
    exact ⟨hkeys.1, h.1, ih hkeys.2 h.2⟩

/-- A request is read the same from its object and from the query string that spells it. -/
theorem ofQueryString_encode {members : Members} {x : Request} (h : ofJson (.object members) = .ok x)
    (hm : IsTextual members) : ofQueryString (Form.encode (Form.parameters members)) = .ok x := by
  have hnames : ∀ m ∈ members, Json.IsSpelled.Key m.1 ∧ '[' ∉ m.1.toList := fun m hmem =>
    key_of_memberNames (hm.known m hmem)
  have hspelled := areSpelledMembers_of_forall (fun m hmem => (hnames m hmem).1) hm.spelled
  rw [ofQueryString, Form.read_encode_parameters hm.keys hspelled fun m hmem => (hnames m hmem).2]
  exact foldlM_add_worded hm.spelled hm.present hm.search h

end Request

namespace Demo.Shop

/-- What a caller may ask of the products. -/
def request : Members :=
  [("relations", .array [.string "category", .string "creator"]),
    ("exclude", .string "description, category.parentId"),
    ("search", .object [("or", .array [
      .object [("name", .object [("like", .string "%10% off & more%")])],
      .object [("photoId", .object [("in", .array [.string "7", .string "08"])])],
      .object [("category", .object [("parentId", .null), ("id", .number (.integer (-3)))])],
      .object [("not", .object [("inStock", .bool true)])]])]),
    ("sort", .object [("category", .object [("name", .string "desc")]), ("id", .number (.integer 1))]),
    ("page", .number (.integer 2)),
    ("pageSize", .string " 25 ")]

end Demo.Shop

open Demo in
theorem Request.ofQueryString_encode_shop :
    ∃ x, Request.ofJson (.object Shop.request) = .ok x ∧ Request.IsTextual Shop.request ∧
      Request.ofQueryString (Form.encode (Form.parameters Shop.request)) = .ok x := by
  obtain ⟨x, hx⟩ : ∃ x, Request.ofJson (.object Shop.request) = .ok x := ⟨_, rfl⟩
  have htextual : Request.IsTextual Shop.request := {
    keys := by decide
    known := by decide
    spelled := by
      simp [Shop.request, IsSpelled, AreSpelledMembers, AreSpelledItems, Json.IsSpelled.Key]
      decide
    present := by simp [Shop.request]
    search := by
      rintro value hvalue
      simp [Shop.request] at hvalue
      exact ⟨_, hvalue, by simp [IsPlain, ArePlainMembers, ArePlainItems]; decide⟩ }
  exact ⟨x, hx, htextual, Request.ofQueryString_encode hx htextual⟩

end RecordQuery
