import RecordQuery.Proofs.Form.Numbering
/-!
# Spelling JSON in brackets

`Json.parameters` spells a value as parameters: one for each leaf, in document order, whose name goes from key to
key and from item to item in brackets. `Form.read_encode_parameters` reads them back: an object whose keys can
stand in brackets gives the same object with its leaves as texts (`Json.worded`). The items of its arrays are
numbered by their places (`Json.numbered`).
-/

namespace RecordQuery

open Form (Numbered)

namespace Json

/-! ## Spelling -/

/-- The text of a leaf. -/
def leafText : Json → String
  | .string s => s
  | json => json.compact

mutual

/-- The value with its leaves as texts. -/
def worded : Json → Json
  | .object members => .object (wordedMembers members)
  | .array items => .array (wordedItems items)
  | json => .string json.leafText

def wordedMembers : List (String × Json) → List (String × Json)
  | [] => []
  | (key, value) :: members => (key, value.worded) :: wordedMembers members

def wordedItems : List Json → List Json
  | [] => []
  | item :: items => item.worded :: wordedItems items

end

mutual

/-- The parameters that spell a value under a name. -/
def parameters (name : String) : Json → List (String × String)
  | .object members => memberParameters name members
  | .array items => itemParameters name 0 items
  | json => [(name, json.leafText)]

/-- The parameters of an object's members. -/
def memberParameters (name : String) : List (String × Json) → List (String × String)
  | [] => []
  | (key, value) :: members => parameters (bracketed name key) value ++ memberParameters name members

/-- The parameters of an array's items from a number on. -/
def itemParameters (name : String) (n : Nat) : List Json → List (String × String)
  | [] => []
  | item :: items => parameters (bracketed name (toString n)) item ++ itemParameters name (n + 1) items

end

mutual

/-- Whether brackets can spell a value: its objects and arrays are not empty, and its keys are told apart and can
stand in brackets. No array is longer than a machine can count. -/
def IsSpelled : Json → Prop
  | .object members => members ≠ [] ∧ (members.map Prod.fst).Nodup ∧ AreSpelledMembers members
  | .array items => items ≠ [] ∧ items.length ≤ 2 ^ 64 ∧ AreSpelledItems items
  | _ => True

def AreSpelledMembers : List (String × Json) → Prop
  | [] => True
  | (key, value) :: members => IsSpelled.Key key ∧ value.IsSpelled ∧ AreSpelledMembers members

def AreSpelledItems : List Json → Prop
  | [] => True
  | item :: items => item.IsSpelled ∧ AreSpelledItems items

end

/-! ## Numbers -/

mutual

/-- The value with its leaves as texts and its items numbered by their places. -/
def numbered : Json → Numbered
  | .object members => .object (numberedMembers members)
  | .array items => .list (numberedItems 0 items)
  | json => .text json.leafText

def numberedMembers : List (String × Json) → List (String × Numbered)
  | [] => []
  | (key, value) :: members => (key, value.numbered) :: numberedMembers members

def numberedItems (n : Nat) : List Json → List (Nat × Numbered)
  | [] => []
  | item :: items => (n, item.numbered) :: numberedItems (n + 1) items

end

mutual

theorem json_numbered : ∀ json : Json, json.numbered.json = json.worded
  | .object members => by rw [numbered, Numbered.json, worded, json_numberedMembers]
  | .array items => by rw [numbered, Numbered.json, worded, json_numberedItems]
  | .null => rfl
  | .bool _ => rfl
  | .number _ => rfl
  | .string _ => rfl

theorem json_numberedMembers : ∀ members : List (String × Json),
    Numbered.jsonMembers (numberedMembers members) = wordedMembers members
  | [] => rfl
  | (key, value) :: members => by
    rw [numberedMembers, Numbered.jsonMembers, wordedMembers, json_numbered, json_numberedMembers]

theorem json_numberedItems : ∀ (n : Nat) (items : List Json),
    Numbered.jsonItems (numberedItems n items) = wordedItems items
  | _, [] => rfl
  | n, item :: items => by
    rw [numberedItems, Numbered.jsonItems, wordedItems, json_numbered, json_numberedItems]

end

mutual

theorem parameters_numbered : ∀ (name : String) (json : Json), json.numbered.parameters name = json.parameters name
  | name, .object members => by rw [numbered, Numbered.parameters, parameters, parameters_numberedMembers]
  | name, .array items => by rw [numbered, Numbered.parameters, parameters, parameters_numberedItems]
  | _, .null => rfl
  | _, .bool _ => rfl
  | _, .number _ => rfl
  | _, .string _ => rfl

theorem parameters_numberedMembers : ∀ (name : String) (members : List (String × Json)),
    Numbered.memberParameters name (numberedMembers members) = memberParameters name members
  | _, [] => rfl
  | name, (key, value) :: members => by
    rw [numberedMembers, Numbered.memberParameters, memberParameters, parameters_numbered, parameters_numberedMembers]

theorem parameters_numberedItems : ∀ (name : String) (n : Nat) (items : List Json),
    Numbered.itemParameters name (numberedItems n items) = itemParameters name n items
  | _, _, [] => rfl
  | name, n, item :: items => by
    rw [numberedItems, Numbered.itemParameters, itemParameters, parameters_numbered, parameters_numberedItems]

end

theorem keys_numberedMembers (members : List (String × Json)) :
    (numberedMembers members).map Prod.fst = members.map Prod.fst := by
  induction members with
  | nil => rfl
  | cons m members ih => rw [numberedMembers, List.map_cons, List.map_cons, ih]

theorem numbers_numberedItems (n : Nat) (items : List Json) :
    (numberedItems n items).map Prod.fst = List.range' n items.length := by
  induction items generalizing n with
  | nil => rfl
  | cons item items ih => rw [numberedItems, List.map_cons, ih, List.length_cons, List.range'_succ]

mutual

theorem isSpelled_numbered : ∀ {json : Json}, json.IsSpelled → json.numbered.IsSpelled
  | .object members, h => by
    rw [IsSpelled] at h
    rw [numbered, Numbered.IsSpelled, keys_numberedMembers]
    exact ⟨fun hnil => h.1 (by simpa [hnil] using (keys_numberedMembers members).symm), h.2.1,
      areSpelled_numberedMembers h.2.2⟩
  | .array items, h => by
    rw [IsSpelled] at h
    rw [numbered, Numbered.IsSpelled, numbers_numberedItems]
    exact ⟨fun hnil => h.1 (by simpa [hnil] using (numbers_numberedItems 0 items).symm), List.pairwise_lt_range',
      areSpelled_numberedItems (by rw [Nat.zero_add]; exact h.2.1) h.2.2⟩
  | .null, _ => True.intro
  | .bool _, _ => True.intro
  | .number _, _ => True.intro
  | .string _, _ => True.intro

theorem areSpelled_numberedMembers : ∀ {members : List (String × Json)}, AreSpelledMembers members →
    Numbered.AreSpelledMembers (numberedMembers members)
  | [], _ => True.intro
  | (_, _) :: _, ⟨hkey, hvalue, hmembers⟩ =>
    ⟨hkey, isSpelled_numbered hvalue, areSpelled_numberedMembers hmembers⟩

theorem areSpelled_numberedItems : ∀ {items : List Json} {n : Nat}, n + items.length ≤ 2 ^ 64 →
    AreSpelledItems items → Numbered.AreSpelledItems (numberedItems n items)
  | [], _, _, _ => True.intro
  | item :: items, n, hlength, ⟨hitem, hitems⟩ => by
    rw [List.length_cons] at hlength
    exact ⟨by omega, isSpelled_numbered hitem, areSpelled_numberedItems (by omega) hitems⟩

end

end Json

/-! ## Parameters read back -/

namespace Form

/-- The parameters that spell the members of an object, each under its own key. -/
def parameters (members : Members) : List (String × String) :=
  members.flatMap fun m => m.2.parameters m.1

theorem spelling_numbered (members : Members) :
    Numbered.spelling (Json.numberedMembers members) = parameters members := by
  induction members with
  | nil => rfl
  | cons m members ih =>
    rw [Json.numberedMembers, Numbered.spelling, List.flatMap_cons, Json.parameters_numbered]
    exact congrArg _ ih

theorem isDocument_numbered {members : Members} (hkeys : (members.map Prod.fst).Nodup)
    (h : Json.AreSpelledMembers members) (hopen : ∀ m ∈ members, '[' ∉ m.1.toList) :
    Numbered.IsDocument (Json.numberedMembers members) := by
  refine ⟨?_, by rwa [Json.keys_numberedMembers], Numbered.isSpelled_of_mem (Json.areSpelled_numberedMembers h)⟩
  induction members with
  | nil => simp [Json.numberedMembers]
  | cons m members ih =>
    obtain ⟨⟨hne, -, hindex⟩, -, hmembers⟩ := h
    obtain ⟨hfirst, hrest⟩ := List.forall_mem_cons.1 hopen
    rw [List.map_cons, List.nodup_cons] at hkeys
    exact List.forall_mem_cons.2 ⟨⟨hne, hfirst, hindex⟩, ih hkeys.2 hmembers hrest⟩

/-- An object whose keys can stand in brackets is read back from its parameters, with its leaves as texts. -/
theorem read_encode_parameters {members : Members} (hkeys : (members.map Prod.fst).Nodup)
    (h : Json.AreSpelledMembers members) (hopen : ∀ m ∈ members, '[' ∉ m.1.toList) :
    read (encode (parameters members)) = .ok (Json.wordedMembers members) := by
  rw [← spelling_numbered, Numbered.read_encode_spelling (isDocument_numbered hkeys h hopen),
    Json.json_numberedMembers]

end Form

end RecordQuery
