import RecordQuery.Proofs.Calendar.Selection
import RecordQuery.Proofs.Form.Displays
/-!
# Typing texts again

A tree whose texts have been typed can be written in JSON and typed again. It is what it was, but for what moments
lose in their texts (`Coercion.normalize_again`).

`Value.IsTyped` tells the trees that typing gives, by the places that it reaches: the leaves and objects below objects,
and the objects in lists. Every tree that is typed is one (`Coercion.isTyped_normalize`), and each of them is typed as
itself (`Coercion.normalize_toJson`). Both are inductions along these places; what typing passes over is given back by
JSON as it is (`Value.isPlain_ofJson`).
-/

namespace RecordQuery

/-! ## Trees -/

/-- The numbers of JSON: there are no infinities, and NaN is none. -/
inductive Json.HasFiniteNumbers : Json → Prop
  | null : HasFiniteNumbers .null
  | bool (b : Bool) : HasFiniteNumbers (.bool b)
  | integer (i : Int64) : HasFiniteNumbers (.number (.integer i))
  | large (n : UInt64) : HasFiniteNumbers (.number (.large n))
  | real {x : Binary64} (h : x.isFinite) : HasFiniteNumbers (.number (.real x))
  | string (s : String) : HasFiniteNumbers (.string s)
  | array {items : List Json} (h : ∀ item ∈ items, HasFiniteNumbers item) : HasFiniteNumbers (.array items)
  | object {members : List (String × Json)} (h : ∀ m ∈ members, HasFiniteNumbers m.2) :
    HasFiniteNumbers (.object members)

namespace Json

@[simp] theorem hasFiniteNumbers_string (s : String) : HasFiniteNumbers (.string s) := .string s

@[simp] theorem hasFiniteNumbers_array {items : List Json} :
    HasFiniteNumbers (.array items) ↔ ∀ item ∈ items, HasFiniteNumbers item :=
  ⟨fun | .array h => h, .array⟩

@[simp] theorem hasFiniteNumbers_object {members : List (String × Json)} :
    HasFiniteNumbers (.object members) ↔ ∀ m ∈ members, HasFiniteNumbers m.2 :=
  ⟨fun | .object h => h, .object⟩

end Json

namespace Scalar

/-- A scalar without what is finer than a millisecond. -/
def truncated : Scalar → Scalar
  | .date t => .date t.truncated
  | s => s

/-- Whether a scalar is typed as itself: a text that spells nothing else, and a number that JSON has. -/
def IsSettled : Scalar → Prop
  | .text s => Coercion.coerce s = .text s
  | .real x => x.isFinite
  | _ => True

end Scalar

namespace Value

mutual

/-- A tree without what is finer than a millisecond. -/
def truncated : Value → Value
  | .scalar s => .scalar s.truncated
  | .list items => .list (truncatedItems items)
  | .object entries => .object (truncatedEntries entries)

def truncatedItems : List Value → List Value
  | [] => []
  | item :: items => item.truncated :: truncatedItems items

def truncatedEntries : List (String × Value) → List (String × Value)
  | [] => []
  | (key, value) :: entries => (key, value.truncated) :: truncatedEntries entries

end

/-- Whether a scalar stands anywhere in a tree. -/
inductive Holds : Value → Scalar → Prop
  | scalar (s : Scalar) : Holds (.scalar s) s
  | item {items : List Value} {item : Value} {s : Scalar} (hitem : item ∈ items) (h : Holds item s) :
    Holds (.list items) s
  | entry {entries : List (String × Value)} {e : String × Value} {s : Scalar} (he : e ∈ entries) (h : Holds e.2 s) :
    Holds (.object entries) s

/-- Whether JSON gives a tree back as it is. -/
def IsPlain (v : Value) : Prop := ofJson v.toJson = v ∧ v.truncated = v

/-- The trees that typing gives. The leaves that it reaches are typed as themselves. It reaches the objects in a list,
and passes over its other items, lists included. No entry of an object that it reaches stands for an absent one. -/
inductive IsTyped : Value → Prop
  | scalar {s : Scalar} (h : s.IsSettled) : IsTyped (.scalar s)
  | list {items : List Value} (hobjects : ∀ item ∈ items, item.isObject = true → IsTyped item)
      (hothers : ∀ item ∈ items, item.isObject = false → item.IsPlain) : IsTyped (.list items)
  | object {entries : List (String × Value)} (hascending : Ascending entries)
      (hpresent : ∀ e ∈ entries, e.2 ≠ .scalar (.text "undefined")) (hentries : ∀ e ∈ entries, IsTyped e.2) :
      IsTyped (.object entries)

variable {v : Value} {items : List Value} {entries : List (String × Value)} {json : Json}

@[simp] theorem holds_scalar {x y : Scalar} : Holds (.scalar x) y ↔ y = x :=
  ⟨fun h => by cases h; rfl, fun h => h ▸ .scalar x⟩

@[simp] theorem holds_list {s : Scalar} : Holds (.list items) s ↔ ∃ item ∈ items, Holds item s :=
  ⟨fun | .item hitem h => ⟨_, hitem, h⟩, fun ⟨_, hitem, h⟩ => .item hitem h⟩

@[simp] theorem holds_object {s : Scalar} : Holds (.object entries) s ↔ ∃ e ∈ entries, Holds e.2 s :=
  ⟨fun | .entry he h => ⟨_, he, h⟩, fun ⟨_, he, h⟩ => .entry he h⟩

theorem truncatedItems_eq_map (items : List Value) : truncatedItems items = items.map truncated := by
  induction items with
  | nil => rfl
  | cons item items ih => rw [truncatedItems, ih, List.map_cons]

theorem truncatedEntries_eq_map (entries : List (String × Value)) :
    truncatedEntries entries = entries.map fun e => (e.1, e.2.truncated) := by
  induction entries with
  | nil => rfl
  | cons e entries ih => rw [truncatedEntries, ih, List.map_cons]

/-! ## What JSON gives back -/

theorem map_eq_self {α : Type} {f : α → α} {xs : List α} (h : ∀ x ∈ xs, f x = x) : xs.map f = xs :=
  (List.map_congr_left (g := id) h).trans (List.map_id xs)

theorem isPlain_real {x : Binary64} (h : x.isFinite) : IsPlain (.scalar (.real x)) := by
  refine ⟨?_, rfl⟩
  rw [toJson, scalarJson, Json.ofBinary64, if_pos h]
  rfl

theorem isPlain_list (h : ∀ item ∈ items, item.IsPlain) : IsPlain (.list items) := by
  constructor
  · rw [toJson, ofJson, ofJsonItems_eq_map, toJsonItems_eq_map, List.map_map]
    exact congrArg list (map_eq_self fun item hitem => (h item hitem).1)
  · rw [truncated, truncatedItems_eq_map]
    exact congrArg list (map_eq_self fun item hitem => (h item hitem).2)

theorem isPlain_object (hascending : Ascending entries) (h : ∀ e ∈ entries, e.2.IsPlain) :
    IsPlain (.object entries) := by
  constructor
  · have hsame : (entries.map fun e => (e.1, ofJson e.2.toJson)) = entries :=
      map_eq_self fun e he => Prod.ext rfl (h e he).1
    rw [toJson, ofJson, ofJsonMembers_eq_map, toJsonEntries_eq_map, List.map_map]
    exact congrArg object ((congrArg sortKeys hsame).trans (sortKeys_eq_self hascending))
  · rw [truncated, truncatedEntries_eq_map]
    exact congrArg object (map_eq_self fun e he => Prod.ext rfl (h e he).2)

/-- JSON gives back what it gave. -/
theorem isPlain_ofJson (h : json.HasFiniteNumbers) : (ofJson json).IsPlain := by
  induction h with
  | null => exact ⟨rfl, rfl⟩
  | bool b => exact ⟨rfl, rfl⟩
  | integer i => exact ⟨rfl, rfl⟩
  | large n => exact isPlain_real (Binary64.isFinite_ofInt (by simpa using n.toNat_lt))
  | real h => exact isPlain_real h
  | string s => exact ⟨rfl, rfl⟩
  | array h ih =>
    rw [ofJson, ofJsonItems_eq_map]
    exact isPlain_list (List.forall_mem_map.2 ih)
  | object h ih =>
    rw [ofJson, ofJsonMembers_eq_map]
    refine isPlain_object (ascending_sortKeys _) fun e he => ?_
    obtain ⟨m, hm, rfl⟩ := List.mem_map.1 (mem_of_mem_sortKeys he)
    exact ih m hm

end Value

/-! ## Typing -/

namespace Coercion

open Value

variable {v : Value} {items : List Value} {entries : List (String × Value)} {json : Json} {s t : String}

/-- What typing makes of an item of a list. -/
def normalizeItem : Json → Value
  | .object members => normalize (.object members)
  | item => ofJson item

theorem normalizeItems_eq_map (items : List Json) : normalizeItems items = items.map normalizeItem := by
  induction items with
  | nil => rfl
  | cons item items ih =>
    rw [List.map_cons, ← ih]
    cases item <;> rfl

theorem normalizeMembers_eq (members : List (String × Json)) : normalizeMembers members =
    (members.filter fun m => !isUndefined m.2).map fun m => (m.1, normalize m.2) := by
  induction members with
  | nil => rfl
  | cons m members ih =>
    rw [normalizeMembers, List.filter_cons]
    cases isUndefined m.2 <;> simp [ih]

theorem normalizeMembers_eq_map {members : List (String × Json)} (h : ∀ m ∈ members, isUndefined m.2 = false) :
    normalizeMembers members = members.map fun m => (m.1, normalize m.2) := by
  rw [normalizeMembers_eq, List.filter_eq_self.2 fun m hm => by simp [h m hm]]

/-- A text is typed as a keyword, a number or a moment, or stays a text. -/
theorem coerce_cases (s : String) : coerce s = .text s ∨ (∃ t, coerce s = .date t) ∨
    (∃ x : Binary64, x.isFinite ∧ coerce s = .real x) ∨
      coerce s = .null ∨ (∃ b, coerce s = .bool b) ∨ ∃ i, coerce s = .int i := by
  unfold coerce
  split
  · exact .inr (.inr (.inr (.inr (.inl ⟨_, rfl⟩))))
  · exact .inr (.inr (.inr (.inr (.inl ⟨_, rfl⟩))))
  · exact .inr (.inr (.inr (.inl rfl)))
  split
  next hnumber =>
    rcases number?_cases hnumber with ⟨i, rfl⟩ | ⟨x, hx, rfl⟩
    · exact .inr (.inr (.inr (.inr (.inr ⟨i, rfl⟩))))
    · exact .inr (.inr (.inl ⟨x, hx, rfl⟩))
  split
  · exact .inr (.inl ⟨_, rfl⟩)
  · exact .inl rfl

/-- A text that is typed as a text is that text. -/
theorem eq_of_coerce (h : coerce s = .text t) : s = t := by
  rcases coerce_cases s with hs | ⟨_, hs⟩ | ⟨_, -, hs⟩ | hs | ⟨_, hs⟩ | ⟨_, hs⟩
  · exact Scalar.text.inj (hs.symm.trans h)
  all_goals cases hs.symm.trans h

theorem isSettled_coerce (s : String) : (coerce s).IsSettled := by
  rcases coerce_cases s with hs | ⟨_, hs⟩ | ⟨_, hfinite, hs⟩ | hs | ⟨_, hs⟩ | ⟨_, hs⟩ <;> rw [hs]
  · exact hs
  · trivial
  · exact hfinite
  all_goals trivial

/-- What is there is not typed as what stands for an absent member. -/
theorem normalize_ne_undefined (h : isUndefined json = false) : normalize json ≠ .scalar (.text "undefined") := by
  intro htyped
  cases json with
  | string s =>
    obtain rfl := eq_of_coerce (Value.scalar.inj htyped)
    cases h
  | number n => cases n <;> cases htyped
  | _ => cases htyped

/-- What a tree is typed as is typed. -/
theorem isTyped_normalize (h : json.HasFiniteNumbers) : (normalize json).IsTyped := by
  induction h with
  | null => exact .scalar trivial
  | bool b => exact .scalar trivial
  | integer i => exact .scalar trivial
  | large n => exact .scalar (Binary64.isFinite_ofInt (by simpa using n.toNat_lt))
  | real h => exact .scalar h
  | string s => exact .scalar (isSettled_coerce s)
  | @array items h ih =>
    rw [normalize, normalizeItems_eq_map]
    refine .list (List.forall_mem_map.2 fun item hitem hobject => ?_) (List.forall_mem_map.2 fun item hitem hother => ?_)
    · cases item with
      | object members => exact ih _ hitem
      | _ => cases hobject
    · cases item with
      | object members => cases hother
      | _ => exact isPlain_ofJson (h _ hitem)
  | object h ih =>
    rw [normalize, normalizeMembers_eq]
    refine .object (ascending_sortKeys _) (fun e he => ?_) fun e he => ?_
    · obtain ⟨m, hm, rfl⟩ := List.mem_map.1 (mem_of_mem_sortKeys he)
      exact normalize_ne_undefined (by simpa using (List.mem_filter.1 hm).2)
    · obtain ⟨m, hm, rfl⟩ := List.mem_map.1 (mem_of_mem_sortKeys he)
      exact ih m (List.mem_filter.1 hm).1

/-- What is typed as a scalar is typed again as that scalar. -/
theorem normalize_scalarJson {x : Scalar} (h : x.IsSettled) (hyears : ∀ t, x = .date t → t.HasFourDigits) :
    normalize (scalarJson x) = .scalar x.truncated := by
  cases x with
  | null => rfl
  | bool b => rfl
  | int i => rfl
  | real y =>
    have hfinite : y.isFinite = true := h
    rw [scalarJson, Json.ofBinary64, if_pos hfinite]
    rfl
  | text s => exact congrArg Value.scalar h
  | date t =>
    obtain ⟨hlow, hhigh⟩ := hyears t rfl
    exact congrArg Value.scalar (coerce_moment hlow hhigh)

/-- An item of a list that typing passes over is given back. -/
theorem normalizeItem_toJson (h : v.isObject = false) : normalizeItem v.toJson = ofJson v.toJson := by
  cases v with
  | scalar x =>
    cases x with
    | real y =>
      rw [toJson, scalarJson, Json.ofBinary64]
      split <;> rfl
    | _ => rfl
  | list items => rfl
  | object entries => cases h

theorem isUndefined_toJson (h : v ≠ .scalar (.text "undefined")) : isUndefined v.toJson = false := by
  cases v with
  | scalar x =>
    cases x with
    | real y =>
      rw [toJson, scalarJson, Json.ofBinary64]
      split <;> rfl
    | text s => exact decide_eq_false fun hs => h (by rw [hs])
    | date t =>
      refine decide_eq_false fun ht => ?_
      exact absurd (ht ▸ Instant.mark_mem_text t) (by decide)
    | _ => rfl
  | _ => rfl

/-- A tree that typing gives is typed as itself, but for what moments lose in their texts. -/
theorem normalize_toJson (h : v.IsTyped) (hyears : ∀ t, v.Holds (.date t) → t.HasFourDigits) :
    normalize v.toJson = v.truncated := by
  induction h with
  | scalar h => exact normalize_scalarJson h fun t ht => hyears t (ht ▸ .scalar _)
  | @list items hobjects hothers ih =>
    have hitems : items.map (normalizeItem ∘ toJson) = items.map truncated := by
      refine List.map_congr_left fun item hitem => ?_
      cases hobject : item.isObject with
      | false =>
        obtain ⟨hjson, htruncated⟩ := hothers item hitem hobject
        rw [Function.comp_apply, normalizeItem_toJson hobject, hjson, htruncated]
      | true =>
        have hsame := ih item hitem hobject fun t ht => hyears t (.item hitem ht)
        cases item with
        | object entries => exact hsame
        | _ => cases hobject
    rw [toJson, normalize, normalizeItems_eq_map, toJsonItems_eq_map, List.map_map, hitems, truncated,
      truncatedItems_eq_map]
  | @object entries hascending hpresent hentries ih =>
    have hpresent : ∀ m ∈ toJsonEntries entries, isUndefined m.2 = false := by
      rw [toJsonEntries_eq_map]
      exact List.forall_mem_map.2 fun e he => isUndefined_toJson (hpresent e he)
    have hmembers : normalizeMembers (toJsonEntries entries) = truncatedEntries entries := by
      rw [normalizeMembers_eq_map hpresent, toJsonEntries_eq_map, List.map_map, truncatedEntries_eq_map]
      exact List.map_congr_left fun e he => Prod.ext rfl (ih e he fun t ht => hyears t (.entry he ht))
    have hkeys : Ascending (truncatedEntries entries) := by
      rw [truncatedEntries_eq_map, Ascending, List.map_map]
      exact hascending
    rw [toJson, normalize, hmembers, sortKeys_eq_self hkeys, truncated]

/-- Typing is settled after one turn. If the years of the moments in what a tree is typed as have four digits, it is
typed again as what it was, moments taken down to the millisecond. On the places that typing reaches, no leaf is typed
as anything else again, no entry stands for an absent one, and the items of lists that are no objects are given back as
they are (`Value.IsTyped`): the first turn has passed over them, too. -/
theorem normalize_again (hfinite : json.HasFiniteNumbers)
    (hyears : ∀ t, (normalize json).Holds (.date t) → t.HasFourDigits) :
    normalize (normalize json).toJson = (normalize json).truncated ∧ (normalize json).IsTyped ∧
      ∀ items, normalize (.array items) = .list (items.map normalizeItem) := by
  have htyped := isTyped_normalize hfinite
  refine ⟨normalize_toJson htyped hyears, htyped, fun items => ?_⟩
  rw [normalize, normalizeItems_eq_map]

/-- A search with a moment, members that are absent, and a list with a text and a list in it. -/
def branches : Json :=
  .object [("or", .array [.object [("n", .string "7"), ("m", .string "undefined")], .string "7",
      .array [.object [("m", .string "undefined")]]]),
    ("gone", .string "undefined"), ("at", .string "1970-01-01T12:00:00.0005Z")]

/-- The moment loses half a millisecond. The number stays a number, and in the list the text stays a text and the list
keeps its absent member. -/
theorem normalize_again_branches : branches.HasFiniteNumbers ∧
    (∀ t, (normalize branches).Holds (.date t) → t.HasFourDigits) ∧
    normalize (normalize branches).toJson = .object [("at", .scalar (.date (Instant.afterNoon 0))),
      ("or", .list [.object [("n", .scalar (.int 7))], .scalar (.text "7"),
        .list [.object [("m", .scalar (.text "undefined"))]]])] ∧
    (normalize branches).IsTyped := by
  have hvalue : normalize branches = .object [("at", .scalar (.date (Instant.afterNoon 500000))),
      ("or", .list [.object [("n", .scalar (.int 7))], .scalar (.text "7"),
        .list [.object [("m", .scalar (.text "undefined"))]]])] := rfl
  have hfinite : branches.HasFiniteNumbers := by
    simp [branches]
  have hyears : ∀ t, (normalize branches).Holds (.date t) → t.HasFourDigits := by
    intro t h
    obtain rfl : t = Instant.afterNoon 500000 := by simpa [hvalue] using h
    exact ⟨by decide, by decide⟩
  obtain ⟨hagain, htyped, -⟩ := normalize_again hfinite hyears
  refine ⟨hfinite, hyears, hagain.trans ?_, htyped⟩
  rw [hvalue]
  rfl

end Coercion

end RecordQuery
