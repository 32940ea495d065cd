import Mathlib.Data.List.Nodup
import RecordQuery.Filter.Decode
import RecordQuery.Proofs.Outcome
/-!
# Filters as values

A filter that is read was written as the value that it is read from: no key is dropped, merged or altered on the way.
Not every filter can be written, for a key means different things in different places: `not` is a composite at one
level and an operator below a field. Those that can are told by `Filter.IsCanonical`, and they are the filters that are
read from some value (`Filter.decode_eq_ok_iff_encode_eq`).

Each constructor of a filter is read from one form of value (`Filter.decode_and_iff` and its siblings), so the proof is
an induction on the filter.
-/

namespace RecordQuery

open Outcome

variable {v value : Value} {items : List Value} {entries : List (String × Value)} {field key : String}

/-! ## Entries in ascending order -/

/-- Ascending entries are told apart by their keys. -/
theorem Ascending.nodup {α : Type} {entries : List (String × α)} (h : Ascending entries) :
    (entries.map Prod.fst).Nodup :=
  h.imp String.ne_of_lt

/-- Ascending entries are known by what they are. -/
theorem Ascending.eq_of_mem_iff {α : Type} {xs ys : List (String × α)} (hx : Ascending xs) (hy : Ascending ys)
    (h : ∀ e, e ∈ xs ↔ e ∈ ys) : xs = ys := by
  have hperm : xs.Perm ys :=
    (List.perm_ext_iff_of_nodup (List.Nodup.of_map _ hx.nodup) (List.Nodup.of_map _ hy.nodup)).2 h
  refine hperm.eq_of_pairwise ?_ (List.pairwise_map.1 hx) (List.pairwise_map.1 hy)
  exact fun _ _ _ _ hab hba => absurd (String.lt_trans hab hba) (String.lt_irrefl _)

theorem Value.orderedEntries_iff : Value.OrderedEntries entries ↔ ∀ e ∈ entries, e.2.Ordered := by
  induction entries with
  | nil => simp [Value.OrderedEntries]
  | cons e entries ih => rw [Value.OrderedEntries, ih, List.forall_mem_cons]

theorem Value.orderedItems_iff : Value.OrderedItems items ↔ ∀ item ∈ items, item.Ordered := by
  induction items with
  | nil => simp [Value.OrderedItems]
  | cons item items ih => rw [Value.OrderedItems, ih, List.forall_mem_cons]

/-! ## Operators -/

namespace Operators

variable {spec spec' : Operators} {e : String × Value}

/-- The value of every operator, if it is there, in the order in which operators are written. -/
def slots (spec : Operators) : List (String × Option Value) :=
  [("endsWith", spec.endsWith.map .scalar), ("from", spec.lower.map .scalar), ("gt", spec.gt.map .scalar),
    ("gte", spec.gte.map .scalar), ("in", spec.oneOf.map fun values => .list (values.map .scalar)),
    ("isNull", spec.isNull.map fun flag => .scalar (.bool flag)), ("like", spec.like.map .scalar),
    ("lt", spec.lt.map .scalar), ("lte", spec.lte.map .scalar), ("not", spec.differs.map .scalar),
    ("startsWith", spec.startsWith.map .scalar), ("to", spec.upper.map .scalar)]

/-- What is written of a slot. -/
def slotEntry (slot : String × Option Value) : Option (String × Value) := slot.2.map (slot.1, ·)

theorem scalarEntry_eq (key : String) (s : Option Scalar) :
    scalarEntry key s = (slotEntry (key, s.map .scalar)).toList := by
  cases s <;> rfl

theorem encode_eq_filterMap (spec : Operators) : spec.encode = spec.slots.filterMap slotEntry := by
  rw [List.filterMap_eq_flatMap_toList]
  simp only [encode, scalarEntry_eq, slots, List.flatMap_cons, List.flatMap_nil, List.append_assoc, List.append_nil]
  cases spec.oneOf <;> cases spec.isNull <;> rfl

theorem mem_encode_iff : e ∈ spec.encode ↔ (e.1, some e.2) ∈ spec.slots := by
  rw [encode_eq_filterMap, List.mem_filterMap]
  constructor
  · rintro ⟨⟨key, value?⟩, hslot, he⟩
    obtain ⟨value, rfl, rfl⟩ := Option.map_eq_some_iff.1 he
    exact hslot
  · exact fun h => ⟨_, h, rfl⟩

theorem ascending_encode (spec : Operators) : Ascending spec.encode := by
  have hslots : (spec.slots.map Prod.fst).Pairwise (· < ·) := by
    simp only [slots, List.map_cons, List.map_nil]
    decide
  rw [encode_eq_filterMap, Ascending, List.pairwise_map]
  refine (List.pairwise_map.1 hslots).filterMap _ fun a b hab c hc d hd => ?_
  obtain ⟨_, -, rfl⟩ := Option.map_eq_some_iff.1 hc
  obtain ⟨_, -, rfl⟩ := Option.map_eq_some_iff.1 hd
  exact hab

/-- The keys of operators are the keys of what is written of them. -/
theorem mem_keys_of_mem_encode (h : e ∈ spec.encode) : e.1 ∈ keys := by
  have hslot := List.mem_map_of_mem (f := Prod.fst) (mem_encode_iff.1 h)
  have hall : ∀ key ∈ spec.slots.map Prod.fst, key ∈ keys := by
    simp only [slots, List.map_cons, List.map_nil]
    decide
  exact hall _ hslot

theorem ordered_of_mem_encode (h : e ∈ spec.encode) : e.2.Ordered := by
  have hitems : ∀ values : List Scalar, Value.OrderedItems (values.map .scalar) := fun values => by
    rw [Value.orderedItems_iff, List.forall_mem_map]
    exact fun _ _ => trivial
  have hslots : ∀ slot ∈ spec.slots, ∀ value, slot.2 = some value → value.Ordered := by
    simp only [slots, List.forall_mem_cons, Option.map_eq_some_iff]
    refine ⟨?_, ?_, ?_, ?_, ?_, ?_, ?_, ?_, ?_, ?_, ?_, ?_, by simp⟩ <;> rintro _ ⟨s, -, rfl⟩
    case refine_5 => exact hitems s
    all_goals trivial
  exact hslots _ (mem_encode_iff.1 h) _ rfl

theorem scalarsOf_eq_ok_iff {values : List Value} {scalars : List Scalar} :
    scalarsOf values = .ok scalars ↔ values = scalars.map .scalar := by
  induction values generalizing scalars with
  | nil => simp [scalarsOf, eq_comm]
  | cons value values ih =>
    cases value with
    | scalar s =>
      rw [scalarsOf, map_eq_ok_iff]
      simp only [ih]
      cases scalars <;> simp [and_comm]
    | list _ => cases scalars <;> simp [scalarsOf]
    | object _ => cases scalars <;> simp [scalarsOf]

/-- An operator that is added has a slot, and the other slots stay as they are. -/
theorem slots_add (h : spec.add field key value = .ok spec') : key ∈ spec.slots.map Prod.fst ∧
    spec'.slots = spec.slots.map fun slot => if slot.1 = key then (key, some value) else slot := by
  unfold add at h
  split at h
  case h_11 =>
    cases value with
    | list values =>
      obtain ⟨scalars, hscalars, rfl⟩ := map_eq_ok_iff.1 h
      obtain rfl := scalarsOf_eq_ok_iff.1 hscalars
      exact ⟨by simp [slots], rfl⟩
    | _ => cases h
  case h_12 =>
    split at h
    · obtain rfl := Except.ok.inj h
      exact ⟨by simp [slots], rfl⟩
    · cases h
  case h_13 => cases h
  all_goals
    obtain ⟨s, hs, rfl⟩ := map_eq_ok_iff.1 h
    obtain rfl : value = .scalar s := by cases value <;> simp_all [scalarOf]
    exact ⟨by simp [slots], rfl⟩

/-- An operator that is added is written beside the others. -/
theorem mem_encode_add (h : spec.add field key value = .ok spec') :
    e ∈ spec'.encode ↔ e = (key, value) ∨ e ∈ spec.encode ∧ e.1 ≠ key := by
  obtain ⟨hkey, hslots⟩ := slots_add h
  obtain ⟨k, w⟩ := e
  rw [mem_encode_iff, mem_encode_iff, hslots, List.mem_map]
  constructor
  · rintro ⟨slot, hslot, heq⟩
    split at heq
    · exact .inl (by simpa [eq_comm] using heq)
    · next hne =>
      rw [heq] at hslot hne
      exact .inr ⟨hslot, hne⟩
  · rintro (heq | ⟨hslot, hne⟩)
    · obtain ⟨slot, hslot, rfl⟩ := List.mem_map.1 hkey
      obtain ⟨rfl, rfl⟩ := Prod.mk.inj heq
      exact ⟨slot, hslot, if_pos rfl⟩
    · exact ⟨_, hslot, if_neg hne⟩

/-- Operators that are read are written as the entries that they are read from. -/
theorem mem_encode_decode (hkeys : (entries.map Prod.fst).Nodup) (h : decode field spec entries = .ok spec') :
    e ∈ spec'.encode ↔ e ∈ entries ∨ e ∈ spec.encode ∧ e.1 ∉ entries.map Prod.fst := by
  induction entries generalizing spec with
  | nil =>
    obtain rfl := Except.ok.inj h
    simp
  | cons first entries ih =>
    obtain ⟨next, hnext, hrest⟩ := bind_eq_ok_iff.1 h
    rw [List.map_cons, List.nodup_cons] at hkeys
    have hfirst : e = first → e.1 ∉ entries.map Prod.fst := by
      rintro rfl
      exact hkeys.1
    rw [ih hkeys.2 hrest, mem_encode_add hnext, List.map_cons]
    simp only [List.mem_cons, not_or]
    tauto

theorem decode_append (field : String) (spec : Operators) (xs ys : List (String × Value)) :
    decode field spec (xs ++ ys) = decode field spec xs >>= fun spec => decode field spec ys := by
  induction xs generalizing spec with
  | nil => rfl
  | cons x xs ih =>
    rw [List.cons_append, decode, decode]
    cases add field spec x.1 x.2 with
    | error _ => rfl
    | ok next => exact ih next

theorem decode_append_of (h : decode field {} entries = .ok spec) (more : List (String × Value)) :
    decode field {} (entries ++ more) = decode field spec more := by
  rw [decode_append, h]
  rfl

/-- One more operator is read from what is written of it. -/
theorem decode_append_slot {α : Type} (key : String) (w : α → Value) (set : Option α → Operators)
    (h : decode field {} entries = .ok (set none)) (hset : ∀ a, add field (set none) key (w a) = .ok (set (some a)))
    (a : Option α) :
    decode field {} (entries ++ (slotEntry (key, a.map w)).toList) = .ok (set a) := by
  rw [decode_append_of h]
  cases a with
  | none => rfl
  | some a =>
    rw [Option.map_some, slotEntry, Option.map_some, Option.toList_some, decode, hset]
    rfl

theorem decode_encode (field : String) (spec : Operators) : decode field {} spec.encode = .ok spec := by
  obtain ⟨like, startsWith, endsWith, oneOf, isNull, lower, upper, gt, gte, lt, lte, differs⟩ := spec
  have hin : ∀ (spec : Operators) (values : List Scalar),
      add field spec "in" (.list (values.map .scalar)) = .ok { spec with oneOf := some values } := by
    intro spec values
    have hscalars : scalarsOf (values.map .scalar) = .ok values := scalarsOf_eq_ok_iff.2 rfl
    simp only [add, hscalars]
    rfl
  have h : decode field {} [] = .ok {} := rfl
  replace h := decode_append_slot "endsWith" .scalar (fun s => { endsWith := s }) h (fun _ => rfl) endsWith
  replace h := decode_append_slot "from" .scalar (fun s => { endsWith, lower := s }) h (fun _ => rfl) lower
  replace h := decode_append_slot "gt" .scalar (fun s => { endsWith, lower, gt := s }) h (fun _ => rfl) gt
  replace h := decode_append_slot "gte" .scalar (fun s => { endsWith, lower, gt, gte := s }) h (fun _ => rfl) gte
  replace h := decode_append_slot "in" (fun values => .list (values.map .scalar))
    (fun s => { endsWith, lower, gt, gte, oneOf := s }) h (hin _) oneOf
  replace h := decode_append_slot "isNull" (fun flag => .scalar (.bool flag))
    (fun s => { endsWith, lower, gt, gte, oneOf, isNull := s }) h (fun _ => rfl) isNull
  replace h := decode_append_slot "like" .scalar (fun s => { endsWith, lower, gt, gte, oneOf, isNull, like := s }) h
    (fun _ => rfl) like
  replace h := decode_append_slot "lt" .scalar
    (fun s => { endsWith, lower, gt, gte, oneOf, isNull, like, lt := s }) h (fun _ => rfl) lt
  replace h := decode_append_slot "lte" .scalar
    (fun s => { endsWith, lower, gt, gte, oneOf, isNull, like, lt, lte := s }) h (fun _ => rfl) lte
  replace h := decode_append_slot "not" .scalar
    (fun s => { endsWith, lower, gt, gte, oneOf, isNull, like, lt, lte, differs := s }) h (fun _ => rfl) differs
  replace h := decode_append_slot "startsWith" .scalar
    (fun s => { endsWith, lower, gt, gte, oneOf, isNull, like, lt, lte, differs, startsWith := s }) h (fun _ => rfl)
    startsWith
  replace h := decode_append_slot "to" .scalar
    (fun s => { endsWith, lower, gt, gte, oneOf, isNull, like, lt, lte, differs, startsWith, upper := s }) h
    (fun _ => rfl) upper
  rw [encode_eq_filterMap, List.filterMap_eq_flatMap_toList]
  simpa only [slots, List.flatMap_cons, List.flatMap_nil, List.append_assoc, List.nil_append, List.append_nil] using h

/-- Operators are read from the entries that are written of them, if there is one. -/
theorem ordered_and_decode_iff : Ascending entries ∧ Value.OrderedEntries entries ∧ (∃ e ∈ entries, e.1 ∈ keys) ∧
    decode field {} entries = .ok spec ↔ spec ≠ {} ∧ spec.encode = entries := by
  constructor
  · rintro ⟨hascending, -, ⟨e, he, -⟩, h⟩
    have hencode : spec.encode = entries := by
      refine (ascending_encode spec).eq_of_mem_iff hascending fun e => ?_
      rw [mem_encode_decode hascending.nodup h]
      simp [encode, scalarEntry]
    refine ⟨?_, hencode⟩
    rintro rfl
    rw [← hencode] at he
    cases he
  · rintro ⟨hne, rfl⟩
    refine ⟨ascending_encode spec, Value.orderedEntries_iff.2 fun e he => ordered_of_mem_encode he, ?_,
      decode_encode field spec⟩
    cases hencode : spec.encode with
    | nil =>
      have hread := decode_encode field spec
      rw [hencode] at hread
      exact absurd (Except.ok.inj hread).symm hne
    | cons e entries => exact ⟨e, List.mem_cons_self, mem_keys_of_mem_encode (hencode ▸ List.mem_cons_self)⟩

end Operators

/-! ## Filters -/

namespace Filter

variable {f inner : Filter} {branches : List Filter} {conditions : List (String × FieldCondition)}
  {condition : FieldCondition}

/-- Whether a filter can stand behind a relation, where a key of an operator is one. -/
def CanNest : Filter → Prop
  | .not _ => False
  | .fields conditions => ∀ c ∈ conditions, c.1 ∉ Operators.keys
  | _ => True

mutual

/-- Whether a filter can be written: the fields of a map are told apart and in ascending order, none is named like a
composite, there are operators wherever a field map promises them, and a filter behind a relation has no key of an
operator. -/
def IsCanonical : Filter → Prop
  | .and branches => AreCanonical branches
  | .or branches => AreCanonical branches
  | .not inner => inner.IsCanonical
  | .fields conditions =>
    Ascending conditions ∧ (∀ c ∈ conditions, c.1 ∉ compositeKeys) ∧ AreCanonicalFields conditions

/-- Whether branches can be written. -/
def AreCanonical : List Filter → Prop
  | [] => True
  | branch :: branches => branch.IsCanonical ∧ AreCanonical branches

/-- Whether the conditions of a field map can be written. -/
def AreCanonicalFields : List (String × FieldCondition) → Prop
  | [] => True
  | (_, condition) :: conditions => IsCanonicalCondition condition ∧ AreCanonicalFields conditions

/-- Whether a condition can be written. -/
def IsCanonicalCondition : FieldCondition → Prop
  | .equals _ => True
  | .operators spec => spec ≠ {}
  | .nested filter => filter.CanNest ∧ filter.IsCanonical

end

/-! ### The form that each constructor is read from -/

theorem decodeObject_of_fields (h : ∀ e ∈ entries, e.1 ∉ compositeKeys) :
    decodeObject entries = (decodeConditions entries).map .fields := by
  cases entries with
  | nil => rfl
  | cons e entries =>
    obtain ⟨key, value⟩ := e
    unfold decodeObject
    rw [if_neg (by simpa using h), decodeConditions]
    cases decodeCondition key value with
    | error _ => rfl
    | ok condition => cases decodeConditions entries <;> rfl

/-- An object that is read is a composite under its only key, or a map of fields. -/
theorem decodeObject_cases (h : decodeObject entries = .ok f) :
    (∃ v branches, entries = [("and", v)] ∧ decodeList "and" v = .ok branches ∧ f = .and branches) ∨
    (∃ v branches, entries = [("or", v)] ∧ decodeList "or" v = .ok branches ∧ f = .or branches) ∨
    (∃ v inner, entries = [("not", v)] ∧ decode v = .ok inner ∧ f = .not inner) ∨
    (∀ e ∈ entries, e.1 ∉ compositeKeys) ∧ ∃ conditions, decodeConditions entries = .ok conditions ∧
      f = .fields conditions := by
  by_cases hkeys : ∃ e ∈ entries, e.1 ∈ compositeKeys
  · cases entries with
    | nil => simp at hkeys
    | cons e entries =>
      obtain ⟨key, value⟩ := e
      unfold decodeObject at h
      rw [if_pos (by simpa using hkeys)] at h
      cases entries with
      | cons _ _ => cases h
      | nil =>
        have hkey : key = "and" ∨ key = "or" ∨ key = "not" := by simpa [compositeKeys] using hkeys
        rcases hkey with rfl | rfl | rfl
        · obtain ⟨branches, hbranches, rfl⟩ := map_eq_ok_iff.1 h
          exact .inl ⟨value, branches, rfl, hbranches, rfl⟩
        · obtain ⟨branches, hbranches, rfl⟩ := map_eq_ok_iff.1 h
          exact .inr (.inl ⟨value, branches, rfl, hbranches, rfl⟩)
        · obtain ⟨inner, hinner, rfl⟩ := map_eq_ok_iff.1 h
          exact .inr (.inr (.inl ⟨value, inner, rfl, hinner, rfl⟩))
  · have hfields : ∀ e ∈ entries, e.1 ∉ compositeKeys := by simpa using hkeys
    rw [decodeObject_of_fields hfields] at h
    obtain ⟨conditions, hconditions, rfl⟩ := map_eq_ok_iff.1 h
    exact .inr (.inr (.inr ⟨hfields, conditions, hconditions, rfl⟩))

theorem decodeList_eq_ok_iff : decodeList key v = .ok branches ↔
    ∃ items, v = .list items ∧ decodeItems items = .ok branches := by
  cases v <;> simp [decodeList]

theorem decode_eq_ok_iff_object : decode v = .ok f ↔ ∃ entries, v = .object entries ∧ decodeObject entries = .ok f := by
  cases v <;> simp [decode]

theorem decodeObject_and_iff : decodeObject entries = .ok (.and branches) ↔
    ∃ v, entries = [("and", v)] ∧ decodeList "and" v = .ok branches := by
  constructor
  · intro h
    obtain ⟨v, _, rfl, hv, heq⟩ | ⟨_, _, -, -, heq⟩ | ⟨_, _, -, -, heq⟩ | ⟨-, _, -, heq⟩ := decodeObject_cases h
    all_goals cases heq
    exact ⟨v, rfl, hv⟩
  · rintro ⟨v, rfl, hv⟩
    exact map_eq_ok_iff.2 ⟨branches, hv, rfl⟩

theorem decodeObject_or_iff : decodeObject entries = .ok (.or branches) ↔
    ∃ v, entries = [("or", v)] ∧ decodeList "or" v = .ok branches := by
  constructor
  · intro h
    obtain ⟨_, _, -, -, heq⟩ | ⟨v, _, rfl, hv, heq⟩ | ⟨_, _, -, -, heq⟩ | ⟨-, _, -, heq⟩ := decodeObject_cases h
    all_goals cases heq
    exact ⟨v, rfl, hv⟩
  · rintro ⟨v, rfl, hv⟩
    exact map_eq_ok_iff.2 ⟨branches, hv, rfl⟩

theorem decodeObject_not_iff : decodeObject entries = .ok (.not inner) ↔
    ∃ v, entries = [("not", v)] ∧ decode v = .ok inner := by
  constructor
  · intro h
    obtain ⟨_, _, -, -, heq⟩ | ⟨_, _, -, -, heq⟩ | ⟨v, _, rfl, hv, heq⟩ | ⟨-, _, -, heq⟩ := decodeObject_cases h
    all_goals cases heq
    exact ⟨v, rfl, hv⟩
  · rintro ⟨v, rfl, hv⟩
    exact map_eq_ok_iff.2 ⟨inner, hv, rfl⟩

theorem decodeObject_fields_iff : decodeObject entries = .ok (.fields conditions) ↔
    (∀ e ∈ entries, e.1 ∉ compositeKeys) ∧ decodeConditions entries = .ok conditions := by
  constructor
  · intro h
    obtain ⟨_, _, -, -, heq⟩ | ⟨_, _, -, -, heq⟩ | ⟨_, _, -, -, heq⟩ | ⟨hfields, _, h, heq⟩ := decodeObject_cases h
    all_goals cases heq
    exact ⟨hfields, h⟩
  · rintro ⟨hfields, h⟩
    rw [decodeObject_of_fields hfields]
    exact map_eq_ok_iff.2 ⟨conditions, h, rfl⟩

theorem decodeItems_cons_iff : decodeItems items = .ok (f :: branches) ↔
    ∃ item rest, items = item :: rest ∧ decode item = .ok f ∧ decodeItems rest = .ok branches := by
  cases items with
  | nil => simp [decodeItems]
  | cons item items => simp [decodeItems, bind_eq_ok_iff, and_left_comm]

theorem decodeItems_nil_iff : decodeItems items = .ok [] ↔ items = [] := by
  cases items <;> simp [decodeItems, bind_eq_ok_iff]

theorem decodeConditions_cons_iff : decodeConditions entries = .ok ((field, condition) :: conditions) ↔
    ∃ v rest, entries = (field, v) :: rest ∧ decodeCondition field v = .ok condition ∧
      decodeConditions rest = .ok conditions := by
  cases entries with
  | nil => simp [decodeConditions]
  | cons e entries =>
    obtain ⟨key, value⟩ := e
    simp only [decodeConditions, bind_eq_ok_iff, Except.ok.injEq, List.cons.injEq, Prod.mk.injEq]
    constructor
    · rintro ⟨_, hfirst, _, hrest, ⟨rfl, rfl⟩, rfl⟩
      exact ⟨value, entries, ⟨⟨rfl, rfl⟩, rfl⟩, hfirst, hrest⟩
    · rintro ⟨_, _, ⟨⟨rfl, rfl⟩, rfl⟩, hfirst, hrest⟩
      exact ⟨condition, hfirst, conditions, hrest, ⟨rfl, rfl⟩, rfl⟩

theorem decodeConditions_nil_iff : decodeConditions entries = .ok [] ↔ entries = [] := by
  cases entries <;> simp [decodeConditions, bind_eq_ok_iff]

theorem decodeCondition_of_operators (h : ∃ e ∈ entries, e.1 ∈ Operators.keys) :
    decodeCondition field (.object entries) = (Operators.decode field {} entries).map .operators := by
  rw [decodeCondition, if_pos (by simpa using h)]

theorem decodeCondition_of_nested (h : ∀ e ∈ entries, e.1 ∉ Operators.keys) :
    decodeCondition field (.object entries) = (decodeObject entries).map .nested := by
  rw [decodeCondition, if_neg (by simpa using h)]

/-- A condition that is read is a scalar, operators if a key is one, and a filter behind a relation otherwise. -/
theorem decodeCondition_cases (h : decodeCondition field v = .ok condition) :
    (∃ s, v = .scalar s ∧ condition = .equals s) ∨
    (∃ entries spec, v = .object entries ∧ (∃ e ∈ entries, e.1 ∈ Operators.keys) ∧
      Operators.decode field {} entries = .ok spec ∧ condition = .operators spec) ∨
    ∃ entries f, v = .object entries ∧ (∀ e ∈ entries, e.1 ∉ Operators.keys) ∧ decodeObject entries = .ok f ∧
      condition = .nested f := by
  cases v with
  | scalar s => exact .inl ⟨s, rfl, (Except.ok.inj h).symm⟩
  | list items => cases h
  | object entries =>
    by_cases hkeys : ∃ e ∈ entries, e.1 ∈ Operators.keys
    · rw [decodeCondition_of_operators hkeys] at h
      obtain ⟨spec, hspec, rfl⟩ := map_eq_ok_iff.1 h
      exact .inr (.inl ⟨entries, spec, rfl, hkeys, hspec, rfl⟩)
    · have hkeys : ∀ e ∈ entries, e.1 ∉ Operators.keys := by simpa using hkeys
      rw [decodeCondition_of_nested hkeys] at h
      obtain ⟨f, hf, rfl⟩ := map_eq_ok_iff.1 h
      exact .inr (.inr ⟨entries, f, rfl, hkeys, hf, rfl⟩)

theorem decodeCondition_equals_iff {s : Scalar} : decodeCondition field v = .ok (.equals s) ↔ v = .scalar s := by
  constructor
  · intro h
    obtain ⟨_, rfl, heq⟩ | ⟨_, _, -, -, -, heq⟩ | ⟨_, _, -, -, -, heq⟩ := decodeCondition_cases h
    all_goals cases heq
    rfl
  · rintro rfl
    rfl

theorem decodeCondition_operators_iff {spec : Operators} : decodeCondition field v = .ok (.operators spec) ↔
    ∃ entries, v = .object entries ∧ (∃ e ∈ entries, e.1 ∈ Operators.keys) ∧
      Operators.decode field {} entries = .ok spec := by
  constructor
  · intro h
    obtain ⟨_, -, heq⟩ | ⟨entries, _, rfl, hkeys, hspec, heq⟩ | ⟨_, _, -, -, -, heq⟩ := decodeCondition_cases h
    all_goals cases heq
    exact ⟨entries, rfl, hkeys, hspec⟩
  · rintro ⟨entries, rfl, hkeys, hspec⟩
    rw [decodeCondition_of_operators hkeys]
    exact map_eq_ok_iff.2 ⟨spec, hspec, rfl⟩

theorem decodeCondition_nested_iff : decodeCondition field v = .ok (.nested f) ↔
    ∃ entries, v = .object entries ∧ (∀ e ∈ entries, e.1 ∉ Operators.keys) ∧ decodeObject entries = .ok f := by
  constructor
  · intro h
    obtain ⟨_, -, heq⟩ | ⟨_, _, -, -, -, heq⟩ | ⟨entries, _, rfl, hkeys, hf, heq⟩ := decodeCondition_cases h
    all_goals cases heq
    exact ⟨entries, rfl, hkeys, hf⟩
  · rintro ⟨entries, rfl, hkeys, hf⟩
    rw [decodeCondition_of_nested hkeys]
    exact map_eq_ok_iff.2 ⟨f, hf, rfl⟩

/-! ### Reading and writing -/

theorem keys_encodeFields (conditions : List (String × FieldCondition)) :
    (encodeFields conditions).map Prod.fst = conditions.map Prod.fst := by
  induction conditions with
  | nil => rfl
  | cons c conditions ih => rw [encodeFields, List.map_cons, List.map_cons, ih]

/-- A property of the names of a field map is one of the keys that it is written with. -/
theorem forall_mem_encodeFields_iff (p : String → Prop) :
    (∀ e ∈ encodeFields conditions, p e.1) ↔ ∀ c ∈ conditions, p c.1 := by
  rw [← List.forall_mem_map (f := Prod.fst) (P := p), keys_encodeFields, List.forall_mem_map]

/-- A filter can stand behind a relation if none of its keys is one of an operator. -/
theorem canNest_iff (h : f.encode = .object entries) : f.CanNest ↔ ∀ e ∈ entries, e.1 ∉ Operators.keys := by
  cases f with
  | and branches =>
    obtain rfl := Value.object.inj h
    simp [CanNest, Operators.keys]
  | or branches =>
    obtain rfl := Value.object.inj h
    simp [CanNest, Operators.keys]
  | not inner =>
    obtain rfl := Value.object.inj h
    simp [CanNest, Operators.keys]
  | fields conditions =>
    obtain rfl := Value.object.inj h
    exact (forall_mem_encodeFields_iff (· ∉ Operators.keys)).symm

/-- A filter that is read from the value under the only key of an object. -/
theorem ordered_and_decode_of_single {canonical : Prop} {q : Value → Prop} {written : Value}
    (hobject : ∀ {entries}, decodeObject entries = .ok f ↔ ∃ w, entries = [(key, w)] ∧ q w)
    (hvalue : ∀ w : Value, w.Ordered ∧ q w ↔ canonical ∧ written = w) :
    v.Ordered ∧ decode v = .ok f ↔ canonical ∧ .object [(key, written)] = v := by
  have hsingle : ∀ w : Value, (Value.object [(key, w)]).Ordered ↔ w.Ordered := by
    simp [Value.Ordered, Value.OrderedEntries, Ascending]
  rw [decode_eq_ok_iff_object]
  constructor
  · rintro ⟨hordered, entries, rfl, hentries⟩
    obtain ⟨w, rfl, hw⟩ := hobject.1 hentries
    obtain ⟨hcanonical, rfl⟩ := (hvalue w).1 ⟨(hsingle w).1 hordered, hw⟩
    exact ⟨hcanonical, rfl⟩
  · rintro ⟨hcanonical, rfl⟩
    obtain ⟨hordered, hw⟩ := (hvalue written).2 ⟨hcanonical, rfl⟩
    exact ⟨(hsingle written).2 hordered, _, rfl, hobject.2 ⟨written, rfl, hw⟩⟩

/-- The branches of a composite are read from a list. -/
theorem ordered_and_decodeList_of (key : String)
    (h : ∀ {items}, Value.OrderedItems items ∧ decodeItems items = .ok branches ↔
      AreCanonical branches ∧ encodeBranches branches = items) (w : Value) :
    w.Ordered ∧ decodeList key w = .ok branches ↔ AreCanonical branches ∧ .list (encodeBranches branches) = w := by
  rw [decodeList_eq_ok_iff]
  constructor
  · rintro ⟨hordered, items, rfl, hitems⟩
    obtain ⟨hcanonical, rfl⟩ := h.1 ⟨hordered, hitems⟩
    exact ⟨hcanonical, rfl⟩
  · rintro ⟨hcanonical, rfl⟩
    obtain ⟨hordered, hitems⟩ := h.2 ⟨hcanonical, rfl⟩
    exact ⟨hordered, _, rfl, hitems⟩

mutual

/-- A filter is read from a value exactly if it can be written and is written as that value. -/
theorem ordered_and_decode_iff : ∀ (f : Filter) {v : Value},
    v.Ordered ∧ decode v = .ok f ↔ f.IsCanonical ∧ f.encode = v
  | .and branches, v => by
    rw [IsCanonical, encode]
    exact ordered_and_decode_of_single decodeObject_and_iff
      (ordered_and_decodeList_of "and" (orderedItems_and_decode_iff branches))
  | .or branches, v => by
    rw [IsCanonical, encode]
    exact ordered_and_decode_of_single decodeObject_or_iff
      (ordered_and_decodeList_of "or" (orderedItems_and_decode_iff branches))
  | .not inner, v => by
    rw [IsCanonical, encode]
    exact ordered_and_decode_of_single decodeObject_not_iff fun _ => ordered_and_decode_iff inner
  | .fields conditions, v => by
    rw [IsCanonical, encode]
    constructor
    · rintro ⟨hordered, h⟩
      obtain ⟨entries, rfl, hobject⟩ := decode_eq_ok_iff_object.1 h
      obtain ⟨hkeys, hentries⟩ := decodeObject_fields_iff.1 hobject
      rw [Value.Ordered] at hordered
      obtain ⟨hcanonical, rfl⟩ := (orderedEntries_and_decode_iff conditions).1 ⟨hordered.2, hentries⟩
      refine ⟨⟨?_, (forall_mem_encodeFields_iff (· ∉ compositeKeys)).1 hkeys, hcanonical⟩, rfl⟩
      rw [Ascending, ← keys_encodeFields]
      exact hordered.1
    · rintro ⟨⟨hascending, hkeys, hcanonical⟩, rfl⟩
      obtain ⟨hordered, h⟩ := (orderedEntries_and_decode_iff conditions).2 ⟨hcanonical, rfl⟩
      rw [Ascending, ← keys_encodeFields] at hascending
      exact ⟨⟨hascending, hordered⟩, decodeObject_fields_iff.2
        ⟨(forall_mem_encodeFields_iff (· ∉ compositeKeys)).2 hkeys, h⟩⟩

theorem orderedItems_and_decode_iff : ∀ (branches : List Filter) {items : List Value},
    Value.OrderedItems items ∧ decodeItems items = .ok branches ↔
      AreCanonical branches ∧ encodeBranches branches = items
  | [], items => by
    rw [decodeItems_nil_iff, AreCanonical, encodeBranches]
    constructor
    · rintro ⟨-, rfl⟩
      exact ⟨True.intro, rfl⟩
    · rintro ⟨-, rfl⟩
      exact ⟨True.intro, rfl⟩
  | branch :: branches, items => by
    rw [decodeItems_cons_iff, AreCanonical, encodeBranches]
    constructor
    · rintro ⟨hordered, item, rest, rfl, hfirst, hrest⟩
      obtain ⟨hcanonical, rfl⟩ := (ordered_and_decode_iff branch).1 ⟨hordered.1, hfirst⟩
      obtain ⟨hothers, rfl⟩ := (orderedItems_and_decode_iff branches).1 ⟨hordered.2, hrest⟩
      exact ⟨⟨hcanonical, hothers⟩, rfl⟩
    · rintro ⟨⟨hcanonical, hothers⟩, rfl⟩
      obtain ⟨hordered, hfirst⟩ := (ordered_and_decode_iff branch).2 ⟨hcanonical, rfl⟩
      obtain ⟨hrests, hrest⟩ := (orderedItems_and_decode_iff branches).2 ⟨hothers, rfl⟩
      exact ⟨⟨hordered, hrests⟩, _, _, rfl, hfirst, hrest⟩

theorem orderedEntries_and_decode_iff : ∀ (conditions : List (String × FieldCondition))
    {entries : List (String × Value)},
    Value.OrderedEntries entries ∧ decodeConditions entries = .ok conditions ↔
      AreCanonicalFields conditions ∧ encodeFields conditions = entries
  | [], entries => by
    rw [decodeConditions_nil_iff, AreCanonicalFields, encodeFields]
    constructor
    · rintro ⟨-, rfl⟩
      exact ⟨True.intro, rfl⟩
    · rintro ⟨-, rfl⟩
      exact ⟨True.intro, rfl⟩
  | (field, condition) :: conditions, entries => by
    rw [decodeConditions_cons_iff, AreCanonicalFields, encodeFields]
    constructor
    · rintro ⟨hordered, v, rest, rfl, hfirst, hrest⟩
      obtain ⟨hcanonical, rfl⟩ := (ordered_and_decodeCondition_iff field condition).1 ⟨hordered.1, hfirst⟩
      obtain ⟨hothers, rfl⟩ := (orderedEntries_and_decode_iff conditions).1 ⟨hordered.2, hrest⟩
      exact ⟨⟨hcanonical, hothers⟩, rfl⟩
    · rintro ⟨⟨hcanonical, hothers⟩, rfl⟩
      obtain ⟨hordered, hfirst⟩ := (ordered_and_decodeCondition_iff field condition).2 ⟨hcanonical, rfl⟩
      obtain ⟨hrests, hrest⟩ := (orderedEntries_and_decode_iff conditions).2 ⟨hothers, rfl⟩
      exact ⟨⟨hordered, hrests⟩, _, _, rfl, hfirst, hrest⟩

theorem ordered_and_decodeCondition_iff (field : String) : ∀ (condition : FieldCondition) {v : Value},
    v.Ordered ∧ decodeCondition field v = .ok condition ↔
      IsCanonicalCondition condition ∧ encodeCondition condition = v
  | .equals s, v => by
    rw [decodeCondition_equals_iff, IsCanonicalCondition, encodeCondition]
    constructor
    · rintro ⟨-, rfl⟩
      exact ⟨True.intro, rfl⟩
    · rintro ⟨-, rfl⟩
      exact ⟨True.intro, rfl⟩
  | .operators spec, v => by
    rw [decodeCondition_operators_iff, IsCanonicalCondition, encodeCondition]
    constructor
    · rintro ⟨hordered, entries, rfl, hkeys, h⟩
      rw [Value.Ordered] at hordered
      obtain ⟨hne, rfl⟩ := Operators.ordered_and_decode_iff.1 ⟨hordered.1, hordered.2, hkeys, h⟩
      exact ⟨hne, rfl⟩
    · rintro ⟨hne, rfl⟩
      obtain ⟨hascending, hordered, hkeys, h⟩ := Operators.ordered_and_decode_iff.2 ⟨hne, rfl⟩
      exact ⟨⟨hascending, hordered⟩, _, rfl, hkeys, h⟩
  | .nested f, v => by
    rw [decodeCondition_nested_iff, IsCanonicalCondition, encodeCondition]
    constructor
    · rintro ⟨hordered, entries, rfl, hkeys, h⟩
      obtain ⟨hcanonical, hencode⟩ := (ordered_and_decode_iff f).1 ⟨hordered, h⟩
      exact ⟨⟨(canNest_iff hencode).2 hkeys, hcanonical⟩, hencode⟩
    · rintro ⟨⟨hnest, hcanonical⟩, rfl⟩
      obtain ⟨hordered, h⟩ := (ordered_and_decode_iff f).2 ⟨hcanonical, rfl⟩
      obtain ⟨entries, hentries, h⟩ := decode_eq_ok_iff_object.1 h
      exact ⟨hordered, entries, hentries, (canNest_iff hentries).1 hnest, h⟩

end

/-- Reading is strict and loses nothing: a value is read as a filter exactly if the filter can be written and is written
as that value. So every filter that is read is written as what it was read from, and every filter that can be written
is read back. -/
theorem decode_eq_ok_iff_encode_eq (f : Filter) (v : Value) :
    v.Ordered ∧ decode v = .ok f ↔ f.IsCanonical ∧ f.encode = v :=
  ordered_and_decode_iff f

end Filter

end RecordQuery
