import RecordQuery.Coercion
import RecordQuery.Filter.Decode
import RecordQuery.Proofs.Form.Spelling
import RecordQuery.Proofs.Outcome
/-!
# Searches from their texts

A search whose leaves are told as texts is typed again by what the texts spell. `Coercion.normalize_worded` gives the
search's own value back, as long as each of its texts spells nothing but itself (`Json.IsPlain`).

The scalars of a list are not typed, so the lists must stand where a filter wants them: a filter that can be read has
lists of scalars under `in` and lists of filters under `and` and `or`, and no other (`Filter.Takes.of_list`).
-/

namespace RecordQuery

open Outcome

/-! ## Keys in ascending order -/

section

variable {α : Type} {key : String} {a : α} {entries pairs : List (String × α)} {e : String × α}

theorem mem_insertKey_self : (key, a) ∈ insertKey key a entries := by
  induction entries with
  | nil => exact List.mem_singleton_self _
  | cons e entries ih =>
    obtain ⟨k, b⟩ := e
    rw [insertKey]
    split
    · exact List.mem_cons_self
    split
    · exact List.mem_cons_self
    · exact List.mem_cons_of_mem _ ih

/-- Another key's entry stays. -/
theorem mem_insertKey (h : e ∈ entries) (hne : e.1 ≠ key) : e ∈ insertKey key a entries := by
  induction entries with
  | nil => cases h
  | cons first entries ih =>
    obtain ⟨k, b⟩ := first
    rw [insertKey]
    split
    · exact List.mem_cons_of_mem _ h
    split
    · next hk =>
      rcases List.mem_cons.1 h with rfl | h
      · exact absurd hk.symm hne
      · exact List.mem_cons_of_mem _ h
    · rcases List.mem_cons.1 h with rfl | h
      · exact List.mem_cons_self
      · exact List.mem_cons_of_mem _ (ih h)

/-- Sorting loses no pair of keys that are told apart. -/
theorem mem_sortKeys (hkeys : (pairs.map Prod.fst).Nodup) (h : e ∈ pairs) : e ∈ sortKeys pairs := by
  have hfold : ∀ entries : List (String × α), (e ∈ pairs ∨ e ∈ entries ∧ e.1 ∉ pairs.map Prod.fst) →
      e ∈ pairs.foldl (fun entries p => insertKey p.1 p.2 entries) entries := by
    clear h
    induction pairs with
    | nil => exact fun _ h => (h.resolve_left List.not_mem_nil).1
    | cons p pairs ih =>
      rw [List.map_cons, List.nodup_cons] at hkeys
      intro entries h
      refine ih hkeys.2 _ ?_
      rcases h with h | ⟨h, hnew⟩
      · rcases List.mem_cons.1 h with rfl | h
        · exact .inr ⟨mem_insertKey_self, hkeys.1⟩
        · exact .inl h
      · rw [List.map_cons, List.mem_cons, not_or] at hnew
        exact .inr ⟨mem_insertKey h hnew.1, hnew.2⟩
  exact hfold [] (.inl h)

theorem mem_of_mem_insertKey (h : e ∈ insertKey key a entries) : e = (key, a) ∨ e ∈ entries := by
  induction entries with
  | nil => exact .inl (List.mem_singleton.1 h)
  | cons first entries ih =>
    obtain ⟨k, b⟩ := first
    rw [insertKey] at h
    split at h
    · exact List.mem_cons.1 h
    split at h
    · exact (List.mem_cons.1 h).imp id fun h => List.mem_cons_of_mem _ h
    · rcases List.mem_cons.1 h with rfl | h
      · exact .inr List.mem_cons_self
      · exact (ih h).imp id fun h => List.mem_cons_of_mem _ h

/-- Sorting adds no pair. -/
theorem mem_of_mem_sortKeys (h : e ∈ sortKeys pairs) : e ∈ pairs := by
  have hfold : ∀ entries : List (String × α), e ∈ pairs.foldl (fun entries p => insertKey p.1 p.2 entries) entries →
      e ∈ pairs ∨ e ∈ entries := by
    clear h
    induction pairs with
    | nil => exact fun _ h => .inr h
    | cons p pairs ih =>
      intro entries h
      rcases ih _ h with h | h
      · exact .inl (List.mem_cons_of_mem _ h)
      · rcases mem_of_mem_insertKey h with rfl | h
        · exact .inl List.mem_cons_self
        · exact .inr h
  exact (hfold [] h).resolve_right List.not_mem_nil

/-- A key behind all others is put at the end. -/
theorem insertKey_eq_append (h : ∀ e ∈ entries, e.1 < key) : insertKey key a entries = entries ++ [(key, a)] := by
  induction entries with
  | nil => rfl
  | cons first entries ih =>
    obtain ⟨k, b⟩ := first
    obtain ⟨hfirst, hrest⟩ := List.forall_mem_cons.1 h
    rw [insertKey, if_neg (String.lt_asymm hfirst), if_neg (String.ne_of_lt hfirst).symm, ih hrest, List.cons_append]

/-- Pairs in ascending order are sorted already. -/
theorem sortKeys_eq_self (h : Ascending pairs) : sortKeys pairs = pairs := by
  have hfold : ∀ entries : List (String × α), Ascending (entries ++ pairs) →
      pairs.foldl (fun entries p => insertKey p.1 p.2 entries) entries = entries ++ pairs := by
    clear h
    induction pairs with
    | nil => exact fun entries _ => (List.append_nil entries).symm
    | cons p pairs ih =>
      intro entries h
      have hbelow : ∀ e ∈ entries, e.1 < p.1 := fun e he =>
        (List.pairwise_append.1 (List.pairwise_map.1 h)).2.2 e he p List.mem_cons_self
      rw [List.foldl_cons, insertKey_eq_append hbelow, ih, List.append_assoc, List.singleton_append]
      rwa [List.append_assoc, List.singleton_append]
  exact hfold [] h

end

/-! ## Where a filter takes a list -/

namespace Filter

variable {key field : String} {value : Value} {entries : List (String × Value)} {items : List Value}

/-- What a filter that can be read has under a key: a filter, a condition or an operator of its own, or the branches of
a composite. -/
inductive Takes : String → Value → Prop
  | filter {key value f} (h : decode value = .ok f) : Takes key value
  | condition {key value c} (h : decodeCondition key value = .ok c) : Takes key value
  | operator {key value field spec spec'} (h : Operators.add field spec key value = .ok spec') : Takes key value
  | branches {key value fs} (hkey : key = "and" ∨ key = "or") (h : decodeList key value = .ok fs) : Takes key value

/-- An operator is a scalar or a list of scalars. -/
theorem of_operator {spec spec' : Operators} (h : spec.add field key value = .ok spec') :
    (∃ s, value = .scalar s) ∨ key = "in" ∧ ∃ items, value = .list items := by
  cases value with
  | scalar s => exact .inl ⟨s, rfl⟩
  | list items =>
    refine .inr ⟨?_, items, rfl⟩
    unfold Operators.add at h
    split at h <;> simp_all [Operators.scalarOf, Except.map]
  | object entries =>
    unfold Operators.add at h
    split at h <;> simp_all [Operators.scalarOf, Except.map]

theorem takes_of_operators {spec spec' : Operators} (h : Operators.decode field spec entries = .ok spec') :
    ∀ e ∈ entries, Takes e.1 e.2 := by
  induction entries generalizing spec with
  | nil => exact fun _ he => nomatch he
  | cons e entries ih =>
    obtain ⟨next, hnext, hrest⟩ := bind_eq_ok_iff.1 h
    exact List.forall_mem_cons.2 ⟨.operator hnext, ih hrest⟩

theorem takes_of_conditions {cs : List (String × FieldCondition)} (h : decodeConditions entries = .ok cs) :
    ∀ e ∈ entries, Takes e.1 e.2 := by
  induction entries generalizing cs with
  | nil => exact fun _ he => nomatch he
  | cons e entries ih =>
    rw [decodeConditions] at h
    obtain ⟨c, hc, h⟩ := bind_eq_ok_iff.1 h
    obtain ⟨rest, hrest, -⟩ := bind_eq_ok_iff.1 h
    exact List.forall_mem_cons.2 ⟨.condition hc, ih hrest⟩

theorem takes_of_object {f : Filter} (h : decodeObject entries = .ok f) : ∀ e ∈ entries, Takes e.1 e.2 := by
  cases entries with
  | nil => exact fun _ he => nomatch he
  | cons e entries =>
    obtain ⟨key, value⟩ := e
    unfold decodeObject at h
    split at h
    · cases entries with
      | cons => cases h
      | nil =>
        rw [List.forall_mem_singleton]
        dsimp only at h
        split at h
        · obtain ⟨fs, hfs, -⟩ := map_eq_ok_iff.1 h
          exact .branches (.inl rfl) hfs
        · obtain ⟨fs, hfs, -⟩ := map_eq_ok_iff.1 h
          exact .branches (.inr rfl) hfs
        · obtain ⟨f, hf, -⟩ := map_eq_ok_iff.1 h
          exact .filter hf
    · obtain ⟨c, hc, h⟩ := bind_eq_ok_iff.1 h
      obtain ⟨rest, hrest, -⟩ := bind_eq_ok_iff.1 h
      exact List.forall_mem_cons.2 ⟨.condition hc, takes_of_conditions hrest⟩

theorem decode_items {fs : List Filter} (h : decodeItems items = .ok fs) : ∀ item ∈ items, ∃ f, decode item = .ok f := by
  induction items generalizing fs with
  | nil => exact fun _ hi => nomatch hi
  | cons item items ih =>
    rw [decodeItems] at h
    obtain ⟨f, hf, h⟩ := bind_eq_ok_iff.1 h
    obtain ⟨rest, hrest, -⟩ := bind_eq_ok_iff.1 h
    exact List.forall_mem_cons.2 ⟨⟨f, hf⟩, ih hrest⟩

/-- Every entry of an object that a filter takes is taken. -/
theorem Takes.of_object (h : Takes key (.object entries)) : ∀ e ∈ entries, Takes e.1 e.2 := by
  cases h with
  | filter h =>
    rw [decode] at h
    exact takes_of_object h
  | condition h =>
    rw [decodeCondition] at h
    split at h
    · obtain ⟨spec, hspec, -⟩ := map_eq_ok_iff.1 h
      exact takes_of_operators hspec
    · obtain ⟨f, hf, -⟩ := map_eq_ok_iff.1 h
      exact takes_of_object hf
  | operator h =>
    obtain ⟨s, hs⟩ | ⟨-, items, hitems⟩ := of_operator h
    · cases hs
    · cases hitems
  | branches _ h => cases h

/-- A list that a filter takes stands under `in`, or its items are the filters of a composite. -/
theorem Takes.of_list (h : Takes key (.list items)) :
    key = "in" ∨ (key = "and" ∨ key = "or") ∧ ∀ item ∈ items, ∃ f, decode item = .ok f := by
  cases h with
  | filter h => cases h
  | condition h => cases h
  | operator h =>
    obtain ⟨s, hs⟩ | ⟨hin, -⟩ := of_operator h
    · cases hs
    · exact .inl hin
  | branches hkey h =>
    rw [decodeList] at h
    exact .inr ⟨hkey, decode_items h⟩

end Filter

/-! ## Plain searches -/

namespace Json

mutual

/-- Whether texts can tell what a search has under a key: an `in` lists texts, an `and` and an `or` list objects, and
every other leaf is null, a boolean, an integer, or a text that spells nothing but itself and does not stand for an
absent member. -/
def IsPlain (key : String) : Json → Prop
  | .null => True
  | .bool _ => True
  | .number n => ∃ i, n = .integer i
  | .string s => Coercion.coerce s = .text s ∧ s ≠ "undefined"
  | .array items =>
    if key = "in" then ∀ item ∈ items, ∃ s, item = .string s
    else ((key = "and" ∨ key = "or") → ∀ item ∈ items, ∃ members, item = .object members) ∧ ArePlainItems items
  | .object members => ArePlainMembers members

def ArePlainMembers : List (String × Json) → Prop
  | [] => True
  | (key, value) :: members => value.IsPlain key ∧ ArePlainMembers members

def ArePlainItems : List Json → Prop
  | [] => True
  | item :: items => item.IsPlain "" ∧ ArePlainItems items

end

end Json

/-! ## Texts typed -/

namespace Coercion

open Json RecordQuery.Filter

/-- No integer is written as a text that spells none. -/
theorem toString_ne {s : String} (h : Text.Integer.int64? (Text.trim s.toList) = none) (i : Int64) :
    toString i.toInt ≠ s := by
  rintro rfl
  cases (Text.Integer.int64?_trim_repr i).symm.trans h

/-- An integer is typed as what it is. -/
theorem coerce_integer (i : Int64) : coerce (toString i.toInt) = .int i := by
  have htrue := toString_ne (s := "true") (by decide) i
  have hfalse := toString_ne (s := "false") (by decide) i
  have hnull := toString_ne (s := "null") (by decide) i
  have hnumber : number? (toString i.toInt) = some (.int i) := by rw [number?, Text.Integer.int64?_trim_repr]
  rw [coerce, hnumber]
  · exact htrue
  · exact hfalse
  · exact hnull

/-- No member of a plain search stands for an absent one. -/
theorem isUndefined_worded {key : String} : ∀ {json : Json}, json.IsPlain key → isUndefined json.worded = false
  | .null, _ => rfl
  | .bool true, _ => rfl
  | .bool false, _ => rfl
  | .number n, h => by
    obtain ⟨i, rfl⟩ := h
    exact decide_eq_false (toString_ne (by decide) i)
  | .string _, h => decide_eq_false h.2
  | .array _, _ => rfl
  | .object _, _ => rfl

theorem keys_ofJsonMembers (members : List (String × Json)) :
    (Value.ofJsonMembers members).map Prod.fst = members.map Prod.fst := by
  rw [Value.ofJsonMembers_eq_map, List.map_map]
  rfl

/-- The texts of a list stay as they are. -/
theorem normalizeItems_texts {items : List Json} (h : ∀ item ∈ items, ∃ s, item = .string s) :
    normalizeItems (wordedItems items) = Value.ofJsonItems items := by
  induction items with
  | nil => rfl
  | cons item items ih =>
    obtain ⟨⟨s, rfl⟩, hrest⟩ := List.forall_mem_cons.1 h
    rw [wordedItems, Value.ofJsonItems, ← ih hrest]
    rfl

mutual

/-- A plain search is typed as what it was before its leaves were told as texts. -/
theorem normalize_worded : ∀ {key : String} {json : Json}, json.IsPlain key → json.IsSpelled →
    Takes key (Value.ofJson json) → normalize json.worded = Value.ofJson json
  | _, .null, _, _, _ => rfl
  | _, .bool true, _, _, _ => rfl
  | _, .bool false, _, _, _ => rfl
  | _, .number n, h, _, _ => by
    obtain ⟨i, rfl⟩ := h
    exact congrArg Value.scalar (coerce_integer i)
  | _, .string s, h, _, _ => congrArg Value.scalar h.1
  | key, .array items, hplain, hspelled, htakes => by
    rw [IsSpelled] at hspelled
    rw [worded, normalize, Value.ofJson]
    by_cases hin : key = "in"
    · rw [IsPlain, if_pos hin] at hplain
      rw [normalizeItems_texts hplain]
    · rw [IsPlain, if_neg hin] at hplain
      rw [Value.ofJson] at htakes
      obtain ⟨hkey, hitems⟩ := htakes.of_list.resolve_left hin
      rw [normalizeItems_worded (hplain.1 hkey) hplain.2 hspelled.2.2 hitems]
  | _, .object members, hplain, hspelled, htakes => by
    rw [IsPlain] at hplain
    rw [IsSpelled] at hspelled
    rw [Value.ofJson] at htakes
    have hkeys : ((Value.ofJsonMembers members).map Prod.fst).Nodup := by
      rw [keys_ofJsonMembers]
      exact hspelled.2.1
    rw [worded, normalize, Value.ofJson, normalizeMembers_worded hplain hspelled.2.2
      fun e he => htakes.of_object e (mem_sortKeys hkeys he)]

theorem normalizeMembers_worded : ∀ {members : List (String × Json)}, ArePlainMembers members →
    AreSpelledMembers members → (∀ e ∈ Value.ofJsonMembers members, Takes e.1 e.2) →
    normalizeMembers (wordedMembers members) = Value.ofJsonMembers members
  | [], _, _, _ => rfl
  | (key, value) :: members, hplain, hspelled, htakes => by
    rw [Value.ofJsonMembers] at htakes
    obtain ⟨hfirst, hrest⟩ := List.forall_mem_cons.1 htakes
    rw [wordedMembers, normalizeMembers, if_neg (by simp [isUndefined_worded hplain.1]), Value.ofJsonMembers,
      normalize_worded hplain.1 hspelled.2.1 hfirst, normalizeMembers_worded hplain.2 hspelled.2.2 hrest]

theorem normalizeItems_worded : ∀ {items : List Json}, (∀ item ∈ items, ∃ members, item = .object members) →
    ArePlainItems items → AreSpelledItems items → (∀ v ∈ Value.ofJsonItems items, ∃ f, decode v = .ok f) →
    normalizeItems (wordedItems items) = Value.ofJsonItems items
  | [], _, _, _, _ => rfl
  | item :: items, hobjects, hplain, hspelled, hdecode => by
    rw [Value.ofJsonItems] at hdecode
    obtain ⟨⟨f, hf⟩, hrest⟩ := List.forall_mem_cons.1 hdecode
    obtain ⟨⟨members, rfl⟩, hothers⟩ := List.forall_mem_cons.1 hobjects
    have hfirst := normalize_worded hplain.1 hspelled.1 (Takes.filter hf)
    rw [worded] at hfirst
    rw [wordedItems, worded, normalizeItems, hfirst, Value.ofJsonItems,
      normalizeItems_worded hothers hplain.2 hspelled.2 hrest]

end

end Coercion

end RecordQuery
