import RecordQuery.Proofs.Predicates
import RecordQuery.Proofs.Where.Written
/-!
# Conditions without their values

An outline is what is left when every value gives way to one that says nothing, but for null, which stays,
and every pattern to the empty one. What a predicate asks decides the condition but for its values, and the
values are no part of the text.

* `ofPredicate_outline`: the outline of a predicate has the outline of its condition, or the same fault;
* `map_outline_tokens`: a condition and its outline are written alike but for the values that are bound;
* `text_outline`: a statement and its outline have the same texts.
-/

namespace RecordQuery

open Sql Sql.Token

/-! ## What is left without the values -/

/-- A scalar but for its value: null stays. -/
def Scalar.outline : Scalar → Scalar
  | .null => .null
  | _ => .bool false

/-- Scalars have one outline exactly if both are null or neither is. -/
theorem Scalar.outline_eq_iff {v w : Scalar} : v.outline = w.outline ↔ (v = .null ↔ w = .null) := by
  cases v <;> cases w <;> simp [outline]

/-- A bound value but for the value: null stays. -/
def Sql.Param.outline : Param → Param
  | .null => .null
  | _ => .bool false

/-- A test without its values and pattern. -/
def Test.outline : Test → Test
  | .eq value => .eq value.outline
  | .ne value => .ne value.outline
  | .like _ => .like ""
  | .oneOf values => .oneOf (values.map Scalar.outline)
  | .isNull => .isNull
  | .isNotNull => .isNotNull
  | .between low high => .between low.outline high.outline
  | .gt bound => .gt bound.outline
  | .gte bound => .gte bound.outline
  | .lt bound => .lt bound.outline
  | .lte bound => .lte bound.outline

namespace Predicate

mutual

/-- A predicate without its values and patterns. -/
def outline : Predicate → Predicate
  | .all fields groups => .all (outlineOfFields fields) (outlineOfAll groups)
  | .any branches => .any (outlineOfAll branches)
  | .not inner => .not inner.outline

/-- Predicates without their values and patterns. -/
def outlineOfAll : List Predicate → List Predicate
  | [] => []
  | p :: ps => p.outline :: outlineOfAll ps

/-- The fields of a conjunction without their values and patterns. -/
def outlineOfFields : List (String × Constraint) → List (String × Constraint)
  | [] => []
  | (field, constraint) :: fields => (field, outlineOfConstraint constraint) :: outlineOfFields fields

/-- The constraint of a field without its values and patterns. -/
def outlineOfConstraint : Constraint → Constraint
  | .test t => .test t.outline
  | .related p => .related p.outline

end

@[simp]
theorem isEverything_outline (p : Predicate) : p.outline.isEverything = p.isEverything := by
  match p with
  | .all [] [] => rfl
  | .all [] (_ :: _) => rfl
  | .all (_ :: _) _ => rfl
  | .any _ => rfl
  | .not _ => rfl

end Predicate

namespace Sql

namespace Token

/-- A token but for the value that it binds. -/
def outline : Token → Token
  | .param _ => .param .null
  | t => t

@[simp]
theorem text_outline (n : Nat) (t : Token) : t.outline.text n = t.text n := by
  cases t <;> rfl

@[simp]
theorem isSome_param?_outline (t : Token) : t.outline.param?.isSome = t.param?.isSome := by
  cases t <;> rfl

@[simp]
theorem touches_outline (t u : Token) : t.outline.touches u.outline = t.touches u := by
  cases t <;> cases u <;> rfl

/-- The values that tokens bind are no part of their text. -/
theorem render_map_outline : ∀ (ts : List Token) (n : Nat), render n (ts.map outline) = render n ts
  | [], _ => rfl
  | [t], n => text_outline n t
  | t :: u :: ts, n => by
    have h := render_map_outline (u :: ts)
    simp only [List.map_cons] at h
    simp [render, h]

theorem map_outline_bracketed (ts : List Token) :
    (bracketed ts).map outline = bracketed (ts.map outline) := by
  simp [bracketed, outline]

theorem map_outline_separated (separator : Token) : ∀ tss : List (List Token),
    (separated separator tss).map outline = separated separator.outline (tss.map (List.map outline))
  | [] => rfl
  | [ts] => rfl
  | ts :: us :: tss => by
    have h := map_outline_separated separator (us :: tss)
    simp only [List.map_cons] at h
    simp [separated, h]

end Token

namespace Condition

mutual

/-- A condition without its values and patterns. -/
def outline : Condition → Condition
  | .isNull column => .isNull column
  | .isNotNull column => .isNotNull column
  | .compare column comparison value => .compare column comparison value.outline
  | .between column low high => .between column low.outline high.outline
  | .oneOf column values => .oneOf column (values.map Param.outline)
  | .matching column _ => .matching column ""
  | .among column key table conditions => .among column key table (outlineOfAll conditions)
  | .all parts => .all (outlineOfAll parts)
  | .any parts => .any (outlineOfAll parts)
  | .not inner => .not inner.outline

/-- Conditions without their values and patterns. -/
def outlineOfAll : List Condition → List Condition
  | [] => []
  | c :: cs => c.outline :: outlineOfAll cs

end

theorem outlineOfAll_eq_map (cs : List Condition) : outlineOfAll cs = cs.map outline := by
  induction cs with
  | nil => rfl
  | cons c cs ih => rw [outlineOfAll, ih, List.map_cons]

/-- Parts of one outline under one connective have one outline. -/
theorem map_outline_joined (k : Connective) (tss : List (List Token)) :
    (joined k.word k.noTokens tss).map Token.outline =
      (joined k.word k.noTokens (tss.map (List.map Token.outline))).map Token.outline := by
  have h : ∀ t : Token, t.outline.outline = t.outline := fun t => by cases t <;> rfl
  rcases tss with _ | ⟨ts, _ | ⟨us, tss⟩⟩
  · rfl
  · simp [joined, h]
  · simp [joined, map_outline_separated, map_outline_bracketed, h, Function.comp_def]

mutual

/-- Of its values a condition shows in its tokens only that they are there. -/
theorem map_outline_tokens : ∀ c : Condition,
    c.outline.tokens.map Token.outline = c.tokens.map Token.outline
  | .isNull _ => rfl
  | .isNotNull _ => rfl
  | .compare .. => rfl
  | .between .. => rfl
  | .matching .. => by simp [outline, tokens, Token.outline]
  | .oneOf _ [] => rfl
  | .oneOf column (v :: vs) => by
    simp [outline, tokens, map_outline_bracketed, map_outline_separated, Function.comp_def, Token.outline]
  | .among column key table [] => rfl
  | .among column key table (c :: cs) => by
    have h := map_outline_listTokens .and (c :: cs)
    simp only [outlineOfAll, listTokens, Connective.word, Connective.noTokens] at h
    simp [outline, outlineOfAll, tokens, listTokens, map_outline_bracketed, h]
  | .all parts => map_outline_listTokens .and parts
  | .any parts => map_outline_listTokens .or parts
  | .not inner => by simp [outline, tokens, map_outline_bracketed, map_outline_tokens inner]

theorem map_outline_listTokens (k : Connective) : ∀ cs : List Condition,
    (joined k.word k.noTokens (listTokens (outlineOfAll cs))).map Token.outline =
      (joined k.word k.noTokens (listTokens cs)).map Token.outline := by
  intro cs
  rw [map_outline_joined, map_outline_joined k (listTokens cs), map_outline_each cs]

theorem map_outline_each : ∀ cs : List Condition,
    (listTokens (outlineOfAll cs)).map (List.map Token.outline) =
      (listTokens cs).map (List.map Token.outline)
  | [] => rfl
  | c :: cs => by
    simp only [outlineOfAll, listTokens, List.map_cons]
    rw [map_outline_tokens c, map_outline_each cs]

end

/-! ## The condition of a predicate without its values -/

variable {ι : Type} {catalog : Catalog ι}

theorem ofScalar_outline (v : Scalar) : Param.ofScalar v.outline = (Param.ofScalar v).outline := by
  cases v <;> rfl

/-- Null stays and nothing becomes null, so a test is written in the same way. -/
theorem ofTest_outline (column : String) (t : Test) : ofTest column t.outline = (ofTest column t).outline := by
  cases t with
  | eq value => cases value <;> rfl
  | ne value => cases value <;> rfl
  | oneOf values => simp [Test.outline, ofTest, outline, Function.comp_def, ofScalar_outline]
  | _ => simp [Test.outline, ofTest, outline, ofScalar_outline]

theorem map_outline_unmarked (s : Schema ι) : (unmarked s).map outline = unmarked s := by
  cases h : s.deletionMark? <;> simp [unmarked, h, outline]

mutual

/-- A predicate without its values has the condition without them, or the same fault. -/
theorem ofPredicate_outline : ∀ (p : Predicate) (s : Schema ι),
    ofPredicate catalog s p.outline = (ofPredicate catalog s p).map outline
  | .all fields groups, s => by
    rw [Predicate.outline, ofPredicate, ofPredicate, ofFields_outline fields s, ofAll_outline groups s]
    cases ofFields catalog s fields with
    | error e => rfl
    | ok tests =>
      cases ofAll catalog s groups with
      | error e => rfl
      | ok inner => simp [Except.map, bind, Except.bind, outline, outlineOfAll_eq_map]
  | .any branches, s => by
    rw [Predicate.outline, ofPredicate, ofPredicate, ofAll_outline branches s]
    cases ofAll catalog s branches with
    | error e => rfl
    | ok cs => simp [Except.map, outline, outlineOfAll_eq_map]
  | .not inner, s => by
    rw [Predicate.outline, ofPredicate, ofPredicate, ofPredicate_outline inner s]
    cases ofPredicate catalog s inner <;> simp [Except.map, outline]

theorem ofAll_outline : ∀ (ps : List Predicate) (s : Schema ι),
    ofAll catalog s (Predicate.outlineOfAll ps) = (ofAll catalog s ps).map (List.map outline)
  | [], _ => rfl
  | p :: ps, s => by
    rw [Predicate.outlineOfAll, ofAll, ofAll, ofPredicate_outline p s, ofAll_outline ps s]
    cases ofPredicate catalog s p with
    | error e => rfl
    | ok d => cases ofAll catalog s ps <;> rfl

theorem ofFields_outline : ∀ (fields : List (String × Constraint)) (s : Schema ι),
    ofFields catalog s (Predicate.outlineOfFields fields) = (ofFields catalog s fields).map (List.map outline)
  | [], _ => rfl
  | (field, constraint) :: fields, s => by
    rw [Predicate.outlineOfFields, ofFields, ofFields, ofConstraint_outline constraint s field,
      ofFields_outline fields s]
    cases ofConstraint catalog s field constraint with
    | error e => rfl
    | ok d => cases ofFields catalog s fields <;> rfl

theorem ofConstraint_outline : ∀ (constraint : Constraint) (s : Schema ι) (field : String),
    ofConstraint catalog s field (Predicate.outlineOfConstraint constraint) =
      (ofConstraint catalog s field constraint).map outline
  | .test t, s, field => by
    rw [Predicate.outlineOfConstraint, ofConstraint, ofConstraint, ofTest_outline]
    cases requireColumn s field <;> rfl
  | .related p, s, field => by
    rw [Predicate.outlineOfConstraint, ofConstraint, ofConstraint, Predicate.isEverything_outline]
    cases s.relation? field with
    | none => rfl
    | some r =>
      have h := ofPredicate_outline p (catalog r.target)
      have hmark := map_outline_unmarked (catalog r.target)
      cases p.isEverything with
      | true => simp [bind, Except.bind, Except.map, outline, outlineOfAll_eq_map, hmark]
      | false =>
        simp only [Bool.false_eq_true, if_false, h]
        cases ofPredicate catalog (catalog r.target) p <;>
          simp [bind, Except.bind, Except.map, outline, outlineOfAll_eq_map, hmark]

end

end Condition

/-! ## Statements without their values -/

namespace Select

/-- A statement without its values and patterns. -/
def outline (q : Select) : Select :=
  { q with conditions := q.conditions.map Condition.outline }

theorem map_outline_whereTokens (q : Select) :
    q.outline.whereTokens.map Token.outline = q.whereTokens.map Token.outline := by
  cases h : q.conditions with
  | nil => simp [outline, whereTokens, h]
  | cons c cs =>
    have hall := Condition.map_outline_tokens (.all (c :: cs))
    rw [Condition.outline, Condition.outlineOfAll_eq_map] at hall
    simpa [outline, whereTokens, h] using hall

theorem fromText_outline (q : Select) : q.outline.fromText = q.fromText := by
  have h := map_outline_whereTokens q
  have htext : q.outline.whereText = q.whereText := by
    rw [whereText, whereText, ← render_map_outline, h, render_map_outline]
  have hempty : q.outline.whereTokens.isEmpty = q.whereTokens.isEmpty := by
    rw [← List.isEmpty_map, h, List.isEmpty_map]
  simp only [fromText, htext, hempty]
  rfl

/-- The values of a statement are no part of its text. -/
theorem text_outline (q : Select) (columns : List String) : q.outline.text columns = q.text columns := by
  simp only [text, fromText_outline]
  rfl

theorem countText_outline (q : Select) : q.outline.countText = q.countText := by
  rw [countText, fromText_outline, countText]

end Select

end Sql

end RecordQuery
