import RecordQuery.Proofs.Complement
/-!
# Membership and equalities

A list of values can be asked for by one operator (`Filter.inList`) or as a disjunction of equalities
(`Filter.equalsAny`). `Filter.inList_iff_equalsAny` compares the WHERE clauses of both and of their negations: they
are true of the same rows if there is no null among the values. An equality with null asks whether the column is null,
but in a list null is compared with the column, which decides nothing: then no row without a value is in the list, and
no row at all is outside it.
-/

namespace RecordQuery

open Sql
open Database (Row)

variable {ι : Type} {catalog : Catalog ι} {s : Schema ι} {field : String} {values : List Scalar} {p : Predicate}
  {e : Filter} {c : Condition} {a : Operand}

/-! ## Comparisons with null -/

theorem Sql.Truth.not_eq_yes_iff {t : Truth} : t.not = .yes ↔ t = .no := by cases t <;> simp [Truth.not]

/-- What is compared with a column is null if it was. -/
theorem Sql.Operand.isNull_comparand (a : Operand) (cell : Cell) : (a.comparand cell).isNull = cell.isNull := by
  rw [comparand]
  split
  · exact Affinity.isNull_comparand _ cell
  · rfl

/-- A comparison is undecided if the column or the value is null. -/
theorem Sql.Operand.compare_eq_unknown {value : Param} (h : a.cell.isNull || value.cell.isNull)
    (comparison : Comparison) : a.compare comparison value = .unknown := by
  rw [compare, Cell.compare?, isNull_comparand, isNull_comparand, if_pos h]
  rfl

theorem Sql.Operand.compare_null (a : Operand) (comparison : Comparison) :
    a.compare comparison (.ofScalar .null) = .unknown :=
  compare_eq_unknown (Bool.or_true _) comparison

/-! ## Tests -/

/-- An equality is a comparison, but for null. -/
theorem Test.truth_eq_of_ne {value : Scalar} (h : value ≠ .null) :
    Test.truth a (.eq value) = a.compare .eq (.ofScalar value) := by
  cases value with
  | null => exact absurd rfl h
  | _ => rfl

/-- The truth of some equality with values. -/
def Test.truthOfAny (a : Operand) (values : List Scalar) : Truth :=
  .any (values.map fun value => Test.truth a (.eq value))

/-- A column is in a list if it equals a value, and has one if null is in the list. -/
theorem Test.truth_oneOf_eq_yes_iff : Test.truth a (.oneOf values) = .yes ↔
    truthOfAny a values = .yes ∧ (.null ∈ values → a.cell.isNull = false) := by
  simp only [truth, truthOfAny, Truth.any_eq_yes_iff, List.mem_map]
  constructor
  · rintro ⟨value, hvalue, hyes⟩
    have hne : value ≠ .null := fun heq => by simp [heq, Operand.compare_null] at hyes
    have hknown : a.cell.isNull = false := by
      cases hnull : a.cell.isNull with
      | false => rfl
      | true =>
        rw [Operand.compare_eq_unknown (by rw [hnull, Bool.true_or])] at hyes
        cases hyes
    exact ⟨⟨value, hvalue, (truth_eq_of_ne hne).trans hyes⟩, fun _ => hknown⟩
  · rintro ⟨⟨value, hvalue, hyes⟩, hnull⟩
    -- An equality with null is true of a column without a value only, and the column has one.
    have hne : value ≠ .null := fun heq => by
      rw [heq] at hvalue hyes
      simp [hnull hvalue, Truth.ofBool] at hyes
    exact ⟨value, hvalue, (truth_eq_of_ne hne).symm.trans hyes⟩

/-- A column is outside a list if it equals no value, and null is not in the list. -/
theorem Test.truth_oneOf_eq_no_iff : Test.truth a (.oneOf values) = .no ↔
    truthOfAny a values = .no ∧ .null ∉ values := by
  simp only [truth, truthOfAny, Truth.any_eq_no_iff, List.forall_mem_map]
  constructor
  · intro hno
    have hnull : .null ∉ values := fun hmem => by
      have hfalse := hno _ hmem
      rw [Operand.compare_null] at hfalse
      cases hfalse
    exact ⟨fun value hvalue => (truth_eq_of_ne (ne_of_mem_of_not_mem hvalue hnull)).trans (hno value hvalue), hnull⟩
  · rintro ⟨hno, hnull⟩ value hvalue
    exact (truth_eq_of_ne (ne_of_mem_of_not_mem hvalue hnull)).symm.trans (hno value hvalue)

/-! ## Filters -/

namespace Filter

/-- Asks whether a field is in a list of values. -/
def inList (field : String) (values : List Scalar) : Filter := .fields [(field, .operators { oneOf := some values })]

/-- Asks whether a field equals some of the values. -/
def equalsAny (field : String) (values : List Scalar) : Filter :=
  .or (values.map fun value => .fields [(field, .equals value)])

/-- Whether a clause is what is read from the text of the statement for a filter. -/
def Asks (catalog : Catalog ι) (s : Schema ι) (e : Filter) (clause : Clause) : Prop :=
  ∃ p q, Predicate.ofFilter e = .ok p ∧ (Select.live s).filter catalog s p = .ok q ∧
    Clause.ofText? q.params q.whereText = some clause

/-- The clause of a filter asks for the rows without a deletion mark on which the condition of its predicate is true. -/
theorem exists_asks (hp : Predicate.ofFilter e = .ok p) (hnot : p.isEverything = false)
    (hc : Condition.ofPredicate catalog s p = .ok c) : ∃ clause, e.Asks catalog s clause ∧ ∀ rows scopes,
      clause.eval rows scopes = (Condition.evalAll rows scopes (Condition.unmarked s)).and (c.eval rows scopes) := by
  have hq : (Select.live s).filter catalog s p =
      .ok { Select.live s with conditions := Condition.unmarked s ++ [c] } :=
    Select.filter_eq_ok_iff.2 (.inr ⟨hnot, c, hc, rfl⟩)
  obtain ⟨clause, hclause, heval⟩ :=
    Clause.exists_ofText? { Select.live s with conditions := Condition.unmarked s ++ [c] }
  refine ⟨clause, ⟨p, _, hp, hq, hclause⟩, fun rows scopes => ?_⟩
  rw [heval, Condition.evalAll_append, Condition.evalAll, Condition.evalAll, Truth.and_yes]

theorem exists_asks_not (hp : Predicate.ofFilter e = .ok p) (hc : Condition.ofPredicate catalog s p = .ok c) :
    ∃ clause, e.not.Asks catalog s clause ∧ ∀ rows scopes, clause.eval rows scopes =
      (Condition.evalAll rows scopes (Condition.unmarked s)).and (c.eval rows scopes).not := by
  have hnot : Predicate.ofFilter e.not = .ok p.not := by
    rw [Predicate.ofFilter, hp]
    rfl
  exact exists_asks hnot rfl (Condition.ofPredicate_not_eq_ok_iff.2 ⟨c, hc, rfl⟩)

theorem ofFilter_inList : Predicate.ofFilter (inList field values) =
    .ok (.all [(field, .test (.oneOf values))] []) := rfl

theorem ofFilter_equalsAny :
    Predicate.ofFilter (equalsAny field values) = .ok (.any (values.map (Predicate.eq field))) := by
  have hbranches : Predicate.ofBranches (values.map fun value => .fields [(field, .equals value)]) =
      .ok (values.map (Predicate.eq field)) := by
    induction values with
    | nil => rfl
    | cons value values ih =>
      rw [List.map_cons, Predicate.ofBranches, ih]
      rfl
  rw [equalsAny, Predicate.ofFilter, hbranches]
  rfl

end Filter

/-- The condition of one test. -/
theorem Sql.Condition.ofPredicate_test (catalog : Catalog ι) (h : s.hasColumn field) (t : Test) :
    ofPredicate catalog s (.all [(field, .test t)] []) = .ok (.all [ofTest field t]) :=
  ofPredicate_all_eq_ok_iff.2 ⟨[ofTest field t], [],
    ofFields_cons_eq_ok_iff.2 ⟨_, _, ofConstraint_test_eq_ok_iff.2 ⟨h, rfl⟩, rfl, rfl⟩, rfl, rfl⟩

theorem Sql.Condition.eval_test (rows : String → List Scope) (scopes : List Scope) (t : Test) :
    (all [ofTest field t]).eval rows scopes = t.truth (Scope.resolve scopes field) := by
  rw [eval, evalAll, evalAll, Truth.and_yes, eval_ofTest]

/-- The condition of equalities. -/
theorem Sql.Condition.ofPredicate_equalities (catalog : Catalog ι) (h : s.hasColumn field) (values : List Scalar) :
    ofPredicate catalog s (.any (values.map (Predicate.eq field))) =
      .ok (.any (values.map fun value => .all [ofTest field (.eq value)])) := by
  refine ofPredicate_any_eq_ok_iff.2 ⟨_, ?_, rfl⟩
  induction values with
  | nil => rfl
  | cons value values ih => exact ofAll_cons_eq_ok_iff.2 ⟨_, _, ofPredicate_test catalog h (.eq value), ih, rfl⟩

theorem Sql.Condition.eval_equalities (rows : String → List Scope) (scopes : List Scope) (values : List Scalar) :
    (any (values.map fun value => all [ofTest field (.eq value)])).eval rows scopes =
      Test.truthOfAny (Scope.resolve scopes field) values := by
  rw [eval, evalAny_eq_any, List.map_map, Test.truthOfAny]
  exact congrArg Truth.any (List.map_congr_left fun value _ => eval_test rows scopes (.eq value))

/-- A field is in a list of values on the rows on which it equals one of them, except that with null in the list it
has to have a value. It is outside the list on the rows on which it equals none of them, except that with null in the
list it never is. So the list and the equalities ask for the same rows if there is no null among the values. -/
theorem Filter.inList_iff_equalsAny (hcolumn : s.hasColumn field) (values : List Scalar) :
    ∃ inside equal outside different : Clause,
      (inList field values).Asks catalog s inside ∧ (equalsAny field values).Asks catalog s equal ∧
      (inList field values).not.Asks catalog s outside ∧ (equalsAny field values).not.Asks catalog s different ∧
      ∀ (rows : String → List Scope) (row : Scope) (around : List Scope),
        (inside.eval rows (row :: around) = .yes ↔ equal.eval rows (row :: around) = .yes ∧
          (.null ∈ values → (Scope.resolve (row :: around) field).cell.isNull = false)) ∧
        (outside.eval rows (row :: around) = .yes ↔
          different.eval rows (row :: around) = .yes ∧ .null ∉ values) := by
  have hin := Condition.ofPredicate_test catalog hcolumn (.oneOf values)
  have hequal := Condition.ofPredicate_equalities catalog hcolumn values
  obtain ⟨inside, hasks₁, heval₁⟩ := exists_asks ofFilter_inList rfl hin
  obtain ⟨equal, hasks₂, heval₂⟩ := exists_asks ofFilter_equalsAny rfl hequal
  obtain ⟨outside, hasks₃, heval₃⟩ := exists_asks_not ofFilter_inList hin
  obtain ⟨different, hasks₄, heval₄⟩ := exists_asks_not ofFilter_equalsAny hequal
  refine ⟨inside, equal, outside, different, hasks₁, hasks₂, hasks₃, hasks₄, fun rows row around => ⟨?_, ?_⟩⟩
  · rw [heval₁, heval₂, Truth.and_eq_yes_iff, Truth.and_eq_yes_iff, Condition.eval_test, Condition.eval_equalities,
      Test.truth_oneOf_eq_yes_iff, and_assoc]
  · rw [heval₃, heval₄, Truth.and_eq_yes_iff, Truth.and_eq_yes_iff, Truth.not_eq_yes_iff, Truth.not_eq_yes_iff,
      Condition.eval_test, Condition.eval_equalities, Test.truth_oneOf_eq_no_iff, and_assoc]

/-! ## Products and their photos -/

/-- A product without a photo, and one with. -/
def Demo.Shop.photographed : Shop → List Row
  | .product => [⟨1, [("name", .text "Milk")]⟩, ⟨2, [("name", .text "Bread"), ("photoId", .integer 7)]⟩]
  | _ => []

/-- The products with one of two photos, or with no photo. -/
theorem Filter.inList_iff_equalsAny_shop :
    let s := Demo.Shop.productSchema
    let values : List Scalar := [.int 7, .null, .text "8"]
    s.hasColumn "photoId" ∧ ∃ inside equal outside different : Clause,
      (inList "photoId" values).Asks Demo.Shop.catalog s inside ∧
      (equalsAny "photoId" values).Asks Demo.Shop.catalog s equal ∧
      (inList "photoId" values).not.Asks Demo.Shop.catalog s outside ∧
      (equalsAny "photoId" values).not.Asks Demo.Shop.catalog s different ∧
      ∀ (rows : String → List Scope) (row : Scope) (around : List Scope),
        (inside.eval rows (row :: around) = .yes ↔ equal.eval rows (row :: around) = .yes ∧
          (.null ∈ values → (Scope.resolve (row :: around) "photoId").cell.isNull = false)) ∧
        (outside.eval rows (row :: around) = .yes ↔
          different.eval rows (row :: around) = .yes ∧ .null ∉ values) := by
  intro s values
  have hcolumn : s.hasColumn "photoId" := by decide
  exact ⟨hcolumn, inList_iff_equalsAny hcolumn values⟩

/-- Asked for the products whose photo is in a list of null, the statement passes over the one without a photo, which a
disjunction of equalities finds. Asked for the others, it passes over the one with a photo. -/
theorem Filter.inList_ne_equalsAny_shop :
    let s := Demo.Shop.productSchema
    let db := Demo.Shop.database Demo.Shop.photographed
    ∃ inside equal outside different : Clause,
      (inList "photoId" [.null]).Asks Demo.Shop.catalog s inside ∧
      (equalsAny "photoId" [.null]).Asks Demo.Shop.catalog s equal ∧
      (inList "photoId" [.null]).not.Asks Demo.Shop.catalog s outside ∧
      (equalsAny "photoId" [.null]).not.Asks Demo.Shop.catalog s different ∧
      (∃ row ∈ db.scopes s.table, inside.eval db.scopes [row] ≠ .yes ∧ equal.eval db.scopes [row] = .yes) ∧
      ∃ row ∈ db.scopes s.table, outside.eval db.scopes [row] ≠ .yes ∧ different.eval db.scopes [row] = .yes := by
  intro s db
  have hcolumn : s.hasColumn "photoId" := by decide
  have hin := Condition.ofPredicate_test Demo.Shop.catalog hcolumn (.oneOf [.null])
  have hequal := Condition.ofPredicate_equalities Demo.Shop.catalog hcolumn [.null]
  obtain ⟨inside, hasks₁, heval₁⟩ := exists_asks ofFilter_inList rfl hin
  obtain ⟨equal, hasks₂, heval₂⟩ := exists_asks ofFilter_equalsAny rfl hequal
  obtain ⟨outside, hasks₃, heval₃⟩ := exists_asks_not ofFilter_inList hin
  obtain ⟨different, hasks₄, heval₄⟩ := exists_asks_not ofFilter_equalsAny hequal
  refine ⟨inside, equal, outside, different, hasks₁, hasks₂, hasks₃, hasks₄, ?_, ?_⟩
  · simp only [heval₁, heval₂]
    decide
  · simp only [heval₃, heval₄]
    decide

end RecordQuery
