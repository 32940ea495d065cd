import RecordQuery.Proofs.Predicates
import RecordQuery.Proofs.Shop
import RecordQuery.Proofs.Where.Written
/-!
# The meaning of a predicate

`Predicate.truth` is what a predicate says of a row: Kleene's connectives over the tests of its columns,
where a relation asks whether the key of the row is among the keys of the live rows there that satisfy
the inner predicate. It speaks of one schema's row at a time and knows neither text nor brackets nor rows
around. The condition of a predicate has its truth (`eval_ofPredicate`), and the WHERE clause that is read
from the statement's text holds on the live rows on which the predicate is true
(`whereText_filter_eq_yes_iff`).
-/

namespace RecordQuery

open Sql

variable {ι : Type} {catalog : Catalog ι} {root s : Schema ι} {rows : String → List Scope} {row : Scope}

@[simp] theorem Sql.Truth.holds_ofBool (b : Bool) : (Truth.ofBool b).holds = b := by cases b <;> rfl

theorem Sql.Truth.holds_eq_true_iff {t : Truth} : t.holds ↔ t = .yes := by cases t <;> simp [holds]

theorem Sql.Truth.any_eq_yes_iff {ts : List Truth} : Truth.any ts = .yes ↔ .yes ∈ ts := by
  induction ts with
  | nil => simp [Truth.any]
  | cons t ts ih =>
    rw [Truth.any, List.mem_cons, ← ih]
    cases t <;> cases Truth.any ts <;> simp [Truth.or]

theorem Sql.Truth.any_eq_no_iff {ts : List Truth} : Truth.any ts = .no ↔ ∀ t ∈ ts, t = .no := by
  induction ts with
  | nil => simp [Truth.any]
  | cons t ts ih =>
    rw [Truth.any, List.forall_mem_cons, ← ih]
    cases t <;> cases Truth.any ts <;> simp [Truth.or]

/-- Whether an operand is among others. -/
def Sql.Operand.among (a : Operand) (keys : List Operand) : Truth := .any (keys.map a.equals)

/-- The truth of a test on what a column holds. -/
def Test.truth (a : Operand) : Test → Truth
  | .eq .null => .ofBool a.cell.isNull
  | .eq value => a.compare .eq (.ofScalar value)
  | .ne .null => .ofBool (!a.cell.isNull)
  | .ne value => a.compare .ne (.ofScalar value)
  | .like pattern => a.matched pattern
  | .oneOf values => .any (values.map fun value => a.compare .eq (.ofScalar value))
  | .isNull => .ofBool a.cell.isNull
  | .isNotNull => .ofBool (!a.cell.isNull)
  | .between low high => (a.compare .gte (.ofScalar low)).and (a.compare .lte (.ofScalar high))
  | .gt bound => a.compare .gt (.ofScalar bound)
  | .gte bound => a.compare .gte (.ofScalar bound)
  | .lt bound => a.compare .lt (.ofScalar bound)
  | .lte bound => a.compare .lte (.ofScalar bound)

namespace Schema

/-- Whether a row carries no deletion mark. -/
def isLive (s : Schema ι) (row : Scope) : Bool :=
  s.deletionMark?.all fun mark => (Scope.resolve [row] mark).cell.isNull

/-- The rows of every table know the columns of the schemas of a graph. -/
def AreKnown (catalog : Catalog ι) (root : Schema ι) (rows : String → List Scope) : Prop :=
  ∀ s, IsIn catalog root s → ∀ row ∈ rows s.table, ∀ name, s.hasColumn name → (row name).isSome

end Schema

namespace Predicate

mutual

/-- The truth of a predicate on a row of a schema's table, where `rows` gives the rows of a table. -/
def truth (catalog : Catalog ι) (rows : String → List Scope) (s : Schema ι) (row : Scope) :
    Predicate → Truth
  | .all fields groups =>
    .all (fieldTruths catalog rows s row fields ++ truths catalog rows s row groups)
  | .any branches => .any (truths catalog rows s row branches)
  | .not inner => (inner.truth catalog rows s row).not

/-- The truth of each predicate. -/
def truths (catalog : Catalog ι) (rows : String → List Scope) (s : Schema ι) (row : Scope) :
    List Predicate → List Truth
  | [] => []
  | p :: ps => p.truth catalog rows s row :: truths catalog rows s row ps

/-- The truth of each field's constraint. -/
def fieldTruths (catalog : Catalog ι) (rows : String → List Scope) (s : Schema ι) (row : Scope) :
    List (String × Constraint) → List Truth
  | [] => []
  | (field, constraint) :: fields =>
    fieldTruth catalog rows s row field constraint :: fieldTruths catalog rows s row fields

/-- The truth of a field's constraint. -/
def fieldTruth (catalog : Catalog ι) (rows : String → List Scope) (s : Schema ι) (row : Scope)
    (field : String) : Constraint → Truth
  | .test t => t.truth (Scope.resolve [row] field)
  | .related p =>
    match s.relation? field with
    | none => .unknown
    | some r =>
      let target := catalog r.target
      let found := (rows target.table).filter fun other =>
        target.isLive other && (p.truth catalog rows target other).holds
      (Scope.resolve [row] (s.joinKeys catalog r).1).among
        (found.map fun other => Scope.resolve [other] (s.joinKeys catalog r).2)

end

end Predicate

/-! ## Conditions on one row -/

namespace Sql.Condition

theorem evalAll_eq_all (rows : String → List Scope) (scopes : List Scope) (cs : List Condition) :
    evalAll rows scopes cs = .all (cs.map (eval rows scopes)) := by
  induction cs with
  | nil => rfl
  | cons c cs ih => rw [evalAll, ih, List.map_cons, Truth.all]

theorem evalAny_eq_any (rows : String → List Scope) (scopes : List Scope) (cs : List Condition) :
    evalAny rows scopes cs = .any (cs.map (eval rows scopes)) := by
  induction cs with
  | nil => rfl
  | cons c cs ih => rw [evalAny, ih, List.map_cons, Truth.any]

theorem evalAll_append (rows : String → List Scope) (scopes : List Scope) (cs ds : List Condition) :
    evalAll rows scopes (cs ++ ds) = (evalAll rows scopes cs).and (evalAll rows scopes ds) := by
  simp only [evalAll_eq_all, List.map_append, Truth.all_append]

/-- The condition of a test has its truth. -/
theorem eval_ofTest (rows : String → List Scope) (scopes : List Scope) (column : String) (t : Test) :
    (ofTest column t).eval rows scopes = t.truth (Scope.resolve scopes column) := by
  cases t with
  | eq value => cases value <;> rfl
  | ne value => cases value <;> rfl
  | oneOf values => simp only [ofTest, eval, Test.truth, List.map_map]; rfl
  | _ => rfl

/-- The rows without a deletion mark are those that the condition asks for. -/
theorem evalAll_unmarked (hk : ∀ name, s.hasColumn name → (row name).isSome) (around : List Scope) :
    evalAll rows (row :: around) (unmarked s) = .ofBool (s.isLive row) := by
  cases hm : s.deletionMark? with
  | none => simp [unmarked, hm, evalAll, Schema.isLive, Truth.ofBool]
  | some mark =>
    have hr := resolve_of_known (hk mark (Schema.hasColumn_mark hm)) around []
    simp [unmarked, hm, evalAll, eval, Schema.isLive, hr]

end Sql.Condition

/-! ## The condition of a predicate -/

namespace Predicate

open Outcome Sql.Condition

theorem truth_of_isEverything {p : Predicate} (h : p.isEverything) :
    p.truth catalog rows s row = .yes := by
  unfold isEverything at h
  split at h
  · simp [truth, fieldTruths, truths, Truth.all]
  · cases h

mutual

/-- The condition of a predicate has its truth, whatever rows are around: every name is one of the
innermost row. -/
theorem eval_ofPredicate (hsound : Schema.IsSound catalog root)
    (hknown : Schema.AreKnown catalog root rows) :
    ∀ (p : Predicate) {s : Schema ι} {row : Scope} {c : Condition}
    (_ : Schema.IsIn catalog root s) (_ : ∀ name, s.hasColumn name → (row name).isSome)
    (_ : ofPredicate catalog s p = .ok c) (around : List Scope),
    c.eval rows (row :: around) = p.truth catalog rows s row
  | .all fields groups, s, row, c, hs, hr, hc, around => by
    obtain ⟨tests, inner, hf, hg, rfl⟩ := ofPredicate_all_eq_ok_iff.1 hc
    rw [Condition.eval, Condition.evalAll_eq_all, List.map_append, truth,
      map_ofFields hsound hknown fields hs hr hf around, map_ofAll hsound hknown groups hs hr hg around]
  | .any branches, s, row, c, hs, hr, hc, around => by
    obtain ⟨cs, hb, rfl⟩ := ofPredicate_any_eq_ok_iff.1 hc
    rw [Condition.eval, Condition.evalAny_eq_any, truth,
      map_ofAll hsound hknown branches hs hr hb around]
  | .not inner, s, row, c, hs, hr, hc, around => by
    obtain ⟨d, hi, rfl⟩ := ofPredicate_not_eq_ok_iff.1 hc
    rw [Condition.eval, truth, eval_ofPredicate hsound hknown inner hs hr hi around]

theorem map_ofAll (hsound : Schema.IsSound catalog root)
    (hknown : Schema.AreKnown catalog root rows) :
    ∀ (ps : List Predicate) {s : Schema ι} {row : Scope} {cs : List Condition}
    (_ : Schema.IsIn catalog root s) (_ : ∀ name, s.hasColumn name → (row name).isSome)
    (_ : ofAll catalog s ps = .ok cs) (around : List Scope),
    cs.map (Condition.eval rows (row :: around)) = truths catalog rows s row ps
  | [], s, row, cs, hs, hr, hc, around => by
    obtain rfl : [] = cs := by simpa [ofAll] using hc
    rfl
  | p :: ps, s, row, cs, hs, hr, hc, around => by
    obtain ⟨d, ds, hp, hps, rfl⟩ := ofAll_cons_eq_ok_iff.1 hc
    rw [List.map_cons, truths, eval_ofPredicate hsound hknown p hs hr hp around,
      map_ofAll hsound hknown ps hs hr hps around]

theorem map_ofFields (hsound : Schema.IsSound catalog root)
    (hknown : Schema.AreKnown catalog root rows) :
    ∀ (fields : List (String × Constraint)) {s : Schema ι} {row : Scope} {cs : List Condition}
    (_ : Schema.IsIn catalog root s) (_ : ∀ name, s.hasColumn name → (row name).isSome)
    (_ : Condition.ofFields catalog s fields = .ok cs) (around : List Scope),
    cs.map (Condition.eval rows (row :: around)) = fieldTruths catalog rows s row fields
  | [], s, row, cs, hs, hr, hc, around => by
    obtain rfl : [] = cs := by simpa [Condition.ofFields] using hc
    rfl
  | (field, constraint) :: fields, s, row, cs, hs, hr, hc, around => by
    obtain ⟨d, ds, hf, hfs, rfl⟩ := ofFields_cons_eq_ok_iff.1 hc
    rw [List.map_cons, fieldTruths, eval_ofConstraint hsound hknown field constraint hs hr hf around,
      map_ofFields hsound hknown fields hs hr hfs around]

theorem eval_ofConstraint (hsound : Schema.IsSound catalog root)
    (hknown : Schema.AreKnown catalog root rows) (field : String) :
    ∀ (constraint : Constraint) {s : Schema ι} {row : Scope} {c : Condition}
    (_ : Schema.IsIn catalog root s) (_ : ∀ name, s.hasColumn name → (row name).isSome)
    (_ : ofConstraint catalog s field constraint = .ok c) (around : List Scope),
    c.eval rows (row :: around) = fieldTruth catalog rows s row field constraint
  | .test t, s, row, c, hs, hr, hc, around => by
    obtain ⟨hf, rfl⟩ := ofConstraint_test_eq_ok_iff.1 hc
    rw [Condition.eval_ofTest, fieldTruth, Condition.resolve_of_known (hr field hf) around []]
  | .related p, s, row, c, hs, hr, hc, around => by
    obtain ⟨r, inner, hrel, hinner, rfl⟩ := ofConstraint_related_eq_ok_iff.1 hc
    have htarget : Schema.IsIn catalog root (catalog r.target) := Schema.isIn_catalog r.target
    have hmem := (Schema.relation?_eq_some hrel).1
    have houter := hr _ (Schema.hasColumn_joinKeys_fst (hsound s hs) hmem)
    have hkey := Schema.hasColumn_joinKeys_snd (hsound s hs) hmem (hsound _ htarget)
    -- The inner conditions hold on the rows of the target on which the predicate is true.
    have hin : ∀ other ∈ rows (catalog r.target).table,
        Condition.evalAll rows (other :: row :: around) inner =
          p.truth catalog rows (catalog r.target) other := by
      intro other ho
      rcases hinner with ⟨he, rfl⟩ | ⟨-, d, hd, rfl⟩
      · exact (truth_of_isEverything he).symm
      · rw [Condition.evalAll, Condition.evalAll, Truth.and_yes]
        exact eval_ofPredicate hsound hknown p htarget (hknown _ htarget other ho) hd (row :: around)
    rw [Condition.eval, fieldTruth, hrel]
    simp only [Operand.among, List.map_map]
    rw [← Clause.filterMap_ite]
    congr 1
    refine Condition.filterMap_eq fun other ho => ?_
    have hother := hknown _ htarget other ho
    rw [Condition.evalAll_append, hin other ho, Condition.evalAll_unmarked hother,
      Condition.resolve_of_known houter around [],
      Condition.resolve_of_known (hother _ hkey) (row :: around) [], Truth.holds_and,
      Truth.holds_ofBool]
    rfl

end

end Predicate

/-! ## The WHERE clause of a statement -/

/-- The conditions of a statement that keeps the live rows which satisfy a predicate have the truth of
both. -/
theorem Sql.Select.evalAll_filter (hsound : Schema.IsSound catalog root)
    (hknown : Schema.AreKnown catalog root rows) (hs : Schema.IsIn catalog root s)
    (hrow : ∀ name, s.hasColumn name → (row name).isSome) {p : Predicate} {q : Select}
    (hq : (Select.live s).filter catalog s p = .ok q) (around : List Scope) :
    Condition.evalAll rows (row :: around) q.conditions =
      (Truth.ofBool (s.isLive row)).and (p.truth catalog rows s row) := by
  rcases filter_eq_ok_iff.1 hq with ⟨he, rfl⟩ | ⟨-, c, hc, rfl⟩
  · rw [Predicate.truth_of_isEverything he, Truth.and_yes]
    exact Condition.evalAll_unmarked hrow around
  · rw [Condition.evalAll_append, Condition.evalAll, Condition.evalAll, Truth.and_yes,
      Predicate.eval_ofPredicate hsound hknown p hs hrow hc around, ← Condition.evalAll_unmarked hrow around]
    rfl

/-- A predicate that passes the check has a statement. -/
theorem Sql.Select.exists_filter {access : Access} {p : Predicate}
    (h : p.check catalog access s = .ok ()) (q : Select) :
    ∃ q', q.filter catalog s p = .ok q' :=
  exists_filter_of_condition (Predicate.exists_ofPredicate p h) q

/-- The WHERE clause of a statement for a predicate that passes the check can be read from its text, and
it is true of a row exactly if the row is live and the predicate is true of it. -/
theorem Sql.Select.whereText_filter_eq_yes_iff {db : Database} (hsound : Schema.IsSound catalog s)
    (hcover : db.Covers catalog s) {p : Predicate}
    (hp : p.check catalog .any s = .ok ()) :
    ∃ q clause, (Select.live s).filter catalog s p = .ok q ∧
      Clause.ofText? q.params q.whereText = some clause ∧
      ∀ row ∈ db.scopes s.table, clause.eval db.scopes [row] = .yes ↔
        s.isLive row ∧ p.truth catalog db.scopes s row = .yes := by
  obtain ⟨q, hq⟩ := exists_filter hp (Select.live s)
  obtain ⟨clause, hclause, heval⟩ := Clause.exists_ofText? q
  refine ⟨q, clause, hq, hclause, fun row hrow => ?_⟩
  have hs : Schema.IsIn catalog s s := Schema.isIn_root
  have hknown : Schema.AreKnown catalog s db.scopes := fun s hs row hrow name hname =>
    Database.isSome_of_mem_scopes hcover hs hrow hname
  rw [heval, evalAll_filter hsound hknown hs (hknown s hs row hrow) hq [],
    ← Truth.holds_eq_true_iff, Truth.holds_and, Truth.holds_ofBool, Bool.and_eq_true,
    Truth.holds_eq_true_iff]

/-- The products that are not dear, or belong to a category below the first one, in a shop with a product
of each kind. -/
theorem Sql.Select.whereText_filter_shop :
    let s := Demo.Shop.productSchema
    let db := Demo.Shop.database fun
      | .user => []
      | .category => [⟨1, [("name", .text "Dairy")]⟩, ⟨2, [("parentId", .integer 1)]⟩]
      | .product => [⟨1, [("price", .integer 8)]⟩,
          ⟨2, [("price", .integer 34), ("categoryId", .integer 2)]⟩]
    let p := Predicate.any
      [.not (.all [("price", .test (.gt (.int 10)))] []),
        .all [("category", .related (.eq "parentId" (.int 1)))] []]
    Schema.IsSound Demo.Shop.catalog s ∧ db.Covers Demo.Shop.catalog s ∧
      p.check Demo.Shop.catalog .any s = .ok () ∧
      ∃ q clause, (Select.live s).filter Demo.Shop.catalog s p = .ok q ∧
        Clause.ofText? q.params q.whereText = some clause ∧
        ∀ row ∈ db.scopes s.table, clause.eval db.scopes [row] = .yes ↔
          s.isLive row ∧ p.truth Demo.Shop.catalog db.scopes s row = .yes := by
  have hsound := Demo.Shop.isSound .product
  have hcover := Demo.Shop.covers_database
  refine ⟨hsound, hcover _ .product, ?_, whereText_filter_eq_yes_iff hsound (hcover _ .product) ?_⟩
  all_goals cbv

end RecordQuery
