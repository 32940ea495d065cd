import RecordQuery.Sql.Condition
import RecordQuery.Sql.Scope
/-!
# The truth of a condition

A condition is evaluated on rows: the row of the innermost table first, then the rows of the tables
around it. `Condition.eval` is Kleene's logic over comparisons that are undecided on null. A `Plan`
answers the nested queries that stand alone beforehand, and has the same truth
(`Plan.eval_ofCondition`).
-/

namespace RecordQuery.Sql

namespace Operand

/-- The comparison of an operand with a bound value. -/
def compare (a : Operand) (comparison : Comparison) (value : Param) : Truth :=
  .ofBool? (Cell.compare? (a.collation.getD .binary) (a.comparand a.cell)
    (a.comparand value.cell) |>.map comparison.admits)

/-- The equality of two operands. -/
def equals (a b : Operand) : Truth :=
  .ofBool? ((a.compare? b).map Comparison.eq.admits)

/-- Whether an operand is text that a wildcard pattern matches; undecided if it is no text. -/
def matched (a : Operand) (pattern : String) : Truth :=
  match a.cell with
  | .text s => .ofBool (Text.Wildcard.accepts (Text.Wildcard.read pattern) s.toList)
  | _ => .unknown

end Operand

namespace Condition

mutual

/-- The truth of a condition, where `rows` gives the rows of a table. -/
def eval (rows : String → List Scope) (scopes : List Scope) : Condition → Truth
  | .isNull column => .ofBool (Scope.resolve scopes column).cell.isNull
  | .isNotNull column => .ofBool (!(Scope.resolve scopes column).cell.isNull)
  | .compare column comparison value => (Scope.resolve scopes column).compare comparison value
  | .between column low high =>
    ((Scope.resolve scopes column).compare .gte low).and
      ((Scope.resolve scopes column).compare .lte high)
  | .oneOf column values => .any (values.map ((Scope.resolve scopes column).compare .eq))
  | .matching column pattern => (Scope.resolve scopes column).matched pattern
  | .among column key table conditions =>
    .any ((rows table).filterMap fun row =>
      if (evalAll rows (row :: scopes) conditions).holds then
        some ((Scope.resolve scopes column).equals (Scope.resolve (row :: scopes) key))
      else none)
  | .all parts => evalAll rows scopes parts
  | .any parts => evalAny rows scopes parts
  | .not inner => (inner.eval rows scopes).not

/-- The truth of all conditions. -/
def evalAll (rows : String → List Scope) (scopes : List Scope) : List Condition → Truth
  | [] => .yes
  | condition :: conditions =>
    (condition.eval rows scopes).and (evalAll rows scopes conditions)

/-- The truth of some condition. -/
def evalAny (rows : String → List Scope) (scopes : List Scope) : List Condition → Truth
  | [] => .no
  | condition :: conditions =>
    (condition.eval rows scopes).or (evalAny rows scopes conditions)

end

/-! ## Queries that stand alone

A nested query whose names are all known in its own tables answers the same for every row around it.
It is asked once, and the row only looks into the answer. -/

/-- Whether every row of a table knows a name. -/
def known (rows : String → List Scope) (table name : String) : Bool :=
  (rows table).all fun row => (row name).isSome

mutual

/-- Whether the names of a condition are known, those of nested queries in their own tables. -/
def isClosed (rows : String → List Scope) (known : String → Bool) : Condition → Bool
  | .isNull column => known column
  | .isNotNull column => known column
  | .compare column _ _ => known column
  | .between column _ _ => known column
  | .oneOf column _ => known column
  | .matching column _ => known column
  | .among column key table conditions =>
    known column && Condition.known rows table key &&
      areClosed rows (Condition.known rows table) conditions
  | .all parts => areClosed rows known parts
  | .any parts => areClosed rows known parts
  | .not inner => inner.isClosed rows known

/-- Whether the names of conditions are known. -/
def areClosed (rows : String → List Scope) (known : String → Bool) : List Condition → Bool
  | [] => true
  | condition :: conditions =>
    condition.isClosed rows known && areClosed rows known conditions

end

/-- Filters that agree on the members of a list leave the same of it. -/
theorem filterMap_eq {α β : Type} {f g : α → Option β} {xs : List α}
    (h : ∀ x ∈ xs, f x = g x) : xs.filterMap f = xs.filterMap g := by
  induction xs with
  | nil => rfl
  | cons x xs ih =>
    rw [List.filterMap_cons, List.filterMap_cons, h x List.mem_cons_self,
      ih fun y hy => h y (List.mem_cons_of_mem x hy)]

theorem resolve_of_known {row : Scope} {name : String} (h : (row name).isSome)
    (s s' : List Scope) : Scope.resolve (row :: s) name = Scope.resolve (row :: s') name := by
  obtain ⟨a, ha⟩ := Option.isSome_iff_exists.1 h
  simp [Scope.resolve, ha]

theorem isSome_of_known {rows : String → List Scope} {table name : String} {row : Scope}
    (hr : row ∈ rows table) (h : known rows table name) : (row name).isSome :=
  List.all_eq_true.1 h row hr

mutual

/-- A condition whose names are known does not depend on the rows around. -/
theorem eval_of_isClosed {rows : String → List Scope} {known : String → Bool} {row : Scope}
    (hk : ∀ name, known name → (row name).isSome) (s s' : List Scope) :
    ∀ condition : Condition, condition.isClosed rows known →
      condition.eval rows (row :: s) = condition.eval rows (row :: s')
  | .isNull column, h => by simp only [eval, resolve_of_known (hk column h) s s']
  | .isNotNull column, h => by simp only [eval, resolve_of_known (hk column h) s s']
  | .compare column _ _, h => by simp only [eval, resolve_of_known (hk column h) s s']
  | .between column _ _, h => by simp only [eval, resolve_of_known (hk column h) s s']
  | .oneOf column _, h => by simp only [eval, resolve_of_known (hk column h) s s']
  | .matching column _, h => by simp only [eval, resolve_of_known (hk column h) s s']
  | .among column key table conditions, h => by
    simp only [isClosed, Bool.and_eq_true] at h
    obtain ⟨⟨hc, hkey⟩, hin⟩ := h
    simp only [eval, resolve_of_known (hk column hc) s s']
    congr 1
    refine filterMap_eq fun inner hi => ?_
    rw [evalAll_of_areClosed (fun name hn => isSome_of_known hi hn) (row :: s) (row :: s')
        conditions hin, resolve_of_known (isSome_of_known hi hkey) (row :: s) (row :: s')]
  | .all parts, h => evalAll_of_areClosed hk s s' parts h
  | .any parts, h => evalAny_of_areClosed hk s s' parts h
  | .not inner, h => congrArg Truth.not (eval_of_isClosed hk s s' inner h)

theorem evalAll_of_areClosed {rows : String → List Scope} {known : String → Bool} {row : Scope}
    (hk : ∀ name, known name → (row name).isSome) (s s' : List Scope) :
    ∀ conditions : List Condition, areClosed rows known conditions →
      evalAll rows (row :: s) conditions = evalAll rows (row :: s') conditions
  | [], _ => rfl
  | condition :: conditions, h => by
    simp only [areClosed, Bool.and_eq_true] at h
    simp only [evalAll, eval_of_isClosed hk s s' condition h.1,
      evalAll_of_areClosed hk s s' conditions h.2]

theorem evalAny_of_areClosed {rows : String → List Scope} {known : String → Bool} {row : Scope}
    (hk : ∀ name, known name → (row name).isSome) (s s' : List Scope) :
    ∀ conditions : List Condition, areClosed rows known conditions →
      evalAny rows (row :: s) conditions = evalAny rows (row :: s') conditions
  | [], _ => rfl
  | condition :: conditions, h => by
    simp only [areClosed, Bool.and_eq_true] at h
    simp only [evalAny, eval_of_isClosed hk s s' condition h.1,
      evalAny_of_areClosed hk s s' conditions h.2]

end

end Condition

/-- A condition in which nested queries that stand alone are answered. -/
inductive Plan where
  /-- A condition that is evaluated as it is. -/
  | test (condition : Condition)
  /-- A column is among the operands that a nested query gave. -/
  | member (column : String) (keys : List Operand)
  | all (parts : List Plan)
  | any (parts : List Plan)
  | not (inner : Plan)

namespace Plan

mutual

/-- The truth of a plan. -/
def eval (rows : String → List Scope) (scopes : List Scope) : Plan → Truth
  | .test condition => condition.eval rows scopes
  | .member column keys => .any (keys.map ((Scope.resolve scopes column).equals))
  | .all parts => evalAll rows scopes parts
  | .any parts => evalAny rows scopes parts
  | .not inner => (inner.eval rows scopes).not

/-- The truth of all plans. -/
def evalAll (rows : String → List Scope) (scopes : List Scope) : List Plan → Truth
  | [] => .yes
  | plan :: plans => (plan.eval rows scopes).and (evalAll rows scopes plans)

/-- The truth of some plan. -/
def evalAny (rows : String → List Scope) (scopes : List Scope) : List Plan → Truth
  | [] => .no
  | plan :: plans => (plan.eval rows scopes).or (evalAny rows scopes plans)

end

/-- The operands of a name in the rows that satisfy plans. -/
def keys (rows : String → List Scope) (table key : String) (plans : List Plan) : List Operand :=
  (rows table).filterMap fun row =>
    if (evalAll rows [row] plans).holds then some (Scope.resolve [row] key) else none

mutual

/-- The plan of a condition. -/
def ofCondition (rows : String → List Scope) : Condition → Plan
  | .among column key table conditions =>
    if Condition.known rows table key &&
        Condition.areClosed rows (Condition.known rows table) conditions then
      .member column (keys rows table key (ofConditions rows conditions))
    else .test (.among column key table conditions)
  | .all parts => .all (ofConditions rows parts)
  | .any parts => .any (ofConditions rows parts)
  | .not inner => .not (ofCondition rows inner)
  | condition => .test condition

/-- The plans of conditions. -/
def ofConditions (rows : String → List Scope) : List Condition → List Plan
  | [] => []
  | condition :: conditions => ofCondition rows condition :: ofConditions rows conditions

end

mutual

/-- A plan has the truth of its condition. -/
theorem eval_ofCondition (rows : String → List Scope) (scopes : List Scope) :
    ∀ condition : Condition,
      (ofCondition rows condition).eval rows scopes = condition.eval rows scopes
  | .among column key table conditions => by
    rw [ofCondition]
    split
    · next h =>
      simp only [Bool.and_eq_true] at h
      simp only [eval, Condition.eval, keys, List.map_filterMap]
      congr 1
      refine Condition.filterMap_eq fun row hr => ?_
      rw [evalAll_ofConditions rows [row] conditions,
        Condition.evalAll_of_areClosed (fun name hn => Condition.isSome_of_known hr hn) [] scopes
          conditions h.2,
        Condition.resolve_of_known (Condition.isSome_of_known hr h.1) [] scopes]
      split <;> rfl
    · rfl
  | .all parts => by
    simpa only [ofCondition, eval, Condition.eval] using evalAll_ofConditions rows scopes parts
  | .any parts => by
    simpa only [ofCondition, eval, Condition.eval] using evalAny_ofConditions rows scopes parts
  | .not inner => by simp only [ofCondition, eval, Condition.eval, eval_ofCondition rows scopes inner]
  | .isNull _ => rfl
  | .isNotNull _ => rfl
  | .compare .. => rfl
  | .between .. => rfl
  | .oneOf .. => rfl
  | .matching .. => rfl

/-- The plans of conditions have the truth of all of them. -/
theorem evalAll_ofConditions (rows : String → List Scope) (scopes : List Scope) :
    ∀ conditions : List Condition,
      evalAll rows scopes (ofConditions rows conditions) = Condition.evalAll rows scopes conditions
  | [] => rfl
  | condition :: conditions => by
    simp only [ofConditions, evalAll, Condition.evalAll, eval_ofCondition rows scopes condition,
      evalAll_ofConditions rows scopes conditions]

/-- The plans of conditions have the truth of some of them. -/
theorem evalAny_ofConditions (rows : String → List Scope) (scopes : List Scope) :
    ∀ conditions : List Condition,
      evalAny rows scopes (ofConditions rows conditions) = Condition.evalAny rows scopes conditions
  | [] => rfl
  | condition :: conditions => by
    simp only [ofConditions, evalAny, Condition.evalAny, eval_ofCondition rows scopes condition,
      evalAny_ofConditions rows scopes conditions]

end

end Plan

end RecordQuery.Sql
