/-!
# Three-valued truth

A comparison with null is neither true nor false. `Truth` has the third value and Kleene's
connectives: a conjunction is the least and a disjunction the greatest of its parts in the order
`no`, `unknown`, `yes`, and a negation turns the order around.
-/

namespace RecordQuery.Sql

/-- A truth value. -/
inductive Truth where
  | no
  | unknown
  | yes
  deriving DecidableEq

namespace Truth

/-- The truth value of a decided question. -/
def ofBool : Bool → Truth
  | true => yes
  | false => no

/-- The truth value of a question that may be undecided. -/
def ofBool? : Option Bool → Truth
  | some b => ofBool b
  | none => unknown

/-- Both. -/
def and : Truth → Truth → Truth
  | no, _ => no
  | _, no => no
  | yes, yes => yes
  | _, _ => unknown

/-- At least one. -/
def or : Truth → Truth → Truth
  | yes, _ => yes
  | _, yes => yes
  | no, no => no
  | _, _ => unknown

/-- The opposite; what is unknown stays unknown. -/
def not : Truth → Truth
  | no => yes
  | unknown => unknown
  | yes => no

/-- All of a list; nothing is asked of the empty one. -/
def all : List Truth → Truth
  | [] => yes
  | t :: ts => t.and (all ts)

/-- Some of a list. -/
def any : List Truth → Truth
  | [] => no
  | t :: ts => t.or (any ts)

/-- Whether a row with this answer is kept. -/
def holds : Truth → Bool
  | yes => true
  | _ => false

@[simp] theorem yes_and (t : Truth) : yes.and t = t := by cases t <;> rfl

@[simp] theorem and_yes (t : Truth) : t.and yes = t := by cases t <;> rfl

@[simp] theorem no_or (t : Truth) : no.or t = t := by cases t <;> rfl

@[simp] theorem or_no (t : Truth) : t.or no = t := by cases t <;> rfl

@[simp] theorem not_not (t : Truth) : t.not.not = t := by cases t <;> rfl

theorem and_assoc (s t u : Truth) : (s.and t).and u = s.and (t.and u) := by
  cases s <;> cases t <;> cases u <;> rfl

theorem and_comm (s t : Truth) : s.and t = t.and s := by cases s <;> cases t <;> rfl

theorem or_assoc (s t u : Truth) : (s.or t).or u = s.or (t.or u) := by
  cases s <;> cases t <;> cases u <;> rfl

theorem or_comm (s t : Truth) : s.or t = t.or s := by cases s <;> cases t <;> rfl

theorem not_and (s t : Truth) : (s.and t).not = s.not.or t.not := by cases s <;> cases t <;> rfl

theorem not_or (s t : Truth) : (s.or t).not = s.not.and t.not := by cases s <;> cases t <;> rfl

theorem all_append (ss ts : List Truth) : all (ss ++ ts) = (all ss).and (all ts) := by
  induction ss with
  | nil => simp [all]
  | cons s ss ih => simp [all, ih, and_assoc]

theorem any_append (ss ts : List Truth) : any (ss ++ ts) = (any ss).or (any ts) := by
  induction ss with
  | nil => simp [any]
  | cons s ss ih => simp [any, ih, or_assoc]

@[simp] theorem holds_and (s t : Truth) : (s.and t).holds = (s.holds && t.holds) := by
  cases s <;> cases t <;> rfl

theorem and_eq_yes_iff {s t : Truth} : s.and t = yes ↔ s = yes ∧ t = yes := by
  cases s <;> cases t <;> simp [and]

end Truth

end RecordQuery.Sql
