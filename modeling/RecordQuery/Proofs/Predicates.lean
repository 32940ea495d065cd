import RecordQuery.Proofs.Outcome
import RecordQuery.Proofs.Schemas
import RecordQuery.Query.Access
import RecordQuery.Sql.Build
/-!
# Predicates that pass the check

What it means for a predicate to pass the check and to have a condition, one constructor at a time. A
predicate that passes the check has a condition (`exists_ofPredicate`).
-/

namespace RecordQuery

open Outcome Sql

variable {ι : Type} {catalog : Catalog ι} {s : Schema ι} {access : Access} {field : String}
  {p inner : Predicate} {ps groups branches : List Predicate} {fields : List (String × Constraint)}
  {constraint : Constraint} {t : Test} {c : Condition} {cs : List Condition}

theorem Access.admits_iff : access.admits s field ↔
    s.hasColumn field ∧ (access = .any ∨ s.isHidden field = false) := by
  cases access <;> simp [admits]

namespace Predicate

/-! ## The check -/

theorem check_all_iff : check catalog access s (.all fields groups) = .ok () ↔
    checkFields catalog access s fields = .ok () ∧ checkAll catalog access s groups = .ok () := by
  rw [check, bind_eq_ok_iff]
  exact ⟨fun ⟨_, hf, hg⟩ => ⟨hf, hg⟩, fun ⟨hf, hg⟩ => ⟨(), hf, hg⟩⟩

theorem checkAll_cons_iff : checkAll catalog access s (p :: ps) = .ok () ↔
    p.check catalog access s = .ok () ∧ checkAll catalog access s ps = .ok () := by
  rw [checkAll, bind_eq_ok_iff]
  exact ⟨fun ⟨_, hp, hps⟩ => ⟨hp, hps⟩, fun ⟨hp, hps⟩ => ⟨(), hp, hps⟩⟩

theorem checkFields_cons_iff : checkFields catalog access s ((field, constraint) :: fields) = .ok () ↔
    checkField catalog access s field constraint = .ok () ∧
      checkFields catalog access s fields = .ok () := by
  rw [checkFields, bind_eq_ok_iff]
  exact ⟨fun ⟨_, hf, hfs⟩ => ⟨hf, hfs⟩, fun ⟨hf, hfs⟩ => ⟨(), hf, hfs⟩⟩

/-- A tested field is a column that may be referred to. -/
theorem admits_of_checkField_test (h : checkField catalog access s field (.test t) = .ok ()) :
    access.admits s field := by
  simp only [checkField, checkTest] at h
  split at h
  · cases h
  · split at h
    · next ha => exact ha
    · cases h

theorem checkField_related_iff : checkField catalog access s field (.related p) = .ok () ↔
    ∃ r, s.relation? field = some r ∧ p.check catalog access (catalog r.target) = .ok () := by
  cases hr : s.relation? field <;> simp [checkField, hr]

end Predicate

namespace Sql.Condition

/-! ## The condition -/

theorem requireColumn_eq_ok_iff : requireColumn s field = .ok () ↔ s.hasColumn field := by
  cases h : s.hasColumn field <;> simp [requireColumn, h]

theorem ofPredicate_all_eq_ok_iff : ofPredicate catalog s (.all fields groups) = .ok c ↔
    ∃ tests inner, ofFields catalog s fields = .ok tests ∧ ofAll catalog s groups = .ok inner ∧
      .all (tests ++ inner) = c := by
  simp [ofPredicate, bind_eq_ok_iff]

theorem ofPredicate_any_eq_ok_iff : ofPredicate catalog s (.any branches) = .ok c ↔
    ∃ cs, ofAll catalog s branches = .ok cs ∧ .any cs = c := by
  simp [ofPredicate, map_eq_ok_iff]

theorem ofPredicate_not_eq_ok_iff : ofPredicate catalog s (.not inner) = .ok c ↔
    ∃ d, ofPredicate catalog s inner = .ok d ∧ .not d = c := by
  simp [ofPredicate, map_eq_ok_iff]

theorem ofAll_cons_eq_ok_iff : ofAll catalog s (p :: ps) = .ok cs ↔
    ∃ d ds, ofPredicate catalog s p = .ok d ∧ ofAll catalog s ps = .ok ds ∧ d :: ds = cs := by
  simp [ofAll, bind_eq_ok_iff]

theorem ofAll_append_eq_ok_iff {qs : List Predicate} : ofAll catalog s (ps ++ qs) = .ok cs ↔
    ∃ ds es, ofAll catalog s ps = .ok ds ∧ ofAll catalog s qs = .ok es ∧ ds ++ es = cs := by
  induction ps generalizing cs with
  | nil => simp [ofAll]
  | cons p ps ih =>
    simp only [List.cons_append, ofAll_cons_eq_ok_iff, ih]
    constructor
    · rintro ⟨d, _, hd, ⟨ds, es, hds, hes, rfl⟩, rfl⟩
      exact ⟨d :: ds, es, ⟨d, ds, hd, hds, rfl⟩, hes, rfl⟩
    · rintro ⟨_, es, ⟨d, ds, hd, hds, rfl⟩, hes, rfl⟩
      exact ⟨d, ds ++ es, hd, ⟨ds, es, hds, hes, rfl⟩, rfl⟩

theorem ofFields_cons_eq_ok_iff : ofFields catalog s ((field, constraint) :: fields) = .ok cs ↔
    ∃ d ds, ofConstraint catalog s field constraint = .ok d ∧ ofFields catalog s fields = .ok ds ∧
      d :: ds = cs := by
  simp [ofFields, bind_eq_ok_iff]

theorem ofConstraint_test_eq_ok_iff : ofConstraint catalog s field (.test t) = .ok c ↔
    s.hasColumn field ∧ ofTest field t = c := by
  rw [ofConstraint, bind_eq_ok_iff]
  simp only [Except.ok.injEq]
  exact ⟨fun ⟨_, hf, hc⟩ => ⟨requireColumn_eq_ok_iff.1 hf, hc⟩,
    fun ⟨hf, hc⟩ => ⟨(), requireColumn_eq_ok_iff.2 hf, hc⟩⟩

/-- The condition of a relation looks for the key among those of the live rows there, on which the inner
predicate's condition holds unless everything satisfies it. -/
theorem ofConstraint_related_eq_ok_iff : ofConstraint catalog s field (.related p) = .ok c ↔
    ∃ r inner, s.relation? field = some r ∧
      (p.isEverything ∧ inner = [] ∨ p.isEverything = false ∧
        ∃ d, ofPredicate catalog (catalog r.target) p = .ok d ∧ [d] = inner) ∧
      .among (s.joinKeys catalog r).1 (s.joinKeys catalog r).2 (catalog r.target).table
        (unmarked (catalog r.target) ++ inner) = c := by
  cases hr : s.relation? field with
  | none => simp [ofConstraint, hr]
  | some r =>
    rw [ofConstraint, hr]
    cases he : p.isEverything <;> simp [bind_eq_ok_iff, map_eq_ok_iff]

end Sql.Condition

namespace Predicate

open Sql.Condition

mutual

/-- A predicate that passes the check has a condition. -/
theorem exists_ofPredicate : ∀ (p : Predicate) {s : Schema ι}, p.check catalog access s = .ok () →
    ∃ c, ofPredicate catalog s p = .ok c
  | .all fields groups, s, h => by
    obtain ⟨hf, hg⟩ := check_all_iff.1 h
    obtain ⟨tests, ht⟩ := exists_ofFields fields hf
    obtain ⟨inner, hi⟩ := exists_ofAll groups hg
    exact ⟨_, ofPredicate_all_eq_ok_iff.2 ⟨tests, inner, ht, hi, rfl⟩⟩
  | .any branches, s, h => by
    obtain ⟨cs, hc⟩ := exists_ofAll branches h
    exact ⟨_, ofPredicate_any_eq_ok_iff.2 ⟨cs, hc, rfl⟩⟩
  | .not inner, s, h => by
    obtain ⟨c, hc⟩ := exists_ofPredicate inner h
    exact ⟨_, ofPredicate_not_eq_ok_iff.2 ⟨c, hc, rfl⟩⟩

theorem exists_ofAll : ∀ (ps : List Predicate) {s : Schema ι},
    checkAll catalog access s ps = .ok () → ∃ cs, ofAll catalog s ps = .ok cs
  | [], _, _ => ⟨[], rfl⟩
  | p :: ps, s, h => by
    obtain ⟨hp, hps⟩ := checkAll_cons_iff.1 h
    obtain ⟨c, hc⟩ := exists_ofPredicate p hp
    obtain ⟨cs, hcs⟩ := exists_ofAll ps hps
    exact ⟨_, ofAll_cons_eq_ok_iff.2 ⟨c, cs, hc, hcs, rfl⟩⟩

theorem exists_ofFields : ∀ (fields : List (String × Constraint)) {s : Schema ι},
    checkFields catalog access s fields = .ok () → ∃ cs, Condition.ofFields catalog s fields = .ok cs
  | [], _, _ => ⟨[], rfl⟩
  | (field, constraint) :: fields, s, h => by
    obtain ⟨hf, hfs⟩ := checkFields_cons_iff.1 h
    obtain ⟨c, hc⟩ := exists_ofConstraint field constraint hf
    obtain ⟨cs, hcs⟩ := exists_ofFields fields hfs
    exact ⟨_, ofFields_cons_eq_ok_iff.2 ⟨c, cs, hc, hcs, rfl⟩⟩

theorem exists_ofConstraint (field : String) : ∀ (constraint : Constraint) {s : Schema ι},
    checkField catalog access s field constraint = .ok () →
      ∃ c, ofConstraint catalog s field constraint = .ok c
  | .test t, s, h => by
    have hf := (Access.admits_iff.1 (admits_of_checkField_test h)).1
    exact ⟨_, ofConstraint_test_eq_ok_iff.2 ⟨hf, rfl⟩⟩
  | .related p, s, h => by
    obtain ⟨r, hr, hp⟩ := checkField_related_iff.1 h
    obtain ⟨d, hd⟩ := exists_ofPredicate p hp
    cases he : p.isEverything with
    | true => exact ⟨_, ofConstraint_related_eq_ok_iff.2 ⟨r, [], hr, .inl ⟨he, rfl⟩, rfl⟩⟩
    | false =>
      exact ⟨_, ofConstraint_related_eq_ok_iff.2 ⟨r, [d], hr, .inr ⟨he, d, hd, rfl⟩, rfl⟩⟩

end

end Predicate

/-- A statement is narrowed by the condition of a predicate, unless everything satisfies it. -/
theorem Sql.Select.filter_eq_ok_iff {q q' : Select} : q.filter catalog s p = .ok q' ↔
    p.isEverything ∧ q = q' ∨ p.isEverything = false ∧
      ∃ c, Condition.ofPredicate catalog s p = .ok c ∧
        { q with conditions := q.conditions ++ [c] } = q' := by
  cases he : p.isEverything <;> simp [filter, he, map_eq_ok_iff]

/-- A statement can be narrowed by a predicate that has a condition. -/
theorem Sql.Select.exists_filter_of_condition (h : ∃ c, Condition.ofPredicate catalog s p = .ok c) (q : Select) :
    ∃ q', q.filter catalog s p = .ok q' := by
  obtain ⟨c, hc⟩ := h
  cases he : p.isEverything with
  | true => exact ⟨q, filter_eq_ok_iff.2 (.inl ⟨he, rfl⟩)⟩
  | false => exact ⟨_, filter_eq_ok_iff.2 (.inr ⟨he, c, hc, rfl⟩)⟩

end RecordQuery
