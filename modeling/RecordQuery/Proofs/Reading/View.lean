import Mathlib.Data.List.Forall2
import RecordQuery.Proofs.Where.Meaning
/-!
# What a condition reads

A `View` says which columns of the schemas of a graph are read: the keys, the marks of deleted rows and
the columns that relations join by are among them. A condition is within a view (`Condition.IsWithin`) if
it names only columns that are read, and looks for keys only among rows without a deletion mark. Such a
condition has one truth in two states whose live rows agree on what is read (`Condition.eval_eq`).

* `Condition.evalAll_of_not_isLive`: conditions that ask for live rows do not hold of another one;
* `Condition.isWithin_ofPredicate`: the condition of a predicate is within a view of its columns.
-/

namespace RecordQuery

open Sql

variable {ι : Type} {catalog : Catalog ι} {root s : Schema ι}

/-- What is read of the tables of a graph of schemas. -/
structure View (catalog : Catalog ι) (root : Schema ι) where
  /-- Whether a column of a schema is read. -/
  sees : Schema ι → String → Prop
  hasColumn {s : Schema ι} {name : String} : sees s name → s.hasColumn name
  key {s : Schema ι} : Schema.IsIn catalog root s → sees s s.key
  mark {s : Schema ι} {name : String} :
    Schema.IsIn catalog root s → s.deletionMark? = some name → sees s name
  joinHere {s : Schema ι} {r : Relation ι} :
    Schema.IsIn catalog root s → r ∈ s.relations → sees s (s.joinKeys catalog r).1
  joinThere {s : Schema ι} {r : Relation ι} :
    Schema.IsIn catalog root s → r ∈ s.relations → sees (catalog r.target) (s.joinKeys catalog r).2

namespace View

variable {v : View catalog root} {rows rows' : String → List Scope} {row row' : Scope}

/-- Two rows of a schema's table that know its columns and agree on those that are read. -/
structure Twins (v : View catalog root) (s : Schema ι) (row row' : Scope) : Prop where
  known {name : String} : s.hasColumn name → (row name).isSome
  known' {name : String} : s.hasColumn name → (row' name).isSome
  agree {name : String} : v.sees s name → row name = row' name

/-- Two states of the tables in which the live rows agree, one by one, on what is read. -/
structure Level (v : View catalog root) (rows rows' : String → List Scope) : Prop where
  known : Schema.AreKnown catalog root rows
  known' : Schema.AreKnown catalog root rows'
  live {s : Schema ι} : Schema.IsIn catalog root s →
    List.Forall₂ (v.Twins s) ((rows s.table).filter s.isLive) ((rows' s.table).filter s.isLive)

/-- A name that is read means the same in rows that agree, whatever rows are around them. -/
theorem Twins.resolve_eq (h : v.Twins s row row') {name : String} (hn : v.sees s name)
    (around around' : List Scope) :
    Scope.resolve (row :: around) name = Scope.resolve (row' :: around') name := by
  obtain ⟨a, ha⟩ := Option.isSome_iff_exists.1 (h.known (v.hasColumn hn))
  have ha' : row' name = some a := (h.agree hn).symm.trans ha
  simp [Scope.resolve, ha, ha']

end View

namespace Sql.Condition

variable {v : View catalog root} {rows rows' : String → List Scope} {row row' : Scope}

mutual

/-- Whether a condition on a schema's table reads no more than a view. -/
def IsWithin (v : View catalog root) : Schema ι → Condition → Prop
  | s, .isNull column => v.sees s column
  | s, .isNotNull column => v.sees s column
  | s, .compare column _ _ => v.sees s column
  | s, .between column _ _ => v.sees s column
  | s, .oneOf column _ => v.sees s column
  | s, .matching column _ => v.sees s column
  | s, .among column key table conditions =>
    v.sees s column ∧ ∃ target, Schema.IsIn catalog root target ∧ target.table = table ∧
      v.sees target key ∧ unmarked target <+: conditions ∧ AreWithin v target conditions
  | s, .all parts => AreWithin v s parts
  | s, .any parts => AreWithin v s parts
  | s, .not inner => IsWithin v s inner

/-- Whether conditions on a schema's table read no more than a view. -/
def AreWithin (v : View catalog root) : Schema ι → List Condition → Prop
  | _, [] => True
  | s, condition :: conditions => IsWithin v s condition ∧ AreWithin v s conditions

end

/-- Conditions that ask for live rows do not hold of a row with a deletion mark. -/
theorem evalAll_of_not_isLive (hk : ∀ name, s.hasColumn name → (row name).isSome)
    (h : s.isLive row = false) {conditions : List Condition} (hc : unmarked s <+: conditions)
    (around : List Scope) : (evalAll rows (row :: around) conditions).holds = false := by
  obtain ⟨others, rfl⟩ := hc
  rw [evalAll_append, Truth.holds_and, evalAll_unmarked hk, h]
  rfl

/-- Filters that agree on pairs leave the same of two lists. -/
theorem filterMap_eq_of_forall₂ {α β γ : Type} {R : α → β → Prop} {f : α → Option γ}
    {g : β → Option γ} (hfg : ∀ a b, R a b → f a = g b) {xs : List α} {ys : List β}
    (h : List.Forall₂ R xs ys) : xs.filterMap f = ys.filterMap g := by
  induction h with
  | nil => rfl
  | cons hab _ ih => rw [List.filterMap_cons, List.filterMap_cons, hfg _ _ hab, ih]

/-- What a filter leaves of a list is among the members with a property, if it drops all others. -/
theorem filterMap_filter_of_none {α β : Type} {p : α → Bool} {f : α → Option β} {xs : List α}
    (h : ∀ x ∈ xs, p x = false → f x = none) : (xs.filter p).filterMap f = xs.filterMap f := by
  rw [List.filterMap_filter]
  refine filterMap_eq fun x hx => ?_
  cases hp : p x
  · simp [h x hx hp]
  · simp

mutual

/-- A condition within a view has one truth in two states that agree on it. -/
theorem eval_eq (hlevel : v.Level rows rows') :
    ∀ (condition : Condition) {s : Schema ι} {row row' : Scope} (_ : v.Twins s row row')
      (_ : IsWithin v s condition) (around around' : List Scope),
      condition.eval rows (row :: around) = condition.eval rows' (row' :: around')
  | .isNull column, s, row, row', ht, hc, around, around' => by
    rw [eval, eval, ht.resolve_eq hc around around']
  | .isNotNull column, s, row, row', ht, hc, around, around' => by
    rw [eval, eval, ht.resolve_eq hc around around']
  | .compare column _ _, s, row, row', ht, hc, around, around' => by
    rw [eval, eval, ht.resolve_eq hc around around']
  | .between column _ _, s, row, row', ht, hc, around, around' => by
    rw [eval, eval, ht.resolve_eq hc around around']
  | .oneOf column _, s, row, row', ht, hc, around, around' => by
    rw [eval, eval, ht.resolve_eq hc around around']
  | .matching column _, s, row, row', ht, hc, around, around' => by
    rw [eval, eval, ht.resolve_eq hc around around']
  | .among column key table conditions, s, row, row', ht, hc, around, around' => by
    obtain ⟨hcolumn, target, htarget, rfl, hkey, hlive, hin⟩ := hc
    have hdead : ∀ {rows : String → List Scope} {row : Scope} {around : List Scope},
        Schema.AreKnown catalog root rows → ∀ other ∈ rows target.table, target.isLive other = false →
        (if (evalAll rows (other :: row :: around) conditions).holds then
          some ((Scope.resolve (row :: around) column).equals
            (Scope.resolve (other :: row :: around) key)) else none) = none := by
      intro rows row around hknown other ho hd
      rw [evalAll_of_not_isLive (hknown target htarget other ho) hd hlive]
      rfl
    rw [eval, eval, ← filterMap_filter_of_none (hdead hlevel.known),
      ← filterMap_filter_of_none (hdead hlevel.known')]
    congr 1
    refine filterMap_eq_of_forall₂ (fun other other' ho => ?_) (hlevel.live htarget)
    rw [evalAll_eq hlevel conditions ho hin (row :: around) (row' :: around'),
      ht.resolve_eq hcolumn around around', ho.resolve_eq hkey (row :: around) (row' :: around')]
  | .all parts, s, row, row', ht, hc, around, around' => by
    rw [eval, eval, evalAll_eq hlevel parts ht hc around around']
  | .any parts, s, row, row', ht, hc, around, around' => by
    rw [eval, eval, evalAny_eq hlevel parts ht hc around around']
  | .not inner, s, row, row', ht, hc, around, around' => by
    rw [eval, eval, eval_eq hlevel inner ht hc around around']

theorem evalAll_eq (hlevel : v.Level rows rows') :
    ∀ (conditions : List Condition) {s : Schema ι} {row row' : Scope} (_ : v.Twins s row row')
      (_ : AreWithin v s conditions) (around around' : List Scope),
      evalAll rows (row :: around) conditions = evalAll rows' (row' :: around') conditions
  | [], _, _, _, _, _, _, _ => rfl
  | condition :: conditions, s, row, row', ht, hc, around, around' => by
    rw [evalAll, evalAll, eval_eq hlevel condition ht hc.1 around around',
      evalAll_eq hlevel conditions ht hc.2 around around']

theorem evalAny_eq (hlevel : v.Level rows rows') :
    ∀ (conditions : List Condition) {s : Schema ι} {row row' : Scope} (_ : v.Twins s row row')
      (_ : AreWithin v s conditions) (around around' : List Scope),
      evalAny rows (row :: around) conditions = evalAny rows' (row' :: around') conditions
  | [], _, _, _, _, _, _, _ => rfl
  | condition :: conditions, s, row, row', ht, hc, around, around' => by
    rw [evalAny, evalAny, eval_eq hlevel condition ht hc.1 around around',
      evalAny_eq hlevel conditions ht hc.2 around around']

end

/-! ## Conditions of predicates -/

theorem areWithin_iff {conditions : List Condition} :
    AreWithin v s conditions ↔ ∀ condition ∈ conditions, IsWithin v s condition := by
  induction conditions with
  | nil => simp [AreWithin]
  | cons condition conditions ih => simp [AreWithin, ih]

theorem areWithin_append {conditions others : List Condition} :
    AreWithin v s (conditions ++ others) ↔ AreWithin v s conditions ∧ AreWithin v s others := by
  simp only [areWithin_iff, List.mem_append]
  exact ⟨fun h => ⟨fun c hc => h c (.inl hc), fun c hc => h c (.inr hc)⟩,
    fun ⟨h, h'⟩ c hc => hc.elim (h c) (h' c)⟩

theorem areWithin_unmarked (hs : Schema.IsIn catalog root s) : AreWithin v s (unmarked s) := by
  rw [areWithin_iff, unmarked]
  intro condition hc
  obtain ⟨mark, hm, rfl⟩ := List.mem_map.1 hc
  exact v.mark hs (by simpa using hm)

/-- The condition of a test reads its column. -/
theorem isWithin_ofTest {column : String} (h : v.sees s column) (t : Test) :
    IsWithin v s (ofTest column t) := by
  cases t with
  | eq value => cases value <;> exact h
  | ne value => cases value <;> exact h
  | _ => exact h

mutual

/-- The condition of a predicate is within a view that has every column to which the predicate may
refer. -/
theorem isWithin_ofPredicate {access : Access}
    (hsees : ∀ s, Schema.IsIn catalog root s → ∀ name, access.admits s name → v.sees s name) :
    ∀ (p : Predicate) {s : Schema ι} {c : Condition} (_ : Schema.IsIn catalog root s)
      (_ : p.check catalog access s = .ok ()) (_ : ofPredicate catalog s p = .ok c), IsWithin v s c
  | .all fields groups, s, c, hs, hp, hc => by
    obtain ⟨hf, hg⟩ := Predicate.check_all_iff.1 hp
    obtain ⟨tests, inner, ht, hi, rfl⟩ := ofPredicate_all_eq_ok_iff.1 hc
    exact areWithin_append.2
      ⟨areWithin_ofFields hsees fields hs hf ht, areWithin_ofAll hsees groups hs hg hi⟩
  | .any branches, s, c, hs, hp, hc => by
    obtain ⟨cs, hcs, rfl⟩ := ofPredicate_any_eq_ok_iff.1 hc
    exact areWithin_ofAll hsees branches hs hp hcs
  | .not inner, s, c, hs, hp, hc => by
    obtain ⟨d, hd, rfl⟩ := ofPredicate_not_eq_ok_iff.1 hc
    show IsWithin v s d
    exact isWithin_ofPredicate hsees inner hs hp hd

theorem areWithin_ofAll {access : Access}
    (hsees : ∀ s, Schema.IsIn catalog root s → ∀ name, access.admits s name → v.sees s name) :
    ∀ (ps : List Predicate) {s : Schema ι} {cs : List Condition} (_ : Schema.IsIn catalog root s)
      (_ : Predicate.checkAll catalog access s ps = .ok ()) (_ : ofAll catalog s ps = .ok cs),
      AreWithin v s cs
  | [], s, cs, hs, hp, hc => by
    obtain rfl : [] = cs := by simpa [ofAll] using hc
    trivial
  | p :: ps, s, cs, hs, hp, hc => by
    obtain ⟨hp, hps⟩ := Predicate.checkAll_cons_iff.1 hp
    obtain ⟨d, ds, hd, hds, rfl⟩ := ofAll_cons_eq_ok_iff.1 hc
    exact ⟨isWithin_ofPredicate hsees p hs hp hd, areWithin_ofAll hsees ps hs hps hds⟩

theorem areWithin_ofFields {access : Access}
    (hsees : ∀ s, Schema.IsIn catalog root s → ∀ name, access.admits s name → v.sees s name) :
    ∀ (fields : List (String × Constraint)) {s : Schema ι} {cs : List Condition}
      (_ : Schema.IsIn catalog root s) (_ : Predicate.checkFields catalog access s fields = .ok ())
      (_ : ofFields catalog s fields = .ok cs), AreWithin v s cs
  | [], s, cs, hs, hp, hc => by
    obtain rfl : [] = cs := by simpa [ofFields] using hc
    trivial
  | (field, constraint) :: fields, s, cs, hs, hp, hc => by
    obtain ⟨hf, hfs⟩ := Predicate.checkFields_cons_iff.1 hp
    obtain ⟨d, ds, hd, hds, rfl⟩ := ofFields_cons_eq_ok_iff.1 hc
    exact ⟨isWithin_ofConstraint hsees field constraint hs hf hd,
      areWithin_ofFields hsees fields hs hfs hds⟩

theorem isWithin_ofConstraint {access : Access}
    (hsees : ∀ s, Schema.IsIn catalog root s → ∀ name, access.admits s name → v.sees s name)
    (field : String) :
    ∀ (constraint : Constraint) {s : Schema ι} {c : Condition} (_ : Schema.IsIn catalog root s)
      (_ : Predicate.checkField catalog access s field constraint = .ok ())
      (_ : ofConstraint catalog s field constraint = .ok c), IsWithin v s c
  | .test t, s, c, hs, hp, hc => by
    obtain ⟨-, rfl⟩ := ofConstraint_test_eq_ok_iff.1 hc
    exact isWithin_ofTest (hsees s hs field (Predicate.admits_of_checkField_test hp)) t
  | .related p, s, c, hs, hp, hc => by
    obtain ⟨r', hr', hp⟩ := Predicate.checkField_related_iff.1 hp
    obtain ⟨r, inner, hr, hinner, rfl⟩ := ofConstraint_related_eq_ok_iff.1 hc
    obtain rfl : r' = r := Option.some.inj (hr'.symm.trans hr)
    have htarget : Schema.IsIn catalog root (catalog r'.target) := Schema.isIn_catalog r'.target
    have hmem := (Schema.relation?_eq_some hr).1
    refine ⟨v.joinHere hs hmem, _, htarget, rfl, v.joinThere hs hmem, List.prefix_append _ _,
      areWithin_append.2 ⟨areWithin_unmarked htarget, ?_⟩⟩
    rcases hinner with ⟨-, rfl⟩ | ⟨-, d, hd, rfl⟩
    · trivial
    · exact ⟨isWithin_ofPredicate hsees p htarget hp hd, trivial⟩

end

end Sql.Condition

namespace Predicate

open Sql.Condition

variable {v : View catalog root} {p q : Predicate} {field : String}

/-- Whether the condition of a predicate, if it has one, reads no more than a view. -/
def IsWithin (v : View catalog root) (s : Schema ι) (p : Predicate) : Prop :=
  ∀ c, ofPredicate catalog s p = .ok c → Condition.IsWithin v s c

/-- A predicate is within a view that has every column to which it may refer. -/
theorem isWithin_of_check {access : Access}
    (hsees : ∀ s, Schema.IsIn catalog root s → ∀ name, access.admits s name → v.sees s name)
    (hs : Schema.IsIn catalog root s) (h : p.check catalog access s = .ok ()) : p.IsWithin v s :=
  fun _ hc => isWithin_ofPredicate hsees p hs h hc

theorem areWithin_of_isWithin {ps : List Predicate} (h : ∀ p ∈ ps, p.IsWithin v s)
    {cs : List Condition} (hc : ofAll catalog s ps = .ok cs) : AreWithin v s cs := by
  induction ps generalizing cs with
  | nil =>
    obtain rfl : [] = cs := by simpa [ofAll] using hc
    trivial
  | cons p ps ih =>
    obtain ⟨d, ds, hd, hds, rfl⟩ := ofAll_cons_eq_ok_iff.1 hc
    rw [List.forall_mem_cons] at h
    exact ⟨h.1 d hd, ih h.2 hds⟩

/-- A field that has a value, beside other fields and predicates. -/
theorem isWithin_all_cons (hf : v.sees s field) {value : Scalar}
    {fields : List (String × Constraint)} {groups : List Predicate} (h : (all fields groups).IsWithin v s) :
    (all ((field, .test (.eq value)) :: fields) groups).IsWithin v s := by
  intro c hc
  obtain ⟨tests, inner, ht, hi, rfl⟩ := ofPredicate_all_eq_ok_iff.1 hc
  obtain ⟨d, ds, hd, hds, rfl⟩ := ofFields_cons_eq_ok_iff.1 ht
  obtain ⟨-, rfl⟩ := ofConstraint_test_eq_ok_iff.1 hd
  exact ⟨isWithin_ofTest hf _, h _ (ofPredicate_all_eq_ok_iff.2 ⟨ds, inner, hds, hi, rfl⟩)⟩

theorem isWithin_all_nil {ps : List Predicate} (h : ∀ p ∈ ps, p.IsWithin v s) :
    (all [] ps).IsWithin v s := by
  intro c hc
  obtain ⟨tests, inner, ht, hi, rfl⟩ := ofPredicate_all_eq_ok_iff.1 hc
  obtain rfl : [] = tests := by simpa [Condition.ofFields] using ht
  exact areWithin_of_isWithin h hi

/-- A predicate within a view stays so if a column that is read has to have a value too. -/
theorem isWithin_andEq (hp : p.IsWithin v s) (hf : v.sees s field) (value : Scalar) :
    (p.andEq field value).IsWithin v s := by
  have hw : (all [(field, .test (.eq value))] (if p.isEverything then [] else [p])).IsWithin v s := by
    refine isWithin_all_cons hf (isWithin_all_nil fun q hq => ?_)
    split at hq
    · cases hq
    · obtain rfl := List.mem_singleton.1 hq
      exact hp
  cases p with
  | all fields groups =>
    rw [andEq]
    split
    · exact hw
    · exact isWithin_all_cons hf hp
  | _ => exact hw

theorem isWithin_all_append {fields : List (String × Constraint)} {groups : List Predicate}
    (hp : (all fields groups).IsWithin v s) (hq : q.IsWithin v s) :
    (all fields (groups ++ [q])).IsWithin v s := by
  intro c hc
  obtain ⟨tests, inner, ht, hi, rfl⟩ := ofPredicate_all_eq_ok_iff.1 hc
  obtain ⟨ds, es, hds, hes, rfl⟩ := ofAll_append_eq_ok_iff.1 hi
  have hw := areWithin_append.1 (hp _ (ofPredicate_all_eq_ok_iff.2 ⟨tests, ds, ht, hds, rfl⟩))
  exact areWithin_append.2
    ⟨hw.1, areWithin_append.2 ⟨hw.2, areWithin_of_isWithin (by simpa using hq) hes⟩⟩

/-- Both of two predicates within a view are within it. -/
theorem isWithin_and (hp : p.IsWithin v s) (hq : q.IsWithin v s) : (p.and q).IsWithin v s := by
  have hboth : (all [] [p, q]).IsWithin v s := isWithin_all_nil (by simp [hp, hq])
  cases hqe : q.isEverything with
  | true => simpa [and, hqe] using hp
  | false =>
    cases hpe : p.isEverything with
    | true => simpa [and, hqe, hpe] using hq
    | false =>
      cases p with
      | all fields groups => simpa [and, hqe, hpe] using isWithin_all_append hp hq
      | _ => simpa [and, hqe, hpe] using hboth

end Predicate

end RecordQuery
