import RecordQuery.Predicate.OfFilter
import RecordQuery.Proofs.Outcome
import RecordQuery.Sql.Truth
/-!
# The meaning of a filter

A filter and a predicate are read in the same way once it is known what a test says of a row and what a
relation asks: an `Interpretation` gives both, and `Filter.meaning` and `Predicate.meaning` build on it
with Kleene's connectives. A filter's operators stand for the first rule of their list that applies
(`Operators.rule`).

A filter has a predicate unless operators are empty somewhere in it or a conjunction in it names a field
twice, and its predicate means what it means (`Predicate.ofFilter_eq_error_iff_and_meaning_eq`).
-/

namespace RecordQuery

open Outcome Sql

/-- What a test says of a row's field, and what a relation of a row asks if it is known which rows there
will do. -/
structure Interpretation (ρ : Type) where
  test : ρ → String → Test → Truth
  related : ρ → String → (ρ → Truth) → Truth

variable {ρ : Type} (I : Interpretation ρ) {branch : Filter} {branches : List Filter}
  {conditions : List (String × FieldCondition)} {condition : FieldCondition} {field : String}
  {fields more : List (String × Constraint)} {groups : List Predicate} {p : Predicate}

/-! ## Operators -/

namespace Operators

/-- The test that a rule gives, by the rule's number in the list of priority; none if the operators that
the rule speaks of are not there. -/
def rule (spec : Operators) : Nat → Option Test
  | 1 =>
    match spec.gte <|> spec.gt, spec.lte <|> spec.lt with
    | some low, some high => some (.between low high)
    | _, _ => none
  | 2 => spec.like.map fun text => .like ("%" ++ text.display ++ "%")
  | 3 => spec.startsWith.map fun text => .like (text.display ++ "%")
  | 4 => spec.endsWith.map fun text => .like ("%" ++ text.display)
  | 5 => spec.oneOf.map .oneOf
  | 6 => spec.isNull.map fun flag => if flag then .isNull else .isNotNull
  | 7 =>
    match spec.lower, spec.upper with
    | some low, some high => some (.between low high)
    | _, _ => none
  | 8 => spec.lower.map .gte
  | 9 => spec.upper.map .lte
  | 10 => spec.gt.map .gt <|> spec.gte.map .gte <|> spec.lt.map .lt <|> spec.lte.map .lte
  | 11 => spec.differs.map .ne
  | _ => none

/-- The test of the first of the eleven rules that applies. -/
def meant? (spec : Operators) : Option Test := (List.range' 1 11).findSome? spec.rule

/-- The rules are tried in the order of their numbers; the tenth is four, one for each bound. -/
theorem test?_eq_meant? (spec : Operators) : spec.test? = spec.meant? := by
  obtain ⟨like, startsWith, endsWith, oneOf, isNull, lower, upper, gt, gte, lt, lte, differs⟩ := spec
  simp only [test?, rules, meant?, List.range', List.findSome?_cons, List.findSome?_nil, id_eq, rule,
    range?, lowerBound, upperBound]
  cases gt <;> cases gte <;> cases lt <;> cases lte <;> rfl

/-- Operators have no test only if there are none. -/
theorem test?_eq_none_iff {spec : Operators} : spec.test? = none ↔ spec = {} := by
  constructor
  · intro h
    obtain ⟨like, startsWith, endsWith, oneOf, isNull, lower, upper, gt, gte, lt, lte, differs⟩ := spec
    simp only [test?, rules, List.findSome?_eq_none_iff, List.forall_mem_cons, id_eq,
      Option.map_eq_none_iff] at h
    obtain ⟨-, rfl, rfl, rfl, rfl, rfl, -, rfl, rfl, rfl, rfl, rfl, rfl, rfl, -⟩ := h
    rfl
  · rintro rfl
    rfl

end Operators

/-! ## Meanings -/

instance : Std.Associative Truth.and := ⟨Truth.and_assoc⟩

instance : Std.Commutative Truth.and := ⟨Truth.and_comm⟩

namespace Filter

mutual

/-- What a filter says of a row: Kleene's connectives over its branches, and the conjunction of the
conditions in a field map. -/
def meaning (row : ρ) : Filter → Truth
  | .and branches => .all (meanings row branches)
  | .or branches => .any (meanings row branches)
  | .not inner => (inner.meaning row).not
  | .fields conditions => .all (fieldMeanings row conditions)

/-- What branches say of a row. -/
def meanings (row : ρ) : List Filter → List Truth
  | [] => []
  | branch :: branches => branch.meaning row :: meanings row branches

/-- What the conditions of fields say of a row. -/
def fieldMeanings (row : ρ) : List (String × FieldCondition) → List Truth
  | [] => []
  | (field, condition) :: conditions =>
    conditionMeaning row field condition :: fieldMeanings row conditions

/-- What a field's condition says of a row. Operators that say nothing are no condition. -/
def conditionMeaning (row : ρ) (field : String) : FieldCondition → Truth
  | .equals value => I.test row field (.eq value)
  | .operators spec => spec.meant?.elim .unknown (I.test row field)
  | .nested filter => I.related row field fun other => filter.meaning other

end

mutual

/-- The filter and every filter inside it, those behind relations too. -/
def parts : Filter → List Filter
  | .and branches => .and branches :: partsOfAll branches
  | .or branches => .or branches :: partsOfAll branches
  | .not inner => .not inner :: inner.parts
  | .fields conditions => .fields conditions :: partsOfFields conditions

/-- The parts of branches. -/
def partsOfAll : List Filter → List Filter
  | [] => []
  | branch :: branches => branch.parts ++ partsOfAll branches

/-- The parts behind the relations of a field map. -/
def partsOfFields : List (String × FieldCondition) → List Filter
  | [] => []
  | (_, condition) :: conditions => partsOfCondition condition ++ partsOfFields conditions

/-- The parts of what is asked behind a relation. -/
def partsOfCondition : FieldCondition → List Filter
  | .equals _ => []
  | .operators _ => []
  | .nested filter => filter.parts

end

mutual

/-- The fields that a filter names as a branch of a conjunction: those of a map and those of a
conjunction's own branches. -/
def contributed : Filter → List String
  | .and branches => contributedByAll branches
  | .or _ => []
  | .not _ => []
  | .fields conditions => conditions.map Prod.fst

/-- The fields that the branches of a conjunction name, one branch after the other. -/
def contributedByAll : List Filter → List String
  | [] => []
  | branch :: branches => branch.contributed ++ contributedByAll branches

end

/-- Whether a filter is without a fault at its own level: a conjunction names no field twice, and there
are operators wherever a field map promises them. -/
def IsClear : Filter → Prop
  | .and branches => (contributedByAll branches).Nodup
  | .or _ => True
  | .not _ => True
  | .fields conditions => ∀ field, (field, .operators {}) ∉ conditions

end Filter

namespace Predicate

mutual

/-- What a predicate says of a row. -/
def meaning (row : ρ) : Predicate → Truth
  | .all fields groups => .and (.all (fieldMeanings row fields)) (.all (meanings row groups))
  | .any branches => .any (meanings row branches)
  | .not inner => (inner.meaning row).not

/-- What predicates say of a row. -/
def meanings (row : ρ) : List Predicate → List Truth
  | [] => []
  | p :: ps => p.meaning row :: meanings row ps

/-- What the constraints of fields say of a row. -/
def fieldMeanings (row : ρ) : List (String × Constraint) → List Truth
  | [] => []
  | (field, constraint) :: fields =>
    constraintMeaning row field constraint :: fieldMeanings row fields

/-- What a field's constraint says of a row. -/
def constraintMeaning (row : ρ) (field : String) : Constraint → Truth
  | .test t => I.test row field t
  | .related p => I.related row field fun other => p.meaning other

end

variable {I} in
theorem meanings_append {row : ρ} (ps qs : List Predicate) :
    meanings I row (ps ++ qs) = meanings I row ps ++ meanings I row qs := by
  induction ps with
  | nil => rfl
  | cons p ps ih => simp [meanings, ih]

variable {I} in
theorem fieldMeanings_append {row : ρ} (fields more : List (String × Constraint)) :
    fieldMeanings I row (fields ++ more) = fieldMeanings I row fields ++ fieldMeanings I row more := by
  induction fields with
  | nil => rfl
  | cons field fields ih => simp [fieldMeanings, ih]

/-! ## Conjunctions -/

/-- What a predicate adds to a conjunction around it: its fields and groups if it is a conjunction, else
itself as one group. -/
def conjuncts : Predicate → List (String × Constraint) × List Predicate
  | .all fields groups => (fields, groups)
  | p => ([], [p])

theorem meaning_eq_conjuncts (row : ρ) (p : Predicate) : p.meaning I row =
    .and (.all (fieldMeanings I row p.conjuncts.1)) (.all (meanings I row p.conjuncts.2)) := by
  cases p <;> simp [conjuncts, meaning, meanings, fieldMeanings, Truth.all]

/-- Constraints are added exactly if no field is named twice then. -/
theorem extend_eq_ok_iff {result : List (String × Constraint)} (h : (fields.map Prod.fst).Nodup) :
    extend fields more = .ok result ↔
      ((fields ++ more).map Prod.fst).Nodup ∧ fields ++ more = result := by
  induction more generalizing fields with
  | nil => simp [extend, h]
  | cons entry more ih =>
    obtain ⟨field, constraint⟩ := entry
    have hmem : fields.any (·.1 == field) ↔ field ∈ fields.map Prod.fst := by
      simp only [List.any_eq_true, beq_iff_eq, List.mem_map]
    rw [extend]
    split
    · next hf =>
      refine iff_of_false (by simp) fun ⟨hnd, _⟩ => ?_
      rw [List.map_append, List.nodup_append] at hnd
      exact hnd.2.2 field (hmem.1 hf) field List.mem_cons_self rfl
    · next hf =>
      have hnd : ((fields ++ [(field, constraint)]).map Prod.fst).Nodup := by
        rw [List.map_append, List.nodup_append]
        refine ⟨h, List.pairwise_singleton _ _, fun name hname other hother => ?_⟩
        obtain rfl := List.mem_singleton.1 hother
        rintro rfl
        exact hf (hmem.2 hname)
      rw [ih hnd, List.append_assoc, List.singleton_append]

/-- The branches of a conjunction are merged one after the other. -/
theorem ofConjunction_cons_eq_ok_iff : ofConjunction fields groups (branch :: branches) = .ok p ↔
    ∃ q, ofFilter branch = .ok q ∧ ∃ merged, extend fields q.conjuncts.1 = .ok merged ∧
      ofConjunction merged (groups ++ q.conjuncts.2) branches = .ok p := by
  rw [ofConjunction, bind_eq_ok_iff]
  refine exists_congr fun q => and_congr_right fun _ => ?_
  cases q with
  | all more further => rw [bind_eq_ok_iff]; rfl
  | any branches => simp [conjuncts, extend]
  | not inner => simp [conjuncts, extend]

theorem ofFields_conditions_cons_eq_ok_iff : ofFields ((field, condition) :: conditions) = .ok fields ↔
    ∃ constraint, ofCondition condition = .ok constraint ∧
      ∃ rest, ofFields conditions = .ok rest ∧ (field, constraint) :: rest = fields := by
  simp only [ofFields, bind_eq_ok_iff, Except.ok.injEq]

theorem ofBranches_cons_eq_ok_iff {ps : List Predicate} : ofBranches (branch :: branches) = .ok ps ↔
    ∃ p, ofFilter branch = .ok p ∧ ∃ rest, ofBranches branches = .ok rest ∧ p :: rest = ps := by
  simp only [ofBranches, bind_eq_ok_iff, Except.ok.injEq]

theorem map_fst_ofFields (h : ofFields conditions = .ok fields) :
    fields.map Prod.fst = conditions.map Prod.fst := by
  induction conditions generalizing fields with
  | nil =>
    obtain rfl : [] = fields := by simpa [ofFields] using h
    rfl
  | cons entry conditions ih =>
    obtain ⟨constraint, -, rest, hrest, rfl⟩ := ofFields_conditions_cons_eq_ok_iff.1 h
    rw [List.map_cons, List.map_cons, ih hrest]

mutual

/-- The fields that a filter's predicate adds to a conjunction are those that the filter names. -/
theorem map_fst_conjuncts : ∀ (filter : Filter) {p : Predicate}, ofFilter filter = .ok p →
    p.conjuncts.1.map Prod.fst = filter.contributed
  | .and branches, p, h => by
    simpa [Filter.contributed] using map_fst_conjuncts_ofConjunction branches [] List.nodup_nil h
  | .or branches, p, h => by
    obtain ⟨ps, -, rfl⟩ := map_eq_ok_iff.1 h
    rfl
  | .not inner, p, h => by
    obtain ⟨q, -, rfl⟩ := map_eq_ok_iff.1 h
    rfl
  | .fields conditions, p, h => by
    obtain ⟨fields, hf, rfl⟩ := map_eq_ok_iff.1 h
    exact map_fst_ofFields hf

theorem map_fst_conjuncts_ofConjunction : ∀ (branches : List Filter)
    (fields : List (String × Constraint)) {groups : List Predicate} {p : Predicate},
    (fields.map Prod.fst).Nodup → ofConjunction fields groups branches = .ok p →
      p.conjuncts.1.map Prod.fst = fields.map Prod.fst ++ Filter.contributedByAll branches
  | [], fields, groups, p, hnd, h => by
    obtain rfl := Except.ok.inj h
    simp [conjuncts, Filter.contributedByAll]
  | branch :: branches, fields, groups, p, hnd, h => by
    obtain ⟨q, hq, merged, hmerged, h⟩ := ofConjunction_cons_eq_ok_iff.1 h
    obtain ⟨hnd, rfl⟩ := (extend_eq_ok_iff hnd).1 hmerged
    rw [map_fst_conjuncts_ofConjunction branches _ hnd h, List.map_append, map_fst_conjuncts branch hq,
      Filter.contributedByAll, List.append_assoc]

end

/-! ## Which filters have a predicate -/

mutual

/-- A filter has a predicate exactly if it and every filter inside it are without a fault. -/
theorem exists_ofFilter_iff : ∀ filter : Filter,
    (∃ p, ofFilter filter = .ok p) ↔ ∀ part ∈ filter.parts, part.IsClear
  | .and branches => by
    rw [Filter.parts, List.forall_mem_cons, and_comm]
    exact exists_ofConjunction_iff branches [] [] List.nodup_nil
  | .or branches => by
    rw [Filter.parts, List.forall_mem_cons, ← exists_ofBranches_iff branches]
    simp [ofFilter, exists_map_eq_ok_iff, Filter.IsClear]
  | .not inner => by
    rw [Filter.parts, List.forall_mem_cons, ← exists_ofFilter_iff inner]
    simp [ofFilter, exists_map_eq_ok_iff, Filter.IsClear]
  | .fields conditions => by
    rw [Filter.parts, List.forall_mem_cons, Filter.IsClear, ← exists_ofFields_iff conditions]
    exact exists_map_eq_ok_iff

theorem exists_ofConjunction_iff : ∀ (branches : List Filter) (fields : List (String × Constraint))
    (groups : List Predicate), (fields.map Prod.fst).Nodup →
      ((∃ p, ofConjunction fields groups branches = .ok p) ↔
        (∀ part ∈ Filter.partsOfAll branches, part.IsClear) ∧
          (fields.map Prod.fst ++ Filter.contributedByAll branches).Nodup)
  | [], fields, groups, hnd => by
    simp [ofConjunction, Filter.partsOfAll, Filter.contributedByAll, hnd]
  | branch :: branches, fields, groups, hnd => by
    rw [Filter.partsOfAll, List.forall_mem_append, ← exists_ofFilter_iff branch, Filter.contributedByAll,
      ← List.append_assoc]
    constructor
    · rintro ⟨p, h⟩
      obtain ⟨q, hq, merged, hmerged, h⟩ := ofConjunction_cons_eq_ok_iff.1 h
      obtain ⟨hnd, rfl⟩ := (extend_eq_ok_iff hnd).1 hmerged
      obtain ⟨hparts, hrest⟩ := (exists_ofConjunction_iff branches _ _ hnd).1 ⟨p, h⟩
      rw [List.map_append, map_fst_conjuncts branch hq] at hrest
      exact ⟨⟨⟨q, hq⟩, hparts⟩, hrest⟩
    · rintro ⟨⟨⟨q, hq⟩, hparts⟩, hrest⟩
      rw [← map_fst_conjuncts branch hq, ← List.map_append] at hrest
      have hmerged := (List.nodup_append.1 hrest).1
      obtain ⟨p, h⟩ := (exists_ofConjunction_iff branches _ (groups ++ q.conjuncts.2) hmerged).2
        ⟨hparts, hrest⟩
      exact ⟨p, ofConjunction_cons_eq_ok_iff.2
        ⟨q, hq, _, (extend_eq_ok_iff hnd).2 ⟨hmerged, rfl⟩, h⟩⟩

theorem exists_ofBranches_iff : ∀ branches : List Filter,
    (∃ ps, ofBranches branches = .ok ps) ↔ ∀ part ∈ Filter.partsOfAll branches, part.IsClear
  | [] => by simp [ofBranches, Filter.partsOfAll]
  | branch :: branches => by
    rw [Filter.partsOfAll, List.forall_mem_append, ← exists_ofFilter_iff branch,
      ← exists_ofBranches_iff branches]
    simp only [ofBranches_cons_eq_ok_iff]
    exact ⟨fun ⟨_, p, hp, ps, hps, _⟩ => ⟨⟨p, hp⟩, ps, hps⟩,
      fun ⟨⟨p, hp⟩, ps, hps⟩ => ⟨_, p, hp, ps, hps, rfl⟩⟩

theorem exists_ofFields_iff : ∀ conditions : List (String × FieldCondition),
    (∃ fields, ofFields conditions = .ok fields) ↔
      (∀ field, (field, FieldCondition.operators {}) ∉ conditions) ∧
        ∀ part ∈ Filter.partsOfFields conditions, part.IsClear
  | [] => by simp [ofFields, Filter.partsOfFields]
  | (field, condition) :: conditions => by
    have hfirst : (∀ name, (name, FieldCondition.operators {}) ∉ (field, condition) :: conditions) ↔
        condition ≠ .operators {} ∧ ∀ name, (name, FieldCondition.operators {}) ∉ conditions := by
      simp only [List.mem_cons, Prod.mk.injEq, not_or, forall_and, not_and, forall_eq, ne_eq]
      exact and_congr_left fun _ => not_congr eq_comm
    rw [hfirst, Filter.partsOfFields, List.forall_mem_append, and_and_and_comm,
      ← exists_ofCondition_iff condition, ← exists_ofFields_iff conditions]
    simp only [ofFields_conditions_cons_eq_ok_iff]
    exact ⟨fun ⟨_, c, hc, cs, hcs, _⟩ => ⟨⟨c, hc⟩, cs, hcs⟩,
      fun ⟨⟨c, hc⟩, cs, hcs⟩ => ⟨_, c, hc, cs, hcs, rfl⟩⟩

theorem exists_ofCondition_iff : ∀ condition : FieldCondition,
    (∃ constraint, ofCondition condition = .ok constraint) ↔
      condition ≠ .operators {} ∧ ∀ part ∈ Filter.partsOfCondition condition, part.IsClear
  | .equals value => by simp [ofCondition, Filter.partsOfCondition]
  | .operators spec => by
    rw [ofCondition, ne_eq, FieldCondition.operators.injEq, ← Operators.test?_eq_none_iff]
    cases spec.test? <;> simp [Filter.partsOfCondition]
  | .nested filter => by
    rw [Filter.partsOfCondition, ← exists_ofFilter_iff filter]
    simp [ofCondition, exists_map_eq_ok_iff]

end

/-! ## What the predicate says -/

mutual

/-- The predicate of a filter says what the filter says. -/
theorem meaning_ofFilter : ∀ (filter : Filter) {p : Predicate}, ofFilter filter = .ok p →
    ∀ row, p.meaning I row = filter.meaning I row
  | .and branches, p, h, row => by
    rw [meaning_ofConjunction branches [] List.nodup_nil h row]
    simp [meaning, meanings, fieldMeanings, Truth.all, Filter.meaning]
  | .or branches, p, h, row => by
    obtain ⟨ps, hps, rfl⟩ := map_eq_ok_iff.1 h
    rw [meaning, meanings_ofBranches branches hps row, Filter.meaning]
  | .not inner, p, h, row => by
    obtain ⟨q, hq, rfl⟩ := map_eq_ok_iff.1 h
    rw [meaning, meaning_ofFilter inner hq row, Filter.meaning]
  | .fields conditions, p, h, row => by
    obtain ⟨fields, hf, rfl⟩ := map_eq_ok_iff.1 h
    rw [meaning, fieldMeanings_ofFields conditions hf row, Filter.meaning, meanings, Truth.all,
      Truth.and_yes]

/-- A conjunction's branches are added to what is there already. -/
theorem meaning_ofConjunction : ∀ (branches : List Filter)
    (fields : List (String × Constraint)) {groups : List Predicate} {p : Predicate},
    (fields.map Prod.fst).Nodup → ofConjunction fields groups branches = .ok p → ∀ row,
      p.meaning I row =
        .and (meaning I row (.all fields groups)) (.all (Filter.meanings I row branches))
  | [], fields, groups, p, hnd, h, row => by
    obtain rfl := Except.ok.inj h
    rw [Filter.meanings, Truth.all, Truth.and_yes]
  | branch :: branches, fields, groups, p, hnd, h, row => by
    obtain ⟨q, hq, merged, hmerged, h⟩ := ofConjunction_cons_eq_ok_iff.1 h
    obtain ⟨hnd, rfl⟩ := (extend_eq_ok_iff hnd).1 hmerged
    rw [meaning_ofConjunction branches _ hnd h row, Filter.meanings, Truth.all,
      ← meaning_ofFilter branch hq row, meaning_eq_conjuncts I row q, meaning, meaning,
      fieldMeanings_append, meanings_append, Truth.all_append, Truth.all_append]
    ac_rfl

theorem meanings_ofBranches : ∀ (branches : List Filter) {ps : List Predicate},
    ofBranches branches = .ok ps → ∀ row, meanings I row ps = Filter.meanings I row branches
  | [], ps, h, row => by
    obtain rfl := Except.ok.inj h
    rfl
  | branch :: branches, ps, h, row => by
    obtain ⟨p, hp, rest, hrest, rfl⟩ := ofBranches_cons_eq_ok_iff.1 h
    rw [meanings, meaning_ofFilter branch hp row, meanings_ofBranches branches hrest row, Filter.meanings]

theorem fieldMeanings_ofFields : ∀ (conditions : List (String × FieldCondition))
    {fields : List (String × Constraint)}, ofFields conditions = .ok fields → ∀ row,
      fieldMeanings I row fields = Filter.fieldMeanings I row conditions
  | [], fields, h, row => by
    obtain rfl := Except.ok.inj h
    rfl
  | (field, condition) :: conditions, fields, h, row => by
    obtain ⟨constraint, hc, rest, hrest, rfl⟩ := ofFields_conditions_cons_eq_ok_iff.1 h
    rw [fieldMeanings, constraintMeaning_ofCondition field condition hc row,
      fieldMeanings_ofFields conditions hrest row, Filter.fieldMeanings]

theorem constraintMeaning_ofCondition (field : String) : ∀ (condition : FieldCondition)
    {constraint : Constraint}, ofCondition condition = .ok constraint → ∀ row,
      constraintMeaning I row field constraint = Filter.conditionMeaning I row field condition
  | .equals value, constraint, h, row => by
    obtain rfl := Except.ok.inj h
    rfl
  | .operators spec, constraint, h, row => by
    rw [Filter.conditionMeaning, ← Operators.test?_eq_meant?]
    rw [ofCondition] at h
    cases ht : spec.test? with
    | none => simp [ht] at h
    | some t =>
      rw [ht] at h
      obtain rfl := Except.ok.inj h
      rfl
  | .nested filter, constraint, h, row => by
    obtain ⟨p, hp, rfl⟩ := map_eq_ok_iff.1 h
    rw [constraintMeaning, Filter.conditionMeaning]
    exact congrArg _ (funext (meaning_ofFilter filter hp))

end

/-- A filter has no predicate exactly if somewhere in it, behind relations too, operators are empty or a
conjunction names a field twice. The predicate that it has says the same of every row, whatever tests
and relations say. -/
theorem ofFilter_eq_error_iff_and_meaning_eq (filter : Filter) :
    ((∃ e, ofFilter? (some filter) = .error e) ↔
      (∃ conditions field, .fields conditions ∈ filter.parts ∧ (field, .operators {}) ∈ conditions) ∨
        ∃ branches, .and branches ∈ filter.parts ∧ ¬ (Filter.contributedByAll branches).Nodup) ∧
    ∀ p, ofFilter? (some filter) = .ok p →
      ∀ (ρ : Type) (I : Interpretation ρ) (row : ρ), p.meaning I row = filter.meaning I row := by
  refine ⟨?_, fun p h ρ I row => meaning_ofFilter I filter h row⟩
  have herror : (∃ e, ofFilter filter = .error e) ↔ ¬ ∃ p, ofFilter filter = .ok p := by
    cases ofFilter filter <;> simp
  rw [ofFilter?, herror, exists_ofFilter_iff]
  constructor
  · intro h
    obtain ⟨part, h⟩ := Classical.not_forall.1 h
    obtain ⟨hpart, hfault⟩ := Classical.not_imp.1 h
    cases part with
    | and branches => exact .inr ⟨branches, hpart, hfault⟩
    | or branches => exact absurd trivial hfault
    | not inner => exact absurd trivial hfault
    | fields conditions =>
      obtain ⟨field, hfield⟩ := Classical.not_forall.1 hfault
      exact .inl ⟨conditions, field, hpart, Classical.not_not.1 hfield⟩
  · rintro (⟨conditions, field, hpart, hfield⟩ | ⟨branches, hpart, hrepeat⟩) hclear
    · exact hclear _ hpart field hfield
    · exact hrepeat (hclear _ hpart)

end Predicate

end RecordQuery
