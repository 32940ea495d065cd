import RecordQuery.Proofs.Filters
import RecordQuery.Proofs.Loading.Agreement
import RecordQuery.Proofs.Pages
import RecordQuery.Proofs.Writing.Operations
/-!
# Conjunctions and what they narrow

However two predicates are put together, what comes of it says what both say (`Predicate.meaning_and`,
`Predicate.meaning_andEq`). The store asks its rows for just that: the condition of a predicate means what the
predicate means where names are looked up as they are in nested statements, first in the row and then in the rows
around it (`Predicate.eval_eq_meaning`); in sound schemas that is what `Predicate.truth` says, which looks no further
than the row (`Predicate.meaning_ofScopes_eq_truth`). So whatever a database holds, a record that is found by its key
shows a live row that has the key and that the caller's search is true of, and one that is found by a predicate shows
a live row that both are true of (`Gateway.found_is_narrowed`).
-/

namespace RecordQuery

open Outcome Sql
open Database (Row Table)

/-! ## Conjunctions -/

namespace Predicate

variable {ρ : Type} {p : Predicate} (I : Interpretation ρ) (row : ρ)

theorem eq_everything_of_isEverything (h : p.isEverything) : p = everything := by
  unfold isEverything at h
  split at h
  · rfl
  · cases h

theorem meaning_of_isEverything (h : p.isEverything) : p.meaning I row = .yes := by
  rw [eq_everything_of_isEverything h]
  rfl

/-- Two predicates together say what both say. -/
theorem meaning_and (p q : Predicate) : (p.and q).meaning I row = (p.meaning I row).and (q.meaning I row) := by
  unfold Predicate.and
  split
  next hq => rw [meaning_of_isEverything I row hq, Truth.and_yes]
  next =>
    split
    next hp => rw [meaning_of_isEverything I row hp, Truth.yes_and]
    next =>
      cases p with
      | all fields groups =>
        simp only [meaning, meanings_append, Truth.all_append, meanings, Truth.all, Truth.and_yes, Truth.and_assoc]
      | any branches => simp only [meaning, meanings, fieldMeanings, Truth.all, Truth.and_yes, Truth.yes_and]
      | not inner => simp only [meaning, meanings, fieldMeanings, Truth.all, Truth.and_yes, Truth.yes_and]

/-- A predicate whose field has to have a value too says both, whether it speaks of the field already or not. -/
theorem meaning_andEq (p : Predicate) (field : String) (value : Scalar) :
    (p.andEq field value).meaning I row = (p.meaning I row).and (I.test row field (.eq value)) := by
  have hwrapped : (Predicate.all [(field, .test (.eq value))] (if p.isEverything then [] else [p])).meaning I row =
      (p.meaning I row).and (I.test row field (.eq value)) := by
    rw [Truth.and_comm]
    split
    next hp =>
      rw [meaning_of_isEverything I row hp]
      simp only [meaning, meanings, fieldMeanings, constraintMeaning, Truth.all, Truth.and_yes]
    next => simp only [meaning, meanings, fieldMeanings, constraintMeaning, Truth.all, Truth.and_yes]
  cases p with
  | all fields groups =>
    rw [andEq]
    split
    · exact hwrapped
    · simp only [meaning, fieldMeanings, constraintMeaning, Truth.all]
      ac_rfl
  | any branches => exact hwrapped
  | not inner => exact hwrapped

end Predicate

/-! ## Predicates among rows around rows -/

variable {ι : Type} {catalog : Catalog ι} {s : Schema ι} {rows : String → List Scope} {db : Database}

/-- Whether the innermost of some rows carries no deletion mark. -/
def Schema.isUnmarked (s : Schema ι) (scopes : List Scope) : Bool :=
  s.deletionMark?.all fun mark => (Scope.resolve scopes mark).cell.isNull

/-- What the rows of the tables say where a name is looked up in the row of a schema's table first and then in the
rows around it: a test speaks of a column, and a relation asks for a key among those of the live rows there that
will do. -/
def Interpretation.ofScopes (catalog : Catalog ι) (rows : String → List Scope) :
    Interpretation (Schema ι × List Scope) where
  test here field t := t.truth (Scope.resolve here.2 field)
  related here field inner :=
    match here.1.relation? field with
    | none => .unknown
    | some r =>
      let target := catalog r.target
      let found := (rows target.table).filter fun other =>
        target.isUnmarked (other :: here.2) && (inner (target, other :: here.2)).holds
      (Scope.resolve here.2 (here.1.joinKeys catalog r).1).among
        (found.map fun other => Scope.resolve (other :: here.2) (here.1.joinKeys catalog r).2)

theorem Interpretation.related_ofScopes {field : String} {r : Relation ι} {scopes : List Scope}
    (hr : s.relation? field = some r) (inner : Schema ι × List Scope → Truth) :
    (ofScopes catalog rows).related (s, scopes) field inner =
      (Scope.resolve scopes (s.joinKeys catalog r).1).among
        (((rows (catalog r.target).table).filter fun other =>
            (catalog r.target).isUnmarked (other :: scopes) && (inner (catalog r.target, other :: scopes)).holds).map
          fun other => Scope.resolve (other :: scopes) (s.joinKeys catalog r).2) := by
  simp only [ofScopes, hr]

theorem Sql.Condition.evalAll_unmarked_eq (s : Schema ι) (scopes : List Scope) :
    evalAll rows scopes (unmarked s) = .ofBool (s.isUnmarked scopes) := by
  rw [unmarked, Schema.isUnmarked]
  cases s.deletionMark? with
  | none => rfl
  | some mark => exact Truth.and_yes _

namespace Predicate

open Sql.Condition

mutual

/-- The condition of a predicate means what the predicate means among the rows around. -/
theorem eval_eq_meaning : ∀ (p : Predicate) {s : Schema ι} {c : Condition} (scopes : List Scope),
    ofPredicate catalog s p = .ok c → c.eval rows scopes = p.meaning (.ofScopes catalog rows) (s, scopes)
  | .all fields groups, s, c, scopes, hc => by
    obtain ⟨tests, inner, hf, hg, rfl⟩ := ofPredicate_all_eq_ok_iff.1 hc
    rw [Condition.eval, evalAll_eq_all, List.map_append, Truth.all_append, meaning,
      map_eval_eq_fieldMeanings fields scopes hf, map_eval_eq_meanings groups scopes hg]
  | .any branches, s, c, scopes, hc => by
    obtain ⟨cs, hb, rfl⟩ := ofPredicate_any_eq_ok_iff.1 hc
    rw [Condition.eval, evalAny_eq_any, meaning, map_eval_eq_meanings branches scopes hb]
  | .not inner, s, c, scopes, hc => by
    obtain ⟨d, hi, rfl⟩ := ofPredicate_not_eq_ok_iff.1 hc
    rw [Condition.eval, meaning, eval_eq_meaning inner scopes hi]

theorem map_eval_eq_meanings : ∀ (ps : List Predicate) {s : Schema ι} {cs : List Condition} (scopes : List Scope),
    ofAll catalog s ps = .ok cs →
      cs.map (Condition.eval rows scopes) = meanings (.ofScopes catalog rows) (s, scopes) ps
  | [], s, cs, scopes, hc => by
    obtain rfl := Except.ok.inj hc
    rfl
  | p :: ps, s, cs, scopes, hc => by
    obtain ⟨d, ds, hp, hps, rfl⟩ := ofAll_cons_eq_ok_iff.1 hc
    rw [List.map_cons, meanings, eval_eq_meaning p scopes hp, map_eval_eq_meanings ps scopes hps]

theorem map_eval_eq_fieldMeanings : ∀ (fields : List (String × Constraint)) {s : Schema ι} {cs : List Condition}
    (scopes : List Scope), Condition.ofFields catalog s fields = .ok cs →
      cs.map (Condition.eval rows scopes) = fieldMeanings (.ofScopes catalog rows) (s, scopes) fields
  | [], s, cs, scopes, hc => by
    obtain rfl := Except.ok.inj hc
    rfl
  | (field, constraint) :: fields, s, cs, scopes, hc => by
    obtain ⟨d, ds, hf, hfs, rfl⟩ := ofFields_cons_eq_ok_iff.1 hc
    rw [List.map_cons, fieldMeanings, eval_eq_constraintMeaning field constraint scopes hf,
      map_eval_eq_fieldMeanings fields scopes hfs]

theorem eval_eq_constraintMeaning (field : String) : ∀ (constraint : Constraint) {s : Schema ι} {c : Condition}
    (scopes : List Scope), ofConstraint catalog s field constraint = .ok c →
      c.eval rows scopes = constraintMeaning (.ofScopes catalog rows) (s, scopes) field constraint
  | .test t, s, c, scopes, hc => by
    obtain ⟨-, rfl⟩ := ofConstraint_test_eq_ok_iff.1 hc
    exact eval_ofTest rows scopes field t
  | .related p, s, c, scopes, hc => by
    obtain ⟨r, inner, hrel, hinner, rfl⟩ := ofConstraint_related_eq_ok_iff.1 hc
    -- With a row there inside, the inner conditions hold if the predicate is true of it.
    have hin : ∀ other : Scope, evalAll rows (other :: scopes) inner =
        p.meaning (.ofScopes catalog rows) (catalog r.target, other :: scopes) := by
      intro other
      rcases hinner with ⟨he, rfl⟩ | ⟨-, d, hd, rfl⟩
      · exact (meaning_of_isEverything _ _ he).symm
      · rw [evalAll, evalAll, Truth.and_yes]
        exact eval_eq_meaning p (other :: scopes) hd
    rw [Condition.eval, constraintMeaning, Interpretation.related_ofScopes hrel, Operand.among, List.map_map,
      ← Clause.filterMap_ite]
    congr 1
    refine Condition.filterMap_eq fun other _ => ?_
    rw [evalAll_append, hin other, evalAll_unmarked_eq, Truth.holds_and, Truth.holds_ofBool]
    rfl

end

/-- In sound schemas whose columns the rows know, the rows around make no difference. -/
theorem meaning_ofScopes_eq_truth {root : Schema ι} {row : Scope} (hsound : Schema.IsSound catalog root)
    (hknown : Schema.AreKnown catalog root rows) (hs : Schema.IsIn catalog root s)
    (hrow : ∀ name, s.hasColumn name → (row name).isSome) {p : Predicate} {c : Condition}
    (hc : ofPredicate catalog s p = .ok c) (around : List Scope) :
    p.meaning (.ofScopes catalog rows) (s, row :: around) = p.truth catalog rows s row := by
  rw [← eval_eq_meaning p (row :: around) hc, eval_ofPredicate hsound hknown p hs hrow hc around]

end Predicate

/-- The conditions of a statement that keeps the live rows which satisfy a predicate say both. -/
theorem Sql.Select.evalAll_filter_eq {p : Predicate} {q : Select} (hq : (Select.live s).filter catalog s p = .ok q)
    (scopes : List Scope) : Condition.evalAll rows scopes q.conditions =
      (Truth.ofBool (s.isUnmarked scopes)).and (p.meaning (.ofScopes catalog rows) (s, scopes)) := by
  rw [← Condition.evalAll_unmarked_eq s]
  rcases filter_eq_ok_iff.1 hq with ⟨he, rfl⟩ | ⟨-, c, hc, rfl⟩
  · rw [Predicate.meaning_of_isEverything _ _ he, Truth.and_yes]
    rfl
  · rw [Condition.evalAll_append, Condition.evalAll, Condition.evalAll, Truth.and_yes,
      Predicate.eval_eq_meaning p scopes hc]
    rfl

/-! ## The one record of a query -/

/-- Loading gives a record for each. -/
theorem Loading.length_of_load {p : Projection} {records loaded : List Record}
    (h : load db catalog s p records = .ok loaded) : loaded.length = records.length := by
  rw [load] at h
  split at h
  · rw [Except.ok.inj h]
  · obtain ⟨levels, -, rfl⟩ := map_eq_ok_iff.1 h
    rw [attachAll_eq_map, List.length_map]

namespace Database

/-- The statement for one record keeps the live rows of which the predicate is true, and gives one of them. -/
theorem statement_single_eq_ok {q : Query} {select : Select} (h : statement catalog s q true = .ok select) :
    ∃ filtered, (Select.live s).filter catalog s q.predicate = .ok filtered ∧
      select.conditions = filtered.conditions ∧ select.limit = some 1 := by
  obtain ⟨filtered, hfiltered, h⟩ := bind_eq_ok_iff.1 h
  obtain ⟨sorted, hsorted, h⟩ := bind_eq_ok_iff.1 h
  obtain rfl := Except.ok.inj h
  obtain ⟨order, rfl, -, -⟩ := Select.sort_eq_ok hsorted
  exact ⟨filtered, hfiltered, rfl, rfl⟩

theorem length_chosen_le_one {select : Select} (h : select.limit = some 1) (names : List String) (t : Table) :
    (db.chosen select names t).length ≤ 1 := by
  rw [chosen, h]
  exact List.length_take_le _ _

/-- The one record that a query finds shows a live row of which its predicate is true. -/
theorem exists_row_of_find {q : Query} {records : List Record} {record : Record}
    (h : db.find catalog s q true = .ok records) (hrecord : records.head? = some record) :
    ∃ row ∈ db.live s, q.predicate.meaning (.ofScopes catalog db.scopes) (s, [row]) = .yes ∧
      db.Shows catalog s q.projection row (Concealment.record catalog s record) := by
  obtain ⟨select, t, loaded, hselect, ht, hload, rfl⟩ := exists_load_of_find h
  obtain ⟨filtered, hfiltered, hconditions, hlimit⟩ := statement_single_eq_ok hselect
  generalize hnames : Loading.rootNames catalog s q.projection = names at hload
  have hlength := Loading.length_of_load hload
  rw [List.head?_map, Option.map_eq_some_iff] at hrecord
  obtain ⟨first, hfirst, rfl⟩ := hrecord
  -- At most one row is chosen, and there is a record.
  have hone : (db.chosen select names t).length ≤ 1 := length_chosen_le_one hlimit names t
  obtain ⟨others, rfl⟩ := List.head?_eq_some_iff.1 hfirst
  simp only [List.length_map, List.length_cons] at hlength
  obtain rfl : others = [] := List.eq_nil_of_length_eq_zero (by omega)
  obtain ⟨r, hr⟩ := List.length_eq_one_iff.1 hlength.symm
  have hmem : r ∈ db.matching select t := mem_matching_of_mem_chosen (by rw [hr]; exact List.mem_singleton_self r)
  rw [matching_eq_filter, List.mem_filter, satisfies, hconditions, Select.evalAll_filter_eq hfiltered,
    Truth.holds_and, Truth.holds_ofBool, Bool.and_eq_true, Truth.holds_eq_true_iff] at hmem
  obtain ⟨hrow, hlive, htrue⟩ := hmem
  refine ⟨t.scope r, List.mem_filter.2 ⟨?_, hlive⟩, htrue, first, ?_, rfl⟩
  · rw [scopes_eq_map ht]
    exact List.mem_map_of_mem hrow
  · rw [hnames]
    rw [hr] at hload
    exact hload

/-- In a table that is indexed by the key of its schema, one live row at most has a key. -/
theorem eq_of_truth_key {t : Table} (ht : db.table? s.table = some t) (hindexed : t.IsIndexedBy s.key)
    (hordered : t.IsOrdered) {row other : Scope} (hrow : row ∈ db.live s) (ho : other ∈ db.live s) {id : Scalar}
    (hkey : (Test.eq id).truth (Scope.resolve [row] s.key) = .yes)
    (hother : (Test.eq id).truth (Scope.resolve [other] s.key) = .yes) : row = other := by
  have hrow := (List.mem_filter.1 hrow).1
  have ho := (List.mem_filter.1 ho).1
  rw [scopes_eq_map ht] at hrow ho
  obtain ⟨r, hr, rfl⟩ := List.mem_map.1 hrow
  obtain ⟨o, hmem, rfl⟩ := List.mem_map.1 ho
  rw [← Truth.holds_eq_true_iff, holds_truth_key hindexed] at hkey hother
  rw [eq_of_key_eq hordered hr hmem (Table.hasKey_inj hindexed hkey hother)]

end Database

/-! ## Records that are found -/

variable {limits : PageLimits} {request : Request} {q : Query}

/-- What the search of a request says of a row; nothing is asked without one. -/
def Request.meaning {ρ : Type} (I : Interpretation ρ) (row : ρ) (request : Request) : Truth :=
  request.search.elim .yes (Filter.meaning I row)

/-- The predicate of a request says what its search says, and that a field has a value if one has to. -/
theorem Query.meaning_ofRequest {identity : Option (String × Scalar)}
    (h : ofRequest catalog s limits request identity = .ok q) {ρ : Type} (I : Interpretation ρ) (row : ρ) :
    q.predicate.meaning I row =
      (request.meaning I row).and (identity.elim .yes fun i => I.test row i.1 (.eq i.2)) := by
  obtain ⟨p, hp, h⟩ := bind_eq_ok_iff.1 h
  obtain ⟨⟨⟩, -, h⟩ := bind_eq_ok_iff.1 h
  obtain ⟨relations, -, h⟩ := bind_eq_ok_iff.1 h
  obtain ⟨projection, -, h⟩ := bind_eq_ok_iff.1 h
  obtain ⟨⟨⟩, -, h⟩ := bind_eq_ok_iff.1 h
  obtain rfl := Except.ok.inj h
  have hsearch : p.meaning I row = request.meaning I row := by
    rw [Request.meaning]
    cases hs : request.search with
    | none =>
      rw [hs] at hp
      obtain rfl := Except.ok.inj hp
      rfl
    | some e =>
      rw [hs] at hp
      exact Predicate.meaning_ofFilter I e hp row
  rw [← hsearch]
  cases identity with
  | none => exact (Truth.and_yes _).symm
  | some i => exact Predicate.meaning_andEq I row p i.1 i.2

namespace Gateway

/-- A record that is found by its key shows a live row that has the key and of which the search is true. -/
theorem exists_row_of_run_find {id : Scalar} {record : Record}
    (h : (db.run ((inDatabase catalog s limits).find id request)).1 = .ok record) :
    ∃ q, Query.ofRequest catalog s limits request (some (s.key, id)) = .ok q ∧
      ∃ row ∈ db.live s, (Test.eq id).truth (Scope.resolve [row] s.key) = .yes ∧
        request.meaning (.ofScopes catalog db.scopes) (s, [row]) = .yes ∧
        db.Shows catalog s q.projection row record := by
  rw [run_find] at h
  obtain ⟨q, hq, h⟩ := bind_eq_ok_iff.1 h
  obtain ⟨records, hrecords, h⟩ := bind_eq_ok_iff.1 h
  have hq := mapError_eq_ok_iff.1 hq
  split at h
  next first hfirst =>
    obtain rfl := Except.ok.inj h
    obtain ⟨row, hrow, htrue, hshows⟩ := Database.exists_row_of_find (mapError_eq_ok_iff.1 hrecords) hfirst
    rw [Query.meaning_ofRequest hq, Truth.and_eq_yes_iff] at htrue
    exact ⟨q, hq, row, hrow, htrue.2, htrue.1, hshows⟩
  · cases h

/-- A record that is found by a predicate shows a live row of which it is true, and the search too. -/
theorem exists_row_of_run_findBy {p : Predicate} {record : Record}
    (h : (db.run ((inDatabase catalog s limits).findBy p request)).1 = .ok (some record)) :
    ∃ q, Query.ofRequest catalog s limits request = .ok q ∧
      ∃ row ∈ db.live s, p.meaning (.ofScopes catalog db.scopes) (s, [row]) = .yes ∧
        request.meaning (.ofScopes catalog db.scopes) (s, [row]) = .yes ∧
        db.Shows catalog s q.projection row record := by
  rw [run_findBy] at h
  obtain ⟨⟨⟩, -, h⟩ := bind_eq_ok_iff.1 h
  obtain ⟨q, hq, h⟩ := bind_eq_ok_iff.1 h
  obtain ⟨records, hrecords, h⟩ := bind_eq_ok_iff.1 h
  obtain ⟨first, hfirst, rfl⟩ := Option.map_eq_some_iff.1 (Except.ok.inj h)
  have hq := mapError_eq_ok_iff.1 hq
  obtain ⟨row, hrow, htrue, hshows⟩ := Database.exists_row_of_find (mapError_eq_ok_iff.1 hrecords) hfirst
  rw [Predicate.meaning_and, Query.meaning_ofRequest hq, Truth.and_eq_yes_iff] at htrue
  exact ⟨q, hq, row, hrow, htrue.1, (Truth.and_yes _).symm.trans htrue.2, hshows⟩

/-- Predicates that are put together say what they say one by one, also of a field that has to have a value, null
being asked for as such. So what is found by a key is the one live row that has the key, if the search is true of it;
and what is found by a predicate is a live row of which the predicate and the search are true. -/
theorem found_is_narrowed :
    (∀ (ρ : Type) (I : Interpretation ρ) (row : ρ) (p q : Predicate),
      (p.and q).meaning I row = (p.meaning I row).and (q.meaning I row)) ∧
    (∀ (ρ : Type) (I : Interpretation ρ) (row : ρ) (p : Predicate) (field : String) (value : Scalar),
      (p.andEq field value).meaning I row = (p.meaning I row).and (I.test row field (.eq value))) ∧
    (∀ a : Operand, (Test.eq .null).truth a = Test.isNull.truth a) ∧
    ∀ (ι : Type) (catalog : Catalog ι) (s : Schema ι) (limits : PageLimits) (db : Database) (request : Request),
      (∀ id record, (db.run ((inDatabase catalog s limits).find id request)).1 = .ok record →
        ∃ q, Query.ofRequest catalog s limits request (some (s.key, id)) = .ok q ∧
          ∃ row ∈ db.live s, (Test.eq id).truth (Scope.resolve [row] s.key) = .yes ∧
            (∀ t, db.table? s.table = some t → t.IsIndexedBy s.key → t.IsOrdered → ∀ other ∈ db.live s,
              (Test.eq id).truth (Scope.resolve [other] s.key) = .yes → other = row) ∧
            request.meaning (.ofScopes catalog db.scopes) (s, [row]) = .yes ∧
            db.Shows catalog s q.projection row record) ∧
      ∀ p record, (db.run ((inDatabase catalog s limits).findBy p request)).1 = .ok (some record) →
        ∃ q, Query.ofRequest catalog s limits request = .ok q ∧
          ∃ row ∈ db.live s, p.meaning (.ofScopes catalog db.scopes) (s, [row]) = .yes ∧
            request.meaning (.ofScopes catalog db.scopes) (s, [row]) = .yes ∧
            db.Shows catalog s q.projection row record := by
  refine ⟨fun ρ I row p q => Predicate.meaning_and I row p q,
    fun ρ I row p field value => Predicate.meaning_andEq I row p field value, fun a => rfl,
    fun ι catalog s limits db request => ⟨fun id record h => ?_, fun p record h => exists_row_of_run_findBy h⟩⟩
  obtain ⟨q, hq, row, hrow, hkey, hsearch, hshows⟩ := exists_row_of_run_find h
  exact ⟨q, hq, row, hrow, hkey, fun t ht hindexed hordered other ho hother =>
    Database.eq_of_truth_key ht hindexed hordered ho hrow hother hkey, hsearch, hshows⟩

/-- The milk is found by its key and by its category, if milk is searched for. -/
theorem found_is_narrowed_shop :
    let s := Demo.Shop.productSchema
    let db := Demo.Shop.database Demo.Shop.stocked
    let milk : Request := { search := some (.fields [("name", .equals (.text "Milk"))]) }
    let category := Predicate.eq "categoryId" (.int 2)
    (∃ record, (db.run ((inDatabase Demo.Shop.catalog s {}).find (.int 1) milk)).1 = .ok record ∧
      ∃ q, Query.ofRequest Demo.Shop.catalog s {} milk (some (s.key, .int 1)) = .ok q ∧
        ∃ row ∈ db.live s, (Test.eq (.int 1)).truth (Scope.resolve [row] s.key) = .yes ∧
          milk.meaning (.ofScopes Demo.Shop.catalog db.scopes) (s, [row]) = .yes ∧
          db.Shows Demo.Shop.catalog s q.projection row record) ∧
    ∃ record, (db.run ((inDatabase Demo.Shop.catalog s {}).findBy category milk)).1 = .ok (some record) ∧
      ∃ q, Query.ofRequest Demo.Shop.catalog s {} milk = .ok q ∧
        ∃ row ∈ db.live s, category.meaning (.ofScopes Demo.Shop.catalog db.scopes) (s, [row]) = .yes ∧
          milk.meaning (.ofScopes Demo.Shop.catalog db.scopes) (s, [row]) = .yes ∧
          db.Shows Demo.Shop.catalog s q.projection row record := by
  intro s db milk category
  obtain ⟨-, -, -, hfound⟩ := found_is_narrowed
  obtain ⟨hfind, hfindBy⟩ := hfound Demo.Shop Demo.Shop.catalog s {} db milk
  have hanswer : (db.run ((inDatabase Demo.Shop.catalog s {}).find (.int 1) milk)).1.isOk = true := by
    decide +kernel
  have hanswerBy : ((db.run ((inDatabase Demo.Shop.catalog s {}).findBy category milk)).1.toOption.any
      Option.isSome) = true := by
    decide +kernel
  constructor
  · obtain ⟨record, hrecord⟩ := exists_of_isOk hanswer
    obtain ⟨q, hq, row, hrow, hkey, -, hsearch, hshows⟩ := hfind _ record hrecord
    exact ⟨record, hrecord, q, hq, row, hrow, hkey, hsearch, hshows⟩
  · obtain ⟨found, hfound, hsome⟩ := any_toOption_iff.1 hanswerBy
    obtain ⟨record, rfl⟩ := Option.isSome_iff_exists.1 hsome
    exact ⟨record, hfound, hfindBy category record hfound⟩

end Gateway

end RecordQuery
