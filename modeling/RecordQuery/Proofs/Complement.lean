import RecordQuery.Proofs.Filters
import RecordQuery.Proofs.Loading.Joins
import RecordQuery.Proofs.Reading.Searches
/-!
# Relations and their negations

A search gives the live rows of which its filter is true (`Database.find_search`). Whether it asks for rows
with a related one that will do, or for rows without, is a question of keys: a negated question leaves out
a row to which such a related row belongs, and it leaves out every row if such a row belongs to none, for
an unknown key may be any (`Database.find_related`).
-/

namespace RecordQuery

open Outcome Sql
open Database (Row Table)

variable {ι : Type} {catalog : Catalog ι} {root s : Schema ι} {rows : String → List Scope} {row : Scope}
  {db : Database} {p : Predicate} {e : Filter}

/-! ## The meaning of a filter in the rows of the tables -/

/-- What the rows of the tables say: a test speaks of a column, and a relation asks for a key among those
of the live rows there that will do. -/
def Interpretation.ofRows (catalog : Catalog ι) (rows : String → List Scope) :
    Interpretation (Schema ι × Scope) where
  test here field t := t.truth (Scope.resolve [here.2] field)
  related here field inner :=
    match here.1.relation? field with
    | none => .unknown
    | some r =>
      let target := catalog r.target
      let found := (rows target.table).filter fun other =>
        target.isLive other && (inner (target, other)).holds
      (Scope.resolve [here.2] (here.1.joinKeys catalog r).1).among
        (found.map fun other => Scope.resolve [other] (here.1.joinKeys catalog r).2)

/-- The truth of a filter on a row of a schema's table. -/
def Filter.truth (catalog : Catalog ι) (rows : String → List Scope) (s : Schema ι) (row : Scope)
    (e : Filter) : Truth :=
  e.meaning (.ofRows catalog rows) (s, row)

namespace Predicate

mutual

/-- The truth of a predicate is what it means in the rows of the tables. -/
theorem truth_eq_meaning : ∀ (p : Predicate) (s : Schema ι) (row : Scope),
    p.truth catalog rows s row = p.meaning (.ofRows catalog rows) (s, row)
  | .all fields groups, s, row => by
    rw [truth, meaning, Truth.all_append, fieldTruths_eq_fieldMeanings fields s row,
      truths_eq_meanings groups s row]
  | .any branches, s, row => by
    rw [truth, meaning, truths_eq_meanings branches s row]
  | .not inner, s, row => by
    rw [truth, meaning, truth_eq_meaning inner s row]

theorem truths_eq_meanings : ∀ (ps : List Predicate) (s : Schema ι) (row : Scope),
    truths catalog rows s row ps = meanings (.ofRows catalog rows) (s, row) ps
  | [], _, _ => rfl
  | p :: ps, s, row => by
    rw [truths, meanings, truth_eq_meaning p s row, truths_eq_meanings ps s row]

theorem fieldTruths_eq_fieldMeanings : ∀ (fields : List (String × Constraint)) (s : Schema ι) (row : Scope),
    fieldTruths catalog rows s row fields = fieldMeanings (.ofRows catalog rows) (s, row) fields
  | [], _, _ => rfl
  | (field, constraint) :: fields, s, row => by
    rw [fieldTruths, fieldMeanings, fieldTruth_eq_constraintMeaning field constraint s row,
      fieldTruths_eq_fieldMeanings fields s row]

theorem fieldTruth_eq_constraintMeaning (field : String) :
    ∀ (constraint : Constraint) (s : Schema ι) (row : Scope),
      fieldTruth catalog rows s row field constraint =
        constraintMeaning (.ofRows catalog rows) (s, row) field constraint
  | .test _, _, _ => rfl
  | .related p, s, row => by
    rw [fieldTruth, constraintMeaning]
    simp only [truth_eq_meaning p]
    rfl

end

/-- The predicate of a filter has its truth. -/
theorem truth_ofFilter (hp : ofFilter e = .ok p) (s : Schema ι) (row : Scope) :
    p.truth catalog rows s row = e.truth catalog rows s row := by
  rw [truth_eq_meaning, meaning_ofFilter _ e hp, Filter.truth]

end Predicate

/-! ## Searches -/

/-- The live rows of a schema's table of which a filter is true. -/
def Database.satisfying (db : Database) (catalog : Catalog ι) (s : Schema ι) (e : Filter) : List Scope :=
  (db.live s).filter fun row => (e.truth catalog db.scopes s row).holds

/-- A search that passes the check is a query for its predicate and nothing else. -/
theorem Query.ofRequest_search (hp : Predicate.ofFilter e = .ok p) (hcheck : p.check catalog .visible s = .ok ())
    (limits : PageLimits) : ofRequest catalog s limits { search := some e } =
      .ok { predicate := p, projection := .whole s } := by
  have hfilter : Predicate.ofFilter? (some e) = .ok p := hp
  rw [ofRequest, hfilter]
  simp only [bind, Except.bind, hcheck]
  rfl

/-- A search that is answered gives the live rows of which its filter is true, each once. -/
theorem Database.find_search (hsound : Schema.IsSound catalog s) (hcover : db.Covers catalog s)
    (hp : Predicate.ofFilter e = .ok p) {records : List Record}
    (h : db.find catalog s { predicate := p, projection := .whole s } false = .ok records) :
    ∃ found : List Scope, found.Perm (db.satisfying catalog s e) ∧
      records = found.map (Record.ofRow s (Projection.visible s [])) := by
  obtain ⟨q, t, hq, ht, rfl⟩ := find_whole_eq_ok h
  refine ⟨(db.chosen q (Projection.visible s []) t).map t.scope, ?_, by rw [List.map_map]; rfl⟩
  have hchosen : db.chosen q (Projection.visible s []) t = db.met q (Projection.visible s []) t := by
    obtain ⟨-, horder, hlimit, hoffset⟩ := Select.plain_of_filter hq
    rw [chosen, horder, hlimit, hoffset]
    rfl
  rw [hchosen]
  refine ((perm_met db q _ t).map t.scope).trans (.of_eq ?_)
  simp only [matching_filter hsound hcover ht hq, Predicate.truth_ofFilter hp, satisfying]

/-! ## Keys among keys -/

theorem Sql.Affinity.isNull_comparand (a : Affinity) (cell : Cell) :
    (a.comparand cell).isNull = cell.isNull := by
  have hnumber : cell.toNumber.isNull = cell.isNull := by
    cases cell with
    | text s =>
      rw [Cell.toNumber]
      split <;> rfl
    | _ => rfl
  cases a with
  | integer => exact hnumber
  | real => exact hnumber
  | text => cases cell <;> rfl
  | none => rfl

/-- An equality is undecided exactly if one side is null. -/
theorem Sql.Operand.equals_eq_unknown_iff {a b : Operand} :
    a.equals b = .unknown ↔ a.cell.isNull ∨ b.cell.isNull := by
  have hdecided : ∀ o : Option Bool, Truth.ofBool? o = .unknown ↔ o = none := by
    rintro (_ | _ | _) <;> simp [Truth.ofBool?, Truth.ofBool]
  rw [equals, hdecided, Option.map_eq_none_iff, compare?, Cell.compare?]
  cases a.common b <;> simp only [Sql.Affinity.isNull_comparand] <;> cases a.cell.isNull <;> simp

/-- A key is not among others if it is equal to none of them and each is known. -/
theorem Sql.Operand.among_eq_no_iff {a : Operand} (ha : a.cell.isNull = false) {keys : List Operand} :
    a.among keys = .no ↔ (∀ key ∈ keys, a.equals key ≠ .yes) ∧ ∀ key ∈ keys, key.cell.isNull = false := by
  rw [among, Truth.any_eq_no_iff, List.forall_mem_map, ← forall₂_and]
  refine forall₂_congr fun key _ => ?_
  have hunknown := (equals_eq_unknown_iff (a := a) (b := key)).not
  rw [ha] at hunknown
  cases hequals : a.equals key <;> simp_all

/-! ## Rows with and without a related one -/

/-- Whether one of the rows behind a relation of which a filter is true belongs to a row. -/
def Database.hasRelated (db : Database) (catalog : Catalog ι) (s : Schema ι) (r : Relation ι) (e : Filter)
    (row : Scope) : Bool :=
  (db.satisfying catalog (catalog r.target) e).any fun other =>
    ((Scope.resolve [row] (s.joinKeys catalog r).1).equals
      (Scope.resolve [other] (s.joinKeys catalog r).2)).holds

theorem Database.truth_related {name : String} {r : Relation ι} (hr : s.relation? name = some r) :
    (Filter.fields [(name, .nested e)]).truth catalog db.scopes s row =
      (Scope.resolve [row] (s.joinKeys catalog r).1).among
        ((db.satisfying catalog (catalog r.target) e).map fun other =>
          Scope.resolve [other] (s.joinKeys catalog r).2) := by
  rw [satisfying, live, List.filter_filter]
  simp only [Filter.truth, Filter.meaning, Filter.fieldMeanings, Filter.conditionMeaning, Truth.all,
    Truth.and_yes, Interpretation.ofRows, hr, Bool.and_comm]

/-- The key of a row is known. -/
theorem Database.isNull_key (hkey : ∀ t, db.table? s.table = some t → t.IsKey s.key)
    (hrow : row ∈ db.live s) : (Scope.resolve [row] s.key).cell.isNull = false := by
  have hrow := (List.mem_filter.1 hrow).1
  cases ht : db.table? s.table with
  | none => simp [scopes, ht] at hrow
  | some t =>
    rw [scopes_eq_map ht] at hrow
    obtain ⟨r, -, rfl⟩ := List.mem_map.1 hrow
    have hcell := cellOf_key (hkey t ht) r
    rw [cellOf] at hcell
    rw [hcell]
    rfl

/-- Asked for the rows with a related one of which a filter is true, a search gives those to which one
belongs. Asked for the rows without, it gives those to which none belongs, provided that every such
related row has a key; otherwise it gives no row. -/
theorem Database.find_related (hsound : Schema.IsSound catalog s) (hcover : db.Covers catalog s)
    (hkey : ∀ t, db.table? s.table = some t → t.IsKey s.key) {name foreignKey : String} {r : Relation ι}
    (hr : s.relation? name = some r) (hmany : r.join = .hasMany foreignKey)
    (hp : Predicate.ofFilter e = .ok p) (hcheck : p.check catalog .visible (catalog r.target) = .ok ())
    (limits : PageLimits) :
    ∃ q q', Query.ofRequest catalog s limits { search := some (.fields [(name, .nested e)]) } = .ok q ∧
      Query.ofRequest catalog s limits { search := some (.not (.fields [(name, .nested e)])) } = .ok q' ∧
      (∀ records, db.find catalog s q false = .ok records →
        ∃ found : List Scope, found.Perm ((db.live s).filter fun row => db.hasRelated catalog s r e row) ∧
          records = found.map (Record.ofRow s (Projection.visible s []))) ∧
      ∀ records, db.find catalog s q' false = .ok records →
        ∃ found : List Scope, found.Perm ((db.live s).filter fun row => !db.hasRelated catalog s r e row &&
            (db.satisfying catalog (catalog r.target) e).all fun other =>
              !(cellOf other foreignKey).isNull) ∧
          records = found.map (Record.ofRow s (Projection.visible s [])) := by
  have hp₁ : Predicate.ofFilter (.fields [(name, .nested e)]) = .ok (.all [(name, .related p)] []) := by
    simp [Predicate.ofFilter, Predicate.ofFields, Predicate.ofCondition, hp, Except.map, bind, Except.bind]
  have hp₂ : Predicate.ofFilter (.not (.fields [(name, .nested e)])) =
      .ok (.not (.all [(name, .related p)] [])) := by
    rw [Predicate.ofFilter, hp₁]
    rfl
  have hcheck₁ : (Predicate.all [(name, .related p)] []).check catalog .visible s = .ok () := by
    simp [Predicate.check, Predicate.checkFields, Predicate.checkField, Predicate.checkAll, hr, hcheck, bind,
      Except.bind]
  have hcheck₂ : (Predicate.not (.all [(name, .related p)] [])).check catalog .visible s = .ok () := by
    rw [Predicate.check, hcheck₁]
  refine ⟨_, _, Query.ofRequest_search hp₁ hcheck₁ limits, Query.ofRequest_search hp₂ hcheck₂ limits,
    fun records h => ?_, fun records h => ?_⟩
  · obtain ⟨found, hfound, rfl⟩ := find_search hsound hcover hp₁ h
    refine ⟨found, hfound.trans (.of_eq (List.filter_congr fun row _ => ?_)), rfl⟩
    rw [truth_related hr, Bool.eq_iff_iff, Truth.holds_eq_true_iff, Operand.among, Truth.any_eq_yes_iff]
    simp [hasRelated, Truth.holds_eq_true_iff]
  · obtain ⟨found, hfound, rfl⟩ := find_search hsound hcover hp₂ h
    refine ⟨found, hfound.trans (.of_eq (List.filter_congr fun row hrow => ?_)), rfl⟩
    have hnull := isNull_key hkey hrow
    have hnot : ((Filter.fields [(name, .nested e)]).not.truth catalog db.scopes s row) =
        ((Filter.fields [(name, .nested e)]).truth catalog db.scopes s row).not := rfl
    have hyes : ∀ truth : Truth, truth.not = .yes ↔ truth = .no := by rintro (_ | _ | _) <;> simp [Truth.not]
    have hkeys : s.joinKeys catalog r = (s.key, foreignKey) := by rw [Schema.joinKeys, hmany]
    rw [hnot, truth_related hr, Bool.eq_iff_iff, Truth.holds_eq_true_iff, hyes, hkeys,
      Operand.among_eq_no_iff hnull]
    simp [hasRelated, hkeys, Truth.holds_eq_true_iff, cellOf]

/-! ## Categories and their products -/

/-- A category, and a product that may be in one. -/
def Demo.Shop.rowsIn (category : Cell) : Shop → List Row
  | .user => []
  | .category => [⟨1, [("name", .text "Dairy")]⟩]
  | .product => [⟨1, [("name", .text "Milk"), ("categoryId", category)]⟩]

/-- The filter that products named milk satisfy. -/
def Demo.Shop.isMilk : Filter := .fields [("name", .equals (.text "Milk"))]

/-- The categories with milk and the categories without. -/
theorem Database.find_related_shop :
    let s := Demo.Shop.categorySchema
    let db := Demo.Shop.database (Demo.Shop.rowsIn (.integer 1))
    let r : Relation Demo.Shop := ⟨"products", .product, .hasMany "categoryId"⟩
    let e := Demo.Shop.isMilk
    let p := Predicate.eq "name" (.text "Milk")
    Schema.IsSound Demo.Shop.catalog s ∧ db.Covers Demo.Shop.catalog s ∧
      (∀ t, db.table? s.table = some t → t.IsKey s.key) ∧ s.relation? "products" = some r ∧
      Predicate.ofFilter e = .ok p ∧
      p.check Demo.Shop.catalog .visible (Demo.Shop.catalog r.target) = .ok () ∧
      ∃ q q',
        Query.ofRequest Demo.Shop.catalog s {} { search := some (.fields [("products", .nested e)]) } = .ok q ∧
        Query.ofRequest Demo.Shop.catalog s {}
            { search := some (.not (.fields [("products", .nested e)])) } = .ok q' ∧
        (∀ records, db.find Demo.Shop.catalog s q false = .ok records →
          ∃ found : List Scope,
            found.Perm ((db.live s).filter fun row => db.hasRelated Demo.Shop.catalog s r e row) ∧
            records = found.map (Record.ofRow s (Projection.visible s []))) ∧
        ∀ records, db.find Demo.Shop.catalog s q' false = .ok records →
          ∃ found : List Scope,
            found.Perm ((db.live s).filter fun row => !db.hasRelated Demo.Shop.catalog s r e row &&
              (db.satisfying Demo.Shop.catalog (Demo.Shop.catalog r.target) e).all fun other =>
                !(cellOf other "categoryId").isNull) ∧
            records = found.map (Record.ofRow s (Projection.visible s [])) := by
  intro s db r e p
  have hsound := Demo.Shop.isSound .category
  have hcover : db.Covers Demo.Shop.catalog s := Demo.Shop.covers_database _ .category
  have hkey : ∀ t, db.table? s.table = some t → t.IsKey s.key := by
    intro t ht
    obtain rfl := Option.some.inj ((Demo.Shop.table?_database _ .category).symm.trans ht)
    exact (Table.fits_ofSchema (by decide) _).isKey (Demo.Shop.flaw?_eq_none .category)
  have hr : s.relation? "products" = some r := by rfl
  have hp : Predicate.ofFilter e = .ok p := by rfl
  have hcheck : p.check Demo.Shop.catalog .visible (Demo.Shop.catalog r.target) = .ok () := by cbv
  exact ⟨hsound, hcover, hkey, hr, hp, hcheck, find_related hsound hcover hkey hr rfl hp hcheck {}⟩

/-- A product that is in no category hides every category from a search for those without. -/
theorem Database.find_unrelated_eq_nil_shop :
    let s := Demo.Shop.categorySchema
    let db := Demo.Shop.database (Demo.Shop.rowsIn .null)
    let r : Relation Demo.Shop := ⟨"products", .product, .hasMany "categoryId"⟩
    let e := Demo.Shop.isMilk
    Schema.IsSound Demo.Shop.catalog s ∧ s.relation? "products" = some r ∧
      (∀ other ∈ db.live (Demo.Shop.catalog r.target),
        e.truth Demo.Shop.catalog db.scopes (Demo.Shop.catalog r.target) other ≠ .unknown) ∧
      (∃ row ∈ db.live s, db.hasRelated Demo.Shop.catalog s r e row = false) ∧
      ∃ q, Query.ofRequest Demo.Shop.catalog s {}
          { search := some (.not (.fields [("products", .nested e)])) } = .ok q ∧
        db.find Demo.Shop.catalog s q false = .ok [] := by
  intro s db r e
  have hknown : ((db.live (Demo.Shop.catalog r.target)).all fun other =>
      e.truth Demo.Shop.catalog db.scopes (Demo.Shop.catalog r.target) other != .unknown) = true := by
    decide
  have hrow : ((db.live s).any fun row => !db.hasRelated Demo.Shop.catalog s r e row) = true := by
    decide
  have hanswer : (match Query.ofRequest Demo.Shop.catalog s {}
        { search := some (.not (.fields [("products", .nested e)])) } with
      | .ok q =>
        match db.find Demo.Shop.catalog s q false with
        | .ok records => records.isEmpty
        | .error _ => false
      | .error _ => false) = true := by
    decide
  refine ⟨Demo.Shop.isSound .category, rfl, ?_, ?_, ?_⟩
  · simpa using hknown
  · simpa using hrow
  · split at hanswer
    · next q hq =>
      split at hanswer
      · next records hfind =>
        obtain rfl := List.isEmpty_iff.1 hanswer
        exact ⟨q, hq, hfind⟩
      · cases hanswer
    · cases hanswer

end RecordQuery
