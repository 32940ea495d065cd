import RecordQuery.Proofs.Shop
import RecordQuery.Proofs.Where.Outline
import RecordQuery.Proofs.Where.Places
/-!
# Values stay out of the text of a statement

A statement is put together in steps (`Select.Step`), each of which may bind values (`Step.bound`). No value
has a part in the text: what stands there is the place of a number, and the numbers count the values in the
order in which the steps have them. Steps of one outline, in which other values and other patterns stand,
make the same text.

* `params_ofPredicate`: a condition binds the values of its predicate from left to right;
* `params_build`, `build_outline`: the same for a statement that is put together;
* `places_of_build`: what both of its texts show of the values.
-/

namespace RecordQuery

open Outcome Sql Sql.Token

/-! ## The values that are bound -/

/-- The values that a test binds; to ask for null binds none. -/
def Test.bound : Test → List Param
  | .eq .null => []
  | .eq value => [.ofScalar value]
  | .ne .null => []
  | .ne value => [.ofScalar value]
  | .like pattern => [.text (Text.Wildcard.expression (Text.Wildcard.read pattern))]
  | .oneOf values => values.map .ofScalar
  | .isNull => []
  | .isNotNull => []
  | .between low high => [.ofScalar low, .ofScalar high]
  | .gt bound => [.ofScalar bound]
  | .gte bound => [.ofScalar bound]
  | .lt bound => [.ofScalar bound]
  | .lte bound => [.ofScalar bound]

namespace Predicate

mutual

/-- The values that a predicate binds, from left to right. -/
def bound : Predicate → List Param
  | .all fields groups => boundByFields fields ++ boundByAll groups
  | .any branches => boundByAll branches
  | .not inner => inner.bound

/-- The values that predicates bind. -/
def boundByAll : List Predicate → List Param
  | [] => []
  | p :: ps => p.bound ++ boundByAll ps

/-- The values that the fields of a conjunction bind. -/
def boundByFields : List (String × Constraint) → List Param
  | [] => []
  | (_, constraint) :: fields => boundByConstraint constraint ++ boundByFields fields

/-- The values that the constraint of a field binds. -/
def boundByConstraint : Constraint → List Param
  | .test t => t.bound
  | .related p => p.bound

end

theorem bound_of_isEverything {p : Predicate} (h : p.isEverything) : p.bound = [] := by
  match p, h with
  | .all [] [], _ => rfl

end Predicate

namespace Sql

namespace Token

theorem params_append (ts us : List Token) : params (ts ++ us) = params ts ++ params us :=
  List.filterMap_append

@[simp]
theorem params_bracketed (ts : List Token) : params (bracketed ts) = params ts := by
  have hclosing : params [closing] = [] := rfl
  rw [bracketed, List.cons_append, params_cons, params_append, hclosing, List.append_nil]
  rfl

/-- A separator that binds nothing leaves the values of the parts. -/
theorem params_separated {separator : Token} (h : separator.param? = none) (tss : List (List Token)) :
    params (separated separator tss) = tss.flatMap params := by
  cases tss with
  | nil => rfl
  | cons ts tss =>
    have hrest : params (tss.flatMap (separator :: ·)) = tss.flatMap params := by
      induction tss with
      | nil => rfl
      | cons us tss ih => simp [params_append, params_cons, h, ih]
    rw [Clause.separated_cons, params_append, hrest, List.flatMap_cons]

end Token

namespace Condition

variable {ι : Type} {catalog : Catalog ι} {cs ds : List Condition}

theorem listTokens_eq_map (cs : List Condition) : listTokens cs = cs.map tokens := by
  induction cs with
  | nil => rfl
  | cons c cs ih => rw [listTokens, ih, List.map_cons]

/-- The values that conditions bind. -/
def boundBy (cs : List Condition) : List Param :=
  cs.flatMap fun c => params c.tokens

theorem boundBy_append : boundBy (cs ++ ds) = boundBy cs ++ boundBy ds :=
  List.flatMap_append

/-- Under one connective all parts bind their values. -/
theorem params_joined (k : Connective) (cs : List Condition) :
    params (joined k.word k.noTokens (listTokens cs)) = boundBy cs := by
  rw [listTokens_eq_map, boundBy, ← List.flatMap_map]
  rcases cs.map tokens with _ | ⟨ts, _ | ⟨us, tss⟩⟩
  · cases k <;> rfl
  · simp [joined]
  · rw [joined, params_separated rfl, List.flatMap_map]
    · simp
    all_goals simp

theorem params_all (cs : List Condition) : params (all cs).tokens = boundBy cs :=
  params_joined .and cs

theorem params_any (cs : List Condition) : params (any cs).tokens = boundBy cs :=
  params_joined .or cs

theorem params_among (column key table : String) (cs : List Condition) :
    params (among column key table cs).tokens = boundBy cs := by
  have h := params_joined .and cs
  cases cs with
  | nil => rfl
  | cons c cs =>
    simpa [tokens, listTokens, params_cons, param?, Connective.word, Connective.noTokens] using h

theorem params_oneOf (column : String) (values : List Param) :
    params (oneOf column values).tokens = values := by
  cases values with
  | nil => rfl
  | cons v vs =>
    have h : params (separated .comma ((v :: vs).map fun v => [.param v])) = v :: vs := by
      rw [params_separated rfl]
      simp [List.flatMap_map, params, param?]
    rw [tokens, params_cons, params_cons, params_bracketed, h]
    · rfl
    · simp

/-- A mark of deletion is asked for without a value. -/
theorem boundBy_unmarked (s : Schema ι) : boundBy (unmarked s) = [] := by
  cases h : s.deletionMark? <;> simp [boundBy, unmarked, h, tokens, params, param?]

theorem params_ofTest (column : String) (t : Test) : params (ofTest column t).tokens = t.bound := by
  cases t with
  | oneOf values => exact params_oneOf column _
  | eq value => cases value <;> rfl
  | ne value => cases value <;> rfl
  | _ => rfl

mutual

/-- A condition binds the values of its predicate, from left to right. -/
theorem params_ofPredicate : ∀ (p : Predicate) (s : Schema ι) {c : Condition},
    ofPredicate catalog s p = .ok c → params c.tokens = p.bound
  | .all fields groups, s, c, h => by
    obtain ⟨tests, inner, ht, hi, rfl⟩ := ofPredicate_all_eq_ok_iff.1 h
    rw [params_all, boundBy_append, boundBy_ofFields fields s ht, boundBy_ofAll groups s hi, Predicate.bound]
  | .any branches, s, c, h => by
    obtain ⟨cs, hc, rfl⟩ := ofPredicate_any_eq_ok_iff.1 h
    rw [params_any, boundBy_ofAll branches s hc, Predicate.bound]
  | .not inner, s, c, h => by
    obtain ⟨d, hd, rfl⟩ := ofPredicate_not_eq_ok_iff.1 h
    simp [tokens, params_cons, param?, params_ofPredicate inner s hd, Predicate.bound]

theorem boundBy_ofAll : ∀ (ps : List Predicate) (s : Schema ι) {cs : List Condition},
    ofAll catalog s ps = .ok cs → boundBy cs = Predicate.boundByAll ps
  | [], s, cs, h => by
    cases h
    rfl
  | p :: ps, s, cs, h => by
    obtain ⟨d, ds, hd, hds, rfl⟩ := ofAll_cons_eq_ok_iff.1 h
    rw [Predicate.boundByAll, ← params_ofPredicate p s hd, ← boundBy_ofAll ps s hds]
    rfl

theorem boundBy_ofFields : ∀ (fields : List (String × Constraint)) (s : Schema ι) {cs : List Condition},
    ofFields catalog s fields = .ok cs → boundBy cs = Predicate.boundByFields fields
  | [], s, cs, h => by
    cases h
    rfl
  | (field, constraint) :: fields, s, cs, h => by
    obtain ⟨d, ds, hd, hds, rfl⟩ := ofFields_cons_eq_ok_iff.1 h
    rw [Predicate.boundByFields, ← params_ofConstraint constraint s field hd, ← boundBy_ofFields fields s hds]
    rfl

theorem params_ofConstraint : ∀ (constraint : Constraint) (s : Schema ι) (field : String) {c : Condition},
    ofConstraint catalog s field constraint = .ok c →
      params c.tokens = Predicate.boundByConstraint constraint
  | .test t, s, field, c, h => by
    obtain ⟨-, rfl⟩ := ofConstraint_test_eq_ok_iff.1 h
    rw [params_ofTest, Predicate.boundByConstraint]
  | .related p, s, field, c, h => by
    obtain ⟨r, inner, -, hin, rfl⟩ := ofConstraint_related_eq_ok_iff.1 h
    rw [params_among, boundBy_append, boundBy_unmarked, List.nil_append, Predicate.boundByConstraint]
    rcases hin with ⟨he, rfl⟩ | ⟨-, d, hd, rfl⟩
    · rw [Predicate.bound_of_isEverything he]
      rfl
    · simpa [boundBy] using params_ofPredicate p (catalog r.target) hd

end

end Condition

end Sql

/-! ## Statements that are put together -/

namespace Sql.Select

variable {ι : Type} {catalog : Catalog ι} {s : Schema ι}

/-- One step in putting a statement together. -/
inductive Step where
  | filter (p : Predicate)
  | filterIn (column : String) (values : List Param)
  | sort (keys : SortKeys)
  | sortByKey
  | onPage (page : Option Page)
  | atMost (limit : Int64)

/-- The statement after one more step. -/
def Step.apply (catalog : Catalog ι) (s : Schema ι) (q : Select) : Step → Except Fault Select
  | .filter p => q.filter catalog s p
  | .filterIn column values => q.filterIn s column values
  | .sort keys => q.sort catalog s keys
  | .sortByKey => .ok (q.sortByKey s)
  | .onPage page => .ok (q.onPage page)
  | .atMost limit => .ok (q.atMost limit)

/-- The statement that steps make of the one that reads all live rows. -/
def build (catalog : Catalog ι) (s : Schema ι) (steps : List Step) : Except Fault Select :=
  steps.foldlM (Step.apply catalog s) (live s)

/-- The values that a step binds. -/
def Step.bound : Step → List Param
  | .filter p => p.bound
  | .filterIn _ values => values
  | _ => []

/-- A step without its values and patterns. -/
def Step.outline : Step → Step
  | .filter p => .filter p.outline
  | .filterIn column values => .filterIn column (values.map Param.outline)
  | step => step

/-! ### The values of a statement -/

theorem params_eq_boundBy (q : Select) : q.params = Condition.boundBy q.conditions := by
  cases h : q.conditions with
  | nil => simp [params, whereTokens, h, Condition.boundBy, Token.params]
  | cons c cs => simp [params, whereTokens, h, params_cons, param?, Condition.params_all]

theorem conditions_sortKey {q q' : Select} {key : String × Direction}
    (h : q.sortKey catalog s key = .ok q') : q'.conditions = q.conditions := by
  obtain ⟨term, -, rfl⟩ := map_eq_ok_iff.1 h
  rfl

theorem conditions_sort {keys : SortKeys} : ∀ {q q' : Select}, q.sort catalog s keys = .ok q' →
    q'.conditions = q.conditions := by
  induction keys with
  | nil =>
    intro q q' h
    cases h
    rfl
  | cons key keys ih =>
    intro q q' h
    rw [sort, List.foldlM_cons, bind_eq_ok_iff] at h
    obtain ⟨q₁, h₁, h⟩ := h
    rw [ih h, conditions_sortKey h₁]

/-- A step binds its values behind those that are bound already. -/
theorem params_apply {q q' : Select} : ∀ {step : Step}, step.apply catalog s q = .ok q' →
    q'.params = q.params ++ step.bound
  | .filter p, h => by
    simp only [Step.apply, filter] at h
    split at h
    · next he =>
      cases h
      simp [Step.bound, Predicate.bound_of_isEverything he]
    · obtain ⟨c, hc, rfl⟩ := map_eq_ok_iff.1 h
      simp [params_eq_boundBy, Condition.boundBy, Condition.params_ofPredicate p s hc, Step.bound]
  | .filterIn column values, h => by
    obtain ⟨-, -, h⟩ := bind_eq_ok_iff.1 h
    cases h
    simp [params_eq_boundBy, Condition.boundBy, Condition.params_oneOf, Step.bound]
  | .sort keys, h => by simp [params_eq_boundBy, conditions_sort h, Step.bound]
  | .sortByKey, h => by
    cases h
    simp only [sortByKey, params_eq_boundBy, Step.bound, List.append_nil]
    split <;> rfl
  | .onPage page, h => by
    cases h
    cases page <;> simp [onPage, params_eq_boundBy, Step.bound]
  | .atMost limit, h => by
    cases h
    simp [atMost, params_eq_boundBy, Step.bound]

/-- A statement binds the values of its steps in their order. -/
theorem params_build {steps : List Step} {q : Select} (h : build catalog s steps = .ok q) :
    q.params = steps.flatMap Step.bound := by
  have hfold : ∀ (steps : List Step) (q₀ : Select), steps.foldlM (Step.apply catalog s) q₀ = .ok q →
      q.params = q₀.params ++ steps.flatMap Step.bound := by
    intro steps
    induction steps with
    | nil =>
      intro q₀ h
      cases h
      simp
    | cons step steps ih =>
      intro q₀ h
      rw [List.foldlM_cons, bind_eq_ok_iff] at h
      obtain ⟨q₁, h₁, h⟩ := h
      rw [ih q₁ h, params_apply h₁, List.append_assoc, List.flatMap_cons]
  rw [hfold steps (live s) h, params_eq_boundBy]
  simp [live, Condition.boundBy_unmarked]

/-! ### Statements without their values -/

theorem sort_outline (keys : SortKeys) (q : Select) :
    q.outline.sort catalog s keys = (q.sort catalog s keys).map outline := by
  induction keys generalizing q with
  | nil => rfl
  | cons key keys ih =>
    have hkey : q.outline.sortKey catalog s key = (q.sortKey catalog s key).map outline := by
      simp only [sortKey, outline]
      cases SortTerm.ofPath catalog s _ key.1 <;> rfl
    rw [sort, sort, List.foldlM_cons, List.foldlM_cons, hkey]
    cases q.sortKey catalog s key with
    | error e => rfl
    | ok q₁ => exact ih q₁

/-- A step without its values makes the statement without its values, or the same fault. -/
theorem apply_outline (q : Select) : ∀ step : Step,
    step.outline.apply catalog s q.outline = (step.apply catalog s q).map outline
  | .filter p => by
    simp only [Step.outline, Step.apply, filter, Predicate.isEverything_outline, Condition.ofPredicate_outline]
    cases p.isEverything with
    | true => rfl
    | false => cases Condition.ofPredicate catalog s p <;> simp [Except.map, outline]
  | .filterIn column values => by
    simp only [Step.outline, Step.apply, filterIn]
    cases requireColumn s column <;> simp [bind, Except.bind, Except.map, outline, Condition.outline]
  | .sort keys => sort_outline keys q
  | .sortByKey => by
    cases h : q.order.isEmpty <;> simp [Step.outline, Step.apply, sortByKey, outline, h, Except.map]
  | .onPage page => by cases page <;> rfl
  | .atMost limit => rfl

theorem build_outline (steps : List Step) :
    build catalog s (steps.map Step.outline) = (build catalog s steps).map outline := by
  have hlive : (live s).outline = live s := by
    rw [outline, live, Condition.map_outline_unmarked]
  have hfold : ∀ (steps : List Step) (q : Select),
      (steps.map Step.outline).foldlM (Step.apply catalog s) q.outline =
        (steps.foldlM (Step.apply catalog s) q).map outline := by
    intro steps
    induction steps with
    | nil => exact fun _ => rfl
    | cons step steps ih =>
      intro q
      rw [List.map_cons, List.foldlM_cons, List.foldlM_cons, apply_outline]
      cases step.apply catalog s q with
      | error e => rfl
      | ok q₁ => exact ih q₁
  simpa [build, hlive] using hfold steps (live s)

/-- What a statement shows: its text for any columns, and the text that counts its rows. -/
def texts (s : Schema ι) (q : Select) : String × (List String → Except Fault String) :=
  (q.countText, fun columns => q.textFor s columns)

theorem texts_outline (s : Schema ι) (q : Select) : texts s q.outline = texts s q := by
  simp only [texts, textFor, countText_outline, text_outline]

/-- Steps of one outline make the same texts, or end in the same fault. -/
theorem texts_build_eq {steps others : List Step} (h : others.map Step.outline = steps.map Step.outline) :
    (build catalog s others).map (texts s) = (build catalog s steps).map (texts s) := by
  have hmap : ∀ steps : List Step, (build catalog s steps).map (texts s) =
      (build catalog s (steps.map Step.outline)).map (texts s) := by
    intro steps
    rw [build_outline]
    cases build catalog s steps with
    | error e => rfl
    | ok q => exact congrArg Except.ok (texts_outline s q).symm
  rw [hmap others, h, ← hmap steps]

/-- Whatever steps make a statement: its texts show exactly the places of its values, numbered from left to
right, and these are the values of the steps in their order. Other values and patterns in the place of those
of the steps leave both texts as they are. -/
theorem places_of_build (catalog : Catalog ι) (s : Schema ι) (steps : List Step) :
    (∀ q, build catalog s steps = .ok q →
      q.params = steps.flatMap Step.bound ∧
      placesIn false q.countText.toList = (List.range' 1 q.params.length).map place ∧
      ∀ columns text, q.textFor s columns = .ok text →
        placesIn false text.toList = (List.range' 1 q.params.length).map place) ∧
    ∀ others : List Step, others.map Step.outline = steps.map Step.outline →
      (build catalog s others).map (texts s) = (build catalog s steps).map (texts s) := by
  refine ⟨fun q hq => ⟨params_build hq, placesIn_countText q, fun columns text htext => ?_⟩,
    fun others => texts_build_eq⟩
  obtain ⟨-, -, htext⟩ := bind_eq_ok_iff.1 htext
  cases htext
  exact placesIn_text q columns

/-- Steps on the products of the shop, for given values. -/
def shopSteps (name pattern : String) (low high : Int64) : List Step :=
  [.filter (.all [("category", .related (.eq "name" (.text name)))]
      [.not (.any [.all [("id", .test (.oneOf [.int low, .int high])), ("photoId", .test (.eq .null))] [],
        .all [("name", .test (.like pattern))] []])]),
    .sort [("creator.email", .descending)], .filterIn "id" [.integer low, .null], .onPage (some ⟨2, 10⟩)]

/-- A question mark in a value is no place. -/
theorem places_of_build_shop :
    ∃ q, build Demo.Shop.catalog Demo.Shop.productSchema (shopSteps "?7" "a%" 3 4) = .ok q ∧
      q.params = [.text "?7", .integer 3, .integer 4, .text "(?is)^a.*$", .integer 3, .null] ∧
      placesIn false q.countText.toList = ["?1", "?2", "?3", "?4", "?5", "?6"] ∧
      (build Demo.Shop.catalog Demo.Shop.productSchema (shopSteps "\"" "" 0 0)).map (texts Demo.Shop.productSchema) =
        .ok (texts Demo.Shop.productSchema q) := by
  have h := places_of_build Demo.Shop.catalog Demo.Shop.productSchema (shopSteps "?7" "a%" 3 4)
  refine ⟨_, rfl, rfl, ?_, h.2 _ rfl⟩
  exact (h.1 _ rfl).2.1

end Sql.Select

end RecordQuery
