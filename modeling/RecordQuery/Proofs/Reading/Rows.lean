import RecordQuery.Database.Reading
import RecordQuery.Proofs.Reading.View
/-!
# Databases that look alike

Two databases look alike through a view (`View.Alike`) if their tables have the same definitions and their
live rows agree on the columns that are read. A statement that asks only for live rows and reads only
those columns (`View.Asks`) gives the same rows of both, in the same order.

* `View.Alike.forall₂_met`: the rows that are met agree, one by one;
* `View.Alike.sortCell_eq`: they are sorted by the same cells;
* `View.Alike.select_eq`, `View.Alike.count_eq`: the answers are the same.
-/

namespace RecordQuery

open Sql
open Database (Row Table)

variable {ι : Type} {catalog : Catalog ι} {root s : Schema ι}

/-- The rows of a table without a deletion mark. -/
def Database.Table.live (t : Table) (s : Schema ι) : List Row :=
  t.rows.filter fun r => s.isLive (t.scope r)

namespace View

variable {v : View catalog root} {db db' : Database} {t t' : Table} {q : Select}

/-- Two databases whose tables are the same but for what the view leaves out. Where rows are met as they
lie in the tables, they agree on the columns that are read; otherwise the live rows are the same. -/
structure Alike (v : View catalog root) (db db' : Database) : Prop where
  covers : db.Covers catalog root
  definition (name : String) :
    (db.table? name).map Table.toDefinition = (db'.table? name).map Table.toDefinition
  rows {s : Schema ι} {t t' : Table} : Schema.IsIn catalog root s → db.table? s.table = some t →
    db'.table? s.table = some t' →
    List.Forall₂ (fun r r' => ∀ name, v.sees s name → t.scope r name = t'.scope r' name)
      (t.live s) (t'.live s)
  visit : db.visit = db'.visit
  planned {s : Schema ι} {t t' : Table} : db.visit = .planned → Schema.IsIn catalog root s →
    db.table? s.table = some t → db'.table? s.table = some t' → t.live s = t'.live s

/-- A sort term that reads no more than a view. -/
def SortsBy (v : View catalog root) (s : Schema ι) : SortTerm → Prop
  | .column name => v.sees s name
  | .related _ table key column localKey mark =>
    v.sees s localKey ∧ ∃ target, Schema.IsIn catalog root target ∧ target.table = table ∧
      v.sees target key ∧ v.sees target column ∧ target.deletionMark? = mark

/-- A statement for the live rows of a schema's table that reads no more than a view. -/
structure Asks (v : View catalog root) (s : Schema ι) (q : Select) : Prop where
  table : q.table = s.table
  conditions : Condition.AreWithin v s q.conditions
  live : Condition.unmarked s <+: q.conditions
  order : ∀ term ∈ q.order, v.SortsBy s term.1

/-- The rows of two tables that agree on what is read. -/
def Pairs (v : View catalog root) (s : Schema ι) (t t' : Table) (r r' : Row) : Prop :=
  v.Twins s (t.scope r) (t'.scope r')

namespace Alike

variable (h : v.Alike db db')

include h

/-- Tables of one name have one definition. -/
theorem definition_eq {name : String} (ht : db.table? name = some t) (ht' : db'.table? name = some t') :
    t.toDefinition = t'.toDefinition := by
  have hd := h.definition name
  rw [ht, ht'] at hd
  exact Option.some.inj hd

theorem table?_eq_none_iff (name : String) : db.table? name = none ↔ db'.table? name = none := by
  have hd := h.definition name
  cases hn : db.table? name <;> cases hn' : db'.table? name <;> simp_all

/-- A table is in neither database or in both. -/
theorem table?_cases (name : String) :
    (db.table? name = none ∧ db'.table? name = none) ∨ ∃ t t', db.table? name = some t ∧ db'.table? name = some t' := by
  cases ht : db.table? name with
  | none => exact .inl ⟨rfl, (h.table?_eq_none_iff name).1 ht⟩
  | some t =>
    cases ht' : db'.table? name with
    | none => simp [(h.table?_eq_none_iff name).2 ht'] at ht
    | some t' => exact .inr ⟨t, t', rfl, rfl⟩

theorem covers' : db'.Covers catalog root := by
  intro s hs t' ht' name hname
  cases ht : db.table? s.table with
  | none => simp [(h.table?_eq_none_iff s.table).1 ht] at ht'
  | some t =>
    have hc := h.covers s hs t ht name hname
    rwa [Table.field?, h.definition_eq ht ht'] at hc

/-- The live rows of two tables of a schema agree, one by one. -/
theorem forall₂_live (hs : Schema.IsIn catalog root s) (ht : db.table? s.table = some t)
    (ht' : db'.table? s.table = some t') :
    List.Forall₂ (v.Pairs s t t') (t.live s) (t'.live s) :=
  (h.rows hs ht ht').imp fun r r' hr =>
    ⟨fun hn => Table.isSome_scope (h.covers s hs t ht _ hn) r,
      fun hn => Table.isSome_scope (h.covers' s hs t' ht' _ hn) r', fun hn => hr _ hn⟩

/-- The states of the tables agree. -/
theorem level : v.Level db.scopes db'.scopes where
  known _ hs _ hr _ hn := Database.isSome_of_mem_scopes h.covers hs hr hn
  known' _ hs _ hr _ hn := Database.isSome_of_mem_scopes h.covers' hs hr hn
  live {s} hs := by
    rcases h.table?_cases s.table with ⟨ht, ht'⟩ | ⟨t, t', ht, ht'⟩
    · simp [Database.scopes, ht, ht']
    · simp only [Database.scopes, ht, ht', Option.map_some, Option.getD_some, Table.scopes,
        List.filter_map, List.forall₂_map_left_iff, List.forall₂_map_right_iff]
      exact h.forall₂_live hs ht ht'

/-! ## The rows that satisfy a statement -/

/-- Rows that agree satisfy the same conditions. -/
theorem satisfies_eq {conditions : List Condition} (hc : Condition.AreWithin v s conditions) {r r' : Row}
    (hr : v.Pairs s t t' r r') :
    db.satisfies conditions (t.scope r) = db'.satisfies conditions (t'.scope r') := by
  rw [Database.satisfies, Database.satisfies, Condition.evalAll_eq h.level conditions hr hc [] []]

omit h in
/-- A row that satisfies a statement for live rows is one. -/
theorem matching_eq_filter_live (hcover : db.Covers catalog root) (hs : Schema.IsIn catalog root s)
    (ht : db.table? s.table = some t) (hlive : Condition.unmarked s <+: q.conditions) :
    db.matching q t = (t.live s).filter fun r => db.satisfies q.conditions (t.scope r) := by
  rw [Database.matching_eq_filter, Table.live, List.filter_filter]
  refine List.filter_congr fun r _ => ?_
  cases hl : s.isLive (t.scope r) with
  | true => simp
  | false =>
    have hk : ∀ name, s.hasColumn name → (t.scope r name).isSome := fun name hn =>
      Table.isSome_scope (hcover s hs t ht name hn) r
    simpa [Database.satisfies] using Condition.evalAll_of_not_isLive hk hl hlive []

/-- The rows that satisfy a statement agree, one by one. -/
theorem forall₂_matching (hs : Schema.IsIn catalog root s) (hq : v.Asks s q)
    (ht : db.table? s.table = some t) (ht' : db'.table? s.table = some t') :
    List.Forall₂ (v.Pairs s t t') (db.matching q t) (db'.matching q t') := by
  rw [matching_eq_filter_live h.covers hs ht hq.live, matching_eq_filter_live h.covers' hs ht' hq.live]
  refine List.rel_filter (fun r r' hr => ?_) (h.forall₂_live hs ht ht')
  simp only [h.satisfies_eq hq.conditions hr]

end Alike

end View

/-! ## The order in which rows are met -/

namespace Sql.Condition

variable {v : View catalog root}

mutual

theorem areWithin_split : ∀ (condition : Condition), IsWithin v s condition →
    AreWithin v s condition.split
  | .all [], _ => ⟨trivial, trivial⟩
  | .all (part :: parts), h => areWithin_splitAll (part :: parts) h
  | .any [], h => ⟨h, trivial⟩
  | .any [part], h => areWithin_split part h.1
  | .any (_ :: _ :: _), h => ⟨h, trivial⟩
  | .not _, h => ⟨h, trivial⟩
  | .isNull _, h => ⟨h, trivial⟩
  | .isNotNull _, h => ⟨h, trivial⟩
  | .compare .., h => ⟨h, trivial⟩
  | .between .., h => ⟨h, trivial⟩
  | .oneOf .., h => ⟨h, trivial⟩
  | .matching .., h => ⟨h, trivial⟩
  | .among .., h => ⟨h, trivial⟩

/-- The parts of conditions within a view are within it. -/
theorem areWithin_splitAll : ∀ (conditions : List Condition), AreWithin v s conditions →
    AreWithin v s (splitAll conditions)
  | [], _ => trivial
  | condition :: conditions, h =>
    areWithin_append.2 ⟨areWithin_split condition h.1, areWithin_splitAll conditions h.2⟩

end

mutual

theorem areWithin_alternatives : ∀ (condition : Condition), IsWithin v s condition →
    AreWithin v s condition.alternatives
  | .any [], _ => ⟨trivial, trivial⟩
  | .any (part :: parts), h => areWithin_alternativesOf (part :: parts) h
  | .all [], h => ⟨h, trivial⟩
  | .all [part], h => areWithin_alternatives part h.1
  | .all (_ :: _ :: _), h => ⟨h, trivial⟩
  | .not _, h => ⟨h, trivial⟩
  | .isNull _, h => ⟨h, trivial⟩
  | .isNotNull _, h => ⟨h, trivial⟩
  | .compare .., h => ⟨h, trivial⟩
  | .between .., h => ⟨h, trivial⟩
  | .oneOf .., h => ⟨h, trivial⟩
  | .matching .., h => ⟨h, trivial⟩
  | .among .., h => ⟨h, trivial⟩

/-- The alternatives of conditions within a view are within it. -/
theorem areWithin_alternativesOf : ∀ (conditions : List Condition), AreWithin v s conditions →
    AreWithin v s (alternativesOf conditions)
  | [], _ => trivial
  | condition :: conditions, h =>
    areWithin_append.2 ⟨areWithin_alternatives condition h.1, areWithin_alternativesOf conditions h.2⟩

end

end Sql.Condition

namespace Database.Table

variable {t t' : Table}

/-! What a table knows of its rows depends on its definition only. -/

theorem scope_eq (h : t.toDefinition = t'.toDefinition) : t.scope = t'.scope := by
  obtain ⟨d, rows, last⟩ := t
  obtain ⟨d', rows', last'⟩ := t'
  obtain rfl : d = d' := h
  rfl

theorem cellAt_eq (h : t.toDefinition = t'.toDefinition) : t.cellAt = t'.cellAt := by
  obtain ⟨d, rows, last⟩ := t
  obtain ⟨d', rows', last'⟩ := t'
  obtain rfl : d = d' := h
  rfl

theorem isAlong_eq (h : t.toDefinition = t'.toDefinition) : t.isAlong = t'.isAlong := by
  funext columns r other
  induction columns with
  | nil => rfl
  | cons column columns ih => rw [isAlong, isAlong, cellAt_eq h, ih]

theorem shape_eq (h : t.toDefinition = t'.toDefinition) : t.shape = t'.shape := by
  obtain ⟨d, rows, last⟩ := t
  obtain ⟨d', rows', last'⟩ := t'
  obtain rfl : d = d' := h
  rfl

theorem requireName_eq (h : t.toDefinition = t'.toDefinition) : t.requireName = t'.requireName := by
  obtain ⟨d, rows, last⟩ := t
  obtain ⟨d', rows', last'⟩ := t'
  obtain rfl : d = d' := h
  rfl

end Database.Table

namespace Database.Asking

variable {v : View catalog root} {a a' : Asking}

/-- Two statements that ask the same of tables whose definitions are the same, in states that agree. -/
structure Agree (v : View catalog root) (a a' : Asking) : Prop where
  definition : a.t.toDefinition = a'.t.toDefinition
  level : v.Level a.rows a'.rows
  keyAffinity? : a.keyAffinity? = a'.keyAffinity?
  columns : a.columns = a'.columns
  terms : a.terms = a'.terms
  limit : a.limit = a'.limit

/-- The path does not depend on rows. -/
theorem Agree.question_eq (h : Agree v a a') : a.question = a'.question := by
  obtain ⟨⟨d, rows, last⟩, others, affinity, columns, terms, limit⟩ := a
  obtain ⟨⟨d', rows', last'⟩, others', affinity', columns', terms', limit'⟩ := a'
  obtain ⟨rfl, -, rfl, rfl, rfl, rfl⟩ := h
  rfl

theorem Agree.accompanies_eq (h : Agree v a a') : a.accompanies = a'.accompanies := by
  obtain ⟨⟨d, rows, last⟩, others, affinity, columns, terms, limit⟩ := a
  obtain ⟨⟨d', rows', last'⟩, others', affinity', columns', terms', limit'⟩ := a'
  obtain ⟨rfl, -, rfl, rfl, rfl, rfl⟩ := h
  rfl

/-- Rows are divided the same way by a condition within the view. -/
theorem Agree.divide_eq (h : Agree v a a') {condition : Condition}
    (hc : Condition.IsWithin v s condition) {rows : List Row}
    (hr : ∀ r ∈ rows, v.Pairs s a.t a'.t r r) : a.divide condition rows = a'.divide condition rows := by
  simp only [divide, List.partition_eq_filter_filter, Plan.evalAll_ofConditions]
  have heq : ∀ r ∈ rows, Condition.evalAll a.rows [a.t.scope r] [condition] =
      Condition.evalAll a'.rows [a'.t.scope r] [condition] := fun r hm =>
    Condition.evalAll_eq h.level [condition] (hr r hm) ⟨hc, trivial⟩ [] []
  congr 1
  · exact List.filter_congr fun r hm => by rw [heq r hm]
  · exact List.filter_congr fun r hm => by simp only [Function.comp, heq r hm]

/-- Rows come alternative by alternative in the same order, if those of each alternative do. -/
theorem Agree.inTurn_eq (h : Agree v a a') {arrange arrange' : Condition → List Row → List Row} :
    ∀ (alternatives : List Condition) (rows : List Row), Condition.AreWithin v s alternatives →
      (∀ r ∈ rows, v.Pairs s a.t a'.t r r) →
      (∀ c ∈ alternatives, ∀ rs : List Row, (∀ r ∈ rs, r ∈ rows) → arrange c rs = arrange' c rs) →
      a.inTurn arrange alternatives rows = a'.inTurn arrange' alternatives rows
  | [], _, _, _, _ => rfl
  | alternative :: alternatives, rows, hc, hr, heq => by
    rw [inTurn, inTurn, h.divide_eq hc.1 hr]
    have hsub : (∀ r ∈ (a'.divide alternative rows).1, r ∈ rows) ∧
        ∀ r ∈ (a'.divide alternative rows).2, r ∈ rows := by
      simp only [divide, List.partition_eq_filter_filter]
      exact ⟨fun r hm => (List.mem_filter.1 hm).1, fun r hm => (List.mem_filter.1 hm).1⟩
    obtain ⟨hhere, hothers⟩ := hsub
    have htail := h.inTurn_eq alternatives (a'.divide alternative rows).2 hc.2
      (fun r hm => hr r (hothers r hm)) fun c hm rs hrs =>
        heq c (List.mem_cons_of_mem _ hm) rs fun r hr => hothers r (hrs r hr)
    simp only [heq alternative List.mem_cons_self _ hhere, htail]

/-- Rows that satisfy conditions within the view are met in the same order. -/
theorem Agree.arrangeWithin_eq : ∀ (n : Nat) {a a' : Asking} (_ : Agree v a a')
    (conditions : List Condition) (rows : List Row), Condition.AreWithin v s conditions →
    (∀ r ∈ rows, v.Pairs s a.t a'.t r r) →
    arrangeWithin n a conditions rows = arrangeWithin n a' conditions rows
  | 0, _, _, _, _, _, _, _ => rfl
  | n + 1, a, a', h, conditions, rows, hc, hr => by
    simp only [arrangeWithin, h.question_eq, Table.shape_eq h.definition, Table.isAlong_eq h.definition,
      h.accompanies_eq]
    have hparts := Condition.areWithin_splitAll conditions hc
    congr 1
    split
    · rfl
    · rfl
    · split
      · rfl
      · next choice hchoice =>
        have hmem := Condition.areWithin_iff.1 hparts choice (List.mem_of_getElem? hchoice)
        have hinner : Agree v { a with terms := [], limit := none } { a' with terms := [], limit := none } :=
          { h with terms := rfl, limit := rfl }
        refine h.inTurn_eq _ rows (Condition.areWithin_alternatives choice hmem) hr fun c hm rs hrs => ?_
        refine hinner.arrangeWithin_eq n _ rs (Condition.areWithin_append.2 ⟨?_, ?_⟩) fun r hm => hr r (hrs r hm)
        · exact Condition.areWithin_split c
            (Condition.areWithin_iff.1 (Condition.areWithin_alternatives choice hmem) c hm)
        · refine Condition.areWithin_iff.2 fun d hd => ?_
          exact Condition.areWithin_iff.1 hparts d
            (List.mem_of_mem_eraseIdx (List.mem_filter.1 hd).1)

end Database.Asking

namespace View.Alike

variable {v : View catalog root} {db db' : Database} {t t' : Table} {q : Select} {columns : List String}
variable (h : v.Alike db db')

include h

/-- A row agrees with itself. -/
theorem pairs_self (hs : Schema.IsIn catalog root s) (ht : db.table? s.table = some t)
    (ht' : db'.table? s.table = some t') (r : Row) : v.Pairs s t t' r r where
  known hn := Table.isSome_scope (h.covers s hs t ht _ hn) r
  known' hn := Table.isSome_scope (h.covers' s hs t' ht' _ hn) r
  agree _ := by rw [Table.scope_eq (h.definition_eq ht ht')]

/-- What is asked of the two tables is the same. -/
theorem agree_asking (ht : db.table? s.table = some t) (ht' : db'.table? s.table = some t') :
    Database.Asking.Agree v (db.asking q columns t) (db'.asking q columns t') where
  definition := h.definition_eq ht ht'
  level := h.level
  keyAffinity? := by
    funext table key
    show ((db.table? table).bind (·.column? key)).map _ = ((db'.table? table).bind (·.column? key)).map _
    rcases h.table?_cases table with ⟨hn, hn'⟩ | ⟨⟨d, rows, last⟩, ⟨d', rows', last'⟩, hn, hn'⟩
    · rw [hn, hn']
    · obtain rfl : d = d' := h.definition_eq hn hn'
      rw [hn, hn']
      rfl
  columns := rfl
  terms := rfl
  limit := rfl

/-- The rows that are met agree, one by one. -/
theorem forall₂_met (hs : Schema.IsIn catalog root s) (hq : v.Asks s q)
    (ht : db.table? s.table = some t) (ht' : db'.table? s.table = some t') :
    List.Forall₂ (v.Pairs s t t') (db.met q columns t) (db'.met q columns t') := by
  rw [Database.met, Database.met, ← h.visit]
  cases hv : db.visit with
  | byKey => exact h.forall₂_matching hs hq ht ht'
  | planned =>
    have hself := h.pairs_self hs ht ht'
    have hmatching : db.matching q t = db'.matching q t' := by
      rw [matching_eq_filter_live h.covers hs ht hq.live,
        matching_eq_filter_live h.covers' hs ht' hq.live, h.planned hv hs ht ht']
      exact List.filter_congr fun r _ => h.satisfies_eq hq.conditions (hself r)
    rw [Database.Asking.arrange, Database.Asking.arrange, hmatching,
      (h.agree_asking ht ht').arrangeWithin_eq _ _ _ hq.conditions fun r _ => hself r]
    exact List.forall₂_same.2 fun r _ => hself r

/-! ## The order of the answer -/

omit h in
/-- The first members with a property agree if all members do. -/
theorem rel_find? {α β : Type} {R : α → β → Prop} {p : α → Bool} {p' : β → Bool}
    (hp : ∀ a b, R a b → p a = p' b) {xs : List α} {ys : List β} (hxy : List.Forall₂ R xs ys) :
    Option.Rel R (xs.find? p) (ys.find? p') := by
  induction hxy with
  | nil => exact .none
  | cons hab _ ih =>
    rw [List.find?_cons, List.find?_cons, hp _ _ hab]
    split
    · exact .some hab
    · exact ih

omit h in
/-- A row of another table is looked for among the live ones. -/
theorem sortCell_related (db : Database) (row : Scope) (number : Nat) (target : Schema ι)
    (key column localKey : String) :
    db.sortCell row (.related number target.table key column localKey target.deletionMark?) =
      ((((db.scopes target.table).filter target.isLive).find? fun other =>
        ((Scope.resolve [other] key).equals (Scope.resolve [row] localKey)).holds).map
          (Database.cellOf · column)).getD .null := by
  have hp : ∀ other, (((Scope.resolve [other] key).equals (Scope.resolve [row] localKey)).holds &&
      target.deletionMark?.all fun mark => (Database.cellOf other mark).isNull) =
      decide (target.isLive other ∧
        ((Scope.resolve [other] key).equals (Scope.resolve [row] localKey)).holds) := by
    intro other
    rw [Bool.and_comm, Bool.decide_and, Bool.decide_eq_true, Bool.decide_eq_true]
    rfl
  rw [Database.sortCell, List.find?_filter, ← funext hp]
  cases List.find? _ _ <;> rfl

/-- Rows that agree are sorted by the same cells: a row with a deletion mark is not found. -/
theorem sortCell_eq {term : SortTerm} (hterm : v.SortsBy s term) {r r' : Row}
    (hr : v.Pairs s t t' r r') :
    db.sortCell (t.scope r) term = db'.sortCell (t'.scope r') term := by
  cases term with
  | column name => exact congrArg Operand.cell (hr.resolve_eq hterm [] [])
  | related number table key column localKey mark =>
    obtain ⟨hlocal, target, htarget, rfl, hkey, hcolumn, rfl⟩ := hterm
    rw [sortCell_related, sortCell_related]
    have hkeys : ∀ o o', v.Twins target o o' →
        ((Scope.resolve [o] key).equals (Scope.resolve [t.scope r] localKey)).holds =
          ((Scope.resolve [o'] key).equals (Scope.resolve [t'.scope r'] localKey)).holds := by
      intro o o' ho
      rw [ho.resolve_eq hkey [] [], hr.resolve_eq hlocal [] []]
    have hrel := rel_find? hkeys (h.level.live htarget)
    revert hrel
    generalize List.find? _ _ = found, List.find? _ _ = found'
    intro hrel
    cases hrel with
    | none => rfl
    | some ho => exact congrArg Operand.cell (ho.resolve_eq hcolumn [] [])

omit h in
/-- Lists that agree, one by one, still do so when both are sorted the same way. -/
theorem forall₂_mergeSort {α β : Type} {R : α → β → Prop} {le : α → α → Bool} {le' : β → β → Bool}
    (hle : ∀ a b a' b', R a a' → R b b' → le a b = le' a' b') {xs : List α} {ys : List β}
    (hxy : List.Forall₂ R xs ys) : List.Forall₂ R (xs.mergeSort le) (ys.mergeSort le') := by
  obtain ⟨hlength, hzip⟩ := List.forall₂_iff_zip.1 hxy
  have hfst : (xs.zip ys).map Prod.fst = xs := List.map_fst_zip (Nat.le_of_eq hlength)
  have hsnd : (xs.zip ys).map Prod.snd = ys := List.map_snd_zip (Nat.le_of_eq hlength.symm)
  -- Both are sorted by sorting the pairs.
  let both := (xs.zip ys).mergeSort fun a b => le a.1 b.1
  have hx : both.map Prod.fst = xs.mergeSort le := by
    rw [List.map_mergeSort (s := le) fun _ _ _ _ => rfl, hfst]
  have hy : both.map Prod.snd = ys.mergeSort le' := by
    rw [List.map_mergeSort (s := le') fun a ha b hb => hle _ _ _ _ (hzip ha) (hzip hb), hsnd]
  rw [← hx, ← hy, List.forall₂_map_left_iff, List.forall₂_map_right_iff, List.forall₂_same]
  intro z hz
  exact hzip (List.mem_mergeSort.1 hz)

/-- Rows that agree are brought into the same order. -/
theorem forall₂_sorted (ht : db.table? s.table = some t) (ht' : db'.table? s.table = some t')
    {order : List (SortTerm × Direction)} (horder : ∀ term ∈ order, v.SortsBy s term.1)
    {rows rows' : List Row} (hr : List.Forall₂ (v.Pairs s t t') rows rows') :
    List.Forall₂ (v.Pairs s t t') (db.sorted t order rows) (db'.sorted t' order rows') := by
  rw [Database.sorted, Database.sorted]
  split
  · exact hr
  · have hways : ∀ term, Database.sortCollation t term = Database.sortCollation t' term := by
      intro term
      cases term with
      | column name => rw [Database.sortCollation, Database.sortCollation, Table.field?, Table.field?,
          h.definition_eq ht ht']
      | related => rfl
    have hcells : ∀ r r', v.Pairs s t t' r r' →
        (order.map fun term => db.sortCell (t.scope r) term.1) =
          order.map fun term => db'.sortCell (t'.scope r') term.1 := fun r r' hr =>
      List.map_congr_left fun term hterm => h.sortCell_eq (horder term hterm) hr
    simp only [hways, List.forall₂_map_left_iff, List.forall₂_map_right_iff]
    refine (forall₂_mergeSort (R := fun a b => a.1 = b.1 ∧ v.Pairs s t t' a.2 b.2)
      (fun a b a' b' ha hb => by rw [ha.1, hb.1]) ?_).imp fun a b hab => hab.2
    simp only [List.forall₂_map_left_iff, List.forall₂_map_right_iff]
    exact hr.imp fun r r' hr => ⟨hcells r r' hr, hr⟩

omit h in
theorem forall₂_stretch {α β : Type} {R : α → β → Prop} (limit offset : Option Int64) {xs : List α}
    {ys : List β} (hxy : List.Forall₂ R xs ys) :
    List.Forall₂ R (Database.stretch limit offset xs) (Database.stretch limit offset ys) := by
  have hdrop := List.forall₂_drop (offset.getD 0).toInt.toNat hxy
  cases limit with
  | none => exact hdrop
  | some n =>
    simp only [Database.stretch]
    split
    · exact hdrop
    · exact List.forall₂_take _ hdrop

/-- The rows that a statement gives agree, one by one. -/
theorem forall₂_chosen (hs : Schema.IsIn catalog root s) (hq : v.Asks s q)
    (ht : db.table? s.table = some t) (ht' : db'.table? s.table = some t') :
    List.Forall₂ (v.Pairs s t t') (db.chosen q columns t) (db'.chosen q columns t') :=
  forall₂_stretch q.limit q.offset (h.forall₂_sorted ht ht' hq.order (h.forall₂_met hs hq ht ht'))

/-! ## Answers -/

omit h in
/-- Rows that agree have the same cells in columns that are read. -/
theorem returned_eq {r r' : Row} (hr : v.Pairs s t t' r r') (hc : ∀ name ∈ columns, v.sees s name) :
    t.returned r columns = t'.returned r' columns :=
  List.map_congr_left fun name hn => congrArg Operand.cell (hr.resolve_eq (hc name hn) [] [])

/-- The same tables are missing. -/
theorem requireTables_eq (conditions : List Condition) :
    db.requireTables conditions = db'.requireTables conditions := by
  have htable : ∀ name, ((db.table name).map fun _ => ()) = (db'.table name).map fun _ => () := by
    intro name
    have hd := h.definition name
    cases hn : db.table? name <;> cases hn' : db'.table? name <;>
      simp_all [Database.table, Except.map]
  rw [Database.requireTables, Database.requireTables, funext htable]

/-- The same names are missing in sort terms. -/
theorem requireTerm_eq (hd : t.toDefinition = t'.toDefinition) (term : SortTerm) :
    db.requireTerm t term = db'.requireTerm t' term := by
  cases term with
  | column name => simp only [Database.requireTerm, Table.requireName_eq hd]
  | related number table key column localKey mark =>
    simp only [Database.requireTerm, Table.requireName_eq hd, Database.table]
    rcases h.table?_cases table with ⟨hn, hn'⟩ | ⟨u, u', hn, hn'⟩
    · rw [hn, hn']
    · simp only [hn, hn', bind, Except.bind, Table.requireName_eq (h.definition_eq hn hn')]

/-- A statement gives the same cells in columns that are read. -/
theorem select_eq (hs : Schema.IsIn catalog root s) (hq : v.Asks s q)
    (hc : ∀ name ∈ columns, v.sees s name) : db.select q columns = db'.select q columns := by
  simp only [Database.select, Database.table, hq.table]
  rcases h.table?_cases s.table with ⟨ht, ht'⟩ | ⟨t, t', ht, ht'⟩
  · simp only [ht, ht', bind, Except.bind]
  · have hd := h.definition_eq ht ht'
    have hrows : (db.chosen q columns t).map (t.returned · columns) =
        (db'.chosen q columns t').map (t'.returned · columns) := by
      rw [← List.forall₂_eq_eq_eq, List.forall₂_map_left_iff, List.forall₂_map_right_iff]
      exact (h.forall₂_chosen hs hq ht ht').imp fun r r' hr => returned_eq hr hc
    simp only [ht, ht', bind, Except.bind, Table.requireName_eq hd, h.requireTables_eq, h.requireTerm_eq hd, hrows]

/-- A statement counts the same number of rows. -/
theorem count_eq (hs : Schema.IsIn catalog root s) (hq : v.Asks s q) : db.count q = db'.count q := by
  simp only [Database.count, Database.table, hq.table]
  rcases h.table?_cases s.table with ⟨ht, ht'⟩ | ⟨t, t', ht, ht'⟩
  · simp only [ht, ht', bind, Except.bind]
  · simp only [ht, ht', bind, Except.bind, h.requireTables_eq, (h.forall₂_matching hs hq ht ht').length_eq]

end View.Alike

end RecordQuery
