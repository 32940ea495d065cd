import RecordQuery.Database.Sync
import RecordQuery.Proofs.Writing.Confinement
/-!
# Tables that were made

The table that is made for a schema follows it column by column, if its names can be written between quotes and
its defaults are single values (`Schema.IsPlain`): it has a field of the same type for each column, the same key,
and no rule that refers to another table or puts a row in the place of another (`Database.Table.IsMadeFor`).
`Database.sync` makes such a table for each of a list of schemas (`Database.isMade_sync`).
-/

namespace RecordQuery

open Outcome Sql
open Database (Row Table)

variable {ι : Type} {s : Schema ι}

/-- A default that is a single value. -/
def Column.HasPlainStandard (c : Column) : Prop :=
  ∀ text ∈ c.standard, Draft.isPlainText text.toList ∧
    (Draft.takeStandard? (Lexeme.read text)).any fun taken => taken.2.isEmpty

/-- A schema whose table can be made as it says. -/
structure Schema.IsPlain (s : Schema ι) : Prop where
  isOwn : Text.Ascii.same s.table Database.sequenceName = false
  table : Draft.isPlainName s.table
  columns : s.columns ≠ []
  columnNames : s.columnNames.all Draft.isPlainName
  standards : ∀ c ∈ s.columns, c.HasPlainStandard

namespace Sql.Draft

/-- A column as it is written that says what a column of a schema is. -/
structure Column.Follows (d : Draft.Column) (c : RecordQuery.Column) : Prop where
  name : d.field.name = c.name
  affinity : d.field.affinity = c.kind.affinity
  onNull : d.field.onNull = .abort
  standard : c.standard = none → d.field.standard = .null
  isKey : d.isSound → d.field.isKey = c.isKey
  uniques : d.isSound → d.uniques = []
  references : d.references = []
  onTaken : d.onTaken = .abort
  keys : d.keys = if c.isKey then 1 else 0
  isAutomatic : d.isAutomatic = c.isKey

theorem affinity_typeName (kind : Kind) :
    (ColumnType.ofName kind.affinity.typeName).affinity = kind.affinity ∧
      kind.affinity.typeName.isEmpty = false := by
  cases kind <;> decide

theorem follows_ofPlainColumn (c : RecordQuery.Column) : (ofPlainColumn c).Follows c := by
  obtain ⟨haffinity, hsome⟩ := affinity_typeName c.kind
  rw [ofPlainColumn]
  split
  · next hkey =>
    cases hinteger : Text.Ascii.same c.kind.affinity.typeName "INTEGER" with
    | true =>
      constructor <;> simp [Column.withKey, column, hinteger, hkey, haffinity, hsome]
    | false =>
      constructor <;> simp [Column.withKey, column, hinteger, hkey, haffinity, hsome]
  · next hkey =>
    constructor <;> simp [column, hkey, haffinity, hsome]

theorem Column.Follows.withStandard {d : Draft.Column} {c : RecordQuery.Column} (h : d.Follows c)
    (hc : c.standard ≠ none) (e : Expression) : (d.withStandard e).Follows c where
  name := h.name
  affinity := h.affinity
  onNull := h.onNull
  standard hnone := absurd hnone hc
  isKey hs := h.isKey (Bool.and_eq_true_iff.1 hs).1
  uniques hs := h.uniques (Bool.and_eq_true_iff.1 hs).1
  references := h.references
  onTaken := h.onTaken
  keys := h.keys
  isAutomatic := h.isAutomatic

theorem exists_ofColumn? {c : RecordQuery.Column} (h : c.HasPlainStandard) :
    ∃ d, ofColumn? c = some d ∧ d.Follows c := by
  rw [ofColumn?]
  cases hc : c.standard with
  | none => exact ⟨_, rfl, follows_ofPlainColumn c⟩
  | some text =>
    obtain ⟨htext, he⟩ := h text hc
    obtain ⟨⟨e, rest⟩, he, hrest⟩ := Option.any_eq_true _ _ |>.1 he
    obtain rfl : rest = [] := List.isEmpty_iff.1 hrest
    dsimp only
    rw [if_neg (by simp [htext]), he]
    exact ⟨_, rfl, (follows_ofPlainColumn c).withStandard (by simp [hc]) e⟩

/-- Every column of a plain schema is written within its place. -/
theorem exists_columnsOf? (h : s.IsPlain) :
    ∃ columns, columnsOf? s = some columns ∧ List.Forall₂ (fun c d => d.Follows c) s.columns columns := by
  have hmap : ∀ cs : List RecordQuery.Column, (∀ c ∈ cs, c.HasPlainStandard) →
      ∃ columns, cs.mapM ofColumn? = some columns ∧ List.Forall₂ (fun c d => d.Follows c) cs columns := by
    intro cs
    induction cs with
    | nil => exact fun _ => ⟨[], rfl, .nil⟩
    | cons c cs ih =>
      intro hcs
      obtain ⟨hc, hrest⟩ := List.forall_mem_cons.1 hcs
      obtain ⟨d, hd, hfollows⟩ := exists_ofColumn? hc
      obtain ⟨ds, hds, hall⟩ := ih hrest
      exact ⟨d :: ds, by simp [List.mapM_cons, hd, hds], .cons hfollows hall⟩
  obtain ⟨columns, hsome, hall⟩ := hmap s.columns h.standards
  refine ⟨columns, ?_, hall⟩
  rw [columnsOf?, if_neg (by simp [h.table, h.columns, h.columnNames]), hsome]

/-! ## Definitions -/

variable {columns : List Draft.Column} {definition : Definition}

theorem pairwise_of_distinct {names : List String} (h : distinct names) :
    names.Pairwise fun name other => ¬ Text.Ascii.same name other := by
  induction names with
  | nil => exact .nil
  | cons name names ih =>
    rw [distinct, Bool.and_eq_true, Bool.not_eq_true', List.any_eq_false] at h
    exact .cons h.1 (ih h.2)

/-- What is in the definition of a table whose draft makes sense. -/
theorem finish?_eq_some {d : Draft} (h : d.finish? = some definition) :
    d.columns.all Column.isSound ∧ distinct (definition.fields.map Field.name) ∧
      d.columns.foldr (fun c count => c.keys + count) d.keys ≤ 1 ∧
      definition.name = d.name ∧ definition.fields = d.columns.map Column.field ∧
      d.uniques? definition.fields = some definition.uniques ∧
      (d.columns.flatMap Column.references ++ d.references).mapM (reference? definition.fields) =
        some definition.references ∧
      definition.onTaken = ((d.columns.find? fun c => c.onTaken != .abort).map Column.onTaken).getD d.onTaken ∧
      definition.isAutomatic = (d.isAutomatic || d.columns.any Column.isAutomatic) := by
  rw [finish?] at h
  simp only [Option.bind_eq_bind, Option.bind_eq_some_iff] at h
  obtain ⟨uniques, huniques, references, hreferences, h⟩ := h
  split at h
  · next hsound =>
    obtain rfl := Option.some.inj h
    simp only [Bool.and_eq_true, decide_eq_true_eq] at hsound
    exact ⟨hsound.1.1.1.1.1.2, hsound.1.1.2, hsound.1.2, rfl, rfl, huniques, hreferences, rfl, rfl⟩
  · cases h

/-- The number of times that columns are declared to be the primary key. -/
theorem foldr_keys {cs : List RecordQuery.Column} (h : List.Forall₂ (fun c d => d.Follows c) cs columns) :
    columns.foldr (fun d count => d.keys + count) 0 = (cs.filter RecordQuery.Column.isKey).length := by
  induction h with
  | nil => rfl
  | cons hfollows _ ih =>
    rw [List.foldr_cons, ih, hfollows.keys, List.filter_cons]
    split <;> simp [Nat.add_comm]

end Sql.Draft

/-- What has a counterpart among the members of a list. -/
theorem exists_of_forall₂ {α β : Type} {R : α → β → Prop} {xs : List α} {ys : List β} (h : List.Forall₂ R xs ys)
    {y : β} (hy : y ∈ ys) : ∃ x ∈ xs, R x y := by
  induction h with
  | nil => cases hy
  | cons hxy _ ih =>
    rcases List.mem_cons.1 hy with rfl | hy
    · exact ⟨_, List.mem_cons_self, hxy⟩
    · obtain ⟨x, hx, hR⟩ := ih hy
      exact ⟨x, List.mem_cons_of_mem _ hx, hR⟩

/-! ## Tables -/

namespace Database

variable {columns : List Draft.Column} {definition : Definition} {t : Table}

/-- A table has no default for a column that has none. -/
def Table.AddsNoStandard (t : Table) (s : Schema ι) : Prop :=
  ∀ c ∈ s.columns, c.standard = none → ∀ f, t.field? c.name = some f → f.standard = .null

/-- A table that was made for a schema, and is empty. -/
structure Table.IsMadeFor (t : Table) (s : Schema ι) : Prop where
  name : t.name = s.table
  isPlain : t.IsPlain
  fits : t.Fits s
  addsNoStandard : t.AddsNoStandard s
  isAutomatic : ∀ c ∈ s.columns, c.isKey → t.isAutomatic
  rows : t.rows = []
  apart : s.columnNames.Pairwise fun name other => ¬ Text.Ascii.same name other
  only : ∀ c ∈ s.columns, ∀ other ∈ s.columns, c.isKey → other.isKey → c = other

/-- The rules of a table whose columns follow those of a schema refer to no other table and put nothing in the place
of another. -/
theorem Table.isPlain_of_finish? {table : String}
    (hfollows : ∀ d ∈ columns, d.isSound ∧ ∃ c ∈ s.columns, d.Follows c)
    (h : Draft.finish? { name := table, columns } = some definition) :
    Table.IsPlain { toDefinition := definition } := by
  obtain ⟨-, -, -, -, hfields, huniques, hreferences, honTaken, -⟩ := Draft.finish?_eq_some h
  constructor
  · have hnone : columns.flatMap Draft.Column.references = [] :=
      List.flatMap_eq_nil_iff.2 fun d hd => by
        obtain ⟨-, c, -, hfollow⟩ := hfollows d hd
        exact hfollow.references
    rw [hnone] at hreferences
    exact (Option.some.inj hreferences).symm
  · have hnone : (columns.find? fun c => c.onTaken != .abort) = none :=
      List.find?_eq_none.2 fun d hd => by
        obtain ⟨-, c, -, hfollow⟩ := hfollows d hd
        simp [hfollow.onTaken]
    rw [hnone] at honTaken
    intro heq
    rw [honTaken] at heq
    cases heq
  · have hnone : columns.flatMap (fun c => c.uniques.map fun r => ([(c.field.name, (none : Option Collation))], r)) =
        [] :=
      List.flatMap_eq_nil_iff.2 fun d hd => by
        obtain ⟨hd, c, -, hfollow⟩ := hfollows d hd
        rw [hfollow.uniques hd, List.map_nil]
    rw [Draft.uniques?, hnone] at huniques
    have hnil : [] = definition.uniques := Option.some.inj huniques
    intro u hu
    rw [← hnil] at hu
    cases hu
  · intro f hf
    rw [hfields] at hf
    obtain ⟨d, hd, rfl⟩ := List.mem_map.1 hf
    obtain ⟨-, c, -, hfollow⟩ := hfollows d hd
    simp [hfollow.onNull]

/-- A table that can be defined has one key column at most. -/
theorem eq_of_isKey_of_finish? {table : String} (hcolumns : List.Forall₂ (fun c d => d.Follows c) s.columns columns)
    (h : Draft.finish? { name := table, columns } = some definition) {c other : RecordQuery.Column}
    (hc : c ∈ s.columns) (hother : other ∈ s.columns) (hkey : c.isKey) (hotherkey : other.isKey) : c = other := by
  obtain ⟨-, -, hkeys, -⟩ := Draft.finish?_eq_some h
  have hfew : (s.columns.filter RecordQuery.Column.isKey).length ≤ 1 :=
    Draft.foldr_keys hcolumns ▸ hkeys
  have hc := List.mem_filter.2 ⟨hc, hkey⟩
  have hother := List.mem_filter.2 ⟨hother, hotherkey⟩
  generalize s.columns.filter RecordQuery.Column.isKey = found at hfew hc hother
  match found, hfew with
  | [only], _ => exact (List.mem_singleton.1 hc).trans (List.mem_singleton.1 hother).symm

/-- The definition that a plain schema comes to is one of its table. -/
theorem Table.isMadeFor_of_finish? (hcolumns : List.Forall₂ (fun c d => d.Follows c) s.columns columns)
    (h : Draft.finish? { name := s.table, columns } = some definition) :
    Table.IsMadeFor { toDefinition := definition } s := by
  obtain ⟨hsound, hdistinct, -, hname, hfields, -, -, -, hautomatic⟩ := Draft.finish?_eq_some h
  have hfollows : ∀ d ∈ columns, d.isSound ∧ ∃ c ∈ s.columns, d.Follows c := fun d hd =>
    ⟨List.all_eq_true.1 hsound d hd, exists_of_forall₂ hcolumns hd⟩
  have hwritten : ∀ c ∈ s.columns, ∃ d ∈ columns, d.Follows c := fun c hc =>
    exists_of_forall₂ (R := fun (d : Draft.Column) c => d.Follows c) hcolumns.flip hc
  have hnames : definition.fields.map Field.name = s.columnNames := by
    rw [← List.forall₂_eq_eq_eq, hfields, Schema.columnNames, List.forall₂_map_left_iff,
      List.forall₂_map_left_iff, List.forall₂_map_right_iff]
    exact hcolumns.flip.imp fun d c hfollow => hfollow.name
  have hapart := Draft.pairwise_of_distinct hdistinct
  have hfield : ∀ c ∈ s.columns, ∃ d ∈ columns, d.Follows c ∧ Table.field? { toDefinition := definition } c.name =
      some d.field := by
    intro c hc
    obtain ⟨d, hd, hfollow⟩ := hwritten c hc
    exact ⟨d, hd, hfollow, hfollow.name ▸ Table.field?_of_mem hapart (hfields ▸ List.mem_map_of_mem hd)⟩
  exact {
    name := hname
    isPlain := Table.isPlain_of_finish? hfollows h
    fits := by
      intro name c hc
      obtain ⟨hmem, rfl⟩ := Schema.column?_eq_some hc
      obtain ⟨d, hd, hfollow, hfound⟩ := hfield c hmem
      exact ⟨d.field, hfound, hfollow.affinity, hfollow.isKey (hfollows d hd).1⟩
    addsNoStandard := by
      intro c hc hnone f hf
      obtain ⟨d, -, hfollow, hfound⟩ := hfield c hc
      obtain rfl := Option.some.inj (hfound.symm.trans hf)
      exact hfollow.standard hnone
    isAutomatic := by
      intro c hc hkey
      obtain ⟨d, hd, hfollow⟩ := hwritten c hc
      rw [hautomatic, Bool.or_eq_true, List.any_eq_true]
      exact .inr ⟨d, hd, hfollow.isAutomatic.trans hkey⟩
    rows := rfl
    apart := hnames ▸ hapart
    only := fun c hc other hother => eq_of_isKey_of_finish? hcolumns h hc hother }

/-- A schema for which a table was made is keyed if its key is a column of integers that is shown and not
maintained. -/
theorem Table.IsMadeFor.isKeyed {catalog : Catalog ι} (h : t.IsMadeFor s) (hs : s.flaw? catalog = none)
    (hindex : s.IsIndex s.key) (hshown : s.isHidden s.key = false)
    (hfree : ∀ c, s.column? s.key = some c → c.role = none) : s.IsKeyed where
  index := hindex
  isShown := hshown
  isFree := hfree
  only c hc hkey := by
    obtain ⟨keyColumn, hkeyColumn, hiskey⟩ := Schema.key_of_flaw?_eq_none hs
    obtain ⟨hmem, hname⟩ := Schema.column?_eq_some hkeyColumn
    rw [h.only c hc keyColumn hmem hkey hiskey, hname]
  apart := h.apart

/-! ## Making tables -/

/-- The tables are those that were made for schemas, one for each. -/
structure IsMade (db : Database) (schemas : List (Schema ι)) : Prop where
  isApart : db.IsApart
  made : ∀ t ∈ db.tables, ∃ s ∈ schemas, t.IsMadeFor s
  all : ∀ s ∈ schemas, ∃ t ∈ db.tables, t.IsMadeFor s

variable {db : Database} {report : Synced} {schemas done rest : List (Schema ι)}

/-- Making the table of a plain schema is one statement. -/
theorem create_eq_define (h : s.IsPlain) (db : Database) :
    ∃ columns, List.Forall₂ (fun c d => d.Follows c) s.columns columns ∧
      db.create s = match db.define { name := s.table, columns } with
        | .ok db => (db, none)
        | .error fault => (db, some fault) := by
  obtain ⟨columns, hsome, hall⟩ := Draft.exists_columnsOf? h
  refine ⟨columns, hall, ?_⟩
  rw [create, Draft.ofSchema, hsome]
  simp only [defineAll]
  cases db.define { name := s.table, columns } <;> rfl

/-- A table that is made is the last one, and no other has its name. -/
theorem define_eq_ok {d : Draft} {after : Database} (h : db.define d = .ok after) :
    ((db.table? d.name).isSome ∧ after = db) ∨
      db.table? d.name = none ∧ ∃ definition, d.finish? = some definition ∧
        after.tables = db.tables ++ [{ toDefinition := definition }] := by
  rw [define] at h
  split at h
  · cases h
  split at h
  · next hsome => exact .inl ⟨hsome, (Except.ok.inj h).symm⟩
  · next hnone =>
    split at h
    · next definition hdefinition =>
      obtain rfl := Except.ok.inj h
      exact .inr ⟨Option.not_isSome_iff_eq_none.1 hnone, definition, hdefinition, rfl⟩
    · cases h

theorem IsMade.of_mem_iff (h : db.IsMade done) (hmem : ∀ s, s ∈ rest ↔ s ∈ done) : db.IsMade rest where
  isApart := h.isApart
  made t ht := by
    obtain ⟨s, hs, hmade⟩ := h.made t ht
    exact ⟨s, (hmem s).2 hs, hmade⟩
  all s hs := h.all s ((hmem s).1 hs)

theorem IsMade.cons_of_mem (h : db.IsMade done) (hs : s ∈ done) : db.IsMade (s :: done) :=
  h.of_mem_iff fun u => by
    rw [List.mem_cons, or_iff_right_of_imp]
    rintro rfl
    exact hs

/-- A table of a name was made for the schema with a table of this name. -/
theorem IsMade.mem_of_same (h : db.IsMade done)
    (hown : ∀ other ∈ done, Text.Ascii.same other.table s.table → other = s) (ht : t ∈ db.tables)
    (hname : Text.Ascii.same t.name s.table) : s ∈ done := by
  obtain ⟨u, hu, hmade⟩ := h.made t ht
  exact hown u hu (hmade.name ▸ hname) ▸ hu

/-- A table that is added was made for a schema whose table was not there. -/
theorem IsMade.append (h : db.IsMade done) {after : Database} (hmade : t.IsMadeFor s)
    (hnone : ∀ u ∈ db.tables, Text.Ascii.same u.name s.table = false) (hafter : after.tables = db.tables ++ [t]) :
    after.IsMade (s :: done) where
  isApart := by
    rw [IsApart, hafter, List.pairwise_append]
    refine ⟨h.isApart, List.pairwise_singleton _ _, fun u hu v hv => ?_⟩
    obtain rfl := List.mem_singleton.1 hv
    rw [hmade.name]
    exact hnone u hu
  made u hu := by
    rw [hafter, List.mem_append, List.mem_singleton] at hu
    rcases hu with hu | rfl
    · obtain ⟨v, hv, hmade⟩ := h.made u hu
      exact ⟨v, List.mem_cons_of_mem s hv, hmade⟩
    · exact ⟨s, List.mem_cons_self, hmade⟩
  all u hu := by
    rw [hafter]
    rcases List.mem_cons.1 hu with rfl | hu
    · exact ⟨t, List.mem_append_right _ (List.mem_singleton_self t), hmade⟩
    · obtain ⟨v, hv, hmade⟩ := h.all u hu
      exact ⟨v, List.mem_append_left _ hv, hmade⟩

/-- Making one more table. -/
theorem IsMade.syncOne (h : db.IsMade done) (hplain : s.IsPlain)
    (hown : ∀ other ∈ done, Text.Ascii.same other.table s.table → other = s)
    (hfailures : (db.syncOne report s).2.failures = []) : (db.syncOne report s).1.IsMade (s :: done) := by
  have hfound : db.table? s.table = db.tables.find? fun t => Text.Ascii.same t.name s.table := by
    rw [table?, if_neg (by simp [hplain.isOwn])]
  rw [Database.syncOne] at hfailures ⊢
  split at hfailures
  · next hthere =>
    rw [if_pos hthere]
    refine h.cons_of_mem ?_
    have hne : s.table ≠ sequenceName := fun heq => by
      have hown := hplain.isOwn
      rw [heq, Text.Ascii.same_refl] at hown
      cases hown
    simp only [hasTable, Bool.or_eq_true, Bool.and_eq_true, List.any_eq_true, beq_iff_eq, hne, false_and,
      or_false] at hthere
    obtain ⟨t, ht, hname⟩ := hthere
    exact h.mem_of_same hown ht (hname ▸ Text.Ascii.same_refl t.name)
  · next hthere =>
    rw [if_neg hthere]
    obtain ⟨columns, hcolumns, hcreate⟩ := create_eq_define hplain db
    rw [hcreate] at hfailures ⊢
    cases hdefine : db.define { name := s.table, columns } with
    | error fault =>
      rw [hdefine] at hfailures
      exact absurd hfailures (by simp)
    | ok after =>
      rcases define_eq_ok hdefine with ⟨hsome, rfl⟩ | ⟨hnone, definition, hdefinition, htables⟩
      · obtain ⟨t, ht⟩ := Option.isSome_iff_exists.1 hsome
        rw [hfound] at ht
        exact h.cons_of_mem (h.mem_of_same hown (List.mem_of_find?_eq_some ht)
          (List.find?_some (p := fun t : Table => Text.Ascii.same t.name s.table) ht))
      · refine h.append (Table.isMadeFor_of_finish? hcolumns hdefinition) (fun u hu => ?_) htables
        rw [hfound] at hnone
        simpa using List.find?_eq_none.1 hnone u hu

/-- A failure is not forgotten. -/
theorem failures_of_syncOne (h : (db.syncOne report s).2.failures = []) : report.failures = [] := by
  rw [syncOne] at h
  split at h
  · exact h
  · split at h
    · exact h
    · exact (List.append_eq_nil_iff.1 h).1

theorem failures_of_foldl
    (h : (rest.foldl (fun (db, report) s => syncOne db report s) (db, report)).2.failures = []) :
    report.failures = [] := by
  induction rest generalizing db report with
  | nil => exact h
  | cons s rest ih => exact failures_of_syncOne (ih h)

/-- Making tables, one after the other. -/
theorem isMade_foldl (hplain : ∀ s ∈ schemas, s.IsPlain)
    (hown : ∀ s ∈ schemas, ∀ other ∈ schemas, Text.Ascii.same other.table s.table → other = s)
    (h : db.IsMade done) (hdone : done ⊆ schemas) (hrest : rest ⊆ schemas)
    (hfailures : (rest.foldl (fun (db, report) s => syncOne db report s) (db, report)).2.failures = []) :
    (rest.foldl (fun (db, report) s => syncOne db report s) (db, report)).1.IsMade (rest.reverse ++ done) := by
  induction rest generalizing db report done with
  | nil => exact h
  | cons s rest ih =>
    obtain ⟨hs, hrest⟩ := List.cons_subset.1 hrest
    have hstep := h.syncOne (hplain s hs) (fun other ho => hown s hs other (hdone ho))
      (failures_of_foldl hfailures)
    rw [List.foldl_cons, List.reverse_cons, List.append_assoc]
    exact ih hstep (List.cons_subset.2 ⟨hs, hdone⟩) hrest hfailures

/-- Making tables for schemas with tables of their own, all of which succeed. -/
theorem isMade_sync (hplain : ∀ s ∈ schemas, s.IsPlain)
    (hown : ∀ s ∈ schemas, ∀ other ∈ schemas, Text.Ascii.same other.table s.table → other = s)
    (hempty : db.tables = []) (hfailures : (db.sync schemas).2.failures = []) :
    (db.sync schemas).1.IsMade schemas := by
  have hnothing : db.IsMade ([] : List (Schema ι)) :=
    ⟨by rw [IsApart, hempty]; exact .nil, by simp [hempty], by simp⟩
  refine (isMade_foldl hplain hown hnothing (List.nil_subset _) (List.Subset.refl _) hfailures).of_mem_iff
    fun s => ?_
  rw [List.append_nil, List.mem_reverse]

/-- The table of a schema is the one that was made for it. -/
theorem IsMade.exists_table? (h : db.IsMade schemas) (hs : s ∈ schemas)
    (hname : Text.Ascii.same s.table sequenceName = false)
    (hown : ∀ other ∈ schemas, Text.Ascii.same other.table s.table → other = s) :
    ∃ t, db.table? s.table = some t ∧ t.IsMadeFor s := by
  obtain ⟨t, ht, hthere⟩ := h.all s hs
  have hsome : (db.tables.find? fun t => Text.Ascii.same t.name s.table).isSome :=
    List.find?_isSome.2 ⟨t, ht, hthere.name ▸ Text.Ascii.same_refl t.name⟩
  obtain ⟨found, hfound⟩ := Option.isSome_iff_exists.1 hsome
  obtain ⟨other, hother, hmade⟩ := h.made found (List.mem_of_find?_eq_some hfound)
  have hsame := List.find?_some (p := fun t : Table => Text.Ascii.same t.name s.table) hfound
  obtain rfl := hown other hother (hmade.name ▸ hsame)
  exact ⟨found, by rw [table?, if_neg (by simp [hname]), hfound], hmade⟩

end Database

/-! ## The shop -/

/-- The tables of the shop can be made. -/
theorem Demo.Shop.isPlain (kind : Shop) : (Shop.catalog kind).IsPlain where
  isOwn := by cases kind <;> decide
  table := by cases kind <;> decide
  columns := by cases kind <;> decide
  columnNames := by cases kind <;> decide
  standards := by
    unfold Column.HasPlainStandard
    cases kind <;> decide

end RecordQuery
