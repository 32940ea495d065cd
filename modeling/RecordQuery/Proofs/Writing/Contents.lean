import RecordQuery.Proofs.Writing.Creation
import RecordQuery.Proofs.Writing.Frame
import RecordQuery.Proofs.Writing.Turns
/-!
# What written rows hold

A new row holds a value of its record in each column, or a default (`Database.cellOf_newRow`). It is live, and so is
a live row that was changed (`Database.isLive_of_newRow`, `Database.isLive_of_changed`). Content that cannot be read
as text comes from defaults only: whatever turns are taken, a column without one has none of it
(`Turn.maintains_runAll`).
-/

namespace RecordQuery

open Outcome Sql
open Database (Row Table Confined)

variable {ι : Type} {catalog : Catalog ι} {s : Schema ι} {db : Database} {t : Table} {row changed : Row}
  {now : Instant} {name : String} {record patch : Record} {values : List (String × Param)}

/-! ## New rows -/

namespace Database

variable {said : Option Resolution} {given : List (String × Cell)} {fields : List Field} {f : Field} {key : Int64}

/-- A field of a new row gets the value that is given, or its default. -/
theorem Table.newCells_eq_cellsBy (fields : List Field) :
    Table.newCells now said given fields =
      cellsBy (fun f => ((Table.given? given f).elim (Table.standardCell now f) .ok).bind (Table.stored now said f))
        fields := by
  induction fields with
  | nil => rfl
  | cons f fields ih =>
    rw [newCells, cellsBy, ih]
    split
    · rfl
    · cases Table.given? given f with
      | some cell => rfl
      | none => cases Table.standardCell now f <;> rfl

/-- A value that is given for a column is one of its record. -/
theorem mem_of_given?_cellsOf (hkeyed : s.IsKeyed) (hvalues : record.values s = .ok values) (hname : s.hasColumn name)
    (hf : Text.Ascii.same f.name name) {cell : Cell} (h : Table.given? (cellsOf values) f = some cell) :
    name ∈ record.map Prod.fst ∧ ∃ p : Param, p.cell = cell := by
  obtain ⟨v, hv, rfl⟩ := Option.map_eq_some_iff.1 h
  have hsame : Text.Ascii.same f.name v.1 :=
    List.find?_some (p := fun v : String × Cell => Text.Ascii.same f.name v.1) hv
  obtain ⟨p, hp, hcell⟩ := mem_cellsOf (List.mem_of_find?_eq_some hv)
  obtain ⟨-, hcolumn, json, hjson, -⟩ := Record.mem_values hvalues hp
  obtain rfl : name = v.1 := by
    refine hkeyed.eq_of_same hname hcolumn ?_
    rw [Text.Ascii.same_iff] at hf hsame ⊢
    exact hf.symm.trans hsame
  exact ⟨List.mem_map_of_mem hjson, p, hcell⟩

/-- The cell of a column of a new row: the column's default, or a value if the record holds one, as the column
prefers. -/
theorem cellOf_newRow (hplain : t.IsPlain) (hfits : t.Fits s) (hkeyed : s.IsKeyed)
    (hvalues : record.values s = .ok values) (h : t.newRow now none key (cellsOf values) = .ok row)
    (hne : name ≠ s.key) (hname : s.hasColumn name) :
    (∃ f cell, t.field? name = some f ∧ Table.standardCell now f = .ok cell ∧
        cellOf (t.scope row) name = (Record.kindOf s name).affinity.store cell) ∨
      name ∈ record.map Prod.fst ∧
        ∃ p : Param, cellOf (t.scope row) name = (Record.kindOf s name).affinity.store p.cell := by
  obtain ⟨cells, hcells, h⟩ := bind_eq_ok_iff.1 h
  obtain ⟨-, -, h⟩ := bind_eq_ok_iff.1 h
  obtain rfl := Except.ok.inj h
  obtain ⟨c, hc⟩ := Option.isSome_iff_exists.1 hname
  obtain ⟨f, hf, haffinity, hkey⟩ := hfits name c hc
  obtain ⟨hmem, hcname⟩ := Schema.column?_eq_some hc
  have hnotkey : f.isKey = false := hkey.trans (Bool.eq_false_iff.2 fun hc => hne (hcname ▸ hkeyed.only c hmem hc))
  rw [Table.newCells_eq_cellsBy] at hcells
  obtain ⟨new, hlookup, hnew⟩ := Table.lookup_cellsBy hcells hf hnotkey
  obtain ⟨cell, hcell, hnew⟩ := bind_eq_ok_iff.1 hnew
  have hkind : (Record.kindOf s name).affinity = f.affinity := by
    rw [Record.kindOf, hc, Option.map_some, Option.getD_some, haffinity]
  have hstored : cellOf (t.scope ⟨key, cells⟩) name = (Record.kindOf s name).affinity.store cell := by
    rw [hkind, ← Table.eq_of_stored (hplain.onNull f (List.mem_of_find?_eq_some hf)) hnew]
    simp [cellOf, Scope.resolve, Table.scope, hf, Row.cell, hnotkey, hlookup]
  cases hgiven : Table.given? (cellsOf values) f with
  | none =>
    rw [hgiven] at hcell
    exact .inl ⟨f, cell, hf, hcell, hstored⟩
  | some value =>
    rw [hgiven] at hcell
    obtain rfl := Except.ok.inj hcell
    obtain ⟨hrecord, p, rfl⟩ := mem_of_given?_cellsOf hkeyed hvalues hname
      (List.find?_some (p := fun f : Field => Text.Ascii.same f.name name) hf) hgiven
    exact .inr ⟨hrecord, p, hstored⟩

/-- A column without a default is empty in a new row of which nothing is said. -/
theorem standardCell_of_addsNoStandard (h : t.AddsNoStandard s) {c : Column} (hc : c ∈ s.columns)
    (hnone : c.standard = none) (hf : t.field? c.name = some f) : Table.standardCell now f = .ok .null := by
  rw [Table.standardCell, h c hc hnone f hf]
  rfl

end Database

/-! ## Live rows -/

theorem Sql.Affinity.store_null (affinity : Affinity) : affinity.store .null = .null := by
  cases affinity <;> rfl

namespace Schema

/-- A row is live if a mark of deleted rows, where there is one, is empty in it. -/
theorem isLive_iff {row : Scope} :
    s.isLive row ↔ ∀ mark, s.deletionMark? = some mark → (Database.cellOf row mark).isNull := by
  rw [isLive, Option.all_eq_true]
  rfl

theorem IsKeyed.kindOf_eq (h : s.IsKeyed) {c : Column} (hc : c ∈ s.columns) : Record.kindOf s c.name = c.kind := by
  obtain ⟨found, hfound⟩ := Option.isSome_iff_exists.1 (hasColumn_of_mem hc)
  obtain ⟨hmem, hname⟩ := column?_eq_some hfound
  obtain rfl := h.eq_of_name hc hmem hname
  rw [Record.kindOf, hfound, Option.map_some, Option.getD_some]

end Schema

/-- A payload that passes the check names no column that is maintained. -/
theorem Payload.not_mem_keys_of_role {data : Record} (h : checkMembers s data = .ok ()) (hkeyed : s.IsKeyed)
    {role : Role} {c : Column} (hc : s.columnFor? role = some c) : c.name ∉ data.map Prod.fst := by
  intro hmem
  obtain ⟨m, hm, hname⟩ := List.mem_map.1 hmem
  have hcheck := forM_eq_ok_iff.1 h m hm
  obtain ⟨hcolumn, hrole⟩ := Schema.columnFor?_eq_some hc
  obtain ⟨found, hfound⟩ := Option.isSome_iff_exists.1 (Schema.hasColumn_of_mem hcolumn)
  obtain ⟨hfoundmem, hfoundname⟩ := Schema.column?_eq_some hfound
  obtain rfl := hkeyed.eq_of_name hcolumn hfoundmem hfoundname
  rw [checkMember, if_neg (by simp [hname, hkeyed.ne_of_role hc]), hname, hfound] at hcheck
  simp [hrole] at hcheck

namespace Database

variable {key : Int64}

/-- A new row is live if its record does not say when it was deleted, and nor does a default. -/
theorem isLive_of_newRow (hplain : t.IsPlain) (hfits : t.Fits s) (hkeyed : s.IsKeyed) (hnone : t.AddsNoStandard s)
    (hmark : ∀ c, s.columnFor? .deletedAt = some c → c.standard = none)
    (hrecord : ∀ mark, s.deletionMark? = some mark → mark ∉ record.map Prod.fst)
    (hvalues : record.values s = .ok values) (h : t.newRow now none key (cellsOf values) = .ok row) :
    s.isLive (t.scope row) := by
  rw [Schema.isLive_iff]
  intro mark hm
  obtain ⟨c, hc, rfl⟩ := Schema.columnFor?_of_deletionMark? hm
  rcases cellOf_newRow hplain hfits hkeyed hvalues h (hkeyed.ne_of_role hc) (Schema.hasColumn_mark hm) with
    ⟨f, cell, hf, hstandard, hcell⟩ | ⟨hmem, -⟩
  · rw [standardCell_of_addsNoStandard hnone (Schema.columnFor?_eq_some hc).1 (hmark c hc) hf] at hstandard
    obtain rfl := Except.ok.inj hstandard
    rw [hcell, Affinity.store_null]
    rfl
  · exact absurd hmem (hrecord _ hm)

/-- A live row stays live if it gets the values of its own record, patched by what says nothing of deletion. -/
theorem isLive_of_changed (hplain : t.IsPlain) (hfits : t.Fits s) (hkeyed : s.IsKeyed)
    (hlive : s.isLive (t.scope row)) (hpatch : ∀ mark, s.deletionMark? = some mark → mark ∉ patch.map Prod.fst)
    (hvalues : Record.values s ((Record.ofRow s (Projection.visible s []) (t.scope row)).merge patch) = .ok values)
    (h : Table.changedCells now none (cellsOf values).reverse row t.fields = .ok changed.cells) :
    s.isLive (t.scope changed) := by
  rw [Schema.isLive_iff] at hlive ⊢
  intro mark hm
  have hempty : cellOf (t.scope row) mark = .null := by
    have hnull := hlive mark hm
    revert hnull
    cases cellOf (t.scope row) mark <;> simp [Cell.isNull]
  -- The record of a live row has null for the mark, and the patch leaves it: null is what is written back.
  rcases cellOf_changed hplain hfits hkeyed ((Record.isUnique_ofRow s _ _).merge _) hvalues h (hkeyed.ne_mark hm)
    (Schema.hasColumn_mark hm) with ⟨-, hcell⟩ | ⟨json, p, hsome, hp, hcell⟩
  · rw [hcell, hempty]
    rfl
  · rw [Record.get?_merge_ofRow (Schema.hasColumn_mark hm) (hpatch mark hm), hempty] at hsome
    split at hsome
    · cases hsome
    · obtain rfl := Option.some.inj hsome
      have hnull : (Record.kindOf s mark).decode .null = .null := by cases Record.kindOf s mark <;> rfl
      rw [hnull] at hp
      obtain rfl : .null = p := Option.some.inj hp
      rw [hcell, Param.cell, Affinity.store_null]
      rfl

end Database

/-! ## Content that can be read -/

namespace Database

/-- A row with nothing unreadable but from a default: where a text is wanted and there is none, a column holds what
can be read. -/
def Table.IsLegible (t : Table) (s : Schema ι) (row : Row) : Prop :=
  ∀ c ∈ s.columns, c.kind.affinity = .text → c.standard = none → (cellOf (t.scope row) c.name).isReadable

/-- A table keeps the records of a schema, gives new rows keys that no row had, and holds nothing unreadable but from
the defaults of the schema's columns. -/
structure Maintains (db : Database) (s : Schema ι) (t : Table) : Prop extends db.Keeps s t where
  isAutomatic : t.isAutomatic
  addsNoStandard : t.AddsNoStandard s
  isLegible : ∀ row ∈ t.rows, t.IsLegible s row

theorem isReadable_store_param (p : Param) : (Affinity.text.store p.cell).isReadable := by
  cases p <;> rfl

theorem isReadable_key (hk : db.Keeps s t) (hs : s.flaw? catalog = none) (r : Row) :
    (cellOf (t.scope r) s.key).isReadable := by
  rw [cellOf_key (hk.fits.isKey hs)]
  rfl

theorem isLegible_of_newRow (hk : db.Keeps s t) (hs : s.flaw? catalog = none) (hkeyed : s.IsKeyed)
    (hnone : t.AddsNoStandard s) {key : Int64} (hvalues : record.values s = .ok values)
    (h : t.newRow now none key (cellsOf values) = .ok row) : t.IsLegible s row := by
  intro c hc htext hstandard
  by_cases hne : c.name = s.key
  · exact hne ▸ isReadable_key hk hs row
  have haffinity : (Record.kindOf s c.name).affinity = .text := by rw [hkeyed.kindOf_eq hc, htext]
  rcases cellOf_newRow (hk.isPlain.of_table? hk.table) hk.fits hkeyed hvalues h hne (Schema.hasColumn_of_mem hc) with
    ⟨f, cell, hf, hcell, hstored⟩ | ⟨-, p, hstored⟩
  · rw [standardCell_of_addsNoStandard hnone hc hstandard hf] at hcell
    obtain rfl := Except.ok.inj hcell
    rw [hstored, Affinity.store_null]
    rfl
  · rw [hstored, haffinity, isReadable_store_param]

theorem isLegible_of_changed (hk : db.Keeps s t) (hs : s.flaw? catalog = none) (hkeyed : s.IsKeyed)
    (hrow : t.IsLegible s row)
    (hvalues : Record.values s ((Record.ofRow s (Projection.visible s []) (t.scope row)).merge patch) = .ok values)
    (h : Table.changedCells now none (cellsOf values).reverse row t.fields = .ok changed.cells) :
    t.IsLegible s changed := by
  intro c hc htext hstandard
  by_cases hne : c.name = s.key
  · exact hne ▸ isReadable_key hk hs changed
  have haffinity : (Record.kindOf s c.name).affinity = .text := by rw [hkeyed.kindOf_eq hc, htext]
  rcases cellOf_changed (hk.isPlain.of_table? hk.table) hk.fits hkeyed ((Record.isUnique_ofRow s _ _).merge _) hvalues
    h hne (Schema.hasColumn_of_mem hc) with ⟨-, hcell⟩ | ⟨json, p, -, -, hcell⟩
  · exact hcell ▸ hrow c hc htext hstandard
  · rw [hcell, haffinity, isReadable_store_param]

namespace Maintains

variable {after : Database} {t' : Table}

theorem atTime (h : db.Maintains s t) (now : Instant) : ({ db with now } : Database).Maintains s t :=
  ⟨h.toKeeps.atTime now, h.isAutomatic, h.addsNoStandard, h.isLegible⟩

theorem of_confined (h : db.Maintains s t) {name : String} (hafter : Confined name db after)
    (hne : Text.Ascii.same s.table name = false) : after.Maintains s t :=
  ⟨h.toKeeps.of_confined hafter hne, h.isAutomatic, h.addsNoStandard, h.isLegible⟩

theorem replace (h : db.Maintains s t) (hdefinition : t'.toDefinition = t.toDefinition) (hordered : t'.IsOrdered)
    (hrows : ∀ row ∈ t'.rows, t.IsLegible s row) : (db.replace s.table t').Maintains s t' where
  toKeeps := h.toKeeps.replace hdefinition hordered
  isAutomatic := by rw [hdefinition, h.isAutomatic]
  addsNoStandard c hc hnone f hf := by
    rw [Table.field?, hdefinition] at hf
    exact h.addsNoStandard c hc hnone f hf
  isLegible row hrow := by
    rw [Table.IsLegible, Table.scope_eq hdefinition]
    exact hrows row hrow

/-- A table is maintained when a new row is added with the values of a record. -/
theorem adding (h : db.Maintains s t) (hs : s.flaw? catalog = none) (hkeyed : s.IsKeyed) {key : Int64}
    (hgreater : ∀ r ∈ t.rows, r.key < key) (hvalues : record.values s = .ok values)
    (hrow : t.newRow now none key (cellsOf values) = .ok row) :
    (db.replace s.table ((t.counting key).adding row)).Maintains s ((t.counting key).adding row) := by
  have hkey := Table.key_of_newRow hrow
  refine h.replace rfl (h.isOrdered.adding hkey hgreater) fun r hr => ?_
  rw [Table.rows_adding hkey hgreater, List.mem_append, List.mem_singleton] at hr
  rcases hr with hr | rfl
  · exact h.isLegible r hr
  · exact isLegible_of_newRow h.toKeeps hs hkeyed h.addsNoStandard hvalues hrow

/-- A table is maintained when a row gets the values of its own record, patched. -/
theorem changing (h : db.Maintains s t) (hs : s.flaw? catalog = none) (hkeyed : s.IsKeyed) (hrow : row ∈ t.rows)
    (hkey : changed.key = row.key)
    (hvalues : Record.values s ((Record.ofRow s (Projection.visible s []) (t.scope row)).merge patch) = .ok values)
    (hcells : Table.changedCells now none (cellsOf values).reverse row t.fields = .ok changed.cells) :
    (db.replace s.table (t.changing row changed)).Maintains s (t.changing row changed) := by
  refine h.replace rfl (h.isOrdered.changing hkey) fun r hr => ?_
  rw [Table.rows_changing t hkey, List.mem_map] at hr
  obtain ⟨other, hother, rfl⟩ := hr
  split
  · exact isLegible_of_changed h.toKeeps hs hkeyed (h.isLegible row hrow) hvalues hcells
  · exact h.isLegible other hother

theorem removing (h : db.Maintains s t) : (db.replace s.table (t.removing row)).Maintains s (t.removing row) :=
  h.replace rfl (h.isOrdered.filter _) fun r hr => h.isLegible r (List.mem_filter.1 hr).1

end Maintains

end Database

namespace Gateway

open Database (Maintains)

variable {limits : PageLimits} {actor : Option Scalar} {id : Scalar} {data : Record}

theorem maintains_create (h : db.Maintains s t) (hs : s.flaw? catalog = none) (hkeyed : s.IsKeyed) :
    ∃ t', t'.toDefinition = t.toDefinition ∧
      (db.run ((inDatabase catalog s limits).create now actor data)).2.Maintains s t' := by
  rcases run_create_cases h.toKeeps h.isAutomatic hkeyed with
    ⟨e, hrun⟩ | ⟨-, values, key, hvalues, -, hgreater, ⟨e, hrun⟩ | ⟨row, hrow, hrun⟩⟩
  · exact ⟨t, rfl, by rw [hrun]; exact h⟩
  · exact ⟨t.counting key, rfl, by rw [hrun]; exact h.replace rfl h.isOrdered h.isLegible⟩
  · refine ⟨(t.counting key).adding row, rfl, ?_⟩
    rw [hrun]
    exact h.adding hs hkeyed hgreater hvalues hrow

theorem maintains_update (h : db.Maintains s t) (hs : s.flaw? catalog = none) (hkeyed : s.IsKeyed) :
    ∃ t', t'.toDefinition = t.toDefinition ∧
      (db.run ((inDatabase catalog s limits).update now actor id data)).2.Maintains s t' := by
  rcases run_update_cases h.toKeeps hs hkeyed with
    ⟨e, hrun⟩ | ⟨row, hrow, -, -, values, changed, hvalues, hkey, hcells, hrun⟩
  · exact ⟨t, rfl, by rw [hrun]; exact h⟩
  · refine ⟨t.changing row changed, rfl, ?_⟩
    rw [hrun]
    exact h.changing hs hkeyed hrow hkey hvalues hcells

theorem maintains_delete (h : db.Maintains s t) (hs : s.flaw? catalog = none) (hkeyed : s.IsKeyed) :
    ∃ t', t'.toDefinition = t.toDefinition ∧
      (db.run ((inDatabase catalog s limits).delete now actor id)).2.Maintains s t' := by
  rcases run_delete_cases h.toKeeps hs hkeyed with
    ⟨e, hrun⟩ | ⟨row, hrow, -, -, ⟨mark, -, values, changed, hvalues, hkey, hcells, -, hrun⟩ | ⟨-, hrun⟩⟩
  · exact ⟨t, rfl, by rw [hrun]; exact h⟩
  · refine ⟨t.changing row changed, rfl, ?_⟩
    rw [hrun]
    exact h.changing hs hkeyed hrow hkey hvalues hcells
  · exact ⟨t.removing row, rfl, by rw [hrun]; exact h.removing⟩

end Gateway

namespace Turn

variable {limits : ι → PageLimits} {kind : ι}

/-- A turn at any kind of record maintains the table of a kind. -/
theorem maintains_run (hapart : catalog.IsApart) (hs : (catalog kind).flaw? catalog = none)
    (hkeyed : (catalog kind).IsKeyed) (h : db.Maintains (catalog kind) t) (turn : Turn ι) :
    ∃ t', t'.toDefinition = t.toDefinition ∧ (turn.run catalog limits db now).Maintains (catalog kind) t' := by
  rcases run_cases limits now hapart h.isPlain kind turn with
    ⟨name, hne, hrun⟩ | hrun | ⟨actor, data, hrun⟩ | ⟨actor, id, data, hrun⟩ | ⟨actor, id, hrun⟩
  · exact ⟨t, rfl, h.of_confined hrun hne⟩
  · exact ⟨t, rfl, by rw [hrun]; exact h.atTime now⟩
  · rw [hrun]
    exact Gateway.maintains_create (h.atTime now) hs hkeyed
  · rw [hrun]
    exact Gateway.maintains_update (h.atTime now) hs hkeyed
  · rw [hrun]
    exact Gateway.maintains_delete (h.atTime now) hs hkeyed

/-- Turns, one after the other, maintain the table of a kind. -/
theorem maintains_runAll (hapart : catalog.IsApart) (hs : (catalog kind).flaw? catalog = none)
    (hkeyed : (catalog kind).IsKeyed) (h : db.Maintains (catalog kind) t) (turns : List (Instant × Turn ι)) :
    ∃ t', t'.toDefinition = t.toDefinition ∧ (runAll catalog limits db turns).Maintains (catalog kind) t' := by
  induction turns generalizing db t with
  | nil => exact ⟨t, rfl, h⟩
  | cons first turns ih =>
    obtain ⟨t', hdefinition, h'⟩ := maintains_run hapart hs hkeyed h first.2
    obtain ⟨t'', hdefinition', h''⟩ := ih h'
    exact ⟨t'', hdefinition'.trans hdefinition, h''⟩

end Turn

end RecordQuery
