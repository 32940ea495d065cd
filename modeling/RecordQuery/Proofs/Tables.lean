import Mathlib.Data.List.Pairwise
import RecordQuery.Database.Basic
import RecordQuery.Proofs.Schemas
import RecordQuery.Sql.CreateTable
/-!
# Tables of schemas

A table covers a schema if it has a field for each of its columns (`Table.Covers`), and then its rows know
the columns by name. `Table.ofSchema` is the table of a schema as it is declared, with any rows.
-/

namespace RecordQuery.Database

open Sql

variable {ι : Type} {catalog : Catalog ι} {root s : Schema ι} {t : Table} {name : String}

namespace Table

/-- A table has a field for each column of a schema. -/
def Covers (t : Table) (s : Schema ι) : Prop := ∀ name, s.hasColumn name → (t.field? name).isSome

/-- The field of a column. -/
def fieldOf (c : Column) : Field where
  name := c.name
  affinity := c.kind.affinity
  required := !c.nullable && !c.isKey
  isKey := c.isKey

/-- Where no two names differ in case only, a field is found by its name. -/
theorem field?_of_mem {f : Field}
    (h : (t.fields.map Field.name).Pairwise fun name other => ¬ Text.Ascii.same name other)
    (hf : f ∈ t.fields) : t.field? f.name = some f := by
  cases hfound : t.field? f.name with
  | none => simpa using List.find?_eq_none.1 hfound f hf
  | some found =>
    have hsame : Text.Ascii.same found.name f.name :=
      List.find?_some (p := fun g : Field => Text.Ascii.same g.name f.name) hfound
    have hsymm : Std.Symm fun f g : Field => ¬ Text.Ascii.same f.name g.name :=
      ⟨fun f g hfg hgf => hfg (Text.Ascii.same_comm g.name f.name ▸ hgf)⟩
    have hpair := (List.pairwise_map.1 h).forall (List.mem_of_find?_eq_some hfound) hf
    exact congrArg some (Classical.byContradiction fun hne => hpair hne hsame)

/-- The table of a schema without defaults, with rows. -/
def ofSchema (s : Schema ι) (rows : List Row) : Table where
  name := s.table
  fields := s.columns.map fieldOf
  isAutomatic := true
  rows
  lastKey := rows.foldl (fun key r => max key r.key) 0

/-- A row knows the name of every field. -/
theorem isSome_scope (h : (t.field? name).isSome) (r : Row) : (t.scope r name).isSome := by
  obtain ⟨f, hf⟩ := Option.isSome_iff_exists.1 h
  simp [scope, hf]

theorem covers_ofSchema (s : Schema ι) (rows : List Row) : (ofSchema s rows).Covers s := by
  intro name h
  rw [Schema.hasColumn_iff, Schema.columnNames, List.mem_map] at h
  obtain ⟨c, hc, rfl⟩ := h
  rw [field?, List.find?_isSome]
  exact ⟨fieldOf c, List.mem_map_of_mem hc, Text.Ascii.same_refl c.name⟩

end Table

theorem table_eq_ok_iff {db : Database} :
    db.table name = .ok t ↔ db.table? name = some t := by
  rw [table]
  cases db.table? name <;> simp

/-- Every table of a graph's schemas covers them. -/
def Covers (db : Database) (catalog : Catalog ι) (root : Schema ι) : Prop :=
  ∀ s, Schema.IsIn catalog root s → ∀ t, db.table? s.table = some t → t.Covers s

/-- The table of a kind, where a database has one for each kind and their names differ. -/
theorem table?_eq_ofSchema [DecidableEq ι] {db : Database} {kinds : List ι} {rows : ι → List Row}
    (htables : db.tables = kinds.map fun i => Table.ofSchema (catalog i) (rows i))
    (hkinds : ∀ i, i ∈ kinds) (hsequence : ∀ i, Text.Ascii.same (catalog i).table sequenceName = false)
    (hsame : ∀ i j, Text.Ascii.same (catalog i).table (catalog j).table = decide (i = j)) (i : ι) :
    db.table? (catalog i).table = some (Table.ofSchema (catalog i) (rows i)) := by
  have hfind : kinds.find? (fun j => decide (j = i)) = some i := by
    cases hf : kinds.find? fun j => decide (j = i) with
    | none => simpa using List.find?_eq_none.1 hf i (hkinds i)
    | some j =>
      have hj : decide (j = i) := List.find?_some (p := fun j => decide (j = i)) hf
      rw [of_decide_eq_true hj]
  rw [table?, hsequence, htables, List.find?_map]
  simp only [Function.comp_def, Table.ofSchema, hsame, hfind, Option.map_some]
  rfl

/-- Tables that are made for the schemas of a catalog cover them. -/
theorem covers_of_table? {db : Database} {rows : ι → List Row}
    (h : ∀ i, db.table? (catalog i).table = some (Table.ofSchema (catalog i) (rows i))) (kind : ι) :
    db.Covers catalog (catalog kind) := by
  have hcover : ∀ i t, db.table? (catalog i).table = some t → t.Covers (catalog i) := by
    intro i t ht
    obtain rfl : Table.ofSchema (catalog i) (rows i) = t := by simpa [h] using ht
    exact Table.covers_ofSchema (catalog i) (rows i)
  rintro s (rfl | ⟨i, rfl⟩)
  · exact hcover kind
  · exact hcover i

theorem scopes_eq_map {db : Database} (ht : db.table? name = some t) :
    db.scopes name = t.rows.map t.scope := by
  rw [scopes, ht, Option.map_some, Option.getD_some, Table.scopes]

/-- The rows of a table that covers a schema know its columns. -/
theorem isSome_of_mem_scopes {db : Database} (h : db.Covers catalog root)
    (hs : Schema.IsIn catalog root s) {row : Scope} (hr : row ∈ db.scopes s.table)
    (hname : s.hasColumn name) : (row name).isSome := by
  cases ht : db.table? s.table with
  | none => simp [scopes, ht] at hr
  | some t =>
    obtain ⟨r, -, rfl⟩ : ∃ r ∈ t.rows, t.scope r = row := by
      simpa [scopes, ht, Table.scopes] using hr
    exact Table.isSome_scope (h s hs t ht name hname) r

/-- The table of the greatest keys, made of definitions and greatest keys. -/
def sequenceOf (known : List (Definition × Int64)) : Option Table :=
  let automatic := known.filter fun d => d.1.isAutomatic
  if automatic.isEmpty then none
  else
    some
      { name := sequenceName
        fields := [{ name := "name", affinity := .none }, { name := "seq", affinity := .none }]
        rows := (automatic.filter fun d => 0 < d.2).zipIdx.map fun (d, n) =>
          ⟨Int64.ofNat (n + 1), [("name", .text d.1.name), ("seq", .integer d.2)]⟩ }

/-- The table of the greatest keys depends on no rows. -/
theorem sequence?_eq_sequenceOf (db : Database) :
    db.sequence? = sequenceOf (db.tables.map fun t => (t.toDefinition, t.lastKey)) := by
  simp [sequence?, sequenceOf, List.filter_map, List.zipIdx_map, Function.comp_def]

end RecordQuery.Database
