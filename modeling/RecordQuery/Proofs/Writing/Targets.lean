import RecordQuery.Proofs.Writing.Operations
/-!
# Changes and their targets

A record is changed or marked as deleted in one row, the one of the key, and all rows keep their keys; a record
that is removed takes one row with it (`Gateway.differsOnly_of_update_or_delete`). That rests on the key being
shown: a record that is read without its key is taken for a new one, and a row is added
(`Gateway.update_adds_row`).
-/

namespace RecordQuery

open Outcome Sql
open Database (Row Table)

variable {ι : Type} {catalog : Catalog ι} {s : Schema ι} {db : Database} {t t' : Table}

/-- Two tables that are the same but for what is in the row of a key. -/
structure Database.Table.DiffersOnly (key : Int64) (t t' : Table) : Prop where
  definition : t'.toDefinition = t.toDefinition
  lastKey : t'.lastKey = t.lastKey
  rows : List.Forall₂ (fun r r' => r'.key = r.key ∧ (r.key ≠ key → r' = r)) t.rows t'.rows

/-- Changing a row that keeps its key changes no other. -/
theorem Database.Table.differsOnly_changing {row changed : Row} (h : changed.key = row.key) :
    Table.DiffersOnly row.key t (t.changing row changed) where
  definition := rfl
  lastKey := rfl
  rows := by
    rw [changing, if_pos h, List.forall₂_map_right_iff, List.forall₂_same]
    intro r _
    split
    · next hr => exact ⟨h.trans hr.symm, fun hne => absurd hr hne⟩
    · exact ⟨rfl, fun _ => rfl⟩

namespace Gateway

variable {limits : PageLimits} {now : Instant} {actor : Option Scalar} {id : Scalar} {data : Record}

/-- A change or a deletion that succeeds is about the one row of the key. Changed or marked, that row keeps its
key and no other row differs; removed, it is gone and all others are there. -/
theorem differsOnly_of_update_or_delete (hk : db.Keeps s t) (hs : s.flaw? catalog = none)
    (hkeyed : s.IsKeyed) (limits : PageLimits) (now : Instant) (actor : Option Scalar) (id : Scalar)
    (data : Record) :
    let g := inDatabase catalog s limits
    let updated := db.run (g.update now actor id data)
    let deleted := db.run (g.delete now actor id)
    (∀ record, updated.1 = .ok record →
      ∃ row t', t.rows.filter (Database.hasKey t s.key (.ofScalar id)) = [row] ∧
        Table.DiffersOnly row.key t t' ∧ updated.2 = db.replace s.table t') ∧
    (∀ record, deleted.1 = .ok (.marked record) →
      ∃ row t', t.rows.filter (Database.hasKey t s.key (.ofScalar id)) = [row] ∧
        Table.DiffersOnly row.key t t' ∧ deleted.2 = db.replace s.table t') ∧
    ∀ n, deleted.1 = .ok (.removed n) →
      ∃ row, t.rows.filter (Database.hasKey t s.key (.ofScalar id)) = [row] ∧ n = 1 ∧
        deleted.2 = db.replace s.table { t with rows := t.rows.filter fun r => r.key != row.key } := by
  intro g updated deleted
  have herror : ∀ {α : Type} {outcome : Except Error α × Database} {e : Error} {a : α},
      outcome = (.error e, db) → outcome.1 ≠ .ok a := by
    rintro α outcome e a rfl h
    cases h
  refine ⟨fun record hrecord => ?_, fun record hrecord => ?_, fun n hn => ?_⟩
  · rcases run_update_cases hk hs hkeyed with ⟨e, h⟩ | ⟨row, hrow, -, hhas, values, changed, -, hkey, -, h⟩
    · exact absurd hrecord (herror h)
    · exact ⟨row, t.changing row changed, hk.filter_hasKey_eq hs hkeyed hrow hhas, Table.differsOnly_changing hkey, h⟩
  · rcases run_delete_cases hk hs hkeyed with
      ⟨e, h⟩ | ⟨row, hrow, -, hhas, ⟨mark, -, values, changed, -, hkey, -, -, h⟩ | ⟨-, h⟩⟩
    · exact absurd hrecord (herror h)
    · exact ⟨row, t.changing row changed, hk.filter_hasKey_eq hs hkeyed hrow hhas, Table.differsOnly_changing hkey, h⟩
    · have hremoved : deleted.1 = .ok (.removed 1) := congrArg Prod.fst h
      rw [hremoved] at hrecord
      cases hrecord
  · rcases run_delete_cases hk hs hkeyed with
      ⟨e, h⟩ | ⟨row, hrow, -, hhas, ⟨mark, -, values, changed, -, -, -, hmarked, -⟩ | ⟨-, h⟩⟩
    · exact absurd hn (herror h)
    · obtain ⟨record, hrecord⟩ := hmarked (.removed n) hn
      cases hrecord
    · have hremoved : deleted.1 = .ok (.removed 1) := congrArg Prod.fst h
      rw [hremoved] at hn
      obtain rfl := Deleted.removed.inj (Except.ok.inj hn)
      exact ⟨row, hk.filter_hasKey_eq hs hkeyed hrow hhas, rfl, congrArg Prod.snd h⟩

/-! ## A category, and notes without keys -/

/-- A category that is renamed and removed. -/
theorem differsOnly_of_update_or_delete_shop :
    let s := Demo.Shop.categorySchema
    let t := Table.ofSchema s [⟨7, [("name", .text "Dairy")]⟩]
    let db := Demo.Shop.database fun | .category => [⟨7, [("name", .text "Dairy")]⟩] | _ => []
    let g := inDatabase Demo.Shop.catalog s {}
    let updated := db.run (g.update (.ofEpoch 0 0) none (.int 7) [("name", .string "Milk")])
    let deleted := db.run (g.delete (.ofEpoch 0 0) none (.int 7))
    db.Keeps s t ∧ s.flaw? Demo.Shop.catalog = none ∧ s.IsKeyed ∧
      updated.1.isOk ∧ deleted.1.isOk ∧
      (∀ record, updated.1 = .ok record →
        ∃ row t', t.rows.filter (Database.hasKey t s.key (.integer 7)) = [row] ∧
          Table.DiffersOnly row.key t t' ∧ updated.2 = db.replace s.table t') ∧
      (∀ record, deleted.1 = .ok (.marked record) →
        ∃ row t', t.rows.filter (Database.hasKey t s.key (.integer 7)) = [row] ∧
          Table.DiffersOnly row.key t t' ∧ deleted.2 = db.replace s.table t') ∧
      ∀ n, deleted.1 = .ok (.removed n) →
        ∃ row, t.rows.filter (Database.hasKey t s.key (.integer 7)) = [row] ∧ n = 1 ∧
          deleted.2 = db.replace s.table { t with rows := t.rows.filter fun r => r.key != row.key } := by
  intro s t db g updated deleted
  have hkeyed : s.IsKeyed := Demo.Shop.isKeyed .category
  have hk : db.Keeps s t := Demo.Shop.keeps_database _ .category (List.pairwise_singleton _ _)
  have hs : s.flaw? Demo.Shop.catalog = none := Demo.Shop.flaw?_eq_none .category
  exact ⟨hk, hs, hkeyed, by decide, by decide,
    differsOnly_of_update_or_delete hk hs hkeyed {} (.ofEpoch 0 0) none (.int 7) [("name", .string "Milk")]⟩

/-- Notes whose key is not shown. -/
def Demo.hiddenNote : Schema Unit where
  name := "Note"
  table := "notes"
  key := "id"
  columns := [{ name := "id", kind := .integer, isKey := true }, { name := "text", kind := .text, nullable := true }]
  relations := []
  hidden := ["id"]
  deletion := .hard

/-- A note whose key is not shown is there twice after it is changed, as it was and as it is. -/
theorem update_adds_row :
    let s := Demo.hiddenNote
    let db : Database := { tables := [Table.ofSchema s [⟨1, [("text", .text "a")]⟩]] }
    let updated := db.run ((inDatabase (fun _ => s) s {}).update (.ofEpoch 0 0) none (.int 1)
      [("text", .string "b")])
    s.flaw? (fun _ => s) = none ∧ updated.1.isOk ∧
      (db.table? s.table).map (fun t => t.rows) = some [⟨1, [("text", .text "a")]⟩] ∧
      (updated.2.table? s.table).map (fun t => t.rows) =
        some [⟨1, [("text", .text "a")]⟩, ⟨2, [("text", .text "b")]⟩] := by
  intro s db updated
  exact ⟨by decide, by decide, by decide, by decide⟩

end Gateway

end RecordQuery
