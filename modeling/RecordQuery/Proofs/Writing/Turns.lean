import RecordQuery.Proofs.Writing.Absence
/-!
# Turns

Callers take turns at the gateways to the records of a catalog in one database (`Turn`). No turn brings a row
with a deletion mark back, whatever is asked for: it lies in its table as it did (`Turn.spares_runAll`). One
turn changes the rows of one table at most, and of the own table it adds a row with a new key or changes or
removes a live one (`Turn.spares_run`).
-/

namespace RecordQuery

open Outcome Sql
open Database (Row Table Confined)

variable {ι : Type} {catalog : Catalog ι} {s : Schema ι} {db after last : Database} {t t' : Table} {row changed : Row}
  {limits : ι → PageLimits} {now : Instant}

namespace Database

/-- What a step comes to at a time. -/
def runAt {ε α : Type} (db : Database) (now : Instant) (x : ExceptT ε (StateM Database) α) :
    Except ε α × Database :=
  ({ db with now } : Database).run x

end Database

/-- What is asked of the gateway to one kind of record. -/
inductive Turn (ι : Type) where
  | create (kind : ι) (actor : Option Scalar) (data : Record)
  | update (kind : ι) (actor : Option Scalar) (id : Scalar) (data : Record)
  | delete (kind : ι) (actor : Option Scalar) (id : Scalar)
  | find (kind : ι) (id : Scalar) (request : Request)
  | findBy (kind : ι) (predicate : Predicate) (request : Request)
  | list (kind : ι) (request : Request)

namespace Turn

/-- The kind of record that is asked about. -/
def kind : Turn ι → ι
  | create kind _ _ => kind
  | update kind _ _ _ => kind
  | delete kind _ _ => kind
  | find kind _ _ => kind
  | findBy kind _ _ => kind
  | list kind _ => kind

/-- The database after a turn at a time. -/
def run (catalog : Catalog ι) (limits : ι → PageLimits) (db : Database) (now : Instant) (turn : Turn ι) :
    Database :=
  let g := Gateway.inDatabase catalog (catalog turn.kind) (limits turn.kind)
  match turn with
  | create _ actor data => (db.runAt now (g.create now actor data)).2
  | update _ actor id data => (db.runAt now (g.update now actor id data)).2
  | delete _ actor id => (db.runAt now (g.delete now actor id)).2
  | find _ id request => (db.runAt now (g.find id request)).2
  | findBy _ predicate request => (db.runAt now (g.findBy predicate request)).2
  | list _ request => (db.runAt now (g.list request)).2

/-- The database after turns, each at its time. -/
def runAll (catalog : Catalog ι) (limits : ι → PageLimits) (db : Database) (turns : List (Instant × Turn ι)) :
    Database :=
  turns.foldl (fun db (now, turn) => run catalog limits db now turn) db

end Turn

/-! ## Rows with a deletion mark -/

namespace Database

/-- Rows of a schema's table that have a deletion mark stay as they are. -/
def Spares (s : Schema ι) (db after : Database) : Prop :=
  ∀ t, db.Keeps s t → t.isAutomatic →
    ∃ t', after.Keeps s t' ∧ t'.toDefinition = t.toDefinition ∧
      ∀ row ∈ t.rows, s.isLive (t.scope row) = false → row ∈ t'.rows

theorem Spares.refl (s : Schema ι) (db : Database) : Spares s db db :=
  fun t hk _ => ⟨t, hk, rfl, fun _ hrow _ => hrow⟩

theorem Spares.trans (h : Spares s db after) (h' : Spares s after last) : Spares s db last := by
  intro t hk hautomatic
  obtain ⟨t', hk', hdefinition', hrows'⟩ := h t hk hautomatic
  have hautomatic' : t'.isAutomatic := by rw [hdefinition', hautomatic]
  obtain ⟨u, hu, hdefinition, hrows⟩ := h' t' hk' hautomatic'
  refine ⟨u, hu, hdefinition.trans hdefinition', fun row hrow hdead => hrows row (hrows' row hrow hdead) ?_⟩
  rw [Table.scope_eq hdefinition', hdead]

/-- A table keeps the records of a schema at any time. -/
theorem Keeps.atTime (hk : db.Keeps s t) (now : Instant) : ({ db with now } : Database).Keeps s t :=
  ⟨hk.isPlain, hk.isOwn, hk.table, hk.fits, hk.isOrdered⟩

/-- A table stays the one that keeps the records of a schema if its definition is kept and its rows stay
ordered. -/
theorem Keeps.replace (hk : db.Keeps s t) (hdefinition : t'.toDefinition = t.toDefinition)
    (hordered : t'.IsOrdered) : (db.replace s.table t').Keeps s t' where
  isPlain := hk.isPlain.replace ((hk.isPlain.of_table? hk.table).of_definition hdefinition) s.table
  isOwn := hk.isOwn
  table := table?_replace hk.isOwn hk.table (by rw [hdefinition]; exact same_of_table? hk.isOwn hk.table)
  fits := by
    intro name c hc
    rw [Table.field?, hdefinition]
    exact hk.fits name c hc
  isOrdered := hordered

theorem Keeps.spares_replace (hk : db.Keeps s t) (hdefinition : t'.toDefinition = t.toDefinition)
    (hordered : t'.IsOrdered) (hrows : ∀ row ∈ t.rows, s.isLive (t.scope row) = false → row ∈ t'.rows) :
    Spares s db (db.replace s.table t') := by
  intro u hu _
  obtain rfl := Option.some.inj (hk.table.symm.trans hu.table)
  exact ⟨t', hk.replace hdefinition hordered, hdefinition, hrows⟩

/-- A table is not concerned by what is confined to another one. -/
theorem Keeps.of_confined (hk : db.Keeps s t) {name : String} (h : Confined name db after)
    (hne : Text.Ascii.same s.table name = false) : after.Keeps s t where
  isPlain := h.isPlain hk.isPlain
  isOwn := hk.isOwn
  table := by rw [h.others s.table hk.isOwn hne, hk.table]
  fits := hk.fits
  isOrdered := hk.isOrdered

/-- What is confined to another table spares all rows of this one. -/
theorem spares_of_confined {name : String} (h : Confined name db after)
    (hne : Text.Ascii.same s.table name = false) : Spares s db after :=
  fun t hk _ => ⟨t, hk.of_confined h hne, rfl, fun _ hrow _ => hrow⟩

/-- A row with a greater key than all others comes last. -/
theorem Table.place_eq_append {rows : List Row} (h : ∀ r ∈ rows, r.key < row.key) :
    place row rows = rows ++ [row] := by
  induction rows with
  | nil => rfl
  | cons r rows ih =>
    obtain ⟨hr, hrest⟩ := List.forall_mem_cons.1 h
    rw [place, if_neg (Int64.lt_asymm hr), ih hrest]
    rfl

/-- A row with a new key is the last one. -/
theorem Table.rows_adding {key : Int64} (hkey : row.key = key) (hgreater : ∀ r ∈ t.rows, r.key < key) :
    ((t.counting key).adding row).rows = t.rows ++ [row] :=
  Table.place_eq_append (hkey ▸ hgreater)

theorem Table.IsOrdered.adding (h : t.IsOrdered) {key : Int64} (hkey : row.key = key)
    (hgreater : ∀ r ∈ t.rows, r.key < key) : ((t.counting key).adding row).IsOrdered := by
  rw [IsOrdered, rows_adding hkey hgreater, List.pairwise_append]
  refine ⟨h, List.pairwise_singleton _ _, fun r hr other hother => ?_⟩
  obtain rfl := List.mem_singleton.1 hother
  exact hkey ▸ hgreater r hr

theorem Keeps.spares_adding (hk : db.Keeps s t) {key : Int64} (hkey : row.key = key)
    (hgreater : ∀ r ∈ t.rows, r.key < key) : Spares s db (db.replace s.table ((t.counting key).adding row)) := by
  refine hk.spares_replace rfl (hk.isOrdered.adding hkey hgreater) fun r hr _ => ?_
  rw [Table.rows_adding hkey hgreater]
  exact List.mem_append_left _ hr

/-- Changing a row that keeps its key. -/
theorem Table.rows_changing (t : Table) (hkey : changed.key = row.key) :
    (t.changing row changed).rows = t.rows.map fun r => if r.key = row.key then changed else r := by
  rw [changing, if_pos hkey]

theorem Table.mem_rows_changing (hrow : row ∈ t.rows) (hkey : changed.key = row.key) :
    changed ∈ (t.changing row changed).rows := by
  rw [rows_changing t hkey, List.mem_map]
  exact ⟨row, hrow, if_pos rfl⟩

theorem Table.IsOrdered.changing (h : t.IsOrdered) (hkey : changed.key = row.key) :
    (t.changing row changed).IsOrdered := by
  have hkeys : ∀ r : Row, (if r.key = row.key then changed else r).key = r.key := by
    intro r
    split
    · next hr => exact hkey.trans hr.symm
    · rfl
  rw [IsOrdered, rows_changing t hkey, List.pairwise_map]
  refine h.imp fun {r other} hlt => ?_
  rw [hkeys, hkeys]
  exact hlt

/-- A row with a deletion mark is not the live one that is changed. -/
theorem Keeps.spares_changing (hk : db.Keeps s t) (hrow : row ∈ t.rows) (hlive : s.isLive (t.scope row))
    (hkey : changed.key = row.key) : Spares s db (db.replace s.table (t.changing row changed)) := by
  refine hk.spares_replace rfl (hk.isOrdered.changing hkey) fun r hr hdead => ?_
  rw [Table.rows_changing t hkey, List.mem_map]
  refine ⟨r, hr, if_neg fun hsame => ?_⟩
  rw [eq_of_key_eq hk.isOrdered hr hrow hsame, hlive] at hdead
  cases hdead

theorem Keeps.spares_removing (hk : db.Keeps s t) (hrow : row ∈ t.rows) (hlive : s.isLive (t.scope row)) :
    Spares s db (db.replace s.table (t.removing row)) := by
  refine hk.spares_replace rfl (hk.isOrdered.filter _) fun r hr hdead => List.mem_filter.2 ⟨hr, ?_⟩
  rw [bne_iff_ne]
  intro hsame
  rw [eq_of_key_eq hk.isOrdered hr hrow hsame, hlive] at hdead
  cases hdead

end Database

/-! ## One turn -/

namespace Gateway

open Database (Spares)

variable {limits : PageLimits} {actor : Option Scalar} {id : Scalar} {data : Record}

theorem spares_create (hkeyed : s.IsKeyed) :
    Spares s db (db.run ((inDatabase catalog s limits).create now actor data)).2 := by
  intro t hk hautomatic
  rcases run_create_cases hk hautomatic hkeyed with
    ⟨e, h⟩ | ⟨-, values, key, -, -, hgreater, ⟨e, h⟩ | ⟨row, hrow, h⟩⟩
  · rw [h]
    exact Spares.refl s db t hk hautomatic
  · have hcounting : Spares s db (db.replace s.table (t.counting key)) :=
      hk.spares_replace rfl hk.isOrdered fun _ hrow _ => hrow
    rw [h]
    exact hcounting t hk hautomatic
  · rw [h]
    exact hk.spares_adding (Table.key_of_newRow hrow) hgreater t hk hautomatic

theorem spares_update (hs : s.flaw? catalog = none) (hkeyed : s.IsKeyed) :
    Spares s db (db.run ((inDatabase catalog s limits).update now actor id data)).2 := by
  intro t hk hautomatic
  rcases run_update_cases hk hs hkeyed with ⟨e, h⟩ | ⟨row, hrow, hlive, -, values, changed, -, hkey, -, h⟩
  · rw [h]
    exact Spares.refl s db t hk hautomatic
  · rw [h]
    exact hk.spares_changing hrow hlive hkey t hk hautomatic

theorem spares_delete (hs : s.flaw? catalog = none) (hkeyed : s.IsKeyed) :
    Spares s db (db.run ((inDatabase catalog s limits).delete now actor id)).2 := by
  intro t hk hautomatic
  rcases run_delete_cases hk hs hkeyed with
    ⟨e, h⟩ | ⟨row, hrow, hlive, -, ⟨mark, -, values, changed, -, hkey, -, -, h⟩ | ⟨-, h⟩⟩
  · rw [h]
    exact Spares.refl s db t hk hautomatic
  · rw [h]
    exact hk.spares_changing hrow hlive hkey t hk hautomatic
  · rw [h]
    exact hk.spares_removing hrow hlive t hk hautomatic

end Gateway

/-- Every kind of record has a table of its own. -/
structure Catalog.IsApart (catalog : Catalog ι) : Prop where
  isOwn : ∀ i, Text.Ascii.same (catalog i).table Database.sequenceName = false
  apart : ∀ i j, Text.Ascii.same (catalog i).table (catalog j).table → i = j

namespace Turn

open Database (Spares)

/-- A turn has an effect on the rows of one table at most. -/
theorem confined_run (hapart : catalog.IsApart) (hdb : db.IsPlain) (turn : Turn ι) :
    Confined (catalog turn.kind).table db (turn.run catalog limits db now) := by
  have hown := hapart.isOwn turn.kind
  have hnow : Confined (catalog turn.kind).table db { db with now } :=
    ⟨id, id, rfl, fun _ _ => rfl, fun _ _ _ => rfl⟩
  refine hnow.trans ?_
  cases turn with
  | create kind actor data => exact Gateway.confined_create hown hdb
  | update kind actor id data => exact Gateway.confined_update hown hdb
  | delete kind actor id => exact Gateway.confined_delete hown hdb
  | find kind id request =>
    rw [run, Database.runAt, Gateway.run_find]
    exact .refl _ _
  | findBy kind predicate request =>
    rw [run, Database.runAt, Gateway.run_findBy]
    exact .refl _ _
  | list kind request =>
    rw [run, Database.runAt, Gateway.run_list]
    exact .refl _ _

/-- What a turn comes to for one kind of record: it has an effect on other tables only, it reads, or it is an
operation that writes. -/
theorem run_cases (limits : ι → PageLimits) (now : Instant) (hapart : catalog.IsApart) (hdb : db.IsPlain) (kind : ι)
    (turn : Turn ι) :
    let g := Gateway.inDatabase catalog (catalog kind) (limits kind)
    (∃ name, Text.Ascii.same (catalog kind).table name = false ∧ Confined name db (turn.run catalog limits db now)) ∨
      turn.run catalog limits db now = { db with now } ∨
      (∃ actor data, turn.run catalog limits db now = (db.runAt now (g.create now actor data)).2) ∨
      (∃ actor id data, turn.run catalog limits db now = (db.runAt now (g.update now actor id data)).2) ∨
      ∃ actor id, turn.run catalog limits db now = (db.runAt now (g.delete now actor id)).2 := by
  intro g
  by_cases hsame : Text.Ascii.same (catalog kind).table (catalog turn.kind).table
  · have hkind := hapart.apart kind turn.kind hsame
    cases turn with
    | create other actor data =>
      obtain rfl : kind = other := hkind
      exact .inr (.inr (.inl ⟨actor, data, rfl⟩))
    | update other actor id data =>
      obtain rfl : kind = other := hkind
      exact .inr (.inr (.inr (.inl ⟨actor, id, data, rfl⟩)))
    | delete other actor id =>
      obtain rfl : kind = other := hkind
      exact .inr (.inr (.inr (.inr ⟨actor, id, rfl⟩)))
    | find other id request => exact .inr (.inl (by rw [run, Database.runAt, Gateway.run_find]))
    | findBy other predicate request => exact .inr (.inl (by rw [run, Database.runAt, Gateway.run_findBy]))
    | list other request => exact .inr (.inl (by rw [run, Database.runAt, Gateway.run_list]))
  · exact .inl ⟨_, Bool.eq_false_iff.2 hsame, confined_run hapart hdb turn⟩

/-- A turn at any kind of record spares the rows of a kind that have a deletion mark. -/
theorem spares_run (hapart : catalog.IsApart) {kind : ι} (hs : (catalog kind).flaw? catalog = none)
    (hkeyed : (catalog kind).IsKeyed) (turn : Turn ι) :
    Spares (catalog kind) db (turn.run catalog limits db now) := by
  intro t hk hautomatic
  have hnow : Spares (catalog kind) db { db with now } := fun t hk _ =>
    ⟨t, hk.atTime now, rfl, fun _ hrow _ => hrow⟩
  rcases run_cases limits now hapart hk.isPlain kind turn with
    ⟨name, hne, h⟩ | h | ⟨actor, data, h⟩ | ⟨actor, id, data, h⟩ | ⟨actor, id, h⟩
  · exact Database.spares_of_confined h hne t hk hautomatic
  · rw [h]
    exact hnow t hk hautomatic
  · rw [h]
    exact hnow.trans (Gateway.spares_create hkeyed) t hk hautomatic
  · rw [h]
    exact hnow.trans (Gateway.spares_update hs hkeyed) t hk hautomatic
  · rw [h]
    exact hnow.trans (Gateway.spares_delete hs hkeyed) t hk hautomatic

/-! ## Turns one after the other -/

theorem spares_runAll (hapart : catalog.IsApart) {kind : ι} (hs : (catalog kind).flaw? catalog = none)
    (hkeyed : (catalog kind).IsKeyed) (turns : List (Instant × Turn ι)) :
    Spares (catalog kind) db (runAll catalog limits db turns) := by
  induction turns generalizing db with
  | nil => exact .refl _ db
  | cons first turns ih => exact (spares_run hapart hs hkeyed first.2).trans ih

end Turn

namespace Database

/-- The tables are apart, none refers to another, and they have the columns of all kinds of record. -/
structure Serves (db : Database) (catalog : Catalog ι) : Prop where
  isPlain : db.IsPlain
  isApart : db.IsApart
  covers : ∀ i t, db.table? (catalog i).table = some t → t.Covers (catalog i)

theorem Serves.of_confined (hapart : catalog.IsApart) (hdb : db.Serves catalog) {name : String}
    (h : Confined name db after) : after.Serves catalog where
  isPlain := h.isPlain hdb.isPlain
  isApart := h.isApart hdb.isApart
  covers i t ht := by
    have hdefinition := h.definition (catalog i).table (hapart.isOwn i)
    rw [ht, Option.map_some] at hdefinition
    obtain ⟨u, hu, hsame⟩ := Option.map_eq_some_iff.1 hdefinition.symm
    intro column hcolumn
    rw [Table.field?, ← hsame]
    exact hdb.covers i u hu column hcolumn

/-- A database that serves a catalog does so after any turns. -/
theorem Serves.runAll (hapart : catalog.IsApart) (hdb : db.Serves catalog) (turns : List (Instant × Turn ι)) :
    (Turn.runAll catalog limits db turns).Serves catalog := by
  induction turns generalizing db with
  | nil => exact hdb
  | cons first turns ih => exact ih (hdb.of_confined hapart (Turn.confined_run hapart hdb.isPlain first.2))

end Database

end RecordQuery
