import RecordQuery.Proofs.Writing.Absence
import RecordQuery.Proofs.Writing.Creation
import RecordQuery.Proofs.Writing.Frame
import RecordQuery.Proofs.Writing.Turns
/-!
# Deleted records stay deleted

A deletion that marks a record leaves its one row with a mark (`Gateway.exists_marked_of_delete`), and no turn
takes a mark away. So whatever callers do after it, all that they read is the same as without the row, and the
record is not there for a change (`Turn.deleted_stays_deleted`). That is said of tables that were made for the
schemas of a catalog (`Database.IsMade.serves`), each with a key that is nothing but a key.
-/

namespace RecordQuery

open Outcome Sql
open Database (Row Table Confined Spares)

variable {ι : Type} {catalog : Catalog ι} {s : Schema ι} {db : Database} {t : Table} {row changed : Row}

/-! ## Marks -/

namespace Members

variable {patch : Members} {key : String} {value : Json}

/-- What a patch names is there as the patch has it. -/
theorem get?_merge_of_get? (ms : Members) (hunique : patch.IsUnique) (h : patch.get? key = some value) :
    get? (ms.merge patch) key = some value := by
  rw [merge]
  induction patch generalizing ms with
  | nil => cases h
  | cons first patch ih =>
    obtain ⟨k, v⟩ := first
    obtain ⟨hk, hrest⟩ := List.nodup_cons.1 hunique
    rw [get?_cons] at h
    rw [List.foldl_cons]
    split at h
    · next hkey =>
      subst hkey
      have hlast : get? ((ms.insert key v).merge patch) key = (ms.insert key v).get? key :=
        get?_merge_of_not_mem _ hk
      rw [merge] at hlast
      rw [hlast, get?_insert, if_pos rfl, h]
    · exact ih _ hrest h

end Members

/-- A text is not stored as null. -/
theorem Sql.Affinity.isNull_store_text (affinity : Affinity) (text : String) :
    (affinity.store (.text text)).isNull = false := by
  cases affinity with
  | text => rfl
  | none => rfl
  | real =>
    rw [store, Cell.toNumber]
    split <;> rfl
  | integer =>
    rw [store, Cell.toNumber]
    split
    · rfl
    · rw [Cell.toInteger]
      split
      · split <;> rfl
      · rfl
    · rfl

namespace Database

/-- Rows of one key have the same key as it is asked for. -/
theorem Table.hasKey_congr {name : String} {key : Param} (h : t.IsIndexedBy name) (hkey : changed.key = row.key) :
    hasKey t name key changed = hasKey t name key row := by
  obtain ⟨f, hf, hiskey, haffinity⟩ := h
  rw [hasKey, hasKey, resolve_key hf hiskey haffinity, resolve_key hf hiskey haffinity, hkey]

/-- A row that gets the values of a record with a mark is not live. -/
theorem not_isLive_of_marked (hplain : t.IsPlain) (hfits : t.Fits s) (hkeyed : s.IsKeyed) {mark : String}
    (hmark : s.deletionMark? = some mark) {now : Instant} {record : Record} (hunique : record.IsUnique)
    {values : List (String × Param)} (hvalues : record.values s = .ok values)
    (hcells : Table.changedCells now none (cellsOf values).reverse row t.fields = .ok changed.cells)
    {text : String} (hget : record.get? mark = some (.string text)) : s.isLive (t.scope changed) = false := by
  have hlive : s.isLive (t.scope changed) = (cellOf (t.scope changed) mark).isNull := by
    rw [Schema.isLive, hmark]
    rfl
  rcases cellOf_changed hplain hfits hkeyed hunique hvalues hcells (hkeyed.ne_mark hmark)
    (Schema.hasColumn_mark hmark) with ⟨hnone, -⟩ | ⟨json, p, hsome, hp, hcell⟩
  · rw [hnone] at hget
    cases hget
  · rw [hsome] at hget
    obtain rfl := Option.some.inj hget
    obtain rfl : .text text = p := Option.some.inj hp
    rw [hlive, hcell]
    exact Affinity.isNull_store_text _ _

end Database

namespace Gateway

variable {limits : PageLimits} {now : Instant} {actor : Option Scalar} {id : Scalar} {record : Record}

/-- The patch of a deletion has its mark. -/
theorem get?_patch_of_delete (hkeyed : s.IsKeyed) {mark : String} (hmark : s.deletionMark? = some mark)
    (catalog : Catalog ι) (limits : PageLimits) (now : Instant) (actor : Option Scalar) :
    let g := inDatabase catalog s limits
    let patch := g.stampActor .updatedBy actor (g.stamp .updatedAt (.string now.text) [(mark, .string now.text)])
    Members.IsUnique patch ∧ Members.get? patch mark = some (.string now.text) := by
  intro g patch
  have hstamp : ∀ {role : Role} {value : Json} {data : Record}, Members.IsUnique data →
      Members.IsUnique (g.stamp role value data) := by
    intro role value data h
    rw [stamp]
    split
    · exact h.insert _ _
    · exact h
  constructor
  · have hfirst : Members.IsUnique (g.stamp .updatedAt (.string now.text) [(mark, .string now.text)]) :=
      hstamp (List.nodup_singleton mark)
    cases actor with
    | none => exact hfirst
    | some actor => exact hstamp hfirst
  · have hactor : Members.get? patch mark =
        Members.get? (g.stamp .updatedAt (.string now.text) [(mark, .string now.text)]) mark :=
      get?_stampActor fun _ _ => hkeyed.ne_mark_of_role hmark (by decide)
    rw [hactor, get?_stamp _ fun _ => hkeyed.ne_mark_of_role hmark (by decide), Members.get?_cons, if_pos rfl]

/-- A deletion that marks a record leaves the row of the key with a mark. -/
theorem exists_marked_of_delete (hk : db.Keeps s t) (hs : s.flaw? catalog = none) (hkeyed : s.IsKeyed)
    (h : (db.run ((inDatabase catalog s limits).delete now actor id)).1 = .ok (.marked record)) :
    ∃ t' row, (db.run ((inDatabase catalog s limits).delete now actor id)).2.Keeps s t' ∧
      t'.toDefinition = t.toDefinition ∧ row ∈ t'.rows ∧ Database.hasKey t' s.key (.ofScalar id) row ∧
      s.isLive (t'.scope row) = false := by
  rcases run_delete_cases hk hs hkeyed with
    ⟨e, hrun⟩ | ⟨row, hrow, -, hhas,
      ⟨mark, hmark, values, changed, hvalues, hkey, hcells, -, hrun⟩ | ⟨-, hrun⟩⟩
  · rw [hrun] at h
    cases h
  · obtain ⟨hpatch, hget⟩ := get?_patch_of_delete hkeyed hmark catalog limits now actor
    have hdead : s.isLive (t.scope changed) = false :=
      Database.not_isLive_of_marked (hk.isPlain.of_table? hk.table) hk.fits hkeyed hmark
        ((Record.isUnique_ofRow s _ _).merge _) hvalues hcells (Members.get?_merge_of_get? _ hpatch hget)
    have hmem := Table.mem_rows_changing hrow hkey
    have hchanged : Database.hasKey t s.key (.ofScalar id) changed :=
      (Table.hasKey_congr (hk.fits.isIndexedBy_key hs hkeyed) hkey).trans hhas
    rw [hrun]
    exact ⟨t.changing row changed, changed, hk.replace rfl (hk.isOrdered.changing hkey), rfl, hmem, hchanged, hdead⟩
  · rw [hrun] at h
    cases h

end Gateway

/-! ## Tables that were made -/

namespace Database

variable {schemas : List (Schema ι)}

theorem IsMade.isPlain (h : db.IsMade schemas) : db.IsPlain := by
  intro t ht
  obtain ⟨s, -, hmade⟩ := h.made t ht
  exact hmade.isPlain

/-- Each kind of record has the table that was made for it. -/
theorem IsMade.exists_madeFor {kinds : List ι} (hapart : catalog.IsApart) (hall : ∀ i, i ∈ kinds)
    (h : db.IsMade (kinds.map catalog)) (kind : ι) :
    ∃ t, db.table? (catalog kind).table = some t ∧ t.IsMadeFor (catalog kind) := by
  refine h.exists_table? (List.mem_map_of_mem (hall kind)) (hapart.isOwn kind) fun other ho hsame => ?_
  obtain ⟨i, -, rfl⟩ := List.mem_map.1 ho
  rw [hapart.apart i kind hsame]

/-- Tables that were made for all kinds of record serve them. -/
theorem IsMade.serves {kinds : List ι} (hapart : catalog.IsApart) (hall : ∀ i, i ∈ kinds)
    (h : db.IsMade (kinds.map catalog)) : db.Serves catalog where
  isPlain := h.isPlain
  isApart := h.isApart
  covers i t ht := by
    obtain ⟨u, hu, hmade⟩ := h.exists_madeFor hapart hall i
    obtain rfl := Option.some.inj (ht.symm.trans hu)
    exact hmade.fits.covers

/-- A table that was made keeps the records of its schema. -/
theorem Table.IsMadeFor.keeps (h : t.IsMadeFor s) (hdb : db.IsPlain)
    (hname : Text.Ascii.same s.table sequenceName = false) (ht : db.table? s.table = some t) : db.Keeps s t where
  isPlain := hdb
  isOwn := hname
  table := ht
  fits := h.fits
  isOrdered := by
    rw [Table.IsOrdered, h.rows]
    exact .nil

end Database

/-! ## Turns after a deletion -/

namespace Turn

/-- What is left of a row with a deletion mark: all that is read is the same without it, and the record of its key
is neither changed nor deleted again. -/
theorem readsAlike_and_not_found (hs : ∀ i, (catalog i).flaw? catalog = none) (hapart : catalog.IsApart)
    (hdb : db.Serves catalog) {kind : ι} (hkeyed : (catalog kind).IsKeyed) (hk : db.Keeps (catalog kind) t)
    (hrow : row ∈ t.rows) {id : Scalar} (hhas : Database.hasKey t (catalog kind).key (.ofScalar id) row)
    (hdead : (catalog kind).isLive (t.scope row) = false) (limits : ι → PageLimits) (now : Instant) :
    let s := catalog kind
    let g := fun i => Gateway.inDatabase catalog (catalog i) (limits i)
    (∀ i, (g i).ReadsAlike { db with now } { db.replace s.table (t.removing row) with now }) ∧
      ∀ actor, db.runAt now ((g kind).delete now actor id) =
          (.error (.notFound s.name id.display), { db with now }) ∧
        ∀ data, db.runAt now ((g kind).update now actor id data) =
          (((Payload.checkMembers s data).mapError .malformed).bind fun _ =>
            .error (.notFound s.name id.display), { db with now }) := by
  intro s g
  have hknow : ({ db with now } : Database).Keeps s t := ⟨hk.isPlain, hk.isOwn, hk.table, hk.fits, hk.isOrdered⟩
  have hnone : ∀ r ∈ t.rows, Database.hasKey t s.key (.ofScalar id) r → s.isLive (t.scope r) = false := by
    intro r hr hrhas
    have hone := hk.filter_hasKey_eq (hs kind) hkeyed hrow hhas
    obtain rfl : r = row := List.mem_singleton.1 (hone ▸ List.mem_filter.2 ⟨hr, hrhas⟩)
    exact hdead
  refine ⟨fun i => ?_, fun actor => ⟨Gateway.run_delete_of_dead hknow (hs kind) hkeyed hnone,
    fun data => Gateway.run_update_of_dead hknow (hs kind) hkeyed hnone⟩⟩
  have hsound : Schema.IsSound catalog (catalog i) := fun u hu => by
    obtain ⟨j, rfl⟩ := Schema.exists_of_isIn hu
    exact hs j
  have hcovers : ({ db with now } : Database).Covers catalog (catalog i) := fun u hu v hv => by
    obtain ⟨j, rfl⟩ := Schema.exists_of_isIn hu
    exact hdb.covers j v hv
  have hown : ∀ other, Schema.IsIn catalog (catalog i) other →
      Text.Ascii.same other.table Database.sequenceName = false ∧
        (Text.Ascii.same other.table s.table → other = s) := fun other hother => by
    obtain ⟨j, rfl⟩ := Schema.exists_of_isIn hother
    exact ⟨hapart.isOwn j, fun hsame => congrArg catalog (hapart.apart j kind hsame)⟩
  exact Gateway.readsAlike_of_alike hsound
    (Database.alike_removing hsound hcovers hdb.isApart hknow hown hrow hdead) (limits i)

/-- A row that a deletion marked has its mark after any further turns. -/
theorem exists_marked_of_runAll (hs : ∀ i, (catalog i).flaw? catalog = none) (hapart : catalog.IsApart) {kind : ι}
    (hkeyed : (catalog kind).IsKeyed) (hk : db.Keeps (catalog kind) t) (hautomatic : t.isAutomatic)
    {limits : ι → PageLimits} {time : Instant} {author : Option Scalar} {id : Scalar} {record : Record}
    (after : List (Instant × Turn ι)) :
    let s := catalog kind
    let deleted := db.runAt time ((Gateway.inDatabase catalog s (limits kind)).delete time author id)
    deleted.1 = .ok (.marked record) →
      ∃ t' row, (runAll catalog limits deleted.2 after).Keeps s t' ∧ row ∈ t'.rows ∧
        Database.hasKey t' s.key (.ofScalar id) row ∧ s.isLive (t'.scope row) = false := by
  intro s deleted hrecord
  have hktime : ({ db with now := time } : Database).Keeps s t :=
    ⟨hk.isPlain, hk.isOwn, hk.table, hk.fits, hk.isOrdered⟩
  obtain ⟨u, row, hu, hdefinition, hrow, hhas, hdead⟩ :=
    Gateway.exists_marked_of_delete hktime (hs kind) hkeyed hrecord
  have hspares : Spares s deleted.2 (runAll catalog limits deleted.2 after) :=
    spares_runAll hapart (hs kind) hkeyed after
  obtain ⟨t', hk', hdefinition', hrows⟩ := hspares u hu (by rw [hdefinition, hautomatic])
  refine ⟨t', row, hk', hrows row hrow hdead, ?_, ?_⟩
  · rw [Database.hasKey, Table.scope_eq hdefinition']
    exact hhas
  · rw [Table.scope_eq hdefinition', hdead]

/-- Whatever is done at a catalog's tables since they were made, a record that a deletion marked stays deleted,
whatever is done after it: the row of its key is in its table, all that is read at any kind of record is the same
without it, and a change or another deletion reports that there is no such record and changes nothing. -/
theorem deleted_stays_deleted {kinds : List ι} (hall : ∀ i, i ∈ kinds)
    (hs : ∀ i, (catalog i).flaw? catalog = none) (hplain : ∀ i, (catalog i).IsPlain)
    (hown : ∀ i j, Text.Ascii.same (catalog i).table (catalog j).table → i = j) (hempty : db.tables = [])
    (hmade : (db.sync (kinds.map catalog)).2.failures = []) {kind : ι}
    (hindex : (catalog kind).IsIndex (catalog kind).key)
    (hshown : (catalog kind).isHidden (catalog kind).key = false)
    (hfree : ∀ c, (catalog kind).column? (catalog kind).key = some c → c.role = none)
    (limits : ι → PageLimits) (before after : List (Instant × Turn ι)) (time : Instant) (author : Option Scalar)
    (id : Scalar) :
    let s := catalog kind
    let g := fun i => Gateway.inDatabase catalog (catalog i) (limits i)
    let found := runAll catalog limits (db.sync (kinds.map catalog)).1 before
    let deleted := found.runAt time ((g kind).delete time author id)
    let last := runAll catalog limits deleted.2 after
    ∀ record, deleted.1 = .ok (.marked record) →
      ∃ t row, last.table? s.table = some t ∧
        t.rows.filter (Database.hasKey t s.key (.ofScalar id)) = [row] ∧
        ∀ now,
          (∀ i, (g i).ReadsAlike { last with now } { last.replace s.table (t.removing row) with now }) ∧
          ∀ actor, last.runAt now ((g kind).delete now actor id) =
              (.error (.notFound s.name id.display), { last with now }) ∧
            ∀ data, last.runAt now ((g kind).update now actor id data) =
              (((Payload.checkMembers s data).mapError .malformed).bind fun _ =>
                .error (.notFound s.name id.display), { last with now }) := by
  intro s g found deleted last record hrecord
  have hapart : catalog.IsApart := ⟨fun i => (hplain i).isOwn, hown⟩
  have hsynced : (db.sync (kinds.map catalog)).1.IsMade (kinds.map catalog) := by
    refine Database.isMade_sync (fun s hs => ?_) (fun s hs other hother hsame => ?_) hempty hmade
    · obtain ⟨i, -, rfl⟩ := List.mem_map.1 hs
      exact hplain i
    · obtain ⟨i, -, rfl⟩ := List.mem_map.1 hs
      obtain ⟨j, -, rfl⟩ := List.mem_map.1 hother
      rw [hown j i hsame]
  obtain ⟨t₀, ht₀, hmadeFor⟩ := hsynced.exists_table? (List.mem_map_of_mem (hall kind)) (hapart.isOwn kind)
    fun other ho hsame => by
      obtain ⟨j, -, rfl⟩ := List.mem_map.1 ho
      rw [hown j kind hsame]
  have hserves := hsynced.serves hapart hall
  have hkeyed : s.IsKeyed := hmadeFor.isKeyed (hs kind) hindex hshown hfree
  have hautomatic : t₀.isAutomatic := by
    obtain ⟨c, hc, hkey⟩ := Schema.key_of_flaw?_eq_none (hs kind)
    exact hmadeFor.isAutomatic c (Schema.column?_eq_some hc).1 hkey
  have hbefore : Spares s (db.sync (kinds.map catalog)).1 found :=
    spares_runAll hapart (hs kind) hkeyed before
  obtain ⟨t₁, hk₁, hdefinition, -⟩ :=
    hbefore t₀ (hmadeFor.keeps hserves.isPlain (hapart.isOwn kind) ht₀) hautomatic
  obtain ⟨t, row, hk, hrow, hhas, hdead⟩ :=
    exists_marked_of_runAll hs hapart hkeyed hk₁ (by rw [hdefinition, hautomatic]) after hrecord
  have hdeletion : Confined s.table { found with now := time } deleted.2 :=
    Gateway.confined_delete (hapart.isOwn kind) hk₁.isPlain
  have hlast : last.Serves catalog := by
    have hfound : ({ found with now := time } : Database).Serves catalog := by
      have h : found.Serves catalog := hserves.runAll hapart before
      exact ⟨h.isPlain, h.isApart, h.covers⟩
    exact (hfound.of_confined hapart hdeletion).runAll hapart after
  refine ⟨t, row, hk.table, hk.filter_hasKey_eq (hs kind) hkeyed hrow hhas, fun now => ?_⟩
  exact readsAlike_and_not_found hs hapart hlast hkeyed hk hrow hhas hdead limits now

end Turn

/-! ## Milk, and documents whose key is an author -/

/-- A deletion that was answered with a record. -/
theorem Deleted.exists_marked {answer : Except Error Deleted}
    (h : (match answer with | .ok (.marked _) => true | _ => false) = true) :
    ∃ record, answer = .ok (.marked record) := by
  split at h
  · exact ⟨_, rfl⟩
  · cases h

/-- The tables of the shop as they are made, and milk that is put in and deleted. -/
theorem Demo.Shop.exists_marked_milk :
    let g := Gateway.inDatabase Shop.catalog (Shop.catalog .product) {}
    let found := Turn.runAll Shop.catalog (fun _ => {}) (({} : Database).sync (all.map Shop.catalog)).1
      [(.ofEpoch 0 0, .create .product none [("name", .string "Milk")])]
    ∃ record, (found.runAt (.ofEpoch 1 0) (g.delete (.ofEpoch 1 0) none (.int 1))).1 = .ok (.marked record) :=
  Deleted.exists_marked (by decide +kernel)

namespace Turn

/-- Milk that was made and deleted, and was asked for by a change before other milk was made. -/
theorem deleted_stays_deleted_shop :
    let catalog := Demo.Shop.catalog
    let s := catalog .product
    let g := fun i => Gateway.inDatabase catalog (catalog i) {}
    let synced := ({} : Database).sync (Demo.Shop.all.map catalog)
    let milk : Record := [("name", .string "Milk")]
    let found := runAll catalog (fun _ => {}) synced.1 [(.ofEpoch 0 0, .create .product none milk)]
    let deleted := found.runAt (.ofEpoch 1 0) ((g .product).delete (.ofEpoch 1 0) none (.int 1))
    let last := runAll catalog (fun _ => {}) deleted.2
      [(.ofEpoch 2 0, .update .product none (.int 1) milk), (.ofEpoch 3 0, .create .product none milk)]
    (∀ i, i ∈ Demo.Shop.all) ∧ (∀ i, (catalog i).flaw? catalog = none) ∧ (∀ i, (catalog i).IsPlain) ∧
      (∀ i j, Text.Ascii.same (catalog i).table (catalog j).table → i = j) ∧ synced.2.failures = [] ∧
      s.IsIndex s.key ∧ s.isHidden s.key = false ∧ (∀ c, s.column? s.key = some c → c.role = none) ∧
      (∃ record, deleted.1 = .ok (.marked record)) ∧
      ∃ t row, last.table? s.table = some t ∧ t.rows.filter (Database.hasKey t s.key (.integer 1)) = [row] ∧
        ∀ now, (g .user).ReadsAlike { last with now } { last.replace s.table (t.removing row) with now } ∧
          last.runAt now ((g .product).update now none (.int 1) milk) =
            (.error (.notFound "Product" "1"), { last with now }) := by
  intro catalog s g synced milk found deleted last
  have hall : ∀ i, i ∈ Demo.Shop.all := by intro i; cases i <;> decide
  have hs : ∀ i, (catalog i).flaw? catalog = none := Demo.Shop.flaw?_eq_none
  have hplain : ∀ i, (catalog i).IsPlain := Demo.Shop.isPlain
  have hown : ∀ i j, Text.Ascii.same (catalog i).table (catalog j).table → i = j := by
    intro i j
    cases i <;> cases j <;> decide
  have hfailures : synced.2.failures = [] := List.isEmpty_iff.1 (by decide)
  have hkeyed : s.IsKeyed := Demo.Shop.isKeyed .product
  have hmarked : ∃ record, deleted.1 = .ok (.marked record) := Demo.Shop.exists_marked_milk
  refine ⟨hall, hs, hplain, hown, hfailures, hkeyed.index, hkeyed.isShown, hkeyed.isFree, hmarked, ?_⟩
  obtain ⟨record, hrecord⟩ := hmarked
  obtain ⟨t, row, ht, hone, hgone⟩ := deleted_stays_deleted hall hs hplain hown rfl hfailures hkeyed.index
    hkeyed.isShown hkeyed.isFree (fun _ => {}) [(.ofEpoch 0 0, .create .product none milk)]
    [(.ofEpoch 2 0, .update .product none (.int 1) milk), (.ofEpoch 3 0, .create .product none milk)]
    (.ofEpoch 1 0) none (.int 1) record hrecord
  exact ⟨t, row, ht, hone, fun now => ⟨(hgone now).1 .user, ((hgone now).2 none).2 milk⟩⟩

end Turn

/-- Documents whose key is the column of the author of a change. -/
def Demo.signedDocument : Schema Unit where
  name := "Doc"
  table := "docs"
  key := "id"
  columns :=
    [{ name := "id", kind := .integer, isKey := true, role := some .updatedBy },
      { name := "text", kind := .text, nullable := true },
      { name := "deletedAt", kind := .timestamp, nullable := true, role := some .deletedAt }]
  relations := []
  hidden := []
  deletion := .soft

/-- Stamps, each with the time at which it was made, and tickets, whose mark of deletion refers to a stamp of this
time in the text that is to be its default: the mark is taken away with the stamp. -/
def Demo.tickets : Catalog Bool
  | true =>
    { name := "Stamp", table := "stamps", key := "id",
      columns :=
        [Shop.keyColumn "id",
          { name := "createdAt", kind := .timestamp, standard := some "'' UNIQUE", role := some .createdAt }],
      relations := [], hidden := [], deletion := .hard }
  | false =>
    { name := "Ticket", table := "tickets", key := "id",
      columns :=
        [Shop.keyColumn "id",
          { name := "deletedAt", kind := .timestamp, nullable := true, role := some .deletedAt,
            standard := some "NULL REFERENCES stamps (createdAt) ON DELETE SET NULL" }],
      relations := [], hidden := [], deletion := .soft }

/-- Where records are not gone after they were deleted. A change of deleted milk is refused for a member that there
is not, before it is said that there is no milk. The first document, which author 2 deletes, is there as before,
for the deletion is written to the second one. A ticket is back when the stamp is removed that was made at the time
of its deletion. -/
theorem Turn.refused_and_found_after_deletion :
    (let catalog := Demo.Shop.catalog
      let g := Gateway.inDatabase catalog (catalog .product) {}
      let made := (({} : Database).sync (Demo.Shop.all.map catalog)).1
      let found := runAll catalog (fun _ => {}) made [(.ofEpoch 0 0, .create .product none [("name", .string "Milk")])]
      let deleted := found.runAt (.ofEpoch 1 0) (g.delete (.ofEpoch 1 0) none (.int 1))
      (∃ record, deleted.1 = .ok (.marked record)) ∧
        ∀ now, deleted.2.runAt now (g.update now none (.int 1) [("color", .string "white")]) =
          (.error (.malformed (.unknownPayloadField "color" "Product")), { deleted.2 with now })) ∧
      (let catalog : Catalog Unit := fun _ => Demo.signedDocument
        let g := Gateway.inDatabase catalog (catalog ()) {}
        let made := (({} : Database).sync [catalog ()]).1
        let found := runAll catalog (fun _ => {}) made
          [(.ofEpoch 0 0, .create () none [("text", .string "a")]), (.ofEpoch 0 0, .create () none [("text", .string "b")])]
        let deleted := found.runAt (.ofEpoch 1 0) (g.delete (.ofEpoch 1 0) (some (.int 2)) (.int 1))
        (catalog ()).flaw? catalog = none ∧ (∃ record, deleted.1 = .ok (.marked record)) ∧
          (deleted.2.runAt (.ofEpoch 1 0) (g.find (.int 1) {})).1.isOk) ∧
      let g := Gateway.inDatabase Demo.tickets (Demo.tickets false) {}
      let made := (({} : Database).sync [Demo.tickets true, Demo.tickets false]).1
      let found := runAll Demo.tickets (fun _ => {}) made
        [(.ofEpoch 0 0, .create false none []), (.ofEpoch 1 0, .create true none [])]
      let deleted := found.runAt (.ofEpoch 1 0) (g.delete (.ofEpoch 1 0) none (.int 1))
      let last := runAll Demo.tickets (fun _ => {}) deleted.2 [(.ofEpoch 2 0, .delete true none (.int 1))]
      (∀ i, (Demo.tickets i).flaw? Demo.tickets = none) ∧ (∃ record, deleted.1 = .ok (.marked record)) ∧
        (last.runAt (.ofEpoch 2 0) (g.find (.int 1) {})).1.isOk := by
  refine ⟨?_, ?_, ?_⟩
  · intro catalog g made found deleted
    exact ⟨Demo.Shop.exists_marked_milk, fun now => rfl⟩
  · intro catalog g made found deleted
    have hs : (catalog ()).flaw? catalog = none := by decide
    have hmarked : ∃ record, deleted.1 = .ok (.marked record) := Deleted.exists_marked (by decide)
    have hfound : (deleted.2.runAt (.ofEpoch 1 0) (g.find (.int 1) {})).1.isOk := by decide
    exact ⟨hs, hmarked, hfound⟩
  · intro g made found deleted last
    have hs : ∀ i, (Demo.tickets i).flaw? Demo.tickets = none := by intro i; cases i <;> decide
    have hmarked : ∃ record, deleted.1 = .ok (.marked record) := Deleted.exists_marked (by decide +kernel)
    have hfound : (last.runAt (.ofEpoch 2 0) (g.find (.int 1) {})).1.isOk := by decide +kernel
    exact ⟨hs, hmarked, hfound⟩

/-- Switches, whose key is a truth value. -/
def Demo.switches : Schema Unit where
  name := "Switch"
  table := "switches"
  key := "id"
  columns :=
    [{ name := "id", kind := .boolean, isKey := true },
      { name := "deletedAt", kind := .timestamp, nullable := true, role := some .deletedAt }]
  relations := []
  hidden := []
  deletion := .soft

/-- The keys 1 and 2 are read as the same truth value, and so the deletion of the second switch is written to the
first one, and the second one is there as before. -/
example :
    let catalog : Catalog Unit := fun _ => Demo.switches
    let g := Gateway.inDatabase catalog (catalog ()) {}
    let made := (({} : Database).sync [catalog ()]).1
    let found := Turn.runAll catalog (fun _ => {}) made
      [(.ofEpoch 0 0, .create () none []), (.ofEpoch 0 0, .create () none [])]
    let deleted := found.runAt (.ofEpoch 1 0) (g.delete (.ofEpoch 1 0) none (.int 2))
    (catalog ()).flaw? catalog = none ∧ deleted.1.isOk ∧ (deleted.2.runAt (.ofEpoch 1 0) (g.find (.int 2) {})).1.isOk := by
  decide +kernel

end RecordQuery
