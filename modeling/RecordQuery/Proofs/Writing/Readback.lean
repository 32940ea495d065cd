import RecordQuery.Proofs.Reading.Whole
import RecordQuery.Proofs.Writing.Contents
import RecordQuery.Proofs.Writing.Deleted
/-!
# Reading back what was written

A write answers what is shown of the row that it wrote (`Gateway.answerOfRow_eq_ok`), and a reading afterwards shows
the same: the row is live, can be read, and is the only one of its key. So a record that was created or changed is
found under its key, and a listing of all records has it once, unless another row cannot be read
(`Turn.reads_back`). That takes defaults which are single values and a key that is nothing but a key
(`Turn.unread_after_writing`).
-/

namespace RecordQuery

open Outcome Sql
open Database (Row Table Maintains)

variable {ι : Type} {catalog : Catalog ι} {s : Schema ι} {db : Database} {t : Table} {row : Row} {id : Scalar}
  {limits : PageLimits}

/-! ## What is answered by a write -/

namespace Members

variable {ms : Members} {key : String} {value : Json}

/-- A member with a new key is the last one. -/
theorem insert_of_not_mem (h : key ∉ ms.map Prod.fst) : ms.insert key value = ms ++ [(key, value)] := by
  induction ms with
  | nil => rfl
  | cons m ms ih =>
    obtain ⟨hm, hms⟩ := not_or.1 (List.mem_cons.not.1 h)
    rw [insert, if_neg (Ne.symm hm), ih hms]
    rfl

/-- Pairs with keys of their own are members as they are. -/
theorem ofList_eq_self {pairs : Members} (h : pairs.IsUnique) : ofList pairs = pairs := by
  -- The induction is on the pairs that are still to be put in, whatever members are there before them.
  have hmerge : ∀ ms : Members, (ms ++ pairs).IsUnique → ms.merge pairs = ms ++ pairs := by
    clear h
    induction pairs with
    | nil => intro ms _; rw [List.append_nil]; rfl
    | cons m pairs ih =>
      intro ms h
      have hm : m.1 ∉ ms.map Prod.fst := by
        rw [IsUnique, List.map_append, List.map_cons, List.nodup_append] at h
        exact fun hmem => h.2.2 _ hmem _ List.mem_cons_self rfl
      rw [merge, List.foldl_cons, insert_of_not_mem hm]
      have hnext : (ms ++ [m] ++ pairs).IsUnique := by simpa using h
      simpa [merge] using ih (ms ++ [m]) hnext
  exact hmerge [] h

end Members

namespace Record

variable {names : List String}

/-- The record of columns with names of their own has them in their order. -/
theorem ofRow_eq_map (hnames : names.Nodup) (row : Scope) :
    ofRow s names row = names.map fun name => (name, (kindOf s name).decode (Database.cellOf row name)) := by
  rw [ofRow, ofCells, ← List.map_prod_left_eq_zip, List.map_map]
  refine Members.ofList_eq_self ?_
  rw [Members.IsUnique, List.map_map]
  simpa [Function.comp_def] using hnames

end Record

namespace Concealment

/-- What is shown of columns is what is read of those that are not hidden. -/
theorem record_ofRow_of_nodup {names : List String} (hnames : names.Nodup) (row : Scope) :
    Concealment.record catalog s (Record.ofRow s names row) =
      Record.ofRow s (names.filter fun name => !s.isHidden name) row := by
  rw [Record.ofRow_eq_map hnames, Record.ofRow_eq_map (hnames.filter _), Concealment.record]
  clear hnames
  induction names with
  | nil => rw [List.map_nil, members]; rfl
  | cons name names ih =>
    rw [List.map_cons, members, ih, List.filter_cons]
    cases h : s.isHidden name <;> simp [h, value_decode]

end Concealment

namespace Gateway

/-- The record that a write answers is what is shown of the row that was written. -/
theorem answerOfRow_eq_ok (hkeyed : s.IsKeyed) {message : String} {row : Scope} {record : Record}
    (h : answerOfRow catalog s message row = .ok record) :
    Record.IsReadable s (Projection.visible s []) row ∧ record = Record.ofRow s (Projection.visible s []) row := by
  obtain ⟨whole, hwhole, rfl⟩ := map_eq_ok_iff.1 (mapError_eq_ok_iff.1 h)
  obtain ⟨hreadable, rfl⟩ := Record.ofCells?_eq_ok_iff.1 hwhole
  have hnodup : s.columnNames.Nodup := by
    refine hkeyed.apart.imp fun hne heq => hne ?_
    rw [heq, Text.Ascii.same_refl]
  have hvisible : Projection.visible s [] = s.columnNames.filter fun name => !s.isHidden name := by
    simp [Projection.visible]
  rw [hvisible]
  exact ⟨hreadable.subset List.filter_sublist.subset, Concealment.record_ofRow_of_nodup hnodup row⟩

end Gateway

/-! ## What is read of a row -/

theorem Schema.IsKeyed.mem_visible (h : s.IsKeyed) (hs : s.flaw? catalog = none) : s.key ∈ Projection.visible s [] :=
  Projection.mem_visible_iff.2 ⟨Schema.hasColumn_key hs, h.isShown, List.not_mem_nil⟩

namespace Database

variable {key : Param} {names : List String}

/-- The record of a key is that of the live row that has it, if it can be read. -/
theorem find_byKey (hk : db.Keeps s t) (hs : s.flaw? catalog = none) (hkeyed : s.IsKeyed) (hrow : row ∈ t.rows)
    (hhas : hasKey t s.key (.ofScalar id) row) (hlive : s.isLive (t.scope row))
    (hreadable : Record.IsReadable s (Projection.visible s []) (t.scope row)) :
    db.find catalog s (.byKey s id) true = .ok [Record.ofRow s (Projection.visible s []) (t.scope row)] := by
  obtain ⟨q, hq, hlimits, htables⟩ := Select.exists_filter_key catalog (Schema.hasColumn_key hs) id
  obtain ⟨-, horder, -, hoffset⟩ := Select.plain_of_filter hq
  have hvisible : Projection.visible s [] ≠ [] := List.ne_nil_of_mem (hkeyed.mem_visible hs)
  -- No other row has the key, so it does not matter which rows are live but this one.
  have hmatching : db.matching (q.atMost 1) t = [row] := by
    rw [matching_eq_filter, ← hk.filter_hasKey_eq hs hkeyed hrow hhas]
    refine List.filter_congr fun r hr => ?_
    rw [show (q.atMost 1).conditions = q.conditions from rfl,
      satisfies_byKey hk.fits.covers (hk.fits.isIndexedBy_key hs hkeyed) hq]
    cases hother : hasKey t s.key (.ofScalar id) r with
    | false => rw [Bool.and_false]
    | true =>
      have hone := hk.filter_hasKey_eq hs hkeyed hrow hhas
      obtain rfl : r = row := List.mem_singleton.1 (hone ▸ List.mem_filter.2 ⟨hr, hother⟩)
      rw [hlive, Bool.and_true]
  have hmet : db.met (q.atMost 1) (Projection.visible s []) t = [row] :=
    List.perm_singleton.1 (hmatching ▸ perm_met db (q.atMost 1) (Projection.visible s []) t)
  have hchosen : db.chosen (q.atMost 1) (Projection.visible s []) t = [row] := by
    rw [chosen_of_order_eq_nil (show (q.atMost 1).order = [] from horder), hmet,
      show (q.atMost 1).offset = none from hoffset]
    rfl
  refine (find_whole_eq_ok_iff hk.table hk.fits.covers hvisible hq hlimits htables true).2 ?_
  rw [if_pos rfl, hchosen]
  simpa using hreadable

/-- All records are those of the live rows, if all of them can be read. -/
theorem exists_perm_find_all (hk : db.Keeps s t) (hs : s.flaw? catalog = none) (hkeyed : s.IsKeyed) :
    ∃ rows : List Row, rows.Perm (t.rows.filter fun r => s.isLive (t.scope r)) ∧ ∀ records,
      db.find catalog s { predicate := .everything, projection := .whole s } false = .ok records ↔
        (∀ r ∈ rows, Record.IsReadable s (Projection.visible s []) (t.scope r)) ∧
          rows.map (fun r => Record.ofRow s (Projection.visible s []) (t.scope r)) = records := by
  have hvisible : Projection.visible s [] ≠ [] := List.ne_nil_of_mem (hkeyed.mem_visible hs)
  refine ⟨db.chosen (Select.live s) (Projection.visible s []) t, ?_, fun records =>
    find_whole_eq_ok_iff hk.table hk.fits.covers hvisible Select.filter_everything Select.isWithinLimits_live
      Select.listTables_live false⟩
  have hmatching : db.matching (Select.live s) t = t.rows.filter fun r => s.isLive (t.scope r) := by
    rw [matching_eq_filter]
    refine List.filter_congr fun r _ => ?_
    have hknown : ∀ name, s.hasColumn name → (t.scope r name).isSome := fun name hname =>
      Table.isSome_scope (hk.fits.covers name hname) r
    rw [satisfies, Select.live, Condition.evalAll_unmarked hknown [], Truth.holds_ofBool]
  rw [chosen_of_order_eq_nil (show (Select.live s).order = [] from rfl), ← hmatching]
  exact perm_met db (Select.live s) (Projection.visible s []) t

end Database

/-- A record is what is read of a live row. -/
structure Database.Table.Shows (t : Table) (s : Schema ι) (row : Row) (record : Record) : Prop where
  mem : row ∈ t.rows
  isLive : s.isLive (t.scope row)
  isReadable : Record.IsReadable s (Projection.visible s []) (t.scope row)
  eq_ofRow : record = Record.ofRow s (Projection.visible s []) (t.scope row)

/-- A live row holds what is no text in a column that is shown as one. The column has a default. -/
def Database.Table.HasUnreadable (t : Table) (s : Schema ι) : Prop :=
  ∃ row ∈ t.rows, s.isLive (t.scope row) ∧ ∃ c ∈ s.columns, s.isHidden c.name = false ∧
    c.kind.affinity = .text ∧ c.standard.isSome ∧ (Database.cellOf (t.scope row) c.name).isReadable = false

/-- A record is among records once, and no other has its key. -/
def Record.IsOnlyIn (s : Schema ι) (record : Record) (records : List Record) : Prop :=
  ∃ before after, records = before ++ record :: after ∧
    ∀ other ∈ before ++ after, Members.get? other s.key ≠ record.get? s.key

namespace Database

theorem get?_key_ofRow (hk : db.Keeps s t) (hs : s.flaw? catalog = none) (hkeyed : s.IsKeyed) (r : Row) :
    Members.get? (Record.ofRow s (Projection.visible s []) (t.scope r)) s.key = some (.ofInt64 r.key) := by
  rw [Loading.get?_ofRow_of_isIndex hkeyed.index (hkeyed.mem_visible hs), cellOf_key (hk.fits.isKey hs)]
  rfl

/-- The record of one of several rows is among theirs once. -/
theorem isOnlyIn_map (hk : db.Keeps s t) (hs : s.flaw? catalog = none) (hkeyed : s.IsKeyed) {rows : List Row}
    (hnodup : (rows.map Row.key).Nodup) (hrow : row ∈ rows) :
    Record.IsOnlyIn s (Record.ofRow s (Projection.visible s []) (t.scope row))
      (rows.map fun r => Record.ofRow s (Projection.visible s []) (t.scope r)) := by
  obtain ⟨before, after, rfl⟩ := List.append_of_mem hrow
  rw [List.map_append, List.map_cons, List.nodup_middle, ← List.map_append, List.nodup_cons] at hnodup
  refine ⟨_, _, by rw [List.map_append, List.map_cons], fun other hother hkey => hnodup.1 ?_⟩
  rw [← List.map_append] at hother
  obtain ⟨r, hr, rfl⟩ := List.mem_map.1 hother
  rw [get?_key_ofRow hk hs hkeyed, get?_key_ofRow hk hs hkeyed] at hkey
  have hsame : r.key = row.key := Json.compact_ofInt64_inj.1 (congrArg Json.compact (Option.some.inj hkey))
  exact hsame ▸ List.mem_map_of_mem hr

theorem Table.IsOrdered.nodup_keys (h : t.IsOrdered) : (t.rows.map Row.key).Nodup := by
  refine List.pairwise_map.2 (h.imp fun {r other} hlt heq => ?_)
  rw [heq] at hlt
  exact Int64.lt_irrefl hlt

end Database

/-- Where a maintained table has a row that cannot be read, a default put the content there. -/
theorem Database.Maintains.hasUnreadable (h : db.Maintains s t) (hkeyed : s.IsKeyed) (hrow : row ∈ t.rows)
    (hlive : s.isLive (t.scope row)) (hnot : ¬ Record.IsReadable s (Projection.visible s []) (t.scope row)) :
    t.HasUnreadable s := by
  simp only [Record.IsReadable, not_forall, Bool.not_eq_true] at hnot
  obtain ⟨name, hname, htext, hcell⟩ := hnot
  obtain ⟨hcolumn, hhidden, -⟩ := Projection.mem_visible_iff.1 hname
  obtain ⟨c, hc⟩ := Option.isSome_iff_exists.1 hcolumn
  obtain ⟨hmem, rfl⟩ := Schema.column?_eq_some hc
  rw [hkeyed.kindOf_eq hmem] at htext
  refine ⟨row, hrow, hlive, c, hmem, hhidden, htext, Option.isSome_iff_ne_none.2 fun hnone => ?_, hcell⟩
  rw [h.isLegible row hrow c hmem htext hnone] at hcell
  cases hcell

namespace Gateway

variable {record : Record}

/-- Finding a row by its key. -/
theorem run_find_of_shows (hk : db.Keeps s t) (hs : s.flaw? catalog = none) (hkeyed : s.IsKeyed)
    (h : t.Shows s row record) (hhas : Database.hasKey t s.key (.ofScalar id) row) :
    db.run ((inDatabase catalog s limits).find id {}) = (.ok record, db) := by
  rw [run_find_key (Database.find_byKey hk hs hkeyed h.mem hhas h.isLive h.isReadable),
    Concealment.record_ofRow fun name hn => (Projection.mem_visible_iff.1 hn).2.1, h.eq_ofRow]

/-- A listing of all records has that of a row once, if all live rows can be read. -/
theorem exists_run_list_of_shows (hk : db.Keeps s t) (hs : s.flaw? catalog = none) (hkeyed : s.IsKeyed)
    (h : t.Shows s row record) (hall : ∀ r ∈ t.rows, s.isLive (t.scope r) →
      Record.IsReadable s (Projection.visible s []) (t.scope r)) :
    ∃ listing, db.run ((inDatabase catalog s limits).list {}) = (.ok listing, db) ∧
      record.IsOnlyIn s listing.records := by
  obtain ⟨rows, hperm, hfind⟩ := Database.exists_perm_find_all hk hs hkeyed
  have hmem : ∀ r, r ∈ rows ↔ r ∈ t.rows ∧ s.isLive (t.scope r) := fun r => by
    rw [hperm.mem_iff, List.mem_filter]
  have hreadable : ∀ r ∈ rows, Record.IsReadable s (Projection.visible s []) (t.scope r) := fun r hr =>
    hall r ((hmem r).1 hr).1 ((hmem r).1 hr).2
  have hshown : (rows.map fun r => Record.ofRow s (Projection.visible s []) (t.scope r)).map
      (Concealment.record catalog s) = rows.map fun r => Record.ofRow s (Projection.visible s []) (t.scope r) := by
    rw [List.map_map]
    exact List.map_congr_left fun r _ =>
      Concealment.record_ofRow (fun name hn => (Projection.mem_visible_iff.1 hn).2.1) _
  have hnodup : (rows.map Row.key).Nodup :=
    (hperm.map Row.key).nodup_iff.2 (hk.isOrdered.nodup_keys.sublist (List.filter_sublist.map Row.key))
  rw [run_list_all, (hfind _).2 ⟨hreadable, rfl⟩]
  refine ⟨_, rfl, ?_⟩
  dsimp only
  rw [hshown, h.eq_ofRow]
  exact Database.isOnlyIn_map hk hs hkeyed hnodup ((hmem row).2 ⟨h.mem, h.isLive⟩)

/-- A listing of all records fails if a live row cannot be read. -/
theorem run_list_of_unreadable (hk : db.Keeps s t) (hs : s.flaw? catalog = none) (hkeyed : s.IsKeyed)
    (hrow : row ∈ t.rows) (hlive : s.isLive (t.scope row))
    (hnot : ¬ Record.IsReadable s (Projection.visible s []) (t.scope row)) :
    db.run ((inDatabase catalog s limits).list {}) = (.error (.storeFailure readFailed), db) := by
  obtain ⟨rows, hperm, hfind⟩ := Database.exists_perm_find_all hk hs hkeyed
  rw [run_list_all]
  cases hresult : db.find catalog s { predicate := .everything, projection := .whole s } false with
  | error e => rfl
  | ok records =>
    have hmem : row ∈ rows := hperm.mem_iff.2 (List.mem_filter.2 ⟨hrow, hlive⟩)
    exact absurd (((hfind records).1 hresult).1 row hmem) hnot

/-! ### Writes -/

variable {now : Instant} {actor : Option Scalar} {data : Record}

/-- A record that was created is what is shown of a new row, the last one. -/
theorem exists_shows_of_create (h : db.Maintains s t) (hs : s.flaw? catalog = none) (hkeyed : s.IsKeyed)
    (hmark : ∀ c, s.columnFor? .deletedAt = some c → c.standard = none)
    (hrecord : (db.run ((inDatabase catalog s limits).create now actor data)).1 = .ok record) :
    ∃ row t', t'.toDefinition = t.toDefinition ∧ t'.rows = t.rows ++ [row] ∧ (∀ r ∈ t.rows, r.key < row.key) ∧
      (db.run ((inDatabase catalog s limits).create now actor data)).2.Maintains s t' ∧ t'.Shows s row record := by
  rcases run_create_cases h.toKeeps h.isAutomatic hkeyed with
    ⟨e, hrun⟩ | ⟨hcheck, values, key, hvalues, -, hgreater, ⟨e, hrun⟩ | ⟨row, hrow, hrun⟩⟩
  · rw [hrun] at hrecord
    cases hrecord
  · rw [hrun] at hrecord
    cases hrecord
  · rw [hrun] at hrecord ⊢
    have hkey := Table.key_of_newRow hrow
    have hrows := Table.rows_adding hkey hgreater
    obtain ⟨hreadable, hshown⟩ := answerOfRow_eq_ok hkeyed hrecord
    have hlive : s.isLive (t.scope row) := by
      refine Database.isLive_of_newRow (h.isPlain.of_table? h.table) h.fits hkeyed h.addsNoStandard hmark
        (fun mark hm => ?_) hvalues hrow
      obtain ⟨c, hc, rfl⟩ := Schema.columnFor?_of_deletionMark? hm
      exact not_mem_keys_stamped (fun role hrole c hc => hkeyed.ne_mark_of_role hm hrole hc)
        (Payload.not_mem_keys_of_role hcheck hkeyed hc)
    refine ⟨row, (t.counting key).adding row, rfl, hrows, fun r hr => hkey ▸ hgreater r hr, ?_,
      ⟨hrows ▸ List.mem_append_right _ (List.mem_singleton_self row), hlive, hreadable, hshown⟩⟩
    exact h.adding hs hkeyed hgreater hvalues hrow

/-- A record that was changed is what is shown of the row of its key. -/
theorem exists_shows_of_update (h : db.Maintains s t) (hs : s.flaw? catalog = none) (hkeyed : s.IsKeyed)
    (hrecord : (db.run ((inDatabase catalog s limits).update now actor id data)).1 = .ok record) :
    ∃ row t', (db.run ((inDatabase catalog s limits).update now actor id data)).2.Maintains s t' ∧
      t'.Shows s row record ∧ Database.hasKey t' s.key (.ofScalar id) row := by
  rcases run_update_eq h.toKeeps hs hkeyed with
    ⟨e, hrun⟩ | ⟨hcheck, row, hrow, hlive, hhas, values, changed, hvalues, hkey, hcells, hrun⟩
  · rw [hrun] at hrecord
    cases hrecord
  · rw [hrun] at hrecord ⊢
    obtain ⟨hreadable, hshown⟩ := answerOfRow_eq_ok hkeyed hrecord
    have hchanged : s.isLive (t.scope changed) := by
      refine Database.isLive_of_changed (h.isPlain.of_table? h.table) h.fits hkeyed hlive (fun mark hm => ?_) hvalues
        hcells
      obtain ⟨c, hc, rfl⟩ := Schema.columnFor?_of_deletionMark? hm
      exact not_mem_keys_stampActor (fun _ c hc => hkeyed.ne_mark_of_role hm (by decide) hc)
        (not_mem_keys_stamp (fun c hc => hkeyed.ne_mark_of_role hm (by decide) hc)
          (Payload.not_mem_keys_of_role hcheck hkeyed hc))
    have hmem := Table.mem_rows_changing hrow hkey
    refine ⟨changed, t.changing row changed, ?_, ⟨hmem, hchanged, hreadable, hshown⟩, ?_⟩
    · exact h.changing hs hkeyed hrow hkey hvalues hcells
    · exact (Database.Table.hasKey_congr (h.fits.isIndexedBy_key hs hkeyed) hkey).trans hhas

end Gateway

namespace Turn

/-- The tables that are made for a catalog are maintained by turns. -/
theorem exists_maintains {kinds : List ι} (hall : ∀ i, i ∈ kinds)
    (hs : ∀ i, (catalog i).flaw? catalog = none) (hplain : ∀ i, (catalog i).IsPlain)
    (hown : ∀ i j, Text.Ascii.same (catalog i).table (catalog j).table → i = j) (hempty : db.tables = [])
    (hmade : (db.sync (kinds.map catalog)).2.failures = []) (kind : ι)
    (hindex : (catalog kind).IsIndex (catalog kind).key)
    (hshown : (catalog kind).isHidden (catalog kind).key = false)
    (hfree : ∀ c, (catalog kind).column? (catalog kind).key = some c → c.role = none)
    (limits : ι → PageLimits) (turns : List (Instant × Turn ι)) :
    (catalog kind).IsKeyed ∧
      ∃ t, (runAll catalog limits (db.sync (kinds.map catalog)).1 turns).Maintains (catalog kind) t := by
  have hapart : catalog.IsApart := ⟨fun i => (hplain i).isOwn, hown⟩
  have hsynced : (db.sync (kinds.map catalog)).1.IsMade (kinds.map catalog) := by
    refine Database.isMade_sync (fun s hs => ?_) (fun s hs other hother hsame => ?_) hempty hmade
    · obtain ⟨i, -, rfl⟩ := List.mem_map.1 hs
      exact hplain i
    · obtain ⟨i, -, rfl⟩ := List.mem_map.1 hs
      obtain ⟨j, -, rfl⟩ := List.mem_map.1 hother
      rw [hown j i hsame]
  obtain ⟨t, ht, hmadeFor⟩ := hsynced.exists_madeFor hapart hall kind
  have hkeyed : (catalog kind).IsKeyed := hmadeFor.isKeyed (hs kind) hindex hshown hfree
  have hautomatic : t.isAutomatic := by
    obtain ⟨c, hc, hkey⟩ := Schema.key_of_flaw?_eq_none (hs kind)
    exact hmadeFor.isAutomatic c (Schema.column?_eq_some hc).1 hkey
  have hmaintains : (db.sync (kinds.map catalog)).1.Maintains (catalog kind) t :=
    ⟨hmadeFor.keeps hsynced.isPlain (hapart.isOwn kind) ht, hautomatic, hmadeFor.addsNoStandard,
      by simp [hmadeFor.rows]⟩
  obtain ⟨t', -, h⟩ := maintains_runAll hapart (hs kind) hkeyed hmaintains turns
  exact ⟨hkeyed, t', h⟩

/-- Whatever was done at a catalog's tables since they were made, what a write answers is what is read afterwards. A
record that is created is that of one more row, all others being there as they were, and is found under its key. A
record that is changed is found as it was looked for, and is once in a listing of all records. The listing can fail
for one reason only: a live row holds what is no text in a column of texts, where a default put it. -/
theorem reads_back {kinds : List ι} (hall : ∀ i, i ∈ kinds)
    (hs : ∀ i, (catalog i).flaw? catalog = none) (hplain : ∀ i, (catalog i).IsPlain)
    (hown : ∀ i j, Text.Ascii.same (catalog i).table (catalog j).table → i = j) (hempty : db.tables = [])
    (hmade : (db.sync (kinds.map catalog)).2.failures = []) {kind : ι}
    (hindex : (catalog kind).IsIndex (catalog kind).key)
    (hshown : (catalog kind).isHidden (catalog kind).key = false)
    (hfree : ∀ c, (catalog kind).column? (catalog kind).key = some c → c.role = none)
    (hmark : ∀ c, (catalog kind).columnFor? .deletedAt = some c → c.standard = none)
    (limits : ι → PageLimits) (before : List (Instant × Turn ι)) (time : Instant) (actor : Option Scalar)
    (data : Record) :
    let s := catalog kind
    let g := Gateway.inDatabase catalog s (limits kind)
    let found := runAll catalog limits (db.sync (kinds.map catalog)).1 before
    let created := found.runAt time (g.create time actor data)
    let updated := fun id => found.runAt time (g.update time actor id data)
    (∀ record, created.1 = .ok record →
      ∃ t t' row, found.table? s.table = some t ∧ created.2.table? s.table = some t' ∧
        t'.toDefinition = t.toDefinition ∧ t'.rows = t.rows ++ [row] ∧ (∀ r ∈ t.rows, r.key ≠ row.key) ∧
        record.get? s.key = some (.ofInt64 row.key) ∧
        ∀ now, (created.2.runAt now (g.find (.int row.key) {})).1 = .ok record) ∧
    ∀ id record, (updated id).1 = .ok record →
      ∀ now, ((updated id).2.runAt now (g.find id {})).1 = .ok record ∧
        ((∃ listing, ((updated id).2.runAt now (g.list {})).1 = .ok listing ∧ record.IsOnlyIn s listing.records) ∨
          ((updated id).2.runAt now (g.list {})).1 = .error (.storeFailure Gateway.readFailed) ∧
            ∃ t, (updated id).2.table? s.table = some t ∧ t.HasUnreadable s) := by
  intro s g found created updated
  obtain ⟨hkeyed, t, hfound⟩ :=
    exists_maintains hall hs hplain hown hempty hmade kind hindex hshown hfree limits before
  constructor
  · intro record hrecord
    obtain ⟨row, t', hdefinition, hrows, hgreater, h, hshows⟩ :=
      Gateway.exists_shows_of_create (hfound.atTime time) (hs kind) hkeyed hmark hrecord
    have hkey : record.get? s.key = some (.ofInt64 row.key) := by
      rw [hshows.eq_ofRow, Database.get?_key_ofRow h.toKeeps (hs kind) hkeyed]
    have hhas : Database.hasKey t' s.key (.ofScalar (.int row.key)) row :=
      (Database.Table.hasKey_integer_iff (h.fits.isIndexedBy_key (hs kind) hkeyed)).2 rfl
    refine ⟨t, t', row, hfound.table, h.table, hdefinition, hrows, fun r hr => Int64.ne_of_lt (hgreater r hr), hkey,
      fun now => ?_⟩
    exact congrArg Prod.fst (Gateway.run_find_of_shows (h.atTime now).toKeeps (hs kind) hkeyed hshows hhas)
  · intro id record hrecord now
    obtain ⟨row, t', h, hshows, hhas⟩ :=
      Gateway.exists_shows_of_update (hfound.atTime time) (hs kind) hkeyed hrecord
    have hnow := (h.atTime now).toKeeps
    refine ⟨congrArg Prod.fst (Gateway.run_find_of_shows hnow (hs kind) hkeyed hshows hhas), ?_⟩
    -- A listing reads all live rows, so the row that was written does not decide whether it succeeds.
    by_cases hall : ∀ r ∈ t'.rows, s.isLive (t'.scope r) →
        Record.IsReadable s (Projection.visible s []) (t'.scope r)
    · obtain ⟨listing, hlist, honly⟩ := Gateway.exists_run_list_of_shows hnow (hs kind) hkeyed hshows hall
      exact .inl ⟨listing, congrArg Prod.fst hlist, honly⟩
    · simp only [not_forall] at hall
      obtain ⟨other, hother, hlive, hnot⟩ := hall
      exact .inr ⟨congrArg Prod.fst (Gateway.run_list_of_unreadable hnow (hs kind) hkeyed hother hlive hnot), t',
        h.table, h.hasUnreadable hkeyed hother hlive hnot⟩

end Turn

/-! ## Accounts, and records that are not read back as they were written -/

namespace Turn

/-- An account that is made after another one, and the first one with another address. Both are read back without
their passwords. -/
theorem reads_back_shop :
    let catalog := Demo.Shop.catalog
    let s := catalog .user
    let g := Gateway.inDatabase catalog s {}
    let synced := ({} : Database).sync (Demo.Shop.all.map catalog)
    let first : Record := [("email", .string "a"), ("password", .string "key")]
    let data : Record := [("email", .string "b"), ("password", .string "word")]
    let found := runAll catalog (fun _ => {}) synced.1 [(.ofEpoch 0 0, .create .user none first)]
    let created := found.runAt (.ofEpoch 1 0) (g.create (.ofEpoch 1 0) none data)
    let updated := found.runAt (.ofEpoch 1 0) (g.update (.ofEpoch 1 0) none (.int 1) data)
    (∀ i, i ∈ Demo.Shop.all) ∧ (∀ i, (catalog i).flaw? catalog = none) ∧ (∀ i, (catalog i).IsPlain) ∧
      (∀ i j, Text.Ascii.same (catalog i).table (catalog j).table → i = j) ∧ synced.2.failures = [] ∧
      s.IsIndex s.key ∧ s.isHidden s.key = false ∧ (∀ c, s.column? s.key = some c → c.role = none) ∧
      (∀ c, s.columnFor? .deletedAt = some c → c.standard = none) ∧
      (∃ record, ∃ row : Row, created.1 = .ok record ∧ record.get? s.key = some (.ofInt64 row.key) ∧
        ∀ now, (created.2.runAt now (g.find (.int row.key) {})).1 = .ok record) ∧
      ∃ record, updated.1 = .ok record ∧ ∀ now, (updated.2.runAt now (g.find (.int 1) {})).1 = .ok record := by
  intro catalog s g synced first data found created updated
  have hall : ∀ i, i ∈ Demo.Shop.all := by intro i; cases i <;> decide
  have hs : ∀ i, (catalog i).flaw? catalog = none := Demo.Shop.flaw?_eq_none
  have hplain : ∀ i, (catalog i).IsPlain := Demo.Shop.isPlain
  have hown : ∀ i j, Text.Ascii.same (catalog i).table (catalog j).table → i = j := by
    intro i j
    cases i <;> cases j <;> decide
  have hfailures : synced.2.failures = [] := List.isEmpty_iff.1 (by decide)
  have hkeyed : s.IsKeyed := Demo.Shop.isKeyed .user
  have hmark : ∀ c, s.columnFor? .deletedAt = some c → c.standard = none := by
    rintro c ⟨⟩
    rfl
  obtain ⟨record, hrecord⟩ : ∃ record, created.1 = .ok record := Outcome.exists_of_isOk (by decide +kernel)
  obtain ⟨other, hother⟩ : ∃ record, updated.1 = .ok record := Outcome.exists_of_isOk (by decide +kernel)
  obtain ⟨hcreate, hupdate⟩ := reads_back hall hs hplain hown rfl hfailures hkeyed.index hkeyed.isShown hkeyed.isFree
    hmark (fun _ => {}) [(.ofEpoch 0 0, .create .user none first)] (.ofEpoch 1 0) none data
  obtain ⟨t, t', row, -, -, -, -, -, hkey, hfind⟩ := hcreate record hrecord
  exact ⟨hall, hs, hplain, hown, hfailures, hkeyed.index, hkeyed.isShown, hkeyed.isFree, hmark,
    ⟨record, row, hrecord, hkey, hfind⟩, other, hother, fun now => (hupdate (.int 1) other hother now).1⟩

end Turn

/-- Notes whose text is by default no text. -/
def Demo.spoiltNote : Schema Unit where
  name := "Note"
  table := "notes"
  key := "id"
  columns :=
    [Shop.keyColumn "id", { name := "text", kind := .text, nullable := true, standard := some "x'ff'" }]
  relations := []
  hidden := []
  deletion := .hard

/-- Tags with a number, the text of whose default goes on to say that there is one tag of each number, the last. -/
def Demo.tag : Schema Unit where
  name := "Tag"
  table := "tags"
  key := "id"
  columns := [Shop.keyColumn "id", { name := "n", kind := .integer, standard := some "0 UNIQUE ON CONFLICT REPLACE" }]
  relations := []
  hidden := []
  deletion := .hard

/-- Marks whose automatic key is read as a truth value. -/
def Demo.mark : Schema Unit where
  name := "Mark"
  table := "marks"
  key := "id"
  columns := [{ Shop.keyColumn "id" with kind := .boolean }, { name := "text", kind := .text, nullable := true }]
  relations := []
  hidden := []
  deletion := .hard

/-- The table of the notes after a note was made without a text and another one was changed has a row that cannot be
read. -/
theorem Demo.exists_spoiltNote :
    let catalog : Catalog Unit := fun _ => Demo.spoiltNote
    let s := catalog ()
    let last := Turn.runAll catalog (fun _ => {}) (({} : Database).sync [s]).1
      [(.ofEpoch 0 0, .create () none []), (.ofEpoch 0 0, .create () none [("text", .string "a")]),
        (.ofEpoch 1 0, .update () none (.int 2) [("text", .string "b")])]
    s.IsKeyed ∧ ∃ t, last.Keeps s t ∧ ∃ row ∈ t.rows, s.isLive (t.scope row) ∧
      ¬ Record.IsReadable s (Projection.visible s []) (t.scope row) := by
  intro catalog s last
  have hplain : s.IsPlain := by
    refine ⟨by decide, by decide, by decide, by decide, ?_⟩
    unfold Column.HasPlainStandard
    decide
  have hfree : ∀ c, s.column? s.key = some c → c.role = none := by
    rintro c ⟨⟩
    rfl
  have hall : ∀ i, i ∈ [()] := fun _ => List.mem_singleton_self _
  have hmade : (({} : Database).sync ([()].map catalog)).2.failures = [] := List.isEmpty_iff.1 (by decide)
  have hindex : s.IsIndex s.key := by decide
  have hshown : s.isHidden s.key = false := by decide
  obtain ⟨hkeyed, t, hlast⟩ := Turn.exists_maintains hall (fun _ => by decide) (fun _ => hplain) (fun _ _ _ => rfl) rfl
    hmade () hindex hshown hfree (fun _ => {}) [(.ofEpoch 0 0, .create () none []),
      (.ofEpoch 0 0, .create () none [("text", .string "a")]),
      (.ofEpoch 1 0, .update () none (.int 2) [("text", .string "b")])]
  have hunreadable : (last.table? s.table).any fun t => t.rows.any fun r =>
      s.isLive (t.scope r) && !(Database.cellOf (t.scope r) "text").isReadable := by decide +kernel
  have hlast : last.Maintains s t := hlast
  rw [hlast.table, Option.any_some, List.any_eq_true] at hunreadable
  obtain ⟨row, hrow, h⟩ := hunreadable
  rw [Bool.and_eq_true, Bool.not_eq_true'] at h
  refine ⟨hkeyed, t, hlast.toKeeps, row, hrow, h.1, fun hread => ?_⟩
  rw [hread "text" (by decide) (by decide)] at h
  cases h.2

/-- Where records are not read back. The second note is changed, and the listing after it fails, for the first one has
what is no text. What author 2 makes of the first document is not what is found under its key, for it is written to the
second one. A tag takes the place of the one before it. Two marks have the same key to a reader, who finds the first. -/
theorem Turn.unread_after_writing :
    (let catalog : Catalog Unit := fun _ => Demo.spoiltNote
      let g := Gateway.inDatabase catalog (catalog ()) {}
      let found := runAll catalog (fun _ => {}) (({} : Database).sync [catalog ()]).1
        [(.ofEpoch 0 0, .create () none []), (.ofEpoch 0 0, .create () none [("text", .string "a")])]
      let updated := found.runAt (.ofEpoch 1 0) (g.update (.ofEpoch 1 0) none (.int 2) [("text", .string "b")])
      (catalog ()).flaw? catalog = none ∧ updated.1.isOk ∧
        ∀ now, (updated.2.runAt now (g.list {})).1 = .error (.storeFailure Gateway.readFailed)) ∧
      (let catalog : Catalog Unit := fun _ => Demo.signedDocument
        let g := Gateway.inDatabase catalog (catalog ()) {}
        let found := runAll catalog (fun _ => {}) (({} : Database).sync [catalog ()]).1
          [(.ofEpoch 0 0, .create () none [("text", .string "a")]),
            (.ofEpoch 0 0, .create () none [("text", .string "b")])]
        let updated := found.runAt (.ofEpoch 1 0)
          (g.update (.ofEpoch 1 0) (some (.int 2)) (.int 1) [("text", .string "c")])
        (catalog ()).flaw? catalog = none ∧ updated.1.isOk ∧
          (updated.2.runAt (.ofEpoch 1 0) (g.find (.int 1) {})).1 ≠ updated.1) ∧
      (let catalog : Catalog Unit := fun _ => Demo.tag
        let g := Gateway.inDatabase catalog (catalog ()) {}
        let found := runAll catalog (fun _ => {}) (({} : Database).sync [catalog ()]).1
          [(.ofEpoch 0 0, .create () none [])]
        let created := found.runAt (.ofEpoch 1 0) (g.create (.ofEpoch 1 0) none [])
        (catalog ()).flaw? catalog = none ∧ created.1.isOk ∧
          (found.table? "tags").map (fun t => t.rows) = some [⟨1, [("n", .integer 0)]⟩] ∧
          (created.2.table? "tags").map (fun t => t.rows) = some [⟨2, [("n", .integer 0)]⟩]) ∧
      let catalog : Catalog Unit := fun _ => Demo.mark
      let g := Gateway.inDatabase catalog (catalog ()) {}
      let found := runAll catalog (fun _ => {}) (({} : Database).sync [catalog ()]).1
        [(.ofEpoch 0 0, .create () none [("text", .string "a")])]
      let created := found.runAt (.ofEpoch 1 0) (g.create (.ofEpoch 1 0) none [("text", .string "b")])
      (catalog ()).flaw? catalog = none ∧
        created.1.toOption.map (fun r : Record => (r.get? "id").map Json.compact) = some (some "true") ∧
        (created.2.runAt (.ofEpoch 1 0) (g.find (.bool true) {})).1 ≠ created.1 := by
  refine ⟨?_, ?_, ?_, ?_⟩
  · intro catalog g found updated
    have hs : (catalog ()).flaw? catalog = none := by decide
    have hupdated : updated.1.isOk := by decide +kernel
    obtain ⟨hkeyed, t, hk, row, hrow, hlive, hnot⟩ := Demo.exists_spoiltNote
    have hk : updated.2.Keeps (catalog ()) t := hk
    exact ⟨hs, hupdated, fun now => congrArg Prod.fst
      (Gateway.run_list_of_unreadable (hk.atTime now) hs hkeyed hrow hlive hnot)⟩
  · intro catalog g found updated
    have hs : (catalog ()).flaw? catalog = none := by decide
    have hupdated : updated.1.isOk := by decide +kernel
    refine ⟨hs, hupdated, fun heq => ?_⟩
    have hkeys : updated.1.toOption.map (fun r : Record => (r.get? "id").map Json.compact) ≠
        (updated.2.runAt (.ofEpoch 1 0) (g.find (.int 1) {})).1.toOption.map
          fun r : Record => (r.get? "id").map Json.compact := by
      decide +kernel
    exact hkeys (by rw [heq])
  · intro catalog g found created
    have hs : (catalog ()).flaw? catalog = none := by decide
    have hcreated : created.1.isOk := by decide +kernel
    have hbefore : (found.table? "tags").map (fun t => t.rows) = some [⟨1, [("n", .integer 0)]⟩] := by decide +kernel
    have hafter : (created.2.table? "tags").map (fun t => t.rows) = some [⟨2, [("n", .integer 0)]⟩] := by
      decide +kernel
    exact ⟨hs, hcreated, hbefore, hafter⟩
  · intro catalog g found created
    have hs : (catalog ()).flaw? catalog = none := by decide
    have hkey : created.1.toOption.map (fun r : Record => (r.get? "id").map Json.compact) = some (some "true") := by
      decide +kernel
    refine ⟨hs, hkey, fun heq => ?_⟩
    have htexts : (created.2.runAt (.ofEpoch 1 0) (g.find (.bool true) {})).1.toOption.map
        (fun r : Record => (r.get? "text").map Json.compact) ≠
          created.1.toOption.map fun r : Record => (r.get? "text").map Json.compact := by
      decide +kernel
    exact htexts (by rw [heq])

end RecordQuery
