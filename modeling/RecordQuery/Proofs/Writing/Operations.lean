import RecordQuery.Proofs.Gateway
import RecordQuery.Proofs.Reading.Searches
import RecordQuery.Proofs.Requests
import RecordQuery.Proofs.Writing.Records
/-!
# Operations that write

What the operations of a gateway do to a database that keeps the records of its schema. A change first finds
the row that it is about, which is live (`Database.find_byKey_eq_ok`), and then that row gets a patch of its
record, or is removed (`Gateway.run_update_cases`, `Gateway.run_delete_cases`). Creating a record adds a row
with a new key (`Gateway.run_create_cases`). What is answered is read from the row that was written
(`Gateway.answerOfRow`).
-/

namespace RecordQuery

open Outcome Sql
open Database (Row Table)

variable {ι : Type} {catalog : Catalog ι} {s : Schema ι} {db : Database} {t : Table} {limits : PageLimits}
  {now : Instant} {actor : Option Scalar} {id : Scalar} {data : Record} {row : Row}

/-- A table of a plain database keeps the records of a schema. -/
structure Database.Keeps (db : Database) (s : Schema ι) (t : Table) : Prop where
  isPlain : db.IsPlain
  isOwn : Text.Ascii.same s.table sequenceName = false
  table : db.table? s.table = some t
  fits : t.Fits s
  isOrdered : t.IsOrdered

/-! ## The record of a key -/

namespace Database

/-- A row that has a key is the only one. -/
theorem Keeps.filter_hasKey_eq (hk : db.Keeps s t) (hs : s.flaw? catalog = none) (hkeyed : s.IsKeyed)
    {key : Param} (hrow : row ∈ t.rows) (hhas : hasKey t s.key key row) :
    t.rows.filter (hasKey t s.key key) = [row] := by
  have hindexed := hk.fits.isIndexedBy_key hs hkeyed
  rcases Table.filter_hasKey hindexed hk.isOrdered with hnone | ⟨found, hfound, hfoundhas, hone⟩
  · exact absurd hhas (List.filter_eq_nil_iff.1 hnone row hrow)
  · rw [hone, eq_of_key_eq hk.isOrdered hfound hrow (Table.hasKey_inj hindexed hfoundhas hhas)]

/-- The test of a key is whether a row has it. -/
theorem holds_truth_key (h : t.IsIndexedBy s.key) (r : Row) :
    ((Test.eq id).truth (Scope.resolve [t.scope r] s.key)).holds = hasKey t s.key (.ofScalar id) r := by
  cases id with
  | null =>
    obtain ⟨f, hf, hkey, haffinity⟩ := h
    rw [hasKey, Table.resolve_key hf hkey haffinity]
    rfl
  | _ => rfl

/-- A row satisfies the statement for a key if it is live and the key is its own. -/
theorem satisfies_byKey (hcovers : t.Covers s) (h : t.IsIndexedBy s.key) {q : Select}
    (hq : (Select.live s).filter catalog s (.eq s.key id) = .ok q) (r : Row) :
    db.satisfies q.conditions (t.scope r) = (s.isLive (t.scope r) && hasKey t s.key (.ofScalar id) r) := by
  have hknown : ∀ name, s.hasColumn name → (t.scope r name).isSome := fun name hname =>
    Table.isSome_scope (hcovers name hname) r
  rcases Select.filter_eq_ok_iff.1 hq with ⟨he, -⟩ | ⟨-, c, hc, rfl⟩
  · cases he
  · obtain ⟨tests, inner, htests, hinner, rfl⟩ := Condition.ofPredicate_all_eq_ok_iff.1 hc
    obtain ⟨d, ds, hd, hds, rfl⟩ := Condition.ofFields_cons_eq_ok_iff.1 htests
    obtain ⟨-, rfl⟩ := Condition.ofConstraint_test_eq_ok_iff.1 hd
    obtain rfl := Except.ok.inj hds
    obtain rfl := Except.ok.inj hinner
    rw [satisfies, Condition.evalAll_append, Truth.holds_and, ← holds_truth_key h]
    congr 1
    · rw [Select.live, Condition.evalAll_unmarked hknown [], Truth.holds_ofBool]
    · simp only [Condition.evalAll, Condition.eval, List.append_nil, Truth.and_yes, Condition.eval_ofTest]

/-- The record of a key is that of a live row that has it. -/
theorem find_byKey_eq_ok (hk : db.Keeps s t) (hs : s.flaw? catalog = none) (hkeyed : s.IsKeyed)
    {record : Record} {records : List Record}
    (h : db.find catalog s (.byKey s id) true = .ok (record :: records)) :
    ∃ row ∈ t.rows, s.isLive (t.scope row) ∧ hasKey t s.key (.ofScalar id) row ∧
      record = Record.ofRow s (Projection.visible s []) (t.scope row) := by
  obtain ⟨q, u, hq, hu, hrecords⟩ := find_whole_eq_ok h
  obtain rfl : t = u := Option.some.inj (hk.table.symm.trans hu)
  obtain ⟨row, rest, hchosen, hrecord, -⟩ := List.map_eq_cons_iff.1 hrecords.symm
  have hrow : row ∈ db.chosen (q.atMost 1) (Projection.visible s []) t := by
    rw [if_pos rfl] at hchosen
    exact hchosen ▸ List.mem_cons_self
  have hmatching := mem_matching_of_mem_chosen hrow
  rw [matching_eq_filter, List.mem_filter] at hmatching
  obtain ⟨hmem, hsatisfies⟩ := hmatching
  have hsatisfies : db.satisfies q.conditions (t.scope row) = true := hsatisfies
  rw [satisfies_byKey hk.fits.covers (hk.fits.isIndexedBy_key hs hkeyed) hq, Bool.and_eq_true] at hsatisfies
  exact ⟨row, hmem, hsatisfies.1, hsatisfies.2, hrecord.symm⟩

end Database

/-! ## Patches of records -/

namespace Schema

/-- The column of a role is one that has it. -/
theorem columnFor?_eq_some {role : Role} {c : Column} (h : s.columnFor? role = some c) :
    c ∈ s.columns ∧ c.role = some role :=
  ⟨List.mem_of_find?_eq_some h, beq_iff_eq.1 (List.find?_some (p := fun c : Column => c.role == some role) h)⟩

/-- Columns of one name are one column. -/
theorem IsKeyed.eq_of_name (h : s.IsKeyed) {c other : Column} (hc : c ∈ s.columns) (hother : other ∈ s.columns)
    (hname : other.name = c.name) : other = c := by
  have hnodup : s.columnNames.Nodup := by
    refine h.apart.imp fun hne heq => hne ?_
    rw [heq, Text.Ascii.same_refl]
  exact List.inj_on_of_nodup_map hnodup hother hc hname

/-- A column that is maintained is not the key. -/
theorem IsKeyed.ne_of_role (h : s.IsKeyed) {role : Role} {c : Column} (hc : s.columnFor? role = some c) :
    c.name ≠ s.key := by
  intro hkey
  obtain ⟨hmem, hrole⟩ := columnFor?_eq_some hc
  obtain ⟨other, hother⟩ := Option.isSome_iff_exists.1 (hasColumn_of_mem hmem)
  obtain ⟨hothermem, hname⟩ := column?_eq_some hother
  obtain rfl : other = c := h.eq_of_name hmem hothermem hname
  have hfree := h.isFree other (hkey ▸ hother)
  rw [hrole] at hfree
  cases hfree

/-- The mark of deleted records is the column of its role. -/
theorem columnFor?_of_deletionMark? {mark : String} (h : s.deletionMark? = some mark) :
    ∃ c, s.columnFor? .deletedAt = some c ∧ c.name = mark := by
  rw [deletionMark?] at h
  split at h
  · exact Option.map_eq_some_iff.1 h
  · cases h

theorem IsKeyed.ne_mark (h : s.IsKeyed) {mark : String} (hm : s.deletionMark? = some mark) : mark ≠ s.key := by
  obtain ⟨c, hc, rfl⟩ := columnFor?_of_deletionMark? hm
  exact h.ne_of_role hc

/-- A column with another role is not the mark. -/
theorem IsKeyed.ne_mark_of_role (h : s.IsKeyed) {mark : String} (hm : s.deletionMark? = some mark) {role : Role}
    (hrole : role ≠ .deletedAt) {c : Column} (hc : s.columnFor? role = some c) : c.name ≠ mark := by
  obtain ⟨d, hd, rfl⟩ := columnFor?_of_deletionMark? hm
  intro hname
  obtain ⟨hmem, hroleOf⟩ := columnFor?_eq_some hc
  obtain ⟨hmemd, hroleOfd⟩ := columnFor?_eq_some hd
  obtain rfl : c = d := h.eq_of_name hmemd hmem hname
  exact hrole (Option.some.inj (hroleOf.symm.trans hroleOfd))

end Schema

namespace Gateway

/-- Maintaining a column writes to no other. -/
theorem get?_stamp {name : String} {role : Role} (value : Json)
    (hrole : ∀ c, s.columnFor? role = some c → c.name ≠ name) :
    Members.get? ((inDatabase catalog s limits).stamp role value data) name = data.get? name := by
  rw [stamp, inDatabase_schema]
  split
  · next c hc => rw [Members.get?_insert, if_neg (hrole c hc).symm]
  · rfl

theorem get?_stampActor {name : String} {role : Role}
    (hrole : actor.isSome → ∀ c, s.columnFor? role = some c → c.name ≠ name) :
    Members.get? ((inDatabase catalog s limits).stampActor role actor data) name = data.get? name := by
  cases actor with
  | none => rfl
  | some actor => exact get?_stamp _ (hrole rfl)

theorem not_mem_keys_stamp {name : String} {role : Role} {value : Json}
    (hrole : ∀ c, s.columnFor? role = some c → c.name ≠ name) (h : name ∉ data.map Prod.fst) :
    name ∉ ((inDatabase catalog s limits).stamp role value data).map Prod.fst := by
  rwa [Members.mem_keys_iff, get?_stamp value hrole, ← Members.mem_keys_iff]

theorem not_mem_keys_stampActor {name : String} {role : Role}
    (hrole : actor.isSome → ∀ c, s.columnFor? role = some c → c.name ≠ name)
    (h : name ∉ data.map Prod.fst) :
    name ∉ ((inDatabase catalog s limits).stampActor role actor data).map Prod.fst := by
  rwa [Members.mem_keys_iff, get?_stampActor hrole, ← Members.mem_keys_iff]

/-- A payload that passes the check does not name the key. -/
theorem not_mem_keys_of_checkMembers (h : Payload.checkMembers s data = .ok ()) :
    s.key ∉ data.map Prod.fst := by
  intro hmem
  obtain ⟨m, hm, hkey⟩ := List.mem_map.1 hmem
  have hcheck := forM_eq_ok_iff.1 h m hm
  rw [Payload.checkMember, if_pos (by rw [hkey, beq_self_eq_true])] at hcheck
  cases hcheck

end Gateway

/-- What saving the patched record of a row comes to: it fails and changes nothing, or the row gets the values
of the record. -/
theorem Database.save_merge_cases (hk : db.Keeps s t) (hs : s.flaw? catalog = none) (hkeyed : s.IsKeyed)
    (hrow : row ∈ t.rows) {patch : Record} (hpatch : s.key ∉ patch.map Prod.fst) :
    let record : Record := (Record.ofRow s (Projection.visible s []) (t.scope row)).merge patch
    (∃ e, db.save s record = (.error e, db)) ∨
      ∃ values changed, record.values s = .ok values ∧ changed.key = row.key ∧
        Table.changedCells db.now none (cellsOf values).reverse row t.fields = .ok changed.cells ∧
        db.save s record =
          ((Record.ofCells? s s.columnNames (t.returned changed s.columnNames)).mapError .database,
            db.replace s.table (t.changing row changed)) := by
  intro record
  have hvisible : s.key ∈ Projection.visible s [] :=
    Projection.mem_visible_iff.2 ⟨Schema.hasColumn_key hs, hkeyed.isShown, List.not_mem_nil⟩
  have hkey : record.key? s = some (.integer row.key) := by
    rw [Record.key?, Members.get?_merge_of_not_mem _ hpatch,
      Loading.get?_ofRow_of_isIndex hkeyed.index hvisible, cellOf_key (hk.fits.isKey hs)]
    rfl
  rcases save_cases hk.isPlain hk.table hk.fits hk.isOrdered hs hkeyed hkey with
    hfails | ⟨found, hfound, hsame, values, changed, hvalues, hchanged, hcells, hsave⟩
  · exact .inl hfails
  · obtain rfl : found = row := eq_of_key_eq hk.isOrdered hfound hrow hsame
    exact .inr ⟨values, changed, hvalues, hchanged, hcells, hsave⟩

/-! ## Operations -/

namespace Gateway

theorem run_existing (message : String) : db.run ((inDatabase catalog s limits).existing message id) =
    match db.find catalog s (.byKey s id) true with
    | .error _ => (.error (.storeFailure message), db)
    | .ok [] => (.error (.notFound s.name id.display), db)
    | .ok (record :: _) => (.ok (Concealment.record catalog s record), db) := by
  rw [existing, Database.run_bind, inDatabase_schema, run_first]
  cases db.find catalog s (.byKey s id) true with
  | error e => rfl
  | ok records => cases records <;> rfl

theorem run_save (message : String) (record : Record) :
    db.run ((inDatabase catalog s limits).save message record) =
      (((db.save s record).1.map (Concealment.record catalog s)).mapError fun _ => .storeFailure message,
        (db.save s record).2) := by
  rw [save, Database.run_bind, run_stored, inDatabase_schema, inDatabase_store]
  have hsave : db.run ((Database.store catalog).save s record) = db.save s record := rfl
  rw [hsave]
  cases (db.save s record).1 <;> rfl

/-- What is answered when a row was written: its record, as it is shown, if all of its columns can be read. -/
def answerOfRow (catalog : Catalog ι) (s : Schema ι) (message : String) (row : Scope) : Except Error Record :=
  ((Record.ofCells? s s.columnNames (s.columnNames.map (Database.cellOf row))).map
    (Concealment.record catalog s)).mapError fun _ => .storeFailure message

theorem run_save_of_row {message : String} {record : Record} {after : Database}
    (h : db.save s record =
      ((Record.ofCells? s s.columnNames (t.returned row s.columnNames)).mapError .database, after)) :
    db.run ((inDatabase catalog s limits).save message record) =
      (answerOfRow catalog s message (t.scope row), after) := by
  have hcells : t.returned row s.columnNames = s.columnNames.map (Database.cellOf (t.scope row)) := rfl
  rw [run_save, h, hcells, answerOfRow]
  cases Record.ofCells? s s.columnNames (s.columnNames.map (Database.cellOf (t.scope row))) <;> rfl

/-- What a change is about: it fails and nothing is changed, or it is about a live row of the key. -/
theorem run_existing_cases (hk : db.Keeps s t) (hs : s.flaw? catalog = none) (hkeyed : s.IsKeyed)
    (message : String) :
    (∃ e, db.run ((inDatabase catalog s limits).existing message id) = (.error e, db)) ∨
      ∃ row ∈ t.rows, s.isLive (t.scope row) ∧ Database.hasKey t s.key (.ofScalar id) row ∧
        db.run ((inDatabase catalog s limits).existing message id) =
          (.ok (Record.ofRow s (Projection.visible s []) (t.scope row)), db) := by
  rw [run_existing]
  cases hfind : db.find catalog s (.byKey s id) true with
  | error e => exact .inl ⟨_, rfl⟩
  | ok records =>
    cases records with
    | nil => exact .inl ⟨_, rfl⟩
    | cons record records =>
      obtain ⟨row, hrow, hlive, hhas, rfl⟩ := Database.find_byKey_eq_ok hk hs hkeyed hfind
      refine .inr ⟨row, hrow, hlive, hhas, ?_⟩
      dsimp only
      rw [Concealment.record_ofRow fun name hn => (Projection.mem_visible_iff.1 hn).2.1]

/-- What changing a record comes to: it fails and nothing is changed, or the live row of the key gets the
values of its patched record and is what is answered. -/
theorem run_update_eq (hk : db.Keeps s t) (hs : s.flaw? catalog = none) (hkeyed : s.IsKeyed) :
    let g := inDatabase catalog s limits
    (∃ e, db.run (g.update now actor id data) = (.error e, db)) ∨
      Payload.checkMembers s data = .ok () ∧
      ∃ row ∈ t.rows, s.isLive (t.scope row) ∧ Database.hasKey t s.key (.ofScalar id) row ∧
        ∃ values changed, Record.values s ((Record.ofRow s (Projection.visible s []) (t.scope row)).merge
            (g.stampActor .updatedBy actor (g.stamp .updatedAt (.string now.text) data))) = .ok values ∧
          changed.key = row.key ∧
          Table.changedCells db.now none (Database.cellsOf values).reverse row t.fields = .ok changed.cells ∧
          db.run (g.update now actor id data) =
            (answerOfRow catalog s updateFailed (t.scope changed),
              db.replace s.table (t.changing row changed)) := by
  intro g
  rw [update, Database.run_bind, run_accept, inDatabase_schema]
  cases hcheck : Payload.checkMembers s data with
  | error e => exact .inl ⟨_, rfl⟩
  | ok u =>
    dsimp only [Outcome.mapError_ok]
    rw [Database.run_bind]
    rcases run_existing_cases hk hs hkeyed updateFailed with ⟨e, h⟩ | ⟨row, hrow, hlive, hhas, h⟩
    · rw [h]
      exact .inl ⟨e, rfl⟩
    · rw [h]
      dsimp only
      have hpatch : s.key ∉
          (g.stampActor .updatedBy actor (g.stamp .updatedAt (.string now.text) data)).map Prod.fst :=
        not_mem_keys_stampActor (fun _ _ => hkeyed.ne_of_role)
          (not_mem_keys_stamp (fun _ => hkeyed.ne_of_role) (not_mem_keys_of_checkMembers hcheck))
      rcases Database.save_merge_cases hk hs hkeyed hrow hpatch with
        ⟨e, hsave⟩ | ⟨values, changed, hvalues, hchanged, hcells, hsave⟩
      · rw [run_save, hsave]
        exact .inl ⟨_, rfl⟩
      · rw [run_save_of_row hsave]
        exact .inr ⟨rfl, row, hrow, hlive, hhas, values, changed, hvalues, hchanged, hcells, rfl⟩

/-- What changing a record leaves: it fails and nothing is changed, or the live row of the key gets the values of
its patched record. -/
theorem run_update_cases (hk : db.Keeps s t) (hs : s.flaw? catalog = none) (hkeyed : s.IsKeyed) :
    let g := inDatabase catalog s limits
    (∃ e, db.run (g.update now actor id data) = (.error e, db)) ∨
      ∃ row ∈ t.rows, s.isLive (t.scope row) ∧ Database.hasKey t s.key (.ofScalar id) row ∧
        ∃ values changed, Record.values s ((Record.ofRow s (Projection.visible s []) (t.scope row)).merge
            (g.stampActor .updatedBy actor (g.stamp .updatedAt (.string now.text) data))) = .ok values ∧
          changed.key = row.key ∧
          Table.changedCells db.now none (Database.cellsOf values).reverse row t.fields = .ok changed.cells ∧
          (db.run (g.update now actor id data)).2 = db.replace s.table (t.changing row changed) := by
  intro g
  rcases run_update_eq hk hs hkeyed with
    hfails | ⟨-, row, hrow, hlive, hhas, values, changed, hvalues, hchanged, hcells, h⟩
  · exact .inl hfails
  · exact .inr ⟨row, hrow, hlive, hhas, values, changed, hvalues, hchanged, hcells, congrArg Prod.snd h⟩

/-- What removing the row of a key comes to: it fails and nothing is changed, or the row is removed. -/
theorem run_remove_cases (hk : db.Keeps s t) (hs : s.flaw? catalog = none) (hkeyed : s.IsKeyed) (hrow : row ∈ t.rows)
    (hhas : Database.hasKey t s.key (.ofScalar id) row) :
    (∃ e, db.run ((Database.store catalog).delete s id) = (.error e, db)) ∨
      db.run ((Database.store catalog).delete s id) = (.ok 1, db.replace s.table (t.removing row)) := by
  have hindexed := hk.fits.isIndexedBy_key hs hkeyed
  have hdelete : db.run ((Database.store catalog).delete s id) = db.remove s id := rfl
  rw [hdelete, Database.remove]
  rcases Database.delete_cases (d := .ofSchema s) (.ofScalar id) hk.isPlain hk.table hindexed
    hk.isOrdered with ⟨fault, hfails⟩ | ⟨hnone, -⟩ | ⟨found, hfound, hfoundhas, hremoved⟩
  · rw [hfails]
    exact .inl ⟨_, rfl⟩
  · exact absurd hhas (hnone row hrow)
  · obtain rfl : found = row :=
      Database.eq_of_key_eq hk.isOrdered hfound hrow (Database.Table.hasKey_inj hindexed hfoundhas hhas)
    rw [hremoved]
    exact .inr rfl

/-- What deleting a record comes to: it fails and nothing is changed, or the live row of the key gets the values
of the record with its mark, or is removed where deleting does not mark. -/
theorem run_delete_cases (hk : db.Keeps s t) (hs : s.flaw? catalog = none) (hkeyed : s.IsKeyed) :
    let g := inDatabase catalog s limits
    (∃ e, db.run (g.delete now actor id) = (.error e, db)) ∨
      ∃ row ∈ t.rows, s.isLive (t.scope row) ∧ Database.hasKey t s.key (.ofScalar id) row ∧
        ((∃ mark, s.deletionMark? = some mark ∧
            ∃ values changed, Record.values s ((Record.ofRow s (Projection.visible s []) (t.scope row)).merge
                (g.stampActor .updatedBy actor (g.stamp .updatedAt (.string now.text)
                  [(mark, .string now.text)]))) = .ok values ∧
              changed.key = row.key ∧
              Table.changedCells db.now none (Database.cellsOf values).reverse row t.fields =
                .ok changed.cells ∧
              (∀ deleted, (db.run (g.delete now actor id)).1 = .ok deleted → ∃ record, deleted = .marked record) ∧
              (db.run (g.delete now actor id)).2 = db.replace s.table (t.changing row changed)) ∨
          s.deletionMark? = none ∧
            db.run (g.delete now actor id) = (.ok (.removed 1), db.replace s.table (t.removing row))) := by
  intro g
  rw [delete, Database.run_bind]
  rcases run_existing_cases hk hs hkeyed deleteFailed with ⟨e, h⟩ | ⟨row, hrow, hlive, hhas, h⟩
  · rw [h]
    exact .inl ⟨e, rfl⟩
  · rw [h, inDatabase_schema]
    dsimp only
    cases hm : s.deletionMark? with
    | some mark =>
      dsimp only
      have hmark : s.key ∉ ([(mark, .string now.text)] : Record).map Prod.fst := by
        simpa using (hkeyed.ne_mark hm).symm
      have hpatch : s.key ∉ (g.stampActor .updatedBy actor (g.stamp .updatedAt (.string now.text)
          [(mark, .string now.text)])).map Prod.fst :=
        not_mem_keys_stampActor (fun _ _ => hkeyed.ne_of_role)
          (not_mem_keys_stamp (fun _ => hkeyed.ne_of_role) hmark)
      rw [Database.run_bind, run_save]
      rcases Database.save_merge_cases hk hs hkeyed hrow hpatch with
        ⟨e, hsave⟩ | ⟨values, changed, hvalues, hchanged, hcells, hsave⟩
      · rw [hsave]
        exact .inl ⟨_, rfl⟩
      · rw [hsave]
        generalize Record.ofCells? s s.columnNames (t.returned changed s.columnNames) = result
        refine .inr ⟨row, hrow, hlive, hhas, .inl ⟨mark, rfl, values, changed, hvalues, hchanged, hcells, ?_, ?_⟩⟩
        · intro deleted hdeleted
          cases result with
          | error e => cases hdeleted
          | ok record => exact ⟨_, (Except.ok.inj hdeleted).symm⟩
        · cases result <;> rfl
    | none =>
      dsimp only
      rw [Database.run_bind, run_stored]
      rw [inDatabase_store]
      rcases run_remove_cases hk hs hkeyed hrow hhas with ⟨e, hfails⟩ | hremoved
      · rw [hfails]
        exact .inl ⟨_, rfl⟩
      · rw [hremoved]
        exact .inr ⟨row, hrow, hlive, hhas, .inr ⟨rfl, rfl⟩⟩

/-- The record of a payload, with the columns that are maintained. -/
def stamped (g : Gateway Database ι) (now : Instant) (actor : Option Scalar) (data : Record) : Record :=
  g.stampActor .updatedBy actor (g.stampActor .createdBy actor
    (g.stamp .updatedAt (.string now.text) (g.stamp .createdAt (.string now.text) data)))

/-- The stamps of a new record write to columns of their roles only. -/
theorem not_mem_keys_stamped {name : String}
    (hrole : ∀ role, role ≠ .deletedAt → ∀ c, s.columnFor? role = some c → c.name ≠ name)
    (h : name ∉ data.map Prod.fst) : name ∉ ((inDatabase catalog s limits).stamped now actor data).map Prod.fst :=
  not_mem_keys_stampActor (fun _ => hrole .updatedBy (by decide))
    (not_mem_keys_stampActor (fun _ => hrole .createdBy (by decide))
      (not_mem_keys_stamp (hrole .updatedAt (by decide)) (not_mem_keys_stamp (hrole .createdAt (by decide)) h)))

/-- What creating a record comes to: it fails and nothing is changed but for a key that is used up, or a row with
the values of the record is added and is what is answered. Its key is one that no row has or had. -/
theorem run_create_cases (hk : db.Keeps s t) (hautomatic : t.isAutomatic) (hkeyed : s.IsKeyed) :
    let g := inDatabase catalog s limits
    (∃ e, db.run (g.create now actor data) = (.error e, db)) ∨
      Payload.checkMembers s data = .ok () ∧
      ∃ values key, Record.values s (g.stamped now actor data) = .ok values ∧ t.lastKey < key ∧
        (∀ r ∈ t.rows, r.key < key) ∧
        ((∃ e, db.run (g.create now actor data) = (.error e, db.replace s.table (t.counting key))) ∨
          ∃ row, t.newRow db.now none key (Database.cellsOf values) = .ok row ∧
            db.run (g.create now actor data) =
              (answerOfRow catalog s createFailed (t.scope row),
                db.replace s.table ((t.counting key).adding row))) := by
  intro g
  rw [create, Database.run_bind, run_accept, inDatabase_schema]
  cases hcheck : Payload.checkMembers s data with
  | error e => exact .inl ⟨_, rfl⟩
  | ok u =>
    dsimp only [Outcome.mapError_ok]
    rw [Database.run_bind, run_accept]
    cases Payload.checkComplete s data with
    | error e => exact .inl ⟨_, rfl⟩
    | ok u =>
      dsimp only [Outcome.mapError_ok]
      have hkey : s.key ∉ (g.stamped now actor data).map Prod.fst :=
        not_mem_keys_stamped (fun _ _ _ => hkeyed.ne_of_role) (not_mem_keys_of_checkMembers hcheck)
      have hnone : Record.key? s (g.stamped now actor data) = none := by
        rw [Members.mem_keys_iff, Option.not_isSome_iff_eq_none] at hkey
        rw [Record.key?, hkey]
      rcases Database.save_new_cases hk.isPlain hk.isOwn hk.table hk.fits hk.isOrdered hautomatic hkeyed hnone with
        ⟨e, hsave⟩ | ⟨values, key, hvalues, hlast, hgreater, ⟨e, hsave⟩ | ⟨row, hrow, hsave⟩⟩
      · rw [stamped] at hsave
        rw [run_save, hsave]
        exact .inl ⟨_, rfl⟩
      · rw [stamped] at hsave
        rw [run_save, hsave]
        exact .inr ⟨rfl, values, key, hvalues, hlast, hgreater, .inl ⟨_, rfl⟩⟩
      · rw [stamped] at hsave
        exact .inr ⟨rfl, values, key, hvalues, hlast, hgreater, .inr ⟨row, hrow, run_save_of_row hsave⟩⟩

end Gateway

/-! ## The shop -/

namespace Demo.Shop

theorem isKeyed (kind : Shop) : (Shop.catalog kind).IsKeyed where
  index := by cases kind <;> decide
  isShown := by cases kind <;> decide
  isFree := by cases kind <;> decide
  only := by cases kind <;> decide
  apart := by cases kind <;> decide

/-- The tables of the shop keep its records. -/
theorem keeps_database (rows : Shop → List Row) (kind : Shop)
    (h : (rows kind).Pairwise fun r other => r.key < other.key) :
    (database rows).Keeps (Shop.catalog kind) (Table.ofSchema (Shop.catalog kind) (rows kind)) where
  isPlain := by
    intro t ht
    obtain ⟨i, -, rfl⟩ := List.mem_map.1 ht
    exact ⟨rfl, by simp [Table.ofSchema], by simp [Table.ofSchema], by simp [Table.ofSchema, Table.fieldOf]⟩
  isOwn := by cases kind <;> decide
  table := table?_database rows kind
  fits := Table.fits_ofSchema (isKeyed kind).apart (rows kind)
  isOrdered := h

end Demo.Shop

end RecordQuery
