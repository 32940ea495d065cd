import RecordQuery.Proofs.Reading.Answers
import RecordQuery.Proofs.Writing.Confinement
/-!
# Rows that are gone

A row with a deletion mark is as good as gone: with it and without it all that is read is the same
(`Database.alike_removing`), its key leads to nothing (`Database.find_byKey_eq_nil`), and a change or a deletion
of its record reports that there is none (`Gateway.run_update_of_dead`, `Gateway.run_delete_of_dead`).
-/

namespace RecordQuery

open Outcome Sql
open Database (Row Table)

variable {ι : Type} {catalog : Catalog ι} {root s : Schema ι} {db : Database} {t : Table} {row : Row}
  {id : Scalar} {limits : PageLimits} {now : Instant} {actor : Option Scalar} {data : Record}

/-! ## The key of no live row -/

/-- The statement for a key. -/
theorem Sql.Select.filter_eq_key (hkey : s.hasColumn s.key) :
    (Select.live s).filter catalog s (.eq s.key id) = .ok { Select.live s with
      conditions := Condition.unmarked s ++ [.all [Condition.ofTest s.key (.eq id)]] } := by
  have hcondition : Condition.ofPredicate catalog s (.eq s.key id) =
      .ok (.all [Condition.ofTest s.key (.eq id)]) := by
    simp [Predicate.eq, Condition.ofPredicate, Condition.ofFields, Condition.ofAll, Condition.ofConstraint,
      requireColumn, hkey, bind, Except.bind]
  rw [filter, if_neg (by simp [Predicate.eq, Predicate.isEverything]), hcondition]
  rfl

namespace Database

/-- A statement of two conditions at most that bind one value. -/
theorem isWithinLimits_byKey :
    ({ Select.live s with
      conditions := Condition.unmarked s ++ [.all [Condition.ofTest s.key (.eq id)]] } : Select).isWithinLimits := by
  rw [Condition.unmarked]
  cases s.deletionMark? <;> cases id <;> rfl

theorem listTables_byKey :
    Condition.listTables (Condition.unmarked s ++ [.all [Condition.ofTest s.key (.eq id)]]) = [] := by
  rw [Condition.unmarked]
  cases s.deletionMark? <;> cases id <;> rfl

/-- A statement for columns of a table that no row of the table satisfies. -/
theorem select_eq_nil {q : Select} {columns : List String} (hcolumns : columns ≠ []) (hq : q.isWithinLimits)
    (ht : db.table? q.table = some t) (hknown : ∀ name ∈ columns, (t.field? name).isSome)
    (htables : Condition.listTables q.conditions = []) (horder : q.order = []) (hnone : db.matching q t = []) :
    db.select q columns = .ok [] := by
  have hchosen : db.chosen q columns t = [] := List.eq_nil_iff_forall_not_mem.2 fun r hr =>
    absurd (hnone ▸ mem_matching_of_mem_chosen hr) List.not_mem_nil
  have hnames : columns.forM t.requireName = .ok () := forM_eq_ok_iff.2 fun name hn => by
    rw [Table.requireName, if_pos (by simp [hknown name hn])]
  have hrequired : db.requireTables q.conditions = .ok () := by rw [requireTables, htables]; rfl
  simp only [select, List.isEmpty_iff, hcolumns, if_false, hq, Bool.not_true, Bool.false_eq_true]
  refine bind_eq_ok_iff.2 ⟨t, table_eq_ok_iff.2 ht, bind_eq_ok_iff.2 ⟨(), hnames, ?_⟩⟩
  refine bind_eq_ok_iff.2 ⟨(), hrequired, bind_eq_ok_iff.2 ⟨(), by rw [horder]; rfl, ?_⟩⟩
  rw [hchosen]
  rfl

/-- A key that no live row has leads to no record. -/
theorem find_byKey_eq_nil (hk : db.Keeps s t) (hs : s.flaw? catalog = none) (hkeyed : s.IsKeyed)
    (hnone : ∀ r ∈ t.rows, hasKey t s.key (.ofScalar id) r → s.isLive (t.scope r) = false) :
    db.find catalog s (.byKey s id) true = .ok [] := by
  have hkey := Schema.hasColumn_key hs
  have hvisible : s.key ∈ Projection.visible s [] :=
    Projection.mem_visible_iff.2 ⟨hkey, hkeyed.isShown, List.not_mem_nil⟩
  let q : Select := { Select.live s with
    conditions := Condition.unmarked s ++ [.all [Condition.ofTest s.key (.eq id)]] }
  have hq : (Select.live s).filter catalog s (.eq s.key id) = .ok q := Sql.Select.filter_eq_key hkey
  have hmatching : db.matching q t = [] := by
    rw [matching_eq_filter, List.filter_eq_nil_iff]
    intro r hr hsatisfies
    rw [satisfies_byKey hk.fits.covers (hk.fits.isIndexedBy_key hs hkeyed) hq, Bool.and_eq_true] at hsatisfies
    rw [hnone r hr hsatisfies.2] at hsatisfies
    exact absurd hsatisfies.1 Bool.false_ne_true
  have hselect : db.select (q.atMost 1) (Projection.visible s []) = .ok [] := by
    refine select_eq_nil (List.ne_nil_of_mem hvisible) isWithinLimits_byKey hk.table (fun name hn => ?_)
      listTables_byKey rfl hmatching
    exact hk.fits.covers name (Projection.mem_visible_iff.1 hn).1
  have hfetch : Loading.fetch db s (q.atMost 1) (Projection.visible s []) = .ok [] := by
    have hcolumns : (Projection.visible s []).forM (requireColumn s) = .ok () :=
      forM_eq_ok_iff.2 fun name hn =>
        Condition.requireColumn_eq_ok_iff.2 (Projection.mem_visible_iff.1 hn).1
    rw [Loading.fetch, hcolumns, hselect]
    rfl
  have hstatement : statement catalog s (.byKey s id) true = .ok (q.atMost 1) := by
    rw [statement, show (Query.byKey s id).predicate = .eq s.key id from rfl, hq]
    rfl
  have hinternal : Projection.visible s [] ++ Loading.internalColumns (Projection.visible s [])
      (Loading.neededKeys catalog s (.whole s) "") = Projection.visible s [] := List.append_nil _
  rw [find, hstatement, show (Query.byKey s id).projection = .whole s from rfl,
    show (Projection.whole s).columns = Projection.visible s [] from rfl]
  simp only [Outcome.mapError_ok, hinternal, hfetch, bind, Except.bind]
  rfl

end Database

/-! ## The database without a row -/

namespace Database

/-- A table in its own place is the only one of its name. -/
theorem IsApart.eq_of_same {name : String} (h : db.IsApart)
    (hname : Text.Ascii.same name sequenceName = false) (ht : db.table? name = some t) {u : Table}
    (hu : u ∈ db.tables) (hsame : Text.Ascii.same u.name name) : u = t := by
  have htname := same_of_table? hname ht
  rw [table?, if_neg (by simp [hname])] at ht
  have hsymm : Std.Symm fun t u : Table => Text.Ascii.same t.name u.name = false :=
    ⟨fun t u htu => (Text.Ascii.same_comm u.name t.name).trans htu⟩
  by_contra hne
  have hpair := List.Pairwise.forall h hu (List.mem_of_find?_eq_some ht) hne
  rw [Text.Ascii.same_iff] at hsame htname
  rw [Text.Ascii.same_iff.2 (hsame.trans htname.symm)] at hpair
  cases hpair

/-- The tables that keep the greatest keys are the same without a row. -/
theorem sequence?_removing (hapart : db.IsApart) (hk : db.Keeps s t) (row : Row) :
    (db.replace s.table (t.removing row)).sequence? = db.sequence? := by
  rw [sequence?_eq_sequenceOf, sequence?_eq_sequenceOf, replace, List.map_map]
  congr 1
  refine List.map_congr_left fun u hu => ?_
  rw [Function.comp_apply]
  split
  · next hsame =>
    obtain rfl := hapart.eq_of_same hk.isOwn hk.table hu hsame
    rfl
  · rfl

/-- A row with a deletion mark is not among the live rows of its table. -/
theorem live_removing (hk : db.Keeps s t) (hrow : row ∈ t.rows) (hdead : s.isLive (t.scope row) = false) :
    (t.removing row).live s = t.live s := by
  have hrows : (t.removing row).live s = (t.besides row).filter fun r => s.isLive (t.scope r) := rfl
  rw [hrows, Table.live, Table.besides, List.filter_filter]
  refine List.filter_congr fun r hr => ?_
  by_cases hkey : r.key = row.key
  · rw [eq_of_key_eq hk.isOrdered hr hrow hkey, hdead, Bool.false_and]
  · simp [hkey]

/-- A database looks alike with a row that has a deletion mark and without it. -/
theorem alike_removing (hsound : Schema.IsSound catalog root) (hcovers : db.Covers catalog root)
    (hapart : db.IsApart) (hk : db.Keeps s t)
    (hown : ∀ other, Schema.IsIn catalog root other → Text.Ascii.same other.table sequenceName = false ∧
      (Text.Ascii.same other.table s.table → other = s))
    (hrow : row ∈ t.rows) (hdead : s.isLive (t.scope row) = false) :
    (View.whole hsound).Alike db (db.replace s.table (t.removing row)) := by
  have hname : Text.Ascii.same (t.removing row).name s.table :=
    same_of_table? (t := t) hk.isOwn hk.table
  have hreplaced := table?_replace hk.isOwn hk.table hname
  have hconfined : Confined s.table db (db.replace s.table (t.removing row)) :=
    .of_replace hk.isOwn hk.table rfl
  have hlive : ∀ {other : Schema ι} {u u' : Table}, Schema.IsIn catalog root other →
      db.table? other.table = some u → (db.replace s.table (t.removing row)).table? other.table = some u' →
      u.toDefinition = u'.toDefinition ∧ u.live other = u'.live other := by
    intro other u u' hin hu hu'
    obtain ⟨hname, hsame⟩ := hown other hin
    by_cases hthis : Text.Ascii.same other.table s.table
    · obtain rfl := hsame hthis
      obtain rfl := Option.some.inj (hk.table.symm.trans hu)
      obtain rfl := Option.some.inj (hreplaced.symm.trans hu')
      exact ⟨rfl, (live_removing hk hrow hdead).symm⟩
    · rw [hconfined.others other.table hname (Bool.eq_false_iff.2 hthis), hu] at hu'
      obtain rfl := Option.some.inj hu'
      exact ⟨rfl, rfl⟩
  refine ⟨hcovers, fun name => ?_, fun {other u u'} hin hu hu' => ?_, rfl, fun {other u u'} _ hin hu hu' => ?_⟩
  · cases hname : Text.Ascii.same name sequenceName with
    | true => rw [table?, table?, if_pos hname, if_pos hname, sequence?_removing hapart hk]
    | false => exact (hconfined.definition name hname).symm
  · obtain ⟨hdefinition, heq⟩ := hlive hin hu hu'
    rw [← heq]
    refine List.forall₂_same.2 fun r _ name _ => ?_
    rw [Table.scope_eq hdefinition]
  · exact (hlive hin hu hu').2

end Database

namespace Gateway

/-- All that callers read of two databases is the same: the records in their order, the summaries of pages, and
what fails. -/
structure ReadsAlike (g : Gateway Database ι) (db db' : Database) : Prop where
  find : ∀ id request, (db.run (g.find id request)).1 = (db'.run (g.find id request)).1
  findBy : ∀ predicate request,
    (db.run (g.findBy predicate request)).1 = (db'.run (g.findBy predicate request)).1
  list : ∀ request, (db.run (g.list request)).1 = (db'.run (g.list request)).1

theorem readsAlike_of_alike {db' : Database} (hsound : Schema.IsSound catalog s)
    (h : (View.whole hsound).Alike db db') (limits : PageLimits) :
    (inDatabase catalog s limits).ReadsAlike db db' := by
  constructor <;> simp only [run_find, run_findBy, run_list]
  · refine fun id request => h.answerOfFind_eq fun q hq => ?_
    refine Query.isWithin_whole hsound ?_ hq
    simpa using Schema.hasColumn_key (hsound s Schema.isIn_root)
  · refine fun p request => h.answerOfFindBy_eq fun hp q hq => ?_
    have hwithin := Query.isWithin_whole hsound (by simp) hq
    have hpredicate : p.IsWithin (View.whole hsound) s :=
      Predicate.isWithin_of_check (fun _ _ _ hn => (Access.admits_iff.1 hn).1) Schema.isIn_root hp
    exact { hwithin with predicate := Predicate.isWithin_and hpredicate hwithin.predicate }
  · exact fun request => h.answerOfList_eq fun q hq => Query.isWithin_whole hsound (by simp) hq

/-! ## Changes of records that are gone -/

theorem run_existing_of_dead (hk : db.Keeps s t) (hs : s.flaw? catalog = none) (hkeyed : s.IsKeyed)
    (hnone : ∀ r ∈ t.rows, Database.hasKey t s.key (.ofScalar id) r → s.isLive (t.scope r) = false)
    (message : String) : db.run ((inDatabase catalog s limits).existing message id) =
      (.error (.notFound s.name id.display), db) := by
  rw [run_existing, Database.find_byKey_eq_nil hk hs hkeyed hnone]

/-- A record that is gone cannot be changed: what was asked for is refused, or there is no record. -/
theorem run_update_of_dead (hk : db.Keeps s t) (hs : s.flaw? catalog = none) (hkeyed : s.IsKeyed)
    (hnone : ∀ r ∈ t.rows, Database.hasKey t s.key (.ofScalar id) r → s.isLive (t.scope r) = false) :
    db.run ((inDatabase catalog s limits).update now actor id data) =
      (((Payload.checkMembers s data).mapError .malformed).bind fun _ =>
        .error (.notFound s.name id.display), db) := by
  rw [update, Database.run_bind, run_accept, inDatabase_schema]
  cases Payload.checkMembers s data with
  | error e => rfl
  | ok u =>
    dsimp only [Outcome.mapError_ok]
    rw [Database.run_bind, run_existing_of_dead hk hs hkeyed hnone]
    rfl

/-- A record that is gone cannot be deleted again. -/
theorem run_delete_of_dead (hk : db.Keeps s t) (hs : s.flaw? catalog = none) (hkeyed : s.IsKeyed)
    (hnone : ∀ r ∈ t.rows, Database.hasKey t s.key (.ofScalar id) r → s.isLive (t.scope r) = false) :
    db.run ((inDatabase catalog s limits).delete now actor id) =
      (.error (.notFound s.name id.display), db) := by
  rw [delete, Database.run_bind, run_existing_of_dead hk hs hkeyed hnone]

end Gateway

end RecordQuery
