import RecordQuery.Proofs.Writing.Operations
/-!
# What operations leave alone

Where no table refers to another, an operation of a gateway has an effect on the rows of its own table at most
(`Database.Confined`): all tables stay what they are defined to be, and the other ones keep their rows. That
needs nothing of the schema, neither that its key is one nor that its columns are there.
-/

namespace RecordQuery

open Outcome Sql
open Database (Row Table)

namespace Database

variable {db after last : Database} {t t' : Table} {name other : String} {e : Edit} {rows done : List Row}

/-- No two tables have a name in common. -/
def IsApart (db : Database) : Prop :=
  db.tables.Pairwise fun t u => Text.Ascii.same t.name u.name = false

/-- Nothing but the rows of one table may be different. -/
structure Confined (name : String) (db after : Database) : Prop where
  isPlain : db.IsPlain → after.IsPlain
  isApart : db.IsApart → after.IsApart
  visit : after.visit = db.visit
  definition : ∀ other, Text.Ascii.same other sequenceName = false →
    (after.table? other).map Table.toDefinition = (db.table? other).map Table.toDefinition
  others : ∀ other, Text.Ascii.same other sequenceName = false → Text.Ascii.same other name = false →
    after.table? other = db.table? other

theorem Confined.refl (name : String) (db : Database) : Confined name db db where
  isPlain := id
  isApart := id
  visit := rfl
  definition _ _ := rfl
  others _ _ _ := rfl

theorem Confined.trans (h : Confined name db after) (h' : Confined name after last) : Confined name db last where
  isPlain hdb := h'.isPlain (h.isPlain hdb)
  isApart hdb := h'.isApart (h.isApart hdb)
  visit := h'.visit.trans h.visit
  definition other hother := (h'.definition other hother).trans (h.definition other hother)
  others other hother hne := (h'.others other hother hne).trans (h.others other hother hne)

theorem IsApart.replace (h : db.IsApart) (ht' : Text.Ascii.same t'.name name) : (db.replace name t').IsApart := by
  have hname : ∀ u : Table, Text.Ascii.lower (if Text.Ascii.same u.name name then t' else u).name =
      Text.Ascii.lower u.name := by
    intro u
    split
    · next hu => exact (Text.Ascii.same_iff.1 ht').trans (Text.Ascii.same_iff.1 hu).symm
    · rfl
  refine List.pairwise_map.2 (h.imp fun {t u} htu => ?_)
  rw [Text.Ascii.same, hname, hname]
  exact htu

/-- Another table with the same definition in the place of a table. -/
theorem Confined.of_replace (hname : Text.Ascii.same name sequenceName = false) (ht : db.table? name = some t)
    (ht' : t'.toDefinition = t.toDefinition) : Confined name db (db.replace name t') := by
  have hsame : Text.Ascii.same t'.name name := ht' ▸ same_of_table? hname ht
  have hothers : ∀ other, Text.Ascii.same other sequenceName = false → Text.Ascii.same other name = false →
      (db.replace name t').table? other = db.table? other :=
    fun other hother hne => table?_replace_of_ne hother hne hsame
  refine ⟨fun h => h.replace ((h.of_table? ht).of_definition ht') name, fun h => h.replace hsame, rfl,
    fun other hother => ?_, hothers⟩
  by_cases hne : Text.Ascii.same other name
  · have hlower := Text.Ascii.same_iff.1 hne
    have heq : ∀ db : Database, db.table? other = db.table? name := fun db => by
      unfold table? Text.Ascii.same
      rw [hlower]
    rw [heq, heq, table?_replace hname ht hsame, ht, Option.map_some, Option.map_some, ht']
  · rw [hothers other hother (Bool.eq_false_iff.2 hne)]

/-! ## Statements -/

theorem exists_of_edit {n : Nat} {said : Option Resolution} {row : Row} {found : Option Row}
    (h : edit (n + 1) said db name e row = .ok (found, after)) : ∃ t, db.table? name = some t := by
  obtain ⟨t, ht, -⟩ := bind_eq_ok_iff.1 h
  exact ⟨t, table_eq_ok_iff.1 ht⟩

/-- A change of one row. -/
theorem confined_edit (hname : Text.Ascii.same name sequenceName = false) (hdb : db.IsPlain) {n : Nat} {row : Row}
    {found : Option Row} (h : edit (n + 1) none db name e row = .ok (found, after)) :
    Confined name db after := by
  obtain ⟨t, ht⟩ := exists_of_edit h
  cases e with
  | remove =>
    rw [edit_remove hdb ht] at h
    split at h
    · obtain ⟨-, rfl⟩ := Prod.mk.inj (Except.ok.inj h)
      exact .refl name db
    · obtain ⟨-, rfl⟩ := Prod.mk.inj (Except.ok.inj h)
      exact .of_replace hname ht rfl
  | assign values =>
    rcases edit_assign_eq_ok hdb ht h with ⟨-, rfl⟩ | ⟨found, changed, -, -, -, rfl⟩
    · exact .refl name after
    · exact .of_replace hname ht rfl

/-- The same change of rows, one after the other. -/
theorem confined_editAll (hname : Text.Ascii.same name sequenceName = false) (hdb : db.IsPlain)
    (h : editAll name e db rows = .ok (done, after)) : Confined name db after := by
  induction rows generalizing db done with
  | nil =>
    obtain ⟨-, rfl⟩ := Prod.mk.inj (Except.ok.inj h)
    exact .refl name db
  | cons row rows ih =>
    rw [editAll] at h
    split at h
    · obtain ⟨⟨found, edited⟩, hskipped, h⟩ := bind_eq_ok_iff.1 h
      obtain ⟨-, rfl⟩ := Prod.mk.inj (Except.ok.inj hskipped)
      obtain ⟨⟨others, last⟩, hrest, h⟩ := bind_eq_ok_iff.1 h
      obtain ⟨-, rfl⟩ := Prod.mk.inj (Except.ok.inj h)
      exact ih hdb hrest
    · obtain ⟨⟨found, edited⟩, hedit, h⟩ := bind_eq_ok_iff.1 h
      obtain ⟨⟨others, last⟩, hrest, h⟩ := bind_eq_ok_iff.1 h
      obtain ⟨-, rfl⟩ := Prod.mk.inj (Except.ok.inj h)
      have hfirst := confined_edit hname hdb hedit
      exact hfirst.trans (ih (hfirst.isPlain hdb) hrest)

/-- What a statement came to is confined if all that it does is. -/
theorem confined_settle {α : Type} {isAnswered : Bool} {outcome : Except Fault (α × Database)}
    (h : ∀ answer after, outcome = .ok (answer, after) → Confined name db after) :
    Confined name db (db.settle isAnswered outcome).2 := by
  unfold settle
  split
  · exact .refl name db
  · next answer after =>
    split
    · exact .refl name db
    · split
      · exact .refl name db
      · exact h answer after rfl

theorem confined_insert {i : Insert} (hname : Text.Ascii.same i.table sequenceName = false) (hdb : db.IsPlain)
    (hsaid : i.resolution = none) : Confined i.table db (db.insert i).2 := by
  cases ht : db.table? i.table with
  | none =>
    refine confined_settle fun answer after h => ?_
    obtain ⟨t, hfound, -⟩ := bind_eq_ok_iff.1 h
    rw [table_eq_ok_iff, ht] at hfound
    cases hfound
  | some t =>
    rcases insert_cases hdb hname ht hsaid with ⟨fault, h⟩ | ⟨key, -, h | ⟨row, -, -, h⟩⟩
    · rw [h]
      exact .refl _ db
    · rw [h]
      exact .of_replace hname ht rfl
    · rw [h]
      exact .of_replace hname ht rfl

theorem confined_update {u : Update} (hname : Text.Ascii.same u.table sequenceName = false) (hdb : db.IsPlain)
    (key : Param) : Confined u.table db (db.update u key).2 := by
  refine confined_settle fun answer after h => ?_
  obtain ⟨t, -, h⟩ := bind_eq_ok_iff.1 h
  obtain ⟨-, -, h⟩ := bind_eq_ok_iff.1 h
  obtain ⟨-, -, h⟩ := bind_eq_ok_iff.1 h
  obtain ⟨⟨rows, last⟩, hedits, h⟩ := bind_eq_ok_iff.1 h
  obtain ⟨-, rfl⟩ := Prod.mk.inj (Except.ok.inj h)
  exact confined_editAll hname hdb hedits

theorem confined_delete {d : Delete} (hname : Text.Ascii.same d.table sequenceName = false) (hdb : db.IsPlain)
    (key : Param) : Confined d.table db (db.delete d key).2 := by
  refine confined_settle fun answer after h => ?_
  obtain ⟨t, -, h⟩ := bind_eq_ok_iff.1 h
  obtain ⟨-, -, h⟩ := bind_eq_ok_iff.1 h
  obtain ⟨⟨rows, last⟩, hedits, h⟩ := bind_eq_ok_iff.1 h
  obtain ⟨-, rfl⟩ := Prod.mk.inj (Except.ok.inj h)
  exact confined_editAll hname hdb hedits

/-! ## The store -/

variable {ι : Type} {catalog : Catalog ι} {s : Schema ι} {record : Record}

theorem confined_save (hname : Text.Ascii.same s.table sequenceName = false) (hdb : db.IsPlain)
    (record : Record) : Confined s.table db (db.save s record).2 := by
  cases hvalues : record.values s with
  | error fault =>
    rw [save, writer, hvalues]
    exact .refl _ db
  | ok values =>
    cases hkey : record.key? s with
    | some key =>
      have hupdate := confined_update (u := ⟨s.table, values, s.key, s.columnNames⟩) hname hdb key
      rcases save_eq_update db hkey hvalues with ⟨e, h⟩ | h
      · rw [h]
        exact .refl _ db
      · rw [h]
        exact hupdate
    | none =>
      have hinsert := confined_insert
        (i := { table := s.table, values, returning := s.columnNames }) hname hdb rfl
      rcases save_eq_insert db hkey hvalues with ⟨e, h⟩ | h
      · rw [h]
        exact .refl _ db
      · rw [h]
        exact hinsert

theorem confined_remove (hname : Text.Ascii.same s.table sequenceName = false) (hdb : db.IsPlain)
    (id : Scalar) : Confined s.table db (db.remove s id).2 := by
  have hdelete := confined_delete (d := .ofSchema s) hname hdb (.ofScalar id)
  rw [remove]
  exact hdelete

end Database

/-! ## Operations -/

namespace Gateway

open Database (Confined)

variable {ι α β : Type} {catalog : Catalog ι} {s : Schema ι} {db : Database} {limits : PageLimits}
  {now : Instant} {actor : Option Scalar} {id : Scalar} {data : Record}

/-- One step after another is confined if both are. -/
theorem confined_bind {x : Step Database α} {f : α → Step Database β} (hdb : db.IsPlain)
    (hx : Confined s.table db (db.run x).2)
    (hf : ∀ a db, db.IsPlain → Confined s.table db (db.run (f a)).2) :
    Confined s.table db (db.run (x >>= f)).2 := by
  rw [Database.run_bind]
  split
  · next a after h =>
    rw [h] at hx
    exact hx.trans (hf a after (hx.isPlain hdb))
  · next e after h =>
    rw [h] at hx
    exact hx

theorem confined_accept (result : Checked α) :
    Confined s.table db (db.run (accept result : Step Database α)).2 := by
  rw [run_accept]
  exact .refl _ db

theorem confined_existing (message : String) (id : Scalar) :
    Confined s.table db (db.run ((inDatabase catalog s limits).existing message id)).2 := by
  rw [run_existing]
  split <;> exact .refl _ db

theorem confined_save (hname : Text.Ascii.same s.table Database.sequenceName = false) (hdb : db.IsPlain)
    (message : String) (record : Record) :
    Confined s.table db (db.run ((inDatabase catalog s limits).save message record)).2 := by
  rw [run_save]
  exact Database.confined_save hname hdb record

theorem confined_create (hname : Text.Ascii.same s.table Database.sequenceName = false) (hdb : db.IsPlain) :
    Confined s.table db (db.run ((inDatabase catalog s limits).create now actor data)).2 :=
  confined_bind hdb (confined_accept _) fun _ _ hdb =>
    confined_bind hdb (confined_accept _) fun _ _ hdb => confined_save hname hdb createFailed _

theorem confined_update (hname : Text.Ascii.same s.table Database.sequenceName = false) (hdb : db.IsPlain) :
    Confined s.table db (db.run ((inDatabase catalog s limits).update now actor id data)).2 :=
  confined_bind hdb (confined_accept _) fun _ _ hdb =>
    confined_bind hdb (confined_existing updateFailed id) fun _ _ hdb => confined_save hname hdb updateFailed _

theorem confined_delete (hname : Text.Ascii.same s.table Database.sequenceName = false) (hdb : db.IsPlain) :
    Confined s.table db (db.run ((inDatabase catalog s limits).delete now actor id)).2 := by
  refine confined_bind hdb (confined_existing deleteFailed id) fun record db hdb => ?_
  rw [inDatabase_schema]
  cases s.deletionMark? with
  | some mark => exact confined_bind hdb (confined_save hname hdb deleteFailed _) fun _ db _ => .refl _ db
  | none =>
    refine confined_bind hdb ?_ fun _ db _ => .refl _ db
    rw [run_stored]
    exact Database.confined_remove hname hdb id

end Gateway

end RecordQuery
