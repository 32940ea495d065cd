import RecordQuery.Gateway.Concealment
import RecordQuery.Proofs.Reading.Fetched
import RecordQuery.Proofs.Writing.Statements
/-!
# Records that are written

A record becomes the values of a row by its members that are columns, the key apart (`Record.mem_values`). With
a key it is an UPDATE of the row of that key, and without one an INSERT (`Database.save_cases`,
`Database.save_new_cases`). What the columns of a row are shown as has nothing to conceal
(`Concealment.record_ofRow`).
-/

namespace RecordQuery

open Outcome Sql
open Database (Row Table)

variable {ι : Type} {catalog : Catalog ι} {s : Schema ι} {db : Database} {t : Table} {name : String}
  {record : Record}

/-! ## Members of records -/

namespace Members

variable {ms patch : Members} {key : String} {value : Json} {m : String × Json}

theorem mem_of_mem_insert (h : m ∈ ms.insert key value) : m = (key, value) ∨ m ∈ ms := by
  induction ms with
  | nil => exact .inl (List.mem_singleton.1 h)
  | cons first ms ih =>
    rw [insert] at h
    split at h
    · next hkey =>
      rcases List.mem_cons.1 h with rfl | h
      · exact .inl (by rw [hkey])
      · exact .inr (List.mem_cons_of_mem _ h)
    · rcases List.mem_cons.1 h with rfl | h
      · exact .inr List.mem_cons_self
      · exact (ih h).imp_right (List.mem_cons_of_mem _)

theorem mem_of_mem_merge (h : m ∈ ms.merge patch) : m ∈ patch ∨ m ∈ ms := by
  rw [merge] at h
  induction patch generalizing ms with
  | nil => exact .inr h
  | cons first patch ih =>
    rcases ih h with h | h
    · exact .inl (List.mem_cons_of_mem _ h)
    · rcases mem_of_mem_insert h with rfl | h
      · exact .inl List.mem_cons_self
      · exact .inr h

/-- What a patch does not name stays. -/
theorem get?_merge_of_not_mem (ms : Members) (h : key ∉ patch.map Prod.fst) :
    get? (ms.merge patch) key = ms.get? key := by
  rw [merge]
  induction patch generalizing ms with
  | nil => rfl
  | cons first patch ih =>
    obtain ⟨hfirst, hrest⟩ := not_or.1 (List.mem_cons.not.1 h)
    rw [List.foldl_cons, ih _ hrest, get?_insert, if_neg hfirst]

end Members

namespace Concealment

/-- Nothing is taken from members that are shown and hold no records. -/
theorem members_eq_self {ms : Members}
    (h : ∀ m ∈ ms, s.isHidden m.1 = false ∧ ∀ schemas : List (Schema ι), value catalog schemas m.2 = m.2) :
    members catalog [s] ms = ms := by
  induction ms with
  | nil => rw [members]
  | cons m ms ih =>
    obtain ⟨⟨hhidden, hvalue⟩, hrest⟩ := List.forall_mem_cons.1 h
    rw [members, if_neg (by simp [hhidden]), hvalue, ih hrest]

theorem value_decode (schemas : List (Schema ι)) (kind : Kind) (cell : Cell) :
    value catalog schemas (kind.decode cell) = kind.decode cell := by
  cases kind with
  | integer => rw [Kind.decode]; cases cell.asInteger? <;> simp [value, Json.ofInt64]
  | boolean => rw [Kind.decode]; cases cell.asInteger? <;> simp [value]
  | real =>
    rw [Kind.decode]
    cases cell.asReal? with
    | none => simp [value]
    | some x =>
      rw [Option.elim_some, Json.ofBinary64]
      split <;> simp [value]
  | text => rw [Kind.decode]; cases cell.asText? <;> simp [value]
  | timestamp => rw [Kind.decode]; cases cell.asText? <;> simp [value]

/-- Nothing is taken from the record of columns that are shown. -/
theorem record_ofRow {names : List String} (h : ∀ name ∈ names, s.isHidden name = false) (row : Scope) :
    Concealment.record catalog s (Record.ofRow s names row) = Record.ofRow s names row := by
  refine members_eq_self fun m hm => ?_
  rw [Record.ofRow, Record.ofCells, Members.ofList] at hm
  rcases Members.mem_of_mem_merge hm with hm | hm
  · obtain ⟨⟨name, cell⟩, hname, rfl⟩ := List.mem_map.1 hm
    exact ⟨h name (List.of_mem_zip hname).1, fun schemas => value_decode schemas _ cell⟩
  · exact absurd hm List.not_mem_nil

end Concealment

/-! ## Values of records -/

/-- The values of a record are those of its members that are columns, the key apart. -/
theorem Record.mem_values {values : List (String × Param)} (h : record.values s = .ok values)
    {v : String × Param} (hv : v ∈ values) : v.1 ≠ s.key ∧ s.hasColumn v.1 ∧
      ∃ json, (v.1, json) ∈ record ∧ Param.ofJson? json = some v.2 := by
  induction record generalizing values with
  | nil =>
    obtain rfl := Except.ok.inj h
    exact absurd hv List.not_mem_nil
  | cons m record ih =>
    obtain ⟨name, json⟩ := m
    rw [Record.values] at h
    split at h
    · obtain ⟨hkey, hcolumn, json', hmem, hjson⟩ := ih h hv
      exact ⟨hkey, hcolumn, json', List.mem_cons_of_mem _ hmem, hjson⟩
    · next hname =>
      split at h
      · cases h
      · next p hp =>
        obtain ⟨rest, hrest, rfl⟩ := map_eq_ok_iff.1 h
        rcases List.mem_cons.1 hv with rfl | hv
        · simp only [Bool.or_eq_true, beq_iff_eq, Bool.not_eq_true', not_or, Bool.not_eq_false] at hname
          exact ⟨hname.1, hname.2, json, List.mem_cons_self, hp⟩
        · obtain ⟨hkey, hcolumn, json', hmem, hjson⟩ := ih hrest hv
          exact ⟨hkey, hcolumn, json', List.mem_cons_of_mem _ hmem, hjson⟩

/-! ## Keys of records -/

/-- The key of a schema is a column of integers that is shown and not maintained. There is no other key, and
no two columns differ in case only. -/
structure Schema.IsKeyed (s : Schema ι) : Prop where
  index : s.IsIndex s.key
  isShown : s.isHidden s.key = false
  isFree : ∀ c, s.column? s.key = some c → c.role = none
  only : ∀ c ∈ s.columns, c.isKey → c.name = s.key
  apart : s.columnNames.Pairwise fun name other => ¬ Text.Ascii.same name other

namespace Schema

theorem column?_eq_some {c : Column} (h : s.column? name = some c) : c ∈ s.columns ∧ c.name = name :=
  ⟨List.mem_of_find?_eq_some h, beq_iff_eq.1 (List.find?_some (p := fun c : Column => c.name == name) h)⟩

/-- Columns of one name up to case are one column. -/
theorem IsKeyed.eq_of_same (h : s.IsKeyed) {other : String} (hname : s.hasColumn name)
    (hother : s.hasColumn other) (hsame : Text.Ascii.same name other) : name = other := by
  by_contra hne
  have hsymm : Std.Symm fun a b : String => ¬ Text.Ascii.same a b :=
    ⟨fun a b hab hba => hab (Text.Ascii.same_comm b a ▸ hba)⟩
  exact h.apart.forall (hasColumn_iff.1 hname) (hasColumn_iff.1 hother) hne hsame

end Schema

namespace Database

variable {now : Instant} {said : Option Resolution} {row changed : Row}

theorem Table.Fits.isIndexedBy_key (h : t.Fits s) (hs : s.flaw? catalog = none) (hkeyed : s.IsKeyed) :
    t.IsIndexedBy s.key := by
  obtain ⟨c, hc, hkey⟩ := Schema.key_of_flaw?_eq_none hs
  obtain ⟨f, hf, haffinity, hfkey⟩ := h s.key c hc
  have hkind : c.kind = .integer := by
    have hindex := hkeyed.index
    rw [Schema.IsIndex, hc] at hindex
    exact Option.some.inj hindex
  exact ⟨f, hf, hfkey.trans hkey, by rw [haffinity, hkind]; rfl⟩

/-- A column that is not the key is none in the table. -/
theorem Table.Fits.isKeyName_eq_false (h : t.Fits s) (hkeyed : s.IsKeyed) (hname : s.hasColumn name)
    (hne : name ≠ s.key) : t.isKeyName name = false := by
  obtain ⟨c, hc⟩ := Option.isSome_iff_exists.1 hname
  obtain ⟨f, hf, -, hkey⟩ := h name c hc
  obtain ⟨hmem, rfl⟩ := Schema.column?_eq_some hc
  have hnot : c.isKey = false := Bool.eq_false_iff.2 fun hc => hne (hkeyed.only c hmem hc)
  simp only [isKeyName, hf, hkey, hnot]

/-- A row that gets values of other columns keeps its key. -/
theorem Table.key_of_changedRow {values : List (String × Cell)} (hkey : t.givenKey? values = none)
    (h : t.changedRow now said values row = .ok changed) :
    changed.key = row.key ∧ Table.changedCells now said values row t.fields = .ok changed.cells := by
  obtain ⟨key, hchanged, h⟩ := bind_eq_ok_iff.1 h
  obtain ⟨cells, hcells, h⟩ := bind_eq_ok_iff.1 h
  obtain ⟨-, -, h⟩ := bind_eq_ok_iff.1 h
  obtain rfl := Except.ok.inj h
  rw [changedKey, hkey] at hchanged
  exact ⟨(Except.ok.inj hchanged).symm, hcells⟩

theorem mem_cellsOf {values : List (String × Param)} {v : String × Cell} (h : v ∈ cellsOf values) :
    ∃ p, (v.1, p) ∈ values ∧ p.cell = v.2 := by
  obtain ⟨⟨name, p⟩, hp, rfl⟩ := List.mem_map.1 h
  exact ⟨p, hp, rfl⟩

/-- The values of a record are none of the key. -/
theorem Table.Fits.givenKey?_values (h : t.Fits s) (hkeyed : s.IsKeyed) {values : List (String × Param)}
    (hvalues : record.values s = .ok values) : t.givenKey? (cellsOf values).reverse = none := by
  rw [givenKey?, Option.map_eq_none_iff, List.find?_eq_none]
  intro v hv
  obtain ⟨p, hp, -⟩ := mem_cellsOf (List.mem_reverse.1 hv)
  obtain ⟨hne, hcolumn, -⟩ := Record.mem_values hvalues hp
  rw [h.isKeyName_eq_false hkeyed hcolumn hne]
  simp

/-- The statement that changes the row of a record's key. -/
theorem save_eq_update (db : Database) {key : Param} {values : List (String × Param)} (hkey : record.key? s = some key)
    (hvalues : record.values s = .ok values) :
    (∃ e, db.save s record = (.error e, db)) ∨
      let done := db.update ⟨s.table, values, s.key, s.columnNames⟩ key
      db.save s record = ((done.1.bind (stored s)).mapError .database, done.2) := by
  rw [save, writer, hkey, hvalues]
  cases hu : Update.ofValues s values with
  | error fault => exact .inl ⟨.invalidQuery fault, by simp [bind, Except.bind, hu]⟩
  | ok u =>
    obtain ⟨-, -, hu'⟩ := bind_eq_ok_iff.1 hu
    obtain rfl := Except.ok.inj hu'
    right
    simp [bind, Except.bind, hu]

/-- The statement that adds the row of a record without a key. -/
theorem save_eq_insert (db : Database) {values : List (String × Param)} (hkey : record.key? s = none)
    (hvalues : record.values s = .ok values) :
    (∃ e, db.save s record = (.error e, db)) ∨
      let done := db.insert { table := s.table, values, returning := s.columnNames }
      db.save s record = ((done.1.bind (stored s)).mapError .database, done.2) := by
  rw [save, writer, hkey, hvalues]
  cases hi : Insert.ofValues s values with
  | error fault => exact .inl ⟨.invalidQuery fault, by simp [bind, Except.bind, hi]⟩
  | ok i =>
    obtain ⟨-, -, hi'⟩ := bind_eq_ok_iff.1 hi
    obtain rfl := Except.ok.inj hi'
    right
    simp [bind, Except.bind, hi]

/-- What saving a record with a key comes to: it fails and changes nothing, or the row of the key gets the
record's values. -/
theorem save_cases (hdb : db.IsPlain) (ht : db.table? s.table = some t) (hfits : t.Fits s)
    (hordered : t.IsOrdered) (hs : s.flaw? catalog = none) (hkeyed : s.IsKeyed) {key : Int64}
    (hkey : record.key? s = some (.integer key)) :
    (∃ e, db.save s record = (.error e, db)) ∨
      ∃ row ∈ t.rows, row.key = key ∧ ∃ values changed, record.values s = .ok values ∧ changed.key = key ∧
        Table.changedCells db.now none (cellsOf values).reverse row t.fields = .ok changed.cells ∧
        db.save s record =
          ((Record.ofCells? s s.columnNames (t.returned changed s.columnNames)).mapError .database,
            db.replace s.table (t.changing row changed)) := by
  have hindexed := hfits.isIndexedBy_key hs hkeyed
  cases hvalues : record.values s with
  | error fault => exact .inl ⟨.invalidQuery fault, by rw [save, writer, hvalues]; rfl⟩
  | ok values =>
    rcases save_eq_update db hkey hvalues with hfails | hsave
    · exact .inl hfails
    rw [hsave]
    let u : Update := ⟨s.table, values, s.key, s.columnNames⟩
    rcases update_cases (u := u) (.integer key) hdb ht hindexed hordered with
      ⟨fault, h⟩ | h | ⟨row, hrow, hhas, changed, hchanged, h⟩
    · exact .inl ⟨.database fault, by rw [h]; rfl⟩
    · exact .inl ⟨.database .noRow, by rw [h]; rfl⟩
    · have hrowkey := (Table.hasKey_integer_iff hindexed).1 hhas
      obtain ⟨hchangedkey, hcells⟩ :=
        Table.key_of_changedRow (hfits.givenKey?_values hkeyed hvalues) hchanged
      exact .inr ⟨row, hrow, hrowkey, values, changed, rfl, hchangedkey.trans hrowkey, hcells, by rw [h]; rfl⟩

/-- What saving a record without a key comes to: it fails and changes nothing, a rule leaves its row out, or a
row with the record's values is added. Its key is one that no row has or had. -/
theorem save_new_cases (hdb : db.IsPlain) (hname : Text.Ascii.same s.table sequenceName = false)
    (ht : db.table? s.table = some t) (hfits : t.Fits s) (hordered : t.IsOrdered)
    (hautomatic : t.isAutomatic) (hkeyed : s.IsKeyed) (hkey : record.key? s = none) :
    (∃ e, db.save s record = (.error e, db)) ∨
      ∃ values key, record.values s = .ok values ∧ t.lastKey < key ∧ (∀ r ∈ t.rows, r.key < key) ∧
        ((∃ e, db.save s record = (.error e, db.replace s.table (t.counting key))) ∨
          ∃ row, t.newRow db.now none key (cellsOf values) = .ok row ∧
            db.save s record =
              ((Record.ofCells? s s.columnNames (t.returned row s.columnNames)).mapError .database,
                db.replace s.table ((t.counting key).adding row))) := by
  cases hvalues : record.values s with
  | error fault => exact .inl ⟨.invalidQuery fault, by rw [save, writer, hvalues]; rfl⟩
  | ok values =>
    rcases save_eq_insert db hkey hvalues with hfails | hsave
    · exact .inl hfails
    have hnew : t.newKey (cellsOf values) = t.freshKey := by
      rw [Table.newKey, hfits.givenKey?_values hkeyed hvalues]
      rfl
    rw [hsave]
    rcases insert_cases (i := { table := s.table, values, returning := s.columnNames }) hdb hname ht rfl
      with ⟨fault, h⟩ | ⟨key, hfresh, h⟩
    · exact .inl ⟨.database fault, by rw [h]; rfl⟩
    · obtain ⟨hlast, hgreater⟩ := Table.freshKey_eq_ok hautomatic hordered (hnew ▸ hfresh)
      refine .inr ⟨values, key, rfl, hlast, hgreater, ?_⟩
      rcases h with h | ⟨row, hrow, -, h⟩
      · exact .inl ⟨.database .noRow, by rw [h]; rfl⟩
      · exact .inr ⟨row, hrow, by rw [h]; rfl⟩

end Database

end RecordQuery
