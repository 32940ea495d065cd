import RecordQuery.Proofs.Loading.Joins
import RecordQuery.Proofs.Reading.Sorting
import RecordQuery.Proofs.Writing.Edits
/-!
# Statements that write

What a statement that writes comes to in a plain database: it fails and changes nothing, or it adds, changes
or removes one row of its table (`insert_cases`, `update_cases`, `delete_cases`). The row that it is about is
the one of the key, for no two rows have a key in common (`Table.hasKey_inj`).
-/

namespace RecordQuery.Database

open Outcome Sql

variable {ι : Type} {s : Schema ι} {db : Database} {t : Table} {name : String} {row other : Row}

/-! ## Rows by key -/

/-- A name means a key whose cells are kept as integers. -/
def Table.IsIndexedBy (t : Table) (name : String) : Prop :=
  ∃ f, t.field? name = some f ∧ f.isKey ∧ f.affinity = .integer

namespace Table

/-- Integers that are level with one and the same cell are equal. -/
theorem eq_of_compareKnown {collation : Collation} {i j : Int64} {cell : Cell}
    (hi : Cell.compareKnown collation (.integer i) cell = .eq)
    (hj : Cell.compareKnown collation (.integer j) cell = .eq) : i = j := by
  have hpositions := ((Cell.compares_compareKnown collation (.integer i) cell).eq_eq.1 hi).trans
    ((Cell.compares_compareKnown collation (.integer j) cell).eq_eq.1 hj).symm
  have hranks : Binary64.rankOfInt i.toInt = Binary64.rankOfInt j.toInt :=
    (List.cons.inj (List.cons.inj hpositions).2).1
  have hunit : (twoTo 1074 : Int) ≠ 0 := Int.natCast_ne_zero.2 (twoTo_pos 1074).ne'
  exact Int64.toInt_inj.1 (Int.eq_of_mul_eq_mul_right hunit hranks)

theorem resolve_key {f : Field} (hf : t.field? name = some f) (hkey : f.isKey) (haffinity : f.affinity = .integer)
    (r : Row) : Scope.resolve [t.scope r] name = ⟨some .integer, some f.collation, .integer r.key⟩ := by
  simp [Scope.resolve, scope, hf, Row.cell, hkey, haffinity]

/-- A value is the key of a row if it is level with it as a number. -/
theorem hasKey_iff {f : Field} {p : Param} (hf : t.field? name = some f) (hkey : f.isKey)
    (haffinity : f.affinity = .integer) : hasKey t name p row ↔
      (Affinity.integer.comparand p.cell).isNull = false ∧
        Cell.compareKnown f.collation (.integer row.key) (Affinity.integer.comparand p.cell) = .eq := by
  have hcell : Affinity.integer.comparand (.integer row.key) = .integer row.key := rfl
  have heq : ∀ o : Ordering, Comparison.eq.admits o ↔ o = .eq := by rintro (_ | _ | _) <;> decide
  rw [hasKey, resolve_key hf hkey haffinity, Truth.holds_eq_true_iff, Operand.compare]
  simp only [Operand.comparand, hcell, Option.getD_some, Cell.compare?]
  have hnull : (Cell.integer row.key).isNull = false := rfl
  rw [hnull, Bool.false_or]
  split
  · next h => simp [h, Truth.ofBool?]
  · next h =>
    rw [Option.map_some, Truth.ofBool?, ← Truth.holds_eq_true_iff, Truth.holds_ofBool, heq]
    simp [h]

/-- A value is the key of one row at most. -/
theorem hasKey_inj {p : Param} (h : t.IsIndexedBy name) (hrow : hasKey t name p row)
    (hother : hasKey t name p other) : row.key = other.key := by
  obtain ⟨f, hf, hkey, haffinity⟩ := h
  exact eq_of_compareKnown ((hasKey_iff hf hkey haffinity).1 hrow).2 ((hasKey_iff hf hkey haffinity).1 hother).2

theorem hasKey_integer_iff {k : Int64} (h : t.IsIndexedBy name) :
    hasKey t name (.integer k) row ↔ row.key = k := by
  obtain ⟨f, hf, hkey, haffinity⟩ := h
  have hinteger : (Cell.integer row.key).IsIndex := trivial
  rw [hasKey, resolve_key hf hkey haffinity, Truth.holds_eq_true_iff, Operand.compare_eq_yes_iff rfl hinteger,
    Cell.integer.injEq]

/-- The rows of a key are one row, or none. -/
theorem filter_hasKey {p : Param} (h : t.IsIndexedBy name) (hordered : t.IsOrdered) :
    t.rows.filter (hasKey t name p) = [] ∨
      ∃ row ∈ t.rows, hasKey t name p row ∧ t.rows.filter (hasKey t name p) = [row] := by
  have hordered' := hordered.filter (hasKey t name p)
  cases hrows : t.rows.filter (hasKey t name p) with
  | nil => exact .inl rfl
  | cons row rest =>
    have hmem : ∀ r ∈ row :: rest, r ∈ t.rows ∧ hasKey t name p r := fun r hr =>
      List.mem_filter.1 (hrows ▸ hr)
    obtain ⟨hrow, hkey⟩ := hmem row List.mem_cons_self
    refine .inr ⟨row, hrow, hkey, ?_⟩
    rw [hrows, List.pairwise_cons] at hordered'
    cases rest with
    | nil => rfl
    | cons r rest =>
      have hr := hmem r (List.mem_cons_of_mem row List.mem_cons_self)
      have hlt := hordered'.1 r List.mem_cons_self
      rw [hasKey_inj h hkey hr.2] at hlt
      exact absurd hlt Int64.lt_irrefl

/-- A row of a table is the row of its key. -/
theorem rowAt?_of_mem (hordered : t.IsOrdered) (hrow : row ∈ t.rows) : t.rowAt? row.key = some row := by
  cases hfound : t.rowAt? row.key with
  | none => simpa using List.find?_eq_none.1 hfound row hrow
  | some found =>
    obtain ⟨hmem, hkey⟩ := mem_of_rowAt? hfound
    rw [eq_of_key_eq hordered hmem hrow hkey]

end Table

/-! ## Edits of one row -/

/-- A row that gets new values is left out by a rule, or it is changed. -/
theorem editAll_assign_eq_ok {values : List (String × Cell)} {after : Database} {rows : List Row}
    (hdb : db.IsPlain) (ht : db.table? name = some t) (hordered : t.IsOrdered) (hrow : row ∈ t.rows)
    (h : editAll name (.assign values) db [row] = .ok (rows, after)) :
    (rows = [] ∧ after = db) ∨
      ∃ changed, t.changedRow db.now none values row = .ok changed ∧ rows = [changed] ∧
        after = db.replace name (t.changing row changed) := by
  rw [editAll] at h
  split at h
  · obtain ⟨rfl, rfl⟩ := Prod.mk.inj (Except.ok.inj h)
    exact .inl ⟨rfl, rfl⟩
  · obtain ⟨⟨done, edited⟩, hedit, h⟩ := bind_eq_ok_iff.1 h
    obtain ⟨rfl, rfl⟩ := Prod.mk.inj (Except.ok.inj h)
    rcases edit_assign_eq_ok hdb ht hedit with ⟨rfl, rfl⟩ | ⟨found, changed, hfound, hchanged, rfl, rfl⟩
    · exact .inl ⟨rfl, rfl⟩
    · obtain rfl : row = found := Option.some.inj ((Table.rowAt?_of_mem hordered hrow).symm.trans hfound)
      exact .inr ⟨changed, hchanged, rfl, rfl⟩

/-- A row that is there is removed. -/
theorem editAll_remove (hdb : db.IsPlain) (ht : db.table? name = some t) (hordered : t.IsOrdered)
    (hrow : row ∈ t.rows) :
    editAll name .remove db [row] = .ok ([row], db.replace name (t.removing row)) := by
  rw [editAll, show reach = 1000 + 1 from rfl, edit_remove hdb ht, Table.rowAt?_of_mem hordered hrow]
  rfl

/-! ## Statements -/

/-- What becomes of the row of a key when it gets new values: a rule refuses it or leaves it out, or it is
changed. -/
theorem update_cases {u : Update} (key : Param) (hdb : db.IsPlain) (ht : db.table? u.table = some t)
    (hindexed : t.IsIndexedBy u.key) (hordered : t.IsOrdered) :
    (∃ fault, db.update u key = (.error fault, db)) ∨ db.update u key = (.ok none, db) ∨
      ∃ row ∈ t.rows, hasKey t u.key key row ∧
        ∃ changed, t.changedRow db.now none (cellsOf u.values).reverse row = .ok changed ∧
          db.update u key =
            (.ok (some (t.returned changed u.returning)), db.replace u.table (t.changing row changed)) := by
  rw [update]
  generalize houtcome : (db.table u.table >>= _ : Except Fault (Option (List Cell) × Database)) = outcome
  cases outcome with
  | error fault => exact .inl ⟨fault, rfl⟩
  | ok result =>
    obtain ⟨answer, after⟩ := result
    obtain ⟨other, hother, houtcome⟩ := bind_eq_ok_iff.1 houtcome
    obtain rfl : t = other := Option.some.inj (ht.symm.trans (table_eq_ok_iff.1 hother))
    obtain ⟨-, -, houtcome⟩ := bind_eq_ok_iff.1 houtcome
    obtain ⟨-, -, houtcome⟩ := bind_eq_ok_iff.1 houtcome
    obtain ⟨⟨rows, done⟩, hedits, houtcome⟩ := bind_eq_ok_iff.1 houtcome
    obtain ⟨rfl, rfl⟩ := Prod.mk.inj (Except.ok.inj houtcome)
    rcases Table.filter_hasKey (p := key) hindexed hordered with hnone | ⟨row, hrow, hkey, hone⟩
    · rw [hnone] at hedits
      obtain ⟨rfl, rfl⟩ := Prod.mk.inj (Except.ok.inj hedits)
      exact .inr (.inl (settle_of_isPlain hdb))
    · rw [hone] at hedits
      rcases editAll_assign_eq_ok hdb ht hordered hrow hedits with
        ⟨rfl, rfl⟩ | ⟨changed, hchanged, rfl, rfl⟩
      · exact .inr (.inl (settle_of_isPlain hdb))
      · have hchanging : (t.changing row changed).IsPlain := (hdb.of_table? ht).of_definition rfl
        exact .inr (.inr ⟨row, hrow, hkey, changed, hchanged, settle_of_isPlain (hdb.replace hchanging _)⟩)

/-- What becomes of the row of a key when it is removed. -/
theorem delete_cases {d : Delete} (key : Param) (hdb : db.IsPlain) (ht : db.table? d.table = some t)
    (hindexed : t.IsIndexedBy d.key) (hordered : t.IsOrdered) :
    (∃ fault, db.delete d key = (.error fault, db)) ∨
      (∀ row ∈ t.rows, ¬ hasKey t d.key key row) ∧ db.delete d key = (.ok 0, db) ∨
      ∃ row ∈ t.rows, hasKey t d.key key row ∧
        db.delete d key = (.ok 1, db.replace d.table (t.removing row)) := by
  rw [delete]
  generalize houtcome : (db.table d.table >>= _ : Except Fault (Nat × Database)) = outcome
  cases outcome with
  | error fault => exact .inl ⟨fault, rfl⟩
  | ok result =>
    obtain ⟨answer, after⟩ := result
    obtain ⟨other, hother, houtcome⟩ := bind_eq_ok_iff.1 houtcome
    obtain rfl : t = other := Option.some.inj (ht.symm.trans (table_eq_ok_iff.1 hother))
    obtain ⟨-, -, houtcome⟩ := bind_eq_ok_iff.1 houtcome
    obtain ⟨⟨rows, done⟩, hedits, houtcome⟩ := bind_eq_ok_iff.1 houtcome
    obtain ⟨rfl, rfl⟩ := Prod.mk.inj (Except.ok.inj houtcome)
    rcases Table.filter_hasKey (p := key) hindexed hordered with hnone | ⟨row, hrow, hkey, hone⟩
    · rw [hnone] at hedits
      obtain ⟨rfl, rfl⟩ := Prod.mk.inj (Except.ok.inj hedits)
      exact .inr (.inl ⟨List.filter_eq_nil_iff.1 hnone, settle_of_isPlain hdb⟩)
    · rw [hone, editAll_remove hdb ht hordered hrow] at hedits
      obtain ⟨rfl, rfl⟩ := Prod.mk.inj (Except.ok.inj hedits)
      have hremoving : (t.removing row).IsPlain := (hdb.of_table? ht).of_definition rfl
      exact .inr (.inr ⟨row, hrow, hkey, settle_of_isPlain (hdb.replace hremoving _)⟩)

/-- Where keys are automatic a fresh key is greater than that of any row that is or was there. -/
theorem Table.freshKey_eq_ok {key : Int64} (hautomatic : t.isAutomatic) (hordered : t.IsOrdered)
    (h : t.freshKey = .ok key) : t.lastKey < key ∧ ∀ r ∈ t.rows, r.key < key := by
  rw [freshKey, if_pos hautomatic] at h
  split at h
  · cases h
  · next hlast =>
    obtain rfl := Except.ok.inj h
    have hnext : max t.lastKey (t.greatestKey?.getD 0) < max t.lastKey (t.greatestKey?.getD 0) + 1 := by
      grind
    refine ⟨Int64.lt_of_le_of_lt (Word.le_max_left _ _) hnext, fun r hr => ?_⟩
    refine Int64.lt_of_le_of_lt ?_ hnext
    have hlt := hordered
    obtain ⟨rest, last, hrows⟩ : ∃ rest last, t.rows = rest ++ [last] :=
      ⟨_, _, (List.dropLast_concat_getLast (List.ne_nil_of_mem hr)).symm⟩
    have hgreatest : t.greatestKey? = some last.key := by simp [greatestKey?, hrows]
    rw [IsOrdered, hrows, List.pairwise_append] at hlt
    rw [hgreatest, Option.getD_some]
    rw [hrows, List.mem_append, List.mem_singleton] at hr
    rcases hr with hr | rfl
    · exact Int64.le_trans (Int64.le_of_lt (hlt.2.2 r hr last (List.mem_singleton_self _))) (Word.le_max_right _ _)
    · exact Word.le_max_right _ _

/-- The key of a new row is the one that was chosen for it. -/
theorem Table.key_of_newRow {now : Instant} {said : Option Resolution} {key : Int64}
    {values : List (String × Cell)} (h : t.newRow now said key values = .ok row) : row.key = key := by
  obtain ⟨cells, -, h⟩ := bind_eq_ok_iff.1 h
  obtain ⟨-, -, h⟩ := bind_eq_ok_iff.1 h
  obtain rfl := Except.ok.inj h
  rfl

/-- A new row has a key that no row has. -/
theorem place_eq_ok {i : Insert} {key : Int64} {after : Database} (hdb : db.IsPlain)
    (hname : Text.Ascii.same i.table sequenceName = false) (ht : db.table? i.table = some t)
    (hsaid : i.resolution = none) (h : db.place i t key = .ok (row, after)) :
    t.newRow db.now none key (cellsOf i.values) = .ok row ∧ (∀ other ∈ t.rows, other.key ≠ key) ∧
      after = db.replace i.table ((t.counting key).adding row) := by
  obtain ⟨made, hmade, h⟩ := bind_eq_ok_iff.1 h
  obtain ⟨rows, hrows, h⟩ := bind_eq_ok_iff.1 h
  rw [hsaid] at hrows hmade
  obtain ⟨rfl, hfree⟩ := (hdb.of_table? ht).displaced_eq_ok hrows
  obtain ⟨⟨removed, counted⟩, hedits, h⟩ := bind_eq_ok_iff.1 h
  obtain ⟨rfl, rfl⟩ := Prod.mk.inj (Except.ok.inj hedits)
  obtain ⟨u, hu, h⟩ := bind_eq_ok_iff.1 h
  have hsame := same_of_table? hname ht
  have hcounting : (db.replace i.table (t.counting key)).table? i.table = some (t.counting key) :=
    table?_replace hname ht hsame
  obtain rfl : t.counting key = u := Option.some.inj (hcounting.symm.trans (table_eq_ok_iff.1 hu))
  obtain ⟨rfl, rfl⟩ := Prod.mk.inj (Except.ok.inj h)
  exact ⟨hmade, Table.key_of_newRow hmade ▸ hfree, replace_replace hsame⟩

/-- What adding a row comes to: it fails, a rule leaves the row out but its key is used up, or the row is
there. -/
theorem insert_cases {i : Insert} (hdb : db.IsPlain) (hname : Text.Ascii.same i.table sequenceName = false)
    (ht : db.table? i.table = some t) (hsaid : i.resolution = none) :
    (∃ fault, db.insert i = (.error fault, db)) ∨
      ∃ key, t.newKey (cellsOf i.values) = .ok key ∧
        (db.insert i = (.ok none, db.replace i.table (t.counting key)) ∨
          ∃ row, t.newRow db.now none key (cellsOf i.values) = .ok row ∧ (∀ other ∈ t.rows, other.key ≠ key) ∧
            db.insert i = (.ok (some (t.returned row i.returning)),
              db.replace i.table ((t.counting key).adding row))) := by
  rw [insert]
  generalize houtcome : (db.table i.table >>= _ : Except Fault (Option (List Cell) × Database)) = outcome
  cases outcome with
  | error fault => exact .inl ⟨fault, rfl⟩
  | ok result =>
    obtain ⟨answer, after⟩ := result
    obtain ⟨other, hother, houtcome⟩ := bind_eq_ok_iff.1 houtcome
    obtain rfl : t = other := Option.some.inj (ht.symm.trans (table_eq_ok_iff.1 hother))
    obtain ⟨-, -, houtcome⟩ := bind_eq_ok_iff.1 houtcome
    obtain ⟨-, -, houtcome⟩ := bind_eq_ok_iff.1 houtcome
    obtain ⟨key, hkey, houtcome⟩ := bind_eq_ok_iff.1 houtcome
    refine .inr ⟨key, hkey, ?_⟩
    split at houtcome
    · obtain ⟨rfl, rfl⟩ := Prod.mk.inj (Except.ok.inj houtcome)
      have hcounting : (t.counting key).IsPlain := (hdb.of_table? ht).of_definition rfl
      exact .inl (settle_of_isPlain (hdb.replace hcounting _))
    · cases houtcome
    · next row placed hplace =>
      obtain ⟨rfl, rfl⟩ := Prod.mk.inj (Except.ok.inj houtcome)
      obtain ⟨hrow, hfree, rfl⟩ := place_eq_ok hdb hname ht hsaid hplace
      have hadding : ((t.counting key).adding row).IsPlain := (hdb.of_table? ht).of_definition rfl
      exact .inr ⟨row, hrow, hfree, settle_of_isPlain (hdb.replace hadding _)⟩

end RecordQuery.Database
