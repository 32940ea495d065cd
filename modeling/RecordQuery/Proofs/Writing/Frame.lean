import RecordQuery.Proofs.Writing.Operations
/-!
# What a change leaves as it is

A change reads all columns of a row that are shown and writes them back, with what was asked for in their
place. A column that was not asked for keeps its cell if it is not shown, or if the cell is one of the column's
kind (`Kind.Holds`), and only then (`Gateway.update_keeps_iff`). For a cell of another kind is read as what it
is not, and that is what is written (`Gateway.update_rounds_note`).
-/

namespace RecordQuery

open Outcome Sql
open Database (Row Table)

/-! ## Cells that are read and written -/

namespace Kind

variable {kind : Kind} {cell : Cell} {p : Param}

/-- The cells that are a kind's own: null, and those that are written as they are read. -/
def Holds : Kind → Cell → Prop
  | _, .null => True
  | .integer, .integer _ => True
  | .boolean, .integer i => i = 0 ∨ i = 1
  | .real, .real x => x.isFinite ∧ (x.isZero → x = .zero false)
  | .text, .text _ => True
  | .timestamp, .text _ => True
  | _, _ => False

/-- What is read as a truth value is kept as 0 or 1. -/
theorem store_ofBool_iff (b : Bool) (i : Int64) :
    Affinity.integer.store (Param.bool b).cell = .integer i ↔ i = if b then 1 else 0 := by
  have hstore : Affinity.integer.store (Param.bool b).cell = .integer (if b then 1 else 0) := rfl
  rw [hstore, Cell.integer.injEq, eq_comm]

/-- What is read as a double is kept as one, or as null. -/
theorem store_ofBinary64_iff {x : Binary64} (h : Param.ofJson? (.ofBinary64 x) = some p) (cell : Cell) :
    Affinity.real.store p.cell = cell ↔
      (if x.isFinite then .real (if x.isZero then .zero false else x) else .null) = cell := by
  rw [Json.ofBinary64] at h
  split at h
  · next hx =>
    cases h
    rw [if_pos hx]
    rfl
  · next hx =>
    cases h
    rw [if_neg hx]
    rfl

/-- What is read as text is kept as one. -/
theorem store_decode_text_iff (h : Param.ofJson? (cell.asText?.elim .null Json.string) = some p) :
    Affinity.text.store p.cell = cell ↔ Kind.text.Holds cell := by
  cases hs : cell.asText? with
  | none =>
    rw [hs] at h
    cases h
    cases cell with
    | text s => cases hs
    | null => exact iff_of_true rfl trivial
    | _ => exact iff_of_false (fun heq => by cases heq) id
  | some s =>
    rw [hs] at h
    cases h
    cases cell with
    | text u =>
      cases hs
      exact iff_of_true rfl trivial
    | null => cases hs
    | _ => exact iff_of_false (fun heq => by cases heq) id

/-- What is read as a number is kept as one. -/
theorem store_decode_real_iff (h : Param.ofJson? (real.decode cell) = some p) :
    Affinity.real.store p.cell = cell ↔ real.Holds cell := by
  cases hx : cell.asReal? with
  | none =>
    cases cell with
    | null =>
      cases h
      exact iff_of_true rfl trivial
    | _ => cases hx
  | some x =>
    have hdecode : real.decode cell = .ofBinary64 x := by rw [decode, hx, Option.elim_some]
    rw [hdecode] at h
    refine (store_ofBinary64_iff h cell).trans ?_
    cases cell with
    | null => cases hx
    | real y =>
      obtain rfl := Option.some.inj hx
      change _ ↔ y.isFinite ∧ (y.isZero → y = .zero false)
      by_cases hfinite : y.isFinite <;> by_cases hzero : y.isZero <;> simp [hfinite, hzero, eq_comm]
    | _ =>
      refine iff_of_false (fun heq => ?_) id
      split at heq <;> cases heq

/-- A cell is written back as it was read if it is its kind's own. -/
theorem store_decode_iff (h : Param.ofJson? (kind.decode cell) = some p) :
    kind.affinity.store p.cell = cell ↔ kind.Holds cell := by
  cases kind with
  | integer =>
    cases cell with
    | null =>
      cases h
      exact iff_of_true rfl trivial
    | integer i =>
      cases h
      exact iff_of_true rfl trivial
    | _ =>
      cases h
      exact iff_of_false (fun heq => by cases heq) id
  | boolean =>
    cases cell with
    | null =>
      cases h
      exact iff_of_true rfl trivial
    | integer i =>
      cases h
      change Affinity.integer.store _ = _ ↔ i = 0 ∨ i = 1
      rw [store_ofBool_iff]
      by_cases hi : i = 0 <;> simp [hi]
    | _ =>
      cases h
      exact iff_of_false (fun heq => by cases heq) id
  | real => exact store_decode_real_iff h
  | text => exact store_decode_text_iff h
  | timestamp =>
    have htext : Kind.timestamp.Holds cell = Kind.text.Holds cell := by cases cell <;> rfl
    rw [htext]
    exact store_decode_text_iff h

end Kind

variable {ι : Type} {catalog : Catalog ι} {s : Schema ι} {db : Database} {t : Table} {name : String}
  {record : Record} {row changed : Row} {now : Instant}

/-! ## Members that are written -/

namespace Members

variable {ms : Members} {key : String} {value : Json}

theorem mem_of_get?_eq_some (h : ms.get? key = some value) : (key, value) ∈ ms := by
  induction ms with
  | nil => cases h
  | cons m ms ih =>
    obtain ⟨k, v⟩ := m
    rw [get?_cons] at h
    split at h
    · next hkey =>
      obtain rfl := Option.some.inj h
      exact hkey ▸ List.mem_cons_self
    · exact List.mem_cons_of_mem _ (ih h)

/-- Where every key is there once, a member is what is found under its key. -/
theorem get?_of_mem (hunique : ms.IsUnique) (h : (key, value) ∈ ms) : ms.get? key = some value := by
  obtain ⟨found, hfound⟩ := Option.isSome_iff_exists.1 (mem_keys_iff.1 (List.mem_map_of_mem h))
  have hmem := mem_of_get?_eq_some hfound
  obtain ⟨-, rfl⟩ := Prod.mk.inj (List.inj_on_of_nodup_map hunique hmem h rfl)
  exact hfound

end Members

namespace Record

/-- Every member that is a column and not the key is among the values. -/
theorem exists_mem_values {values : List (String × Param)} (h : record.values s = .ok values) {json : Json}
    (hmem : (name, json) ∈ record) (hne : name ≠ s.key) (hname : s.hasColumn name) :
    ∃ p, (name, p) ∈ values := by
  induction record generalizing values with
  | nil => exact absurd hmem List.not_mem_nil
  | cons m record ih =>
    rw [Record.values] at h
    split at h
    · next hskipped =>
      rcases List.mem_cons.1 hmem with rfl | hmem
      · simp [hne, hname] at hskipped
      · exact ih h hmem
    · split at h
      · cases h
      · next p hp =>
        obtain ⟨rest, hrest, rfl⟩ := map_eq_ok_iff.1 h
        rcases List.mem_cons.1 hmem with rfl | hmem
        · exact ⟨p, List.mem_cons_self⟩
        · obtain ⟨q, hq⟩ := ih hrest hmem
          exact ⟨q, List.mem_cons_of_mem _ hq⟩

/-- The value given for a column is what the record holds for it. -/
theorem given?_values (hkeyed : s.IsKeyed) (hunique : record.IsUnique) {values : List (String × Param)}
    (h : record.values s = .ok values) (hne : name ≠ s.key) (hname : s.hasColumn name) {f : Field}
    (hf : Text.Ascii.same f.name name) :
    Table.given? (Database.cellsOf values).reverse f =
      (record.get? name).bind fun json => (Param.ofJson? json).map Param.cell := by
  rw [Table.given?]
  cases hfind : (Database.cellsOf values).reverse.find? fun v => Text.Ascii.same f.name v.1 with
  | none =>
    cases hget : record.get? name with
    | none => rfl
    | some json =>
      obtain ⟨p, hp⟩ := exists_mem_values h (Members.mem_of_get?_eq_some hget) hne hname
      have hcell : (name, p.cell) ∈ (Database.cellsOf values).reverse :=
        List.mem_reverse.2 (List.mem_map_of_mem hp)
      have hnot := List.find?_eq_none.1 hfind _ hcell
      exact absurd hf hnot
  | some v =>
    have hsame : Text.Ascii.same f.name v.1 :=
      List.find?_some (p := fun v : String × Cell => Text.Ascii.same f.name v.1) hfind
    obtain ⟨p, hp, hcell⟩ := Database.mem_cellsOf (List.mem_reverse.1 (List.mem_of_find?_eq_some hfind))
    obtain ⟨-, hcolumn, json, hjson, hparam⟩ := mem_values h hp
    have hnames : name = v.1 := by
      refine hkeyed.eq_of_same hname hcolumn ?_
      rw [Text.Ascii.same_iff] at hf hsame ⊢
      exact hf.symm.trans hsame
    rw [hnames, Members.get?_of_mem hunique hjson, Option.bind_some, hparam, Option.map_some, Option.map_some,
      ← hcell]

end Record

/-! ## Cells of a changed row -/

namespace Database

variable {said : Option Resolution} {values : List (String × Cell)} {fields : List Field} {f : Field}
  {cell : Cell}

/-- Where no value comes in the place of another, a cell is stored as its field prefers. -/
theorem Table.eq_of_stored {c : Cell} (hf : f.onNull ≠ .replace) (h : Table.stored now none f cell = .ok c) :
    c = f.affinity.store cell := by
  rw [stored] at h
  split at h
  · rw [Option.getD_none] at h
    split at h
    · cases h
    · next hreplace => exact absurd hreplace hf
    · cases h
  · exact (Except.ok.inj h).symm

/-- The cells of fields other than the key, each made in one way. -/
def Table.cellsBy (make : Field → Except Fault Cell) : List Field → Except Fault (List (String × Cell))
  | [] => .ok []
  | f :: fields =>
    if f.isKey then cellsBy make fields
    else (make f).bind fun cell => (cellsBy make fields).map ((f.name, cell) :: ·)

/-- The cell of a field is found under its name. -/
theorem Table.lookup_cellsBy {make : Field → Except Fault Cell} {cells : List (String × Cell)}
    (h : cellsBy make fields = .ok cells)
    (hf : (fields.find? fun f => Text.Ascii.same f.name name) = some f) (hkey : f.isKey = false) :
    ∃ c, cells.lookup f.name = some c ∧ make f = .ok c := by
  induction fields generalizing cells with
  | nil => cases hf
  | cons g fields ih =>
    rw [cellsBy] at h
    by_cases hsame : Text.Ascii.same g.name name
    · obtain rfl : g = f := by simpa [List.find?_cons, hsame] using hf
      rw [if_neg (by simp [hkey])] at h
      obtain ⟨c, hc, h⟩ := bind_eq_ok_iff.1 h
      obtain ⟨rest, -, rfl⟩ := map_eq_ok_iff.1 h
      exact ⟨c, List.lookup_cons_self, hc⟩
    · rw [List.find?_cons, Bool.eq_false_iff.2 hsame] at hf
      split at h
      · exact ih h hf
      · obtain ⟨other, -, h⟩ := bind_eq_ok_iff.1 h
        obtain ⟨rest, hrest, rfl⟩ := map_eq_ok_iff.1 h
        obtain ⟨c, hlookup, hc⟩ := ih hrest hf
        have hne : f.name ≠ g.name := fun heq =>
          hsame (heq ▸ List.find?_some (p := fun f : Field => Text.Ascii.same f.name name) hf)
        exact ⟨c, by rw [List.lookup_cons, beq_false_of_ne hne]; exact hlookup, hc⟩

/-- A field of a changed row gets the value that is given, or keeps its cell. -/
theorem Table.changedCells_eq_cellsBy (fields : List Field) :
    Table.changedCells now said values row fields =
      cellsBy (fun f => (Table.given? values f).elim (.ok (row.cell f)) (Table.stored now said f)) fields := by
  induction fields with
  | nil => rfl
  | cons f fields ih =>
    rw [changedCells, cellsBy, ih]
    split
    · rfl
    · cases Table.given? values f <;> rfl

/-- The cell of a column of a changed row: what the record holds for it, as the column prefers, and the old one
if it holds nothing. -/
theorem cellOf_changed (hplain : t.IsPlain) (hfits : t.Fits s) (hkeyed : s.IsKeyed)
    (hunique : record.IsUnique) {values : List (String × Param)} (hvalues : record.values s = .ok values)
    (h : Table.changedCells now none (cellsOf values).reverse row t.fields = .ok changed.cells)
    (hne : name ≠ s.key) (hname : s.hasColumn name) :
    (record.get? name = none ∧ cellOf (t.scope changed) name = cellOf (t.scope row) name) ∨
      ∃ json p, record.get? name = some json ∧ Param.ofJson? json = some p ∧
        cellOf (t.scope changed) name = (Record.kindOf s name).affinity.store p.cell := by
  obtain ⟨c, hc⟩ := Option.isSome_iff_exists.1 hname
  obtain ⟨f, hf, haffinity, hkey⟩ := hfits name c hc
  obtain ⟨hmem, hcname⟩ := Schema.column?_eq_some hc
  have hnotkey : f.isKey = false := hkey.trans (Bool.eq_false_iff.2 fun hc => hne (hcname ▸ hkeyed.only c hmem hc))
  have hcell : ∀ r : Row, cellOf (t.scope r) name = (r.cells.lookup f.name).getD .null := fun r => by
    simp [cellOf, Scope.resolve, Table.scope, hf, Row.cell, hnotkey]
  rw [Table.changedCells_eq_cellsBy] at h
  obtain ⟨new, hlookup, hnew⟩ := Table.lookup_cellsBy h hf hnotkey
  have hgiven := Record.given?_values hkeyed hunique hvalues hne hname
    (List.find?_some (p := fun f : Field => Text.Ascii.same f.name name) hf)
  rw [hgiven] at hnew
  rw [hcell changed, hlookup, Option.getD_some]
  cases hget : record.get? name with
  | none =>
    rw [hget] at hnew
    refine .inl ⟨rfl, ?_⟩
    obtain rfl := Except.ok.inj hnew
    rw [hcell, Row.cell, if_neg (by simp [hnotkey])]
  | some json =>
    obtain ⟨p, hp⟩ : ∃ p, Param.ofJson? json = some p := by
      obtain ⟨p, hmem⟩ := Record.exists_mem_values hvalues (Members.mem_of_get?_eq_some hget) hne hname
      obtain ⟨-, -, json', hjson, hp⟩ := Record.mem_values hvalues hmem
      obtain rfl : json' = json := Option.some.inj ((Members.get?_of_mem hunique hjson).symm.trans hget)
      exact ⟨p, hp⟩
    rw [hget, Option.bind_some, hp, Option.map_some, Option.elim_some] at hnew
    refine .inr ⟨json, p, rfl, hp, ?_⟩
    have hkind : (Record.kindOf s name).affinity = f.affinity := by
      rw [Record.kindOf, hc, Option.map_some, Option.getD_some, haffinity]
    rw [hkind]
    exact Table.eq_of_stored (hplain.onNull f (List.mem_of_find?_eq_some hf)) hnew

end Database

/-! ## Changes -/

/-- A column that a patch does not name is written as it was read, if it is shown. -/
theorem Record.get?_merge_ofRow {patch : Record} (hname : s.hasColumn name) (hpatch : name ∉ patch.map Prod.fst)
    (row : Scope) : Members.get? ((Record.ofRow s (Projection.visible s []) row).merge patch) name =
      if s.isHidden name then none else some ((kindOf s name).decode (Database.cellOf row name)) := by
  rw [Members.get?_merge_of_not_mem _ hpatch, get?_ofRow]
  cases hhidden : s.isHidden name with
  | true =>
    rw [if_neg fun h => by simp [(Projection.mem_visible_iff.1 h).2.1] at hhidden, if_pos rfl]
  | false =>
    rw [if_pos (Projection.mem_visible_iff.2 ⟨hname, hhidden, List.not_mem_nil⟩), if_neg Bool.false_ne_true]

namespace Gateway

/-- A change that succeeds is about the one row of the key. A column of it that was not asked for and is not
maintained keeps its cell if, and only if, it is hidden or the cell is one of the column's kind. -/
theorem update_keeps_iff (hk : db.Keeps s t) (hs : s.flaw? catalog = none) (hkeyed : s.IsKeyed)
    (limits : PageLimits) (now : Instant) (actor : Option Scalar) (id : Scalar) (data : Record) :
    let updated := db.run ((inDatabase catalog s limits).update now actor id data)
    ∀ shown, updated.1 = .ok shown →
      ∃ row changed, t.rows.filter (Database.hasKey t s.key (.ofScalar id)) = [row] ∧
        updated.2 = db.replace s.table (t.changing row changed) ∧ changed.key = row.key ∧
        ∀ name, s.hasColumn name → name ∉ data.map Prod.fst →
          (∀ c, s.columnFor? .updatedAt = some c → c.name ≠ name) →
          (actor.isSome → ∀ c, s.columnFor? .updatedBy = some c → c.name ≠ name) →
          (Database.cellOf (t.scope changed) name = Database.cellOf (t.scope row) name ↔
            s.isHidden name ∨ (Record.kindOf s name).Holds (Database.cellOf (t.scope row) name)) := by
  intro updated shown hshown
  rcases run_update_cases hk hs hkeyed with
    ⟨e, h⟩ | ⟨row, hrow, -, hhas, values, changed, hvalues, hkey, hcells, h⟩
  · rw [show updated = (.error e, db) from h] at hshown
    cases hshown
  refine ⟨row, changed, hk.filter_hasKey_eq hs hkeyed hrow hhas, h, hkey, ?_⟩
  intro name hname hdata hupdatedAt hupdatedBy
  by_cases hne : name = s.key
  · have hkeycell := Database.cellOf_key (hk.fits.isKey hs)
    obtain ⟨c, hc, hkind⟩ := Option.map_eq_some_iff.1 hkeyed.index
    rw [hne, hkeycell, hkeycell, hkey, Record.kindOf, hc, Option.map_some, Option.getD_some, hkind]
    exact iff_of_true rfl (.inr trivial)
  let g := inDatabase catalog s limits
  have hpatch : name ∉
      (g.stampActor .updatedBy actor (g.stamp .updatedAt (.string now.text) data)).map Prod.fst :=
    not_mem_keys_stampActor hupdatedBy (not_mem_keys_stamp hupdatedAt hdata)
  have hget := Record.get?_merge_ofRow hname hpatch (t.scope row)
  have hunique : Members.IsUnique (Record.ofRow s (Projection.visible s []) (t.scope row)) :=
    Members.isUnique_ofList _
  rcases Database.cellOf_changed (hk.isPlain.of_table? hk.table) hk.fits hkeyed (hunique.merge _) hvalues hcells
    hne hname with ⟨hnone, hcell⟩ | ⟨json, p, hsome, hp, hcell⟩
  · rw [hnone] at hget
    split at hget
    · next hhidden => exact iff_of_true hcell (.inl hhidden)
    · cases hget
  · rw [hsome] at hget
    split at hget
    · cases hget
    · next hhidden =>
      obtain rfl := Option.some.inj hget
      rw [hcell, Kind.store_decode_iff hp]
      simp [hhidden]

/-! ## An account, and a note with a number -/

/-- An account that gets another address, and keeps its password. -/
theorem update_keeps_iff_shop :
    let s := Demo.Shop.userSchema
    let row : Row :=
      ⟨7, [("email", .text "a"), ("password", .text "key"), ("role", .text "user"), ("createdAt", .text "then")]⟩
    let t := Table.ofSchema s [row]
    let db := Demo.Shop.database fun | .user => [row] | _ => []
    let actor : Option Scalar := some (.int 7)
    let data : Record := [("email", .string "b")]
    let updated := db.run ((inDatabase Demo.Shop.catalog s {}).update (.ofEpoch 0 0) actor (.int 7) data)
    db.Keeps s t ∧ s.flaw? Demo.Shop.catalog = none ∧ s.IsKeyed ∧ updated.1.isOk ∧
      ∀ shown, updated.1 = .ok shown →
        ∃ row changed, t.rows.filter (Database.hasKey t s.key (.ofScalar (.int 7))) = [row] ∧
          updated.2 = db.replace s.table (t.changing row changed) ∧ changed.key = row.key ∧
          ∀ name, s.hasColumn name → name ∉ data.map Prod.fst →
            (∀ c, s.columnFor? .updatedAt = some c → c.name ≠ name) →
            (actor.isSome → ∀ c, s.columnFor? .updatedBy = some c → c.name ≠ name) →
            (Database.cellOf (t.scope changed) name = Database.cellOf (t.scope row) name ↔
              s.isHidden name ∨ (Record.kindOf s name).Holds (Database.cellOf (t.scope row) name)) := by
  intro s row t db actor data updated
  have hkeyed : s.IsKeyed := Demo.Shop.isKeyed .user
  have hk : db.Keeps s t := Demo.Shop.keeps_database _ .user (List.pairwise_singleton _ _)
  have hs : s.flaw? Demo.Shop.catalog = none := Demo.Shop.flaw?_eq_none .user
  have hok : updated.1.isOk := by decide
  exact ⟨hk, hs, hkeyed, hok, update_keeps_iff hk hs hkeyed {} (.ofEpoch 0 0) actor (.int 7) data⟩

/-- Notes with a number. -/
def Demo.numberedNote : Schema Unit where
  name := "Note"
  table := "notes"
  key := "id"
  columns :=
    [{ name := "id", kind := .integer, isKey := true },
      { name := "text", kind := .text, nullable := true },
      { name := "n", kind := .integer, nullable := true }]
  relations := []
  hidden := []
  deletion := .hard

/-- A note gets another text, and its number of 1.5 becomes 1 with it. -/
theorem update_rounds_note :
    let s := Demo.numberedNote
    let t : Table := Table.ofSchema s []
    let oneAndAHalf : Binary64 := ⟨0x3ff8000000000000⟩
    let g := inDatabase (fun _ => s) s {}
    let created := ({ tables := [t] } : Database).run
      (g.create (.ofEpoch 0 0) none [("text", .string "a"), ("n", .number (.real oneAndAHalf))])
    let updated := created.2.run (g.update (.ofEpoch 0 0) none (.int 1) [("text", .string "b")])
    s.flaw? (fun _ => s) = none ∧ created.1.isOk ∧ updated.1.isOk ∧
      (created.2.table? s.table).map (fun t => t.rows) =
        some [⟨1, [("text", .text "a"), ("n", .real oneAndAHalf)]⟩] ∧
      (updated.2.table? s.table).map (fun t => t.rows) =
        some [⟨1, [("text", .text "b"), ("n", .integer 1)]⟩] := by
  intro s t oneAndAHalf g created updated
  have hs : s.flaw? (fun _ => s) = none := by decide
  have hcreated : created.1.isOk := by decide
  have hupdated : updated.1.isOk := by decide +kernel
  have hbefore : (created.2.table? s.table).map (fun t => t.rows) =
      some [⟨1, [("text", .text "a"), ("n", .real oneAndAHalf)]⟩] := by decide +kernel
  have hafter : (updated.2.table? s.table).map (fun t => t.rows) =
      some [⟨1, [("text", .text "b"), ("n", .integer 1)]⟩] := by decide +kernel
  exact ⟨hs, hcreated, hupdated, hbefore, hafter⟩

end Gateway

end RecordQuery
