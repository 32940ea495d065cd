import Mathlib.Data.List.Pairwise
import RecordQuery.Proofs.Reading.Fetched
import RecordQuery.Proofs.Reading.Order
import RecordQuery.Proofs.Reading.Rows
import RecordQuery.Proofs.Reading.Sorting
/-!
# Rows that are joined

`Database.related` are the live rows that a relation joins to a row: those whose column there holds what
the column here holds, if that is not null. `Database.IsJoinable` is what joining relies on: tables that
fit their schemas, in the order of their keys, and relations that join by columns of integers. Following
a link fetches all rows that are joined to the records above (`Link.follow_eq_ok`).
-/

namespace RecordQuery

open Outcome Sql
open Database (Row Table)

variable {ι : Type} {catalog : Catalog ι} {root s owner : Schema ι} {db : Database} {t : Table}
  {r : Relation ι} {row : Scope} {name : String}

/-- A cell of an integer or null. -/
def Sql.Cell.IsIndex : Cell → Prop
  | .null => True
  | .integer _ => True
  | _ => False

instance : DecidablePred Sql.Cell.IsIndex
  | .null => isTrue trivial
  | .integer _ => isTrue trivial
  | .real _ => isFalse id
  | .text _ => isFalse id
  | .blob _ => isFalse id

theorem Sql.Cell.IsIndex.eq_or {cell : Cell} (h : cell.IsIndex) :
    cell = .null ∨ ∃ i, cell = .integer i := by
  cases cell with
  | null => exact .inl rfl
  | integer i => exact .inr ⟨i, rfl⟩
  | _ => exact absurd h id

namespace Schema

/-- A column of integers. -/
def IsIndex (s : Schema ι) (name : String) : Prop := (s.column? name).map Column.kind = some .integer

instance (s : Schema ι) (name : String) : Decidable (s.IsIndex name) :=
  inferInstanceAs (Decidable (_ = _))

/-- Every relation of a graph joins columns of integers. -/
def JoinsIndexes (catalog : Catalog ι) (root : Schema ι) : Prop :=
  ∀ s, IsIn catalog root s → ∀ r ∈ s.relations,
    s.IsIndex (s.joinKeys catalog r).1 ∧ (catalog r.target).IsIndex (s.joinKeys catalog r).2

end Schema

namespace Database

/-- A table has a field of the same type for every column, and the same key. -/
def Table.Fits (t : Table) (s : Schema ι) : Prop :=
  ∀ name c, s.column? name = some c →
    ∃ f, t.field? name = some f ∧ f.affinity = c.kind.affinity ∧ f.isKey = c.isKey

theorem Table.Fits.covers (h : t.Fits s) : t.Covers s := by
  intro name hname
  obtain ⟨c, hc⟩ := Option.isSome_iff_exists.1 hname
  obtain ⟨f, hf, -⟩ := h name c hc
  simp [hf]

/-- The table of a schema fits it, unless names differ in case only. -/
theorem Table.fits_ofSchema (h : s.columnNames.Pairwise fun name other => ¬ Text.Ascii.same name other)
    (rows : List Row) : (Table.ofSchema s rows).Fits s := by
  intro name c hc
  have hmem := List.mem_of_find?_eq_some hc
  have hname : c.name = name := beq_iff_eq.1 (List.find?_some (p := fun c : Column => c.name == name) hc)
  have hnames : (Table.ofSchema s rows).fields.map Field.name = s.columnNames := by
    simp [Table.ofSchema, Schema.columnNames, Table.fieldOf]
  have hfield : Table.fieldOf c ∈ (Table.ofSchema s rows).fields := List.mem_map_of_mem hmem
  have hfound := Table.field?_of_mem (hnames ▸ h) hfield
  exact ⟨Table.fieldOf c, hname ▸ hfound, rfl, rfl⟩

theorem Table.Fits.isKey (h : t.Fits s) (hs : s.flaw? catalog = none) : t.IsKey s.key := by
  obtain ⟨c, hc, hkey⟩ := Schema.key_of_flaw?_eq_none hs
  obtain ⟨f, hf, -, hfkey⟩ := h s.key c hc
  exact ⟨f, hf, hfkey.trans hkey⟩

/-- What joining relies on. -/
structure IsJoinable (db : Database) (catalog : Catalog ι) (root : Schema ι) : Prop where
  fits : ∀ s, Schema.IsIn catalog root s → ∀ t, db.table? s.table = some t → t.Fits s
  ordered : ∀ s, Schema.IsIn catalog root s → ∀ t, db.table? s.table = some t → t.IsOrdered
  joins : Schema.JoinsIndexes catalog root
  here : ∀ s, Schema.IsIn catalog root s → ∀ r ∈ s.relations, ∀ row ∈ db.scopes s.table,
    (cellOf row (s.joinKeys catalog r).1).IsIndex
  there : ∀ s, Schema.IsIn catalog root s → ∀ r ∈ s.relations,
    ∀ row ∈ db.scopes (catalog r.target).table, (cellOf row (s.joinKeys catalog r).2).IsIndex

/-- The live rows of a schema's table that hold a cell in a column, unless that is null. -/
def joined (db : Database) (s : Schema ι) (column : String) (cell : Cell) : List Scope :=
  (db.scopes s.table).filter fun row => s.isLive row && !cell.isNull && cellOf row column == cell

/-- The live rows that a relation joins to a row. -/
def related (db : Database) (catalog : Catalog ι) (s : Schema ι) (r : Relation ι) (row : Scope) :
    List Scope :=
  db.joined (catalog r.target) (s.joinKeys catalog r).2 (cellOf row (s.joinKeys catalog r).1)

/-- The tables of a catalog can be joined if its relations join by columns of integers, and rows that lie in
the order of their keys hold nothing else there. -/
theorem isJoinable_of_table? {rows : ι → List Row}
    (h : ∀ i, db.table? (catalog i).table = some (Table.ofSchema (catalog i) (rows i)))
    (hfits : ∀ i, (Table.ofSchema (catalog i) (rows i)).Fits (catalog i))
    (hordered : ∀ i, (Table.ofSchema (catalog i) (rows i)).IsOrdered)
    (hjoins : ∀ i, ∀ r ∈ (catalog i).relations, (catalog i).IsIndex ((catalog i).joinKeys catalog r).1 ∧
      (catalog r.target).IsIndex ((catalog i).joinKeys catalog r).2)
    (hcells : ∀ i, ∀ r ∈ (catalog i).relations,
      (∀ row ∈ (Table.ofSchema (catalog i) (rows i)).scopes,
        (cellOf row ((catalog i).joinKeys catalog r).1).IsIndex) ∧
      ∀ row ∈ (Table.ofSchema (catalog r.target) (rows r.target)).scopes,
        (cellOf row ((catalog i).joinKeys catalog r).2).IsIndex)
    (kind : ι) : db.IsJoinable catalog (catalog kind) := by
  have hscopes : ∀ i, db.scopes (catalog i).table = (Table.ofSchema (catalog i) (rows i)).scopes := by
    intro i
    rw [scopes, h, Option.map_some, Option.getD_some]
  refine ⟨?_, ?_, ?_, ?_, ?_⟩
  all_goals intro s hs; obtain ⟨i, rfl⟩ := Schema.exists_of_isIn hs
  · intro t ht
    obtain rfl := Option.some.inj ((h i).symm.trans ht)
    exact hfits i
  · intro t ht
    obtain rfl := Option.some.inj ((h i).symm.trans ht)
    exact hordered i
  · exact hjoins i
  · intro r hr
    rw [hscopes]
    exact (hcells i r hr).1
  · intro r hr
    rw [hscopes]
    exact (hcells i r hr).2

theorem joined_null (db : Database) (s : Schema ι) (column : String) : db.joined s column .null = [] := by
  simp [joined, Cell.isNull]

theorem joined_eq_filter_live (ht : db.table? s.table = some t) (i : Int64) :
    db.joined s name (.integer i) =
      ((t.live s).filter fun r => cellOf (t.scope r) name == .integer i).map t.scope := by
  rw [joined, scopes_eq_map ht, List.filter_map, Table.live, List.filter_filter]
  congr 1
  refine List.filter_congr fun r _ => ?_
  simp [Cell.isNull, Bool.and_comm]

/-- A key belongs to at most one row. -/
theorem length_joined_key_le (h : db.IsJoinable catalog root) (hsound : Schema.IsSound catalog root)
    (hs : Schema.IsIn catalog root s) (cell : Cell) : (db.joined s s.key cell).length ≤ 1 := by
  cases ht : db.table? s.table with
  | none => simp [joined, scopes, ht]
  | some t =>
    have hkey := (h.fits s hs t ht).isKey (hsound s hs)
    cases cell with
    | integer i =>
      have hrows := ((h.ordered s hs t ht).filter fun r => s.isLive (t.scope r)).filter
        fun r => cellOf (t.scope r) s.key == .integer i
      rw [joined_eq_filter_live ht, List.length_map, Table.live]
      cases hm : (t.rows.filter fun r => s.isLive (t.scope r)).filter
          fun r => cellOf (t.scope r) s.key == .integer i with
      | nil => simp
      | cons r others =>
        cases others with
        | nil => simp
        | cons other rest =>
          have hcell : ∀ r' ∈ r :: other :: rest, r'.key = i := by
            intro r' hr'
            rw [← hm, List.mem_filter, cellOf_key hkey] at hr'
            simpa using hr'.2
          rw [hm, List.pairwise_cons] at hrows
          have hlt := hrows.1 other List.mem_cons_self
          rw [hcell r (by simp), hcell other (by simp)] at hlt
          exact absurd hlt (Int64.lt_irrefl)
    | _ =>
      have hempty : ∀ row ∈ db.scopes s.table, ∃ i, cellOf row s.key = .integer i := by
        intro row hrow
        rw [scopes_eq_map ht] at hrow
        obtain ⟨r, -, rfl⟩ := List.mem_map.1 hrow
        exact ⟨r.key, cellOf_key hkey r⟩
      rw [joined, List.filter_eq_nil_iff.2, List.length_nil]
      · omega
      · intro row hrow
        obtain ⟨i, hi⟩ := hempty row hrow
        simp [hi]

end Database

/-! ## Comparing keys -/

theorem order_toInt_eq_iff (i j : Int64) : order i.toInt j.toInt = .eq ↔ i = j := by
  rw [(compares_order_self _ _).eq_eq, Int64.toInt_inj]

/-- A column of integers is equal to an integer exactly if it holds it. -/
theorem Sql.Operand.compare_eq_yes_iff {a : Operand} (haffinity : a.affinity = some .integer)
    (hcell : a.cell.IsIndex) (i : Int64) :
    a.compare .eq (.integer i) = .yes ↔ a.cell = .integer i := by
  rw [compare]
  cases hc : a.cell with
  | null => simp [comparand, haffinity, Affinity.comparand, Cell.toNumber, Cell.compare?, Cell.isNull, Truth.ofBool?]
  | integer j =>
    simp only [comparand, haffinity, Affinity.comparand, Cell.toNumber, Cell.compare?, Cell.isNull,
      Param.cell, Cell.compareKnown, Option.map_some, Comparison.admits, Bool.or_self, Bool.false_eq_true, if_false]
    rw [Truth.ofBool?, ← Truth.holds_eq_true_iff, Truth.holds_ofBool, Ordering.isEq_iff_eq_eq,
      order_toInt_eq_iff, Cell.integer.injEq]
  | _ => simp [hc, Cell.IsIndex] at hcell

/-- The affinity of a column of integers. -/
theorem Database.Table.Fits.affinity_resolve (h : t.Fits s) (hname : s.IsIndex name) (r : Row) :
    (Scope.resolve [t.scope r] name).affinity = some .integer := by
  obtain ⟨c, hc, hkind⟩ := Option.map_eq_some_iff.1 hname
  obtain ⟨f, hf, haffinity, -⟩ := h name c hc
  simp [Scope.resolve, Table.scope, hf, haffinity, hkind, Kind.affinity]

/-- The rows that a statement keeps whose column has one of the values. -/
theorem Database.matching_filterIn {q : Select} {values : List Param} (hfits : t.Fits s)
    (hq : ((Select.live s).filterIn s name values) = .ok q) :
    db.matching q t = (t.live s).filter fun r =>
      (Truth.any (values.map ((Scope.resolve [t.scope r] name).compare .eq))).holds := by
  obtain ⟨-, -, hq⟩ := bind_eq_ok_iff.1 hq
  obtain rfl := Except.ok.inj hq
  rw [matching_eq_filter, Table.live, List.filter_filter]
  refine List.filter_congr fun r _ => ?_
  have hknown : ∀ name, s.hasColumn name → (t.scope r name).isSome := fun name hname =>
    Table.isSome_scope (hfits.covers name hname) r
  rw [satisfies, Select.live, Condition.evalAll_append, Condition.evalAll_unmarked hknown [], Truth.holds_and,
    Truth.holds_ofBool, Bool.and_comm, Condition.evalAll, Condition.evalAll, Condition.eval, Truth.and_yes]

/-! ## Following a link -/

namespace Loading

variable {p : Projection} {entry : RelationColumns} {path : String} {names : List String} {q : Select}
  {upper lower records : List Record}

/-- Adds a value, unless it is null or there is one of its text already. -/
def addDistinct (values : List Json) (value : Json) : List Json :=
  if value.isNull || values.any (·.compact == value.compact) then values else values ++ [value]

theorem mem_addDistinct {values : List Json} {value other : Json} :
    other ∈ addDistinct values value →
      other ∈ values ∨ other = value ∧ value.isNull = false := by
  rw [addDistinct]
  split
  · exact .inl
  · next h =>
    intro ho
    simp only [Bool.or_eq_true, not_or, Bool.not_eq_true] at h
    rcases List.mem_append.1 ho with ho | ho
    · exact .inl ho
    · exact .inr ⟨List.mem_singleton.1 ho, h.1⟩

theorem subset_addDistinct (values : List Json) (value : Json) : values ⊆ addDistinct values value := by
  rw [addDistinct]
  split
  · exact List.Subset.refl values
  · exact List.subset_append_left values [value]

theorem exists_addDistinct (values : List Json) {value : Json} (h : value.isNull = false) :
    ∃ other ∈ addDistinct values value, other.compact = value.compact := by
  rw [addDistinct]
  split
  · next hv =>
    rw [h, Bool.false_or, List.any_eq_true] at hv
    obtain ⟨other, ho, heq⟩ := hv
    exact ⟨other, ho, beq_iff_eq.1 heq⟩
  · exact ⟨value, List.mem_append_right values (List.mem_singleton_self value), rfl⟩

/-- Distinct values are values of records, and none is null. -/
theorem of_mem_distinctValues {column : String} {value : Json}
    (h : value ∈ distinctValues records column) :
    value.isNull = false ∧ ∃ record ∈ records, record.get? column = some value := by
  have hmem : ∀ (more values : List Json), value ∈ more.foldl addDistinct values →
      value ∈ values ∨ value ∈ more ∧ value.isNull = false := by
    intro more
    induction more with
    | nil => exact fun values => .inl
    | cons other more ih =>
      intro values hv
      rcases ih _ hv with hv | ⟨hv, hnull⟩
      · rcases mem_addDistinct hv with hv | ⟨rfl, hnull⟩
        · exact .inl hv
        · exact .inr ⟨List.mem_cons_self, hnull⟩
      · exact .inr ⟨List.mem_cons_of_mem other hv, hnull⟩
  rcases hmem _ [] h with hnil | ⟨hv, hnull⟩
  · exact absurd hnil List.not_mem_nil
  · exact ⟨hnull, List.mem_filterMap.1 hv⟩

/-- Every value that is not null is among the distinct ones, by its text. -/
theorem exists_distinctValues {column : String} {record : Record} {value : Json} (hr : record ∈ records)
    (hv : record.get? column = some value) (hnull : value.isNull = false) :
    ∃ other ∈ distinctValues records column, other.compact = value.compact := by
  have hsubset : ∀ (more values : List Json), values ⊆ more.foldl addDistinct values := by
    intro more
    induction more with
    | nil => exact List.Subset.refl
    | cons other more ih => exact fun values => List.Subset.trans (subset_addDistinct values other) (ih _)
  have hexists : ∀ (more values : List Json), value ∈ more →
      ∃ other ∈ more.foldl addDistinct values, other.compact = value.compact := by
    intro more
    induction more with
    | nil => exact fun _ h => absurd h List.not_mem_nil
    | cons other more ih =>
      intro values h
      rcases List.mem_cons.1 h with rfl | h
      · obtain ⟨found, hf, heq⟩ := exists_addDistinct values hnull
        exact ⟨found, hsubset more _ hf, heq⟩
      · exact ih _ h
  exact hexists _ [] (List.mem_filterMap.2 ⟨record, hr, hv⟩)

variable {upperNames : List String} {upperRows : List Scope}

theorem get?_ofRow_of_isIndex (hname : s.IsIndex name) (hmem : name ∈ names) (row : Scope) :
    Members.get? (Record.ofRow s names row) name =
      some (Kind.integer.decode (Database.cellOf row name)) := by
  obtain ⟨c, hc, hkind⟩ := Option.map_eq_some_iff.1 hname
  rw [Record.get?_ofRow, if_pos hmem, Record.kindOf, hc, Option.map_some, Option.getD_some, hkind]

/-- A value that a record holds in a column of integers, if it is not null. -/
theorem exists_of_get?_ofRow (hname : s.IsIndex name) (hmem : name ∈ names)
    (hindex : (Database.cellOf row name).IsIndex) {value : Json}
    (hv : Members.get? (Record.ofRow s names row) name = some value) (hnull : value.isNull = false) :
    ∃ i, Database.cellOf row name = .integer i ∧ value = .ofInt64 i := by
  rw [get?_ofRow_of_isIndex hname hmem, Option.some.injEq] at hv
  rcases hindex.eq_or with hcell | ⟨i, hcell⟩
  · rw [hcell] at hv
    exact absurd (hv ▸ hnull) (by simp [Kind.decode, Cell.asInteger?, Json.isNull])
  · exact ⟨i, hcell, by rw [← hv, hcell]; rfl⟩

/-- The keys that a level looks for: the integers that the rows above hold. -/
theorem mem_keys_iff (hname : s.IsIndex name) (hmem : name ∈ names)
    (hindex : ∀ row ∈ upperRows, (Database.cellOf row name).IsIndex) {key : Param} :
    key ∈ (distinctValues (upperRows.map (Record.ofRow s names)) name).filterMap Param.ofJson? ↔
      ∃ row ∈ upperRows, ∃ i, Database.cellOf row name = .integer i ∧ key = .integer i := by
  have hvalue : ∀ value ∈ distinctValues (upperRows.map (Record.ofRow s names)) name,
      ∃ row ∈ upperRows, ∃ i, Database.cellOf row name = .integer i ∧ value = .ofInt64 i := by
    intro value hv
    obtain ⟨hnull, record, hrecord, hget⟩ := of_mem_distinctValues hv
    obtain ⟨row, hrow, rfl⟩ := List.mem_map.1 hrecord
    exact ⟨row, hrow, exists_of_get?_ofRow hname hmem (hindex row hrow) hget hnull⟩
  rw [List.mem_filterMap]
  constructor
  · rintro ⟨value, hv, hkey⟩
    obtain ⟨row, hrow, i, hcell, rfl⟩ := hvalue value hv
    exact ⟨row, hrow, i, hcell, (Option.some.inj hkey).symm⟩
  · rintro ⟨row, hrow, i, hcell, rfl⟩
    have hget : Members.get? (Record.ofRow s names row) name = some (.ofInt64 i) := by
      rw [get?_ofRow_of_isIndex hname hmem, hcell]
      rfl
    obtain ⟨other, ho, htext⟩ := exists_distinctValues (List.mem_map_of_mem hrow) hget rfl
    obtain ⟨-, -, j, -, rfl⟩ := hvalue other ho
    rw [Json.compact_ofInt64_inj] at htext
    exact ⟨.ofInt64 j, ho, congrArg (some <| Param.integer ·) htext⟩

end Loading

/-! ## Looking for keys -/

namespace Loading

variable {p : Projection} {entry : RelationColumns} {path : String} {link : Link ι} {keys few : List Param}
  {lower : List Record} {upperNames : List String} {upperRows : List Scope}

/-- The keys that are looked for. -/
def keysOf (records : List Record) (column : String) : List Param :=
  (distinctValues records column).filterMap Param.ofJson?

/-- The statement that looks for keys in a column. -/
def lookUp (s : Schema ι) (name : String) (keys : List Param) : Select where
  table := s.table
  conditions := Condition.unmarked s ++ [.oneOf name keys]
  order := [(.column s.key, .ascending)]

/-- Whether a row is found for some of the keys. -/
def isFound (keys : List Param) (name : String) (row : Scope) : Bool :=
  (Truth.any (keys.map ((Scope.resolve [row] name).compare .eq))).holds

theorem isFound_iff : isFound keys name row ↔ ∃ key ∈ keys, (Scope.resolve [row] name).compare .eq key = .yes := by
  rw [isFound, Truth.holds_eq_true_iff, Truth.any_eq_yes_iff, List.mem_map]

theorem isFound_mono (hsub : few ⊆ keys) (h : isFound few name row) : isFound keys name row := by
  obtain ⟨key, hkey, hequal⟩ := isFound_iff.1 h
  exact isFound_iff.2 ⟨key, hsub hkey, hequal⟩

/-- The rows that are found for keys, in the order of the table. -/
theorem chosen_lookUp (hfits : t.Fits s) (hkey : t.IsKey s.key) (hordered : t.IsOrdered) (hname : s.hasColumn name)
    (keys : List Param) (names : List String) :
    db.chosen (lookUp s name keys) names t = (t.live s).filter fun r => isFound keys name (t.scope r) := by
  have hq : (Select.live s).filterIn s name keys =
      .ok { table := s.table, conditions := Condition.unmarked s ++ [.oneOf name keys] } :=
    bind_eq_ok_iff.2 ⟨(), Condition.requireColumn_eq_ok_iff.2 hname, rfl⟩
  have hmatching : db.matching _ t = (t.live s).filter fun r => isFound keys name (t.scope r) :=
    Database.matching_filterIn hfits hq
  exact (Database.chosen_eq_matching hkey hordered rfl rfl rfl).trans hmatching

/-- The columns that are fetched of the records of a link. -/
def Link.names (catalog : Catalog ι) (p : Projection) (link : Link ι) (entry : RelationColumns) : List String :=
  entry.columns ++ link.internal catalog p entry

/-- Looks for the records whose column has one of the keys. -/
def Link.look (db : Database) (catalog : Catalog ι) (p : Projection) (link : Link ι) (entry : RelationColumns)
    (keys : List Param) : Except StoreError (List Record) :=
  if keys.isEmpty then .ok []
  else do
    (requireColumn link.target link.lowerKey).mapError .invalidQuery
    fetch db link.target (lookUp link.target link.lowerKey keys) (link.names catalog p entry)

theorem Link.follow_eq_look (upper : List Record) :
    link.follow db catalog p entry upper = link.look db catalog p entry (keysOf upper link.upperKey) := by
  rw [follow, look, Select.filterIn]
  cases requireColumn link.target link.lowerKey <;> rfl

/-- What is read when keys are looked for: the live rows with one of these, in the order of the table. -/
theorem Link.look_eq_ok (hs : link.target.flaw? catalog = none)
    (hfits : ∀ t, db.table? link.target.table = some t → t.Fits link.target)
    (hordered : ∀ t, db.table? link.target.table = some t → t.IsOrdered) (hne : ¬ keys.isEmpty)
    (h : link.look db catalog p entry keys = .ok lower) :
    ∃ t, db.table? link.target.table = some t ∧
      lower = (((t.live link.target).filter fun r => isFound keys link.lowerKey (t.scope r)).map t.scope).map
        (Record.ofRow link.target (link.names catalog p entry)) := by
  rw [look, if_neg hne] at h
  obtain ⟨⟨⟩, hcolumn, hfetch⟩ := bind_eq_ok_iff.1 h
  have hname := Condition.requireColumn_eq_ok_iff.1 (mapError_eq_ok_iff.1 hcolumn)
  obtain ⟨t, ht, -, rfl⟩ := fetch_eq_ok hfetch
  have hfit := hfits t ht
  rw [chosen_lookUp hfit (hfit.isKey hs) (hordered t ht) hname]
  refine ⟨t, ht, ?_⟩
  rw [List.map_map]
  rfl

/-- Of the rows that are found for keys, those that hold the integer of a row are the ones that are joined to it. -/
theorem filter_found_eq_related (hjoin : db.IsJoinable catalog root) (howner : Schema.IsIn catalog root owner)
    (hr : r ∈ owner.relations) (ht : db.table? (catalog r.target).table = some t) {i : Int64}
    (hkey : .integer i ∈ keys) (hcell : Database.cellOf row (owner.joinKeys catalog r).1 = .integer i) :
    (((t.live (catalog r.target)).filter fun r' =>
        isFound keys (owner.joinKeys catalog r).2 (t.scope r')).map t.scope).filter
          (fun row => Database.cellOf row (owner.joinKeys catalog r).2 == .integer i) =
      db.related catalog owner r row := by
  have hfits := hjoin.fits _ (Schema.isIn_catalog r.target) t ht
  have hthere := (hjoin.joins owner howner r hr).2
  rw [Database.related, hcell, Database.joined_eq_filter_live ht, List.filter_map, List.filter_filter]
  refine congrArg _ (List.filter_congr fun r' hr' => ?_)
  rw [Function.comp_apply, Bool.and_eq_left_iff_imp]
  intro hmatch
  have hscope : t.scope r' ∈ db.scopes (catalog r.target).table := by
    rw [Database.scopes_eq_map ht]
    exact List.mem_map_of_mem (List.mem_filter.1 hr').1
  exact isFound_iff.2 ⟨.integer i, hkey, (Operand.compare_eq_yes_iff (hfits.affinity_resolve hthere r')
    (hjoin.there owner howner r hr _ hscope) i).2 (beq_iff_eq.1 hmatch)⟩

/-- Following a link gives rows there, and for a row above that holds an integer exactly the rows that are
joined to it. -/
theorem Link.follow_eq_ok (hsound : Schema.IsSound catalog root) (hjoin : db.IsJoinable catalog root)
    (howner : Schema.IsIn catalog root owner) (hr : r ∈ owner.relations)
    (hmem : (owner.joinKeys catalog r).1 ∈ upperNames) (hrows : upperRows ⊆ db.scopes owner.table)
    (h : (Link.ofRelation catalog owner path r).follow db catalog p entry
      (upperRows.map (Record.ofRow owner upperNames)) = .ok lower) :
    ∃ rows : List Scope,
      lower = rows.map (Record.ofRow (catalog r.target) (entry.columns ++
        (Link.ofRelation catalog owner path r).internal catalog p entry)) ∧
      rows ⊆ db.scopes (catalog r.target).table ∧
      ∀ row ∈ upperRows, ∀ i, Database.cellOf row (owner.joinKeys catalog r).1 = .integer i →
        rows.filter (fun row => Database.cellOf row (owner.joinKeys catalog r).2 == .integer i) =
          db.related catalog owner r row := by
  have htarget : Schema.IsIn catalog root (catalog r.target) := Schema.isIn_catalog r.target
  have hkeys : ∀ row ∈ upperRows, ∀ i, Database.cellOf row (owner.joinKeys catalog r).1 = .integer i →
      .integer i ∈ keysOf (upperRows.map (Record.ofRow owner upperNames)) (ofRelation catalog owner path r).upperKey :=
    fun row hrow i hcell => (mem_keys_iff (hjoin.joins owner howner r hr).1 hmem fun row hrow =>
      hjoin.here owner howner r hr row (hrows hrow)).2 ⟨row, hrow, i, hcell, rfl⟩
  rw [follow_eq_look] at h
  generalize keysOf _ _ = keys at h hkeys
  by_cases hempty : keys.isEmpty
  · -- No row above holds an integer.
    rw [look, if_pos hempty] at h
    obtain rfl := Except.ok.inj h
    refine ⟨[], rfl, List.nil_subset _, fun row hrow i hcell => ?_⟩
    have hkey := hkeys row hrow i hcell
    rw [List.isEmpty_iff.1 hempty] at hkey
    exact absurd hkey List.not_mem_nil
  · obtain ⟨t, ht, rfl⟩ :=
      look_eq_ok (hsound _ htarget) (hjoin.fits _ htarget) (hjoin.ordered _ htarget) hempty h
    have ht : db.table? (catalog r.target).table = some t := ht
    refine ⟨_, rfl, ?_, fun row hrow i hcell => ?_⟩
    · rw [Database.scopes_eq_map ht]
      exact List.map_subset t.scope fun r' hr' => (List.mem_filter.1 (List.mem_filter.1 hr').1).1
    · exact filter_found_eq_related hjoin howner hr ht (hkeys row hrow i hcell) hcell

end Loading

end RecordQuery
