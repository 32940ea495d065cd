import RecordQuery.Proofs.Concealment
import RecordQuery.Proofs.Loading.Levels
/-!
# Records with their related ones

`Database.IsLoaded` is what a record that was loaded for a row has to be: it has the selected columns and
the relations that are loaded from it, and nothing else, and under a relation it has the records of the
live rows that are joined to the row, which are loaded in turn. The records of a query are loaded so, one
for each row that its statement gives (`Database.find_isLoaded`).
-/

namespace RecordQuery

open Outcome Sql

variable {ι : Type} {catalog : Catalog ι} {root s owner : Schema ι} {r : Relation ι} {db : Database}
  {p : Projection} {path name : String} {columns internal : List String} {row : Scope} {record : Record}

namespace Projection

/-- The columns that are selected of the records that names of relations lead to. -/
def columnsAlong (p : Projection) (names : List String) : List String :=
  if names.isEmpty then p.columns
  else ((p.relations.find? fun entry => Path.names entry.path == names).map RelationColumns.columns).getD []

/-- Whether related records are loaded along names of relations. -/
def Loads (p : Projection) (names : List String) : Prop :=
  ∃ entry ∈ p.relations, Path.names entry.path = names

end Projection

/-- A record is loaded for a row, down to a depth: it has the selected columns of the row and the relations
that are loaded from it, and each of these holds the loaded records of the rows that are joined to the
row, or the only one of them. -/
def Database.IsLoaded (db : Database) (catalog : Catalog ι) (p : Projection) :
    Nat → Schema ι → List String → Scope → Record → Prop
  | 0, _, _, _, _ => True
  | depth + 1, s, names, row, record =>
    record.IsUnique ∧
    (∀ name, (record.get? name).isSome ↔ name ∈ p.columnsAlong names ∨ p.Loads (names ++ [name])) ∧
    (∀ name ∈ p.columnsAlong names,
      record.get? name = some ((Record.kindOf s name).decode (cellOf row name))) ∧
    ∀ name r, s.relation? name = some r → p.Loads (names ++ [name]) →
      ∃ records, List.Forall₂ (IsLoaded db catalog p depth (catalog r.target) (names ++ [name]))
          (db.related catalog s r row) records ∧
        if r.isMany then record.get? name = some (.array (records.map Json.object))
        else (db.related catalog s r row).length ≤ 1 ∧
          record.get? name = some ((records.head?.map Json.object).getD .null)

namespace Loading

variable {levels below : List (Level ι)} {level : Level ι} {rowsAt : String → List Scope}
  {entry : RelationColumns}

/-! ## Attaching levels to a record -/

/-- Attaches to a record at a path the levels directly below it. -/
def attachOne (path : String) (levels : List (Level ι)) (record : Record) : Record :=
  levels.foldr (fun level record =>
    if Path.parent level.link.path == path then
      record.insert (Path.last level.link.path) (level.related (record.get? level.link.upperKey))
    else record) record

theorem attachOne_cons (path : String) (level : Level ι) (levels : List (Level ι)) (record : Record) :
    attachOne path (level :: levels) record =
      if Path.parent level.link.path = path then
        (attachOne path levels record).insert (Path.last level.link.path)
          (level.related ((attachOne path levels record).get? level.link.upperKey))
      else attachOne path levels record := by
  simp [attachOne]

theorem attachAll_eq_map (path : String) (levels : List (Level ι)) (records : List Record) :
    attachAll path levels records = records.map (attachOne path levels) := by
  induction levels with
  | nil => exact (List.map_id records).symm
  | cons level levels ih =>
    have hstep : attachAll path (level :: levels) records =
        if Path.parent level.link.path == path then level.attachTo (attachAll path levels records)
        else attachAll path levels records := rfl
    rw [hstep, ih]
    split
    · next h =>
      rw [Level.attachTo, List.map_map]
      refine List.map_congr_left fun record _ => ?_
      rw [attachOne_cons, if_pos (beq_iff_eq.1 h)]
      rfl
    · next h =>
      refine List.map_congr_left fun record _ => ?_
      rw [attachOne_cons, if_neg fun heq => h (beq_iff_eq.2 heq)]

theorem finish_cons (level : Level ι) (levels : List (Level ι)) : finish (level :: levels) =
    (if level.link.path.isEmpty then level
      else { level with records := attachAll level.link.path (finish levels) level.records }) ::
      finish levels := rfl

/-- A name that is no relation below is left alone. -/
theorem get?_attachOne_of_ne (h : ∀ level ∈ levels, Path.parent level.link.path = path →
    Path.last level.link.path ≠ name) :
    (attachOne path levels record).get? name = record.get? name := by
  induction levels with
  | nil => rfl
  | cons level levels ih =>
    obtain ⟨hlevel, hrest⟩ := List.forall_mem_cons.1 h
    rw [attachOne_cons]
    split
    · next hparent => rw [Members.get?_insert, if_neg (hlevel hparent).symm, ih hrest]
    · exact ih hrest

/-- A relation below holds what the level holds for the record's key. -/
theorem get?_attachOne (record : Record) (hlevel : level ∈ levels) (hparent : Path.parent level.link.path = path)
    (honly : ∀ other ∈ levels, Path.parent other.link.path = path →
      Path.last other.link.path = Path.last level.link.path → other = level)
    (hkey : ∀ other ∈ levels, Path.parent other.link.path = path →
      Path.last other.link.path ≠ level.link.upperKey) :
    (attachOne path levels record).get? (Path.last level.link.path) =
      some (level.related (record.get? level.link.upperKey)) := by
  induction levels with
  | nil => exact absurd hlevel List.not_mem_nil
  | cons first levels ih =>
    obtain ⟨hfirst, honly⟩ := List.forall_mem_cons.1 honly
    obtain ⟨hfirstkey, hkey⟩ := List.forall_mem_cons.1 hkey
    rw [attachOne_cons]
    by_cases hsame : first = level
    · subst hsame
      rw [if_pos hparent, Members.get?_insert, if_pos rfl, get?_attachOne_of_ne hkey]
    · have hmem := (List.mem_cons.1 hlevel).resolve_left (Ne.symm hsame)
      split
      · next h =>
        rw [Members.get?_insert, if_neg fun heq => hsame (hfirst h heq.symm), ih hmem honly hkey]
      · exact ih hmem honly hkey

theorem isSome_get?_attachOne : ((attachOne path levels record).get? name).isSome ↔
    (record.get? name).isSome ∨
      ∃ level ∈ levels, Path.parent level.link.path = path ∧ Path.last level.link.path = name := by
  induction levels with
  | nil => simp [attachOne]
  | cons level levels ih =>
    rw [attachOne_cons]
    split
    · next h =>
      rw [Members.get?_insert]
      by_cases hname : name = Path.last level.link.path
      · simp [hname, h]
      · rw [if_neg hname, ih]
        simp [h, Ne.symm hname]
    · next h => simp [ih, h]

theorem isUnique_attachOne (h : record.IsUnique) : (attachOne path levels record).IsUnique := by
  induction levels with
  | nil => exact h
  | cons level levels ih =>
    rw [attachOne_cons]
    split
    · exact ih.insert _ _
    · exact ih

/-! ## What a level holds for a key -/

/-- Whether a key above and a key below join their records. -/
def meets (upper lower : Option Json) : Bool :=
  match upper, lower with
  | some k, some l => !k.isNull && k.compact == l.compact
  | _, _ => false

theorem meets_null (lower : Option Json) : meets (some .null) lower = false := by
  cases lower <;> rfl

/-- Integers meet what decodes to the same integer. -/
theorem meets_decode {cell : Cell} (hcell : cell.IsIndex) (i : Int64) :
    meets (some (.ofInt64 i)) (some (Kind.integer.decode cell)) = (cell == .integer i) := by
  have hkey : (Json.ofInt64 i).isNull = false := rfl
  rcases hcell.eq_or with rfl | ⟨j, rfl⟩
  · have hne : (Json.ofInt64 i).compact ≠ (Kind.integer.decode .null).compact :=
      Json.compact_ofInt64_ne_null i
    rw [meets, hkey, beq_eq_false_iff_ne.2 hne]
    rfl
  · have hdecode : Kind.integer.decode (.integer j) = .ofInt64 j := rfl
    rw [meets, hdecode, hkey, Bool.not_false, Bool.true_and, Bool.eq_iff_iff, beq_iff_eq, beq_iff_eq,
      Json.compact_ofInt64_inj, Cell.integer.injEq, eq_comm]

theorem Level.related_eq_meets (level : Level ι) (key : Option Json) : level.related key =
    let shown := (level.records.filter fun record => meets key (record.get? level.link.lowerKey)).map
      fun record => Json.object (record.without level.internal)
    if level.link.isMany then .array shown else shown.head?.getD .null := rfl

/-- For the key of a row a level holds its records of the rows that are joined to the row. -/
theorem Level.related_eq (hjoin : db.IsJoinable catalog root) (howner : Schema.IsIn catalog root owner)
    (hr : r ∈ owner.relations) (hlink : level.link = Link.ofRelation catalog owner path r)
    {rows : List Scope} {f : Scope → Record} (hrecords : level.records = rows.map f)
    (hrows : rows ⊆ db.scopes (catalog r.target).table)
    (hkeys : ∀ other ∈ rows, (f other).get? (owner.joinKeys catalog r).2 =
      some (Kind.integer.decode (Database.cellOf other (owner.joinKeys catalog r).2)))
    (hjoined : ∀ i, Database.cellOf row (owner.joinKeys catalog r).1 = .integer i →
      rows.filter (fun other => Database.cellOf other (owner.joinKeys catalog r).2 == .integer i) =
        db.related catalog owner r row)
    (hindex : (Database.cellOf row (owner.joinKeys catalog r).1).IsIndex) :
    level.related (some (Kind.integer.decode (Database.cellOf row (owner.joinKeys catalog r).1))) =
      let shown := (db.related catalog owner r row).map fun other =>
        Json.object ((f other).without level.internal)
      if r.isMany then .array shown else shown.head?.getD .null := by
  have hfilter : (level.records.filter fun record =>
      meets (some (Kind.integer.decode (Database.cellOf row (owner.joinKeys catalog r).1)))
        (record.get? level.link.lowerKey)) = (db.related catalog owner r row).map f := by
    rw [hrecords, hlink, List.filter_map]
    rcases hindex.eq_or with hcell | ⟨i, hcell⟩
    · rw [Database.related, hcell, Database.joined_null, List.map_nil, List.map_eq_nil_iff,
        List.filter_eq_nil_iff]
      exact fun other _ => Bool.not_eq_true _ ▸ meets_null _
    · rw [← hjoined i hcell]
      refine congrArg _ (List.filter_congr fun other ho => ?_)
      have hlower := hkeys other ho
      rw [Function.comp_apply, hcell, Link.ofRelation, hlower]
      exact meets_decode (hjoin.there owner howner r hr other (hrows ho)) i
  have hmany : level.link.isMany = r.isMany := by rw [hlink]; rfl
  rw [Level.related_eq_meets, hfilter, hmany, List.map_map]
  rfl

/-! ## Completing records -/

/-- A level with everything below attached: its records are loaded for its rows, down to any depth, once
what joining needed is taken away. -/
def Level.IsComplete (db : Database) (catalog : Catalog ι) (root : Schema ι) (p : Projection)
    (rowsAt : String → List Scope) (entry : RelationColumns) (level : Level ι) : Prop :=
  ∃ owner r f, root.above? catalog (Path.parent entry.path) = some owner ∧
    owner.relation? (Path.last entry.path) = some r ∧
    level.link = Link.ofRelation catalog owner entry.path r ∧
    level.records = (rowsAt entry.path).map f ∧
    rowsAt entry.path ⊆ db.scopes (catalog r.target).table ∧
    (∀ row ∈ rowsAt (Path.parent entry.path), ∀ i,
      Database.cellOf row (owner.joinKeys catalog r).1 = .integer i →
        (rowsAt entry.path).filter
            (fun other => Database.cellOf other (owner.joinKeys catalog r).2 == .integer i) =
          db.related catalog owner r row) ∧
    (∀ other ∈ rowsAt entry.path, Members.get? (f other) (owner.joinKeys catalog r).2 =
      some (Kind.integer.decode (Database.cellOf other (owner.joinKeys catalog r).2))) ∧
    ∀ depth, ∀ other ∈ rowsAt entry.path, db.IsLoaded catalog p depth (catalog r.target)
      (Path.walked entry.path) other ((f other).without level.internal)

theorem Level.IsComplete.path_eq (h : level.IsComplete db catalog root p rowsAt entry) :
    level.link.path = entry.path := by
  obtain ⟨_, _, _, _, _, hlink, -⟩ := h
  exact congrArg Link.path hlink

section

variable (hsound : Schema.IsSound catalog root) (hnamed : Schema.IsNamed catalog root)
  (hp : p.IsSelection catalog root)

include hnamed hp

/-- The names of a path are those of the path above and its last one. -/
theorem names_eq {entry : RelationColumns} (he : entry ∈ p.relations) :
    Path.names entry.path = Path.walked (Path.parent entry.path) ++ [Path.last entry.path] := by
  obtain ⟨target, htarget, -⟩ := hp.leads entry he
  exact Schema.names_eq_walked (hnamed root Schema.isIn_root) htarget

/-- The levels below the records at a path come after them. -/
theorem mem_after {before after : List String}
    (hpaths : p.relations.map RelationColumns.path = before ++ path :: after)
    {entry : RelationColumns} (he : entry ∈ p.relations) (hparent : Path.parent entry.path = path) :
    entry.path ∈ after := by
  have hclosed := hp.closed
  have hne := not_mem_paths hnamed hp
  have hmem : entry.path ∈ before ++ path :: after := hpaths ▸ List.mem_map_of_mem he
  have hself := hclosed.parent_ne hne (List.mem_map_of_mem he)
  have hpairwise := hclosed.pairwise hne
  rw [hpaths, List.pairwise_append] at hpairwise
  rcases List.mem_append.1 hmem with hbefore | hafter
  · exact absurd hparent (hpairwise.2.2 _ hbefore path List.mem_cons_self).2
  · exact (List.mem_cons.1 hafter).resolve_left fun heq => hself (hparent.trans heq.symm)

theorem loads_walked_iff : p.Loads (Path.walked path ++ [name]) ↔
    ∃ entry ∈ p.relations, Path.parent entry.path = path ∧ Path.last entry.path = name := by
  refine exists_congr fun entry => and_congr_right fun he => ?_
  constructor
  · exact Path.of_names_eq_walked
  · rintro ⟨rfl, rfl⟩
    exact names_eq hnamed hp he

/-- What is loaded from the records at a path is a relation of theirs. -/
theorem Stands.exists_relation (h : Stands catalog root p path s columns internal)
    (hloads : p.Loads (Path.walked path ++ [name])) : ∃ r, s.relation? name = some r := by
  obtain ⟨entry, he, rfl, rfl⟩ := (loads_walked_iff hnamed hp).1 hloads
  obtain ⟨target, htarget, -⟩ := hp.leads entry he
  obtain ⟨owner, r, howner, hr, -⟩ := Schema.exists_above? (hnamed root Schema.isIn_root) htarget
  rw [h.above?_eq hnamed hp, Option.some.injEq] at howner
  exact ⟨r, howner ▸ hr⟩

theorem Stands.columnsAlong_eq (h : Stands catalog root p path s columns internal) :
    p.columnsAlong (Path.walked path) = columns := by
  cases h with
  | root => rfl
  | @below entry owner r hentry howner hr =>
    rw [Path.walked_of_ne (path_ne hnamed hp hentry), Projection.columnsAlong,
      if_neg (by simpa using Path.names_ne_nil entry.path)]
    cases hfind : p.relations.find? fun other => Path.names other.path == Path.names entry.path with
    | none => simpa using List.find?_eq_none.1 hfind entry hentry
    | some other =>
      have hnames := List.find?_some
        (p := fun other : RelationColumns => Path.names other.path == Path.names entry.path) hfind
      have hpath : other.path = entry.path := by
        rw [← Path.intercalate_names other.path, beq_iff_eq.1 hnames, Path.intercalate_names]
      rw [eq_of_path_eq hnamed hp (List.mem_of_find?_eq_some hfind) hentry hpath]
      rfl

/-- A complete level is the only one of its name directly below a path. -/
theorem eq_of_last_eq
    (hbelow : ∀ level ∈ below, ∃ entry ∈ p.relations, level.IsComplete db catalog root p rowsAt entry)
    (hnodup : (below.map fun level => level.link.path).Nodup) {other : Level ι} (ho : other ∈ below)
    (hl : level ∈ below) (hparent : Path.parent other.link.path = Path.parent level.link.path)
    (hlast : Path.last other.link.path = Path.last level.link.path) : other = level := by
  obtain ⟨entry, he, hlevel⟩ := hbelow level hl
  obtain ⟨entry', he', hother⟩ := hbelow other ho
  have hpath := hlevel.path_eq
  have hpath' := hother.path_eq
  have hnames : Path.names entry'.path = Path.names entry.path := by
    rw [names_eq hnamed hp he', names_eq hnamed hp he, ← hpath, ← hpath', hparent, hlast]
  have hsame : other.link.path = level.link.path := by
    rw [hpath, hpath', ← Path.intercalate_names entry'.path, hnames, Path.intercalate_names]
  exact List.inj_on_of_nodup_map hnodup ho hl hsame

include hsound

/-- A level directly below is not named like a column. -/
theorem last_ne_column (h : Stands catalog root p path s columns internal)
    (hlevel : ∃ entry ∈ p.relations, level.IsComplete db catalog root p rowsAt entry)
    (hparent : Path.parent level.link.path = path) (hname : s.hasColumn name) :
    Path.last level.link.path ≠ name := by
  rintro rfl
  obtain ⟨entry, -, hcomplete⟩ := hlevel
  rw [hcomplete.path_eq] at hparent hname
  obtain ⟨owner, r, f, howner, hr, -⟩ := hcomplete
  rw [hparent, h.above?_eq hnamed hp, Option.some.injEq] at howner
  subst howner
  obtain ⟨hmem, hrname⟩ := Schema.relation?_eq_some hr
  have hno := Schema.not_hasColumn_relation (hsound s (h.isIn hnamed hp)) hmem
  rw [hrname, hname] at hno
  cases hno

/-- No relation is named like a column that joining needs. -/
theorem Stands.not_mem_internal (h : Stands catalog root p path s columns internal)
    (hr : s.relation? name = some r) : name ∉ internal := by
  intro hn
  obtain ⟨hmem, rfl⟩ := Schema.relation?_eq_some hr
  have hno := Schema.not_hasColumn_relation (hsound s (h.isIn hnamed hp)) hmem
  rw [h.hasColumn hsound hnamed hp (List.mem_append_right columns hn)] at hno
  cases hno

section

variable (h : Stands catalog root p path s columns internal)
  (hbelow : ∀ level ∈ below, ∃ entry ∈ p.relations, level.IsComplete db catalog root p rowsAt entry)
  (hall : ∀ entry ∈ p.relations, Path.parent entry.path = path →
    entry.path ∈ below.map fun level => level.link.path)

include h hbelow

/-- A selected column is left alone by the levels below. -/
theorem get?_attachOne_of_mem_columns (hn : name ∈ columns) :
    (((attachOne path below (Record.ofRow s (columns ++ internal) row)).without internal).get? name) =
      some ((Record.kindOf s name).decode (Database.cellOf row name)) := by
  have hname := h.hasColumn hsound hnamed hp (List.mem_append_left internal hn)
  rw [Record.get?_without, if_neg fun hint => h.not_mem_columns hint hn,
    get?_attachOne_of_ne fun level hl hparent => last_ne_column hsound hnamed hp h (hbelow level hl) hparent hname,
    Record.get?_ofRow, if_pos (List.mem_append_left _ hn)]

include hall

/-- Once the levels directly below are attached, a record has the selected columns and what is loaded from it. -/
theorem isSome_get?_attachOne_iff (name : String) :
    (((attachOne path below (Record.ofRow s (columns ++ internal) row)).without internal).get? name).isSome ↔
      name ∈ columns ∨ p.Loads (Path.walked path ++ [name]) := by
  rw [Record.get?_without]
  by_cases hint : name ∈ internal
  · rw [if_pos hint]
    refine iff_of_false (by simp) ?_
    rintro (hn | hloads)
    · exact h.not_mem_columns hint hn
    · obtain ⟨r, hr⟩ := h.exists_relation hnamed hp hloads
      exact h.not_mem_internal hsound hnamed hp hr hint
  · rw [if_neg hint, isSome_get?_attachOne, Record.get?_ofRow, loads_walked_iff hnamed hp]
    refine or_congr (by simp [hint]) ⟨?_, ?_⟩
    · rintro ⟨level, hl, hparent, hlast⟩
      obtain ⟨entry, he, hcomplete⟩ := hbelow level hl
      have hpath := hcomplete.path_eq
      exact ⟨entry, he, hpath ▸ hparent, hpath ▸ hlast⟩
    · rintro ⟨entry, he, hparent, hlast⟩
      obtain ⟨level, hl, hpath⟩ := List.mem_map.1 (hall entry he hparent)
      exact ⟨level, hl, by rw [hpath, hparent], by rw [hpath, hlast]⟩

/-- Under a relation that is loaded, a record has what is loaded for the rows that are joined to its own. -/
theorem exists_related_attachOne (hjoin : db.IsJoinable catalog root) (hrow : row ∈ rowsAt path)
    (hscope : row ∈ db.scopes s.table) (hnodup : (below.map fun level => level.link.path).Nodup)
    (hr : s.relation? name = some r) (hloads : p.Loads (Path.walked path ++ [name])) :
    ∃ shown : Scope → Record, (∀ depth, ∀ other ∈ db.related catalog s r row,
        db.IsLoaded catalog p depth (catalog r.target) (Path.walked path ++ [name]) other (shown other)) ∧
      ((attachOne path below (Record.ofRow s (columns ++ internal) row)).without internal).get? name =
        some (if r.isMany then .array ((db.related catalog s r row).map fun other => .object (shown other))
          else ((db.related catalog s r row).map fun other => Json.object (shown other)).head?.getD .null) := by
  have hs := h.isIn hnamed hp
  obtain ⟨entry, he, hparent, hlast⟩ := (loads_walked_iff hnamed hp).1 hloads
  obtain ⟨level, hl, hpath⟩ := List.mem_map.1 (hall entry he hparent)
  obtain ⟨other, hother, hcomplete⟩ := hbelow level hl
  obtain rfl : other = entry := eq_of_path_eq hnamed hp hother he (hcomplete.path_eq.symm.trans hpath)
  obtain ⟨owner, r', f, howner, hr', hlink, hrecords, hrows, hjoined, hkeys, hloaded⟩ := hcomplete
  rw [hparent, h.above?_eq hnamed hp, Option.some.injEq] at howner
  subst howner
  rw [hlast, hr, Option.some.injEq] at hr'
  subst hr'
  have hmem := (Schema.relation?_eq_some hr).1
  have hindex := hjoin.here s hs r hmem row hscope
  have hkey := h.mem_of_mem_neededKeys (mem_neededKeys_iff.2 ⟨other, hother, hparent, r, by rw [hlast, hr], rfl⟩)
  have hupper : Members.get? (Record.ofRow s (columns ++ internal) row) level.link.upperKey =
      some (Kind.integer.decode (Database.cellOf row (s.joinKeys catalog r).1)) := by
    rw [hlink]
    exact get?_ofRow_of_isIndex (hjoin.joins s hs r hmem).1 hkey row
  have habove : Path.parent level.link.path = path := by rw [hpath, hparent]
  have hvalue := get?_attachOne (Record.ofRow s (columns ++ internal) row) hl habove
    (fun level' hl' hparent' => eq_of_last_eq hnamed hp hbelow hnodup hl' hl (hparent'.trans habove.symm))
    (fun level' hl' hparent' hlast' => last_ne_column hsound hnamed hp h (hbelow level' hl') hparent' (by
      rw [hlink]
      exact Schema.hasColumn_joinKeys_fst (hsound s hs) hmem) hlast')
  rw [hpath, hlast, hupper, level.related_eq hjoin hs hmem hlink hrecords hrows hkeys
    (hjoined row (hparent ▸ hrow)) hindex] at hvalue
  refine ⟨fun other => (f other).without level.internal, fun depth below hbelow => ?_, ?_⟩
  · rw [← hlast, ← hparent, ← names_eq hnamed hp hother, ← Path.walked_of_ne (path_ne hnamed hp hother)]
    refine hloaded depth below ?_
    rcases hindex.eq_or with hcell | ⟨i, hcell⟩
    · rw [Database.related, hcell, Database.joined_null] at hbelow
      exact absurd hbelow List.not_mem_nil
    · rw [← hjoined row (hparent ▸ hrow) i hcell] at hbelow
      exact (List.mem_filter.1 hbelow).1
  · rw [Record.get?_without, if_neg (h.not_mem_internal hsound hnamed hp hr), hvalue]

/-- The record of a row is loaded once the complete levels directly below it are attached and what joining
needed is taken away. -/
theorem isLoaded_attachOne (hjoin : db.IsJoinable catalog root) (hrow : row ∈ rowsAt path)
    (hscope : row ∈ db.scopes s.table) (hnodup : (below.map fun level => level.link.path).Nodup) (depth : Nat) :
    db.IsLoaded catalog p depth s (Path.walked path) row
      ((attachOne path below (Record.ofRow s (columns ++ internal) row)).without internal) := by
  cases depth with
  | zero => trivial
  | succ depth =>
    rw [Database.IsLoaded, h.columnsAlong_eq hnamed hp]
    refine ⟨Record.isUnique_without (isUnique_attachOne (Record.isUnique_ofRow s _ _)) internal,
      isSome_get?_attachOne_iff hsound hnamed hp h hbelow hall,
      fun name hn => get?_attachOne_of_mem_columns hsound hnamed hp h hbelow hn, fun name r hr hloads => ?_⟩
    obtain ⟨shown, hshown, hvalue⟩ :=
      exists_related_attachOne hsound hnamed hp h hbelow hall hjoin hrow hscope hnodup hr hloads
    refine ⟨(db.related catalog s r row).map shown, ?_, ?_⟩
    · rw [List.forall₂_map_right_iff, List.forall₂_same]
      exact hshown depth
    · rw [hvalue]
      cases hjoinkind : r.join with
      | hasMany foreignKey => simp [Relation.isMany, hjoinkind, Function.comp_def]
      | belongsTo localKey =>
        simp only [Relation.isMany, hjoinkind, Bool.false_eq_true, if_false, List.head?_map]
        refine ⟨?_, by cases (db.related catalog s r row).head? <;> rfl⟩
        rw [Database.related, Schema.joinKeys, hjoinkind]
        exact Database.length_joined_key_le hjoin hsound (Schema.isIn_catalog r.target) _

end

/-- A level that was loaded is complete once the complete levels directly below it are attached. -/
theorem Level.Joins.isComplete_attached (hjoin : db.IsJoinable catalog root) (he : entry ∈ p.relations)
    (h : level.Joins db catalog root p rowsAt entry)
    (hbelow : ∀ level ∈ below, ∃ entry ∈ p.relations, level.IsComplete db catalog root p rowsAt entry)
    (hall : ∀ e ∈ p.relations, Path.parent e.path = entry.path → e.path ∈ below.map fun level => level.link.path)
    (hnodup : (below.map fun level => level.link.path).Nodup) :
    ({ level with records := attachAll entry.path below level.records } : Level ι).IsComplete db catalog root p
      rowsAt entry := by
  obtain ⟨owner, r, howner, hr, hlink, hinternal, hrecords, hrows, hjoined⟩ := h
  have hstands : Stands catalog root p entry.path (catalog r.target) entry.columns
      ((Link.ofRelation catalog owner entry.path r).internal catalog p entry) := .below he howner hr
  have hlower : (owner.joinKeys catalog r).2 ∈ entry.columns ++
      (Link.ofRelation catalog owner entry.path r).internal catalog p entry := by
    rw [List.mem_append]
    by_cases hc : (owner.joinKeys catalog r).2 ∈ entry.columns
    · exact .inl hc
    · exact .inr (mem_internalColumns_iff.2 ⟨List.mem_cons_self, hc⟩)
  have hmem := (Schema.relation?_eq_some hr).1
  rw [hinternal] at hrecords
  refine ⟨owner, r, fun other => attachOne entry.path below (Record.ofRow (catalog r.target) (entry.columns ++
    (Link.ofRelation catalog owner entry.path r).internal catalog p entry) other), howner, hr, hlink, ?_, hrows,
    hjoined, fun other ho => ?_, fun depth other ho => ?_⟩
  · dsimp only
    rw [attachAll_eq_map, hrecords, List.map_map]
    rfl
  · rw [get?_attachOne_of_ne fun below hbelow' hparent => last_ne_column hsound hnamed hp hstands
      (hbelow below hbelow') hparent (hstands.hasColumn hsound hnamed hp hlower)]
    exact get?_ofRow_of_isIndex (hjoin.joins owner (Schema.isIn_of_above? howner) r hmem).2 hlower other
  · dsimp only
    rw [hinternal]
    exact isLoaded_attachOne hsound hnamed hp hstands hbelow hall hjoin ho (hrows ho) hnodup depth

/-- Once everything below is attached, every level is complete: the induction is from the last level, below
which there is nothing. -/
theorem AreLoaded.isComplete_finish (hjoin : db.IsJoinable catalog root)
    (h : AreLoaded db catalog root p rowsAt p.relations levels) (rest : List (Level ι)) :
    ∀ before, levels = before ++ rest →
      (finish rest).map (fun level => level.link.path) = rest.map (fun level => level.link.path) ∧
      ∀ level ∈ finish rest, ∃ entry ∈ p.relations,
        level.IsComplete db catalog root p rowsAt entry := by
  induction rest with
  | nil => exact fun _ _ => ⟨rfl, by simp [finish]⟩
  | cons level rest ih =>
    intro before heq
    obtain ⟨hpaths, hcomplete⟩ := ih (before ++ [level]) (by simpa using heq)
    obtain ⟨entry, he, hlevel⟩ := h.joins level (heq ▸ List.mem_append_right before List.mem_cons_self)
    have hpath := hlevel.path_eq
    have hall : p.relations.map RelationColumns.path =
        before.map (fun level => level.link.path) ++ entry.path ::
          rest.map (fun level => level.link.path) := by
      rw [← h.paths, heq, List.map_append, List.map_cons, hpath]
    have hafter : ∀ e ∈ p.relations, Path.parent e.path = entry.path →
        e.path ∈ (finish rest).map fun level => level.link.path := fun e hmem hparent =>
      hpaths ▸ mem_after hnamed hp hall hmem hparent
    have hnodup : ((finish rest).map fun level => level.link.path).Nodup := by
      have hnodup := (hp.closed.pairwise (not_mem_paths hnamed hp)).imp And.left
      rw [hall] at hnodup
      rw [hpaths]
      exact (List.nodup_cons.1 (List.nodup_append.1 hnodup).2.1).2
    rw [finish_cons, if_neg (by simpa [hpath] using path_ne hnamed hp he), List.map_cons, List.map_cons, hpaths, hpath]
    exact ⟨rfl, List.forall_mem_cons.2
      ⟨⟨entry, he, hlevel.isComplete_attached hsound hnamed hp hjoin he hcomplete hafter hnodup⟩, hcomplete⟩⟩

/-- The records of rows are loaded once their related ones are attached and what joining needed is taken
away. -/
theorem load_eq_ok (hjoin : db.IsJoinable catalog root) {rows : List Scope}
    (hrows : rows ⊆ db.scopes root.table) {records : List Record}
    (h : load db catalog root p (rows.map (Record.ofRow root (rootNames catalog root p))) = .ok records)
    (depth : Nat) : List.Forall₂ (db.IsLoaded catalog p depth root []) rows (records.map fun record =>
      record.without (internalColumns p.columns (neededKeys catalog root p ""))) := by
  obtain ⟨rowsAt, below, rfl, rfl, hcomplete, hnodup, hall⟩ :
      ∃ (rowsAt : String → List Scope) (below : List (Level ι)), rowsAt "" = rows ∧
      records = (rowsAt "").map (fun row =>
        attachOne "" below (Record.ofRow root (rootNames catalog root p) row)) ∧
      (∀ level ∈ below, ∃ entry ∈ p.relations, level.IsComplete db catalog root p rowsAt entry) ∧
      (below.map fun level => level.link.path).Nodup ∧
      ∀ entry ∈ p.relations, rows ≠ [] → entry.path ∈ below.map fun level => level.link.path := by
    rw [load] at h
    split at h
    · next hempty =>
      obtain rfl := Except.ok.inj h
      refine ⟨fun _ => rows, [], rfl, rfl, by simp, List.nodup_nil, fun entry he hne => ?_⟩
      rw [Bool.or_eq_true, List.isEmpty_iff, List.isEmpty_iff, List.map_eq_nil_iff] at hempty
      rw [hempty.resolve_right hne] at he
      exact absurd he List.not_mem_nil
    · obtain ⟨levels, hlevels, rfl⟩ := map_eq_ok_iff.1 h
      obtain ⟨rowsAt, rfl, hloaded⟩ := loadLevels_eq_ok hsound hnamed hp hjoin hrows hlevels
      obtain ⟨hpaths, hcomplete⟩ := hloaded.isComplete_finish hsound hnamed hp hjoin levels [] rfl
      rw [hloaded.paths] at hpaths
      refine ⟨rowsAt, finish levels, rfl, ?_, hcomplete, ?_, fun entry he _ => ?_⟩
      · rw [attachAll_eq_map, List.map_map]
        rfl
      · rw [hpaths]
        exact (hp.closed.pairwise (not_mem_paths hnamed hp)).imp And.left
      · rw [hpaths]
        exact List.mem_map_of_mem he
  rw [List.map_map, List.forall₂_map_right_iff, List.forall₂_same]
  intro row hrow
  exact isLoaded_attachOne hsound hnamed hp .root hcomplete
    (fun entry he _ => hall entry he (List.ne_nil_of_mem hrow)) hjoin hrow (hrows hrow) hnodup depth

end

end Loading

/-- The records of a query are loaded for the rows that its statement chooses, one for each row, in their
order: related records neither remove nor repeat a record. -/
theorem Database.find_isLoaded (hsound : Schema.IsSound catalog root) (hnamed : Schema.IsNamed catalog root)
    (hjoin : db.IsJoinable catalog root) {limits : PageLimits} {request : Request}
    {identity : Option (String × Scalar)} {q : Query}
    (hq : Query.ofRequest catalog root limits request identity = .ok q) {single : Bool}
    {records : List Record} (h : db.find catalog root q single = .ok records) :
    ∃ select t, statement catalog root q single = .ok select ∧ db.table? root.table = some t ∧
      ∀ depth, List.Forall₂ (db.IsLoaded catalog q.projection depth root [])
        ((db.chosen select (Loading.rootNames catalog root q.projection) t).map t.scope) records := by
  obtain ⟨select, hselect, h⟩ := bind_eq_ok_iff.1 h
  have hselect := mapError_eq_ok_iff.1 hselect
  obtain ⟨fetched, hfetch, h⟩ := bind_eq_ok_iff.1 h
  obtain ⟨loaded, hload, h⟩ := bind_eq_ok_iff.1 h
  obtain rfl := Except.ok.inj h
  obtain ⟨t, ht, -, rfl⟩ := Loading.fetch_eq_ok hfetch
  rw [table_of_statement hselect] at ht
  refine ⟨select, t, hselect, ht, Loading.load_eq_ok hsound hnamed (Query.isSelection_ofRequest hq) hjoin ?_ ?_⟩
  · rw [scopes_eq_map ht]
    exact List.map_subset t.scope fun r hr => mem_of_mem_matching (mem_matching_of_mem_chosen hr)
  · rw [List.map_map]
    exact hload

/-! ## The shop and the desk -/

/-- Two categories, one below the other, and two products of the lower one, of which the second is
deleted. -/
def Demo.Shop.stocked : Shop → List Database.Row
  | .user => []
  | .category => [⟨1, [("name", .text "Food")]⟩, ⟨2, [("name", .text "Dairy"), ("parentId", .integer 1)]⟩]
  | .product =>
    [⟨1, [("name", .text "Milk"), ("categoryId", .integer 2)]⟩,
      ⟨2, [("name", .text "Curd"), ("categoryId", .integer 2), ("deletedAt", .text "2024-05-01T00:00:00Z")]⟩]

theorem Demo.Shop.isJoinable_stocked (kind : Shop) :
    (database stocked).IsJoinable Shop.catalog (Shop.catalog kind) := by
  refine Database.isJoinable_of_table? (table?_database stocked) (fun i => ?_) (fun i => ?_) (fun i => ?_)
    (fun i => ?_) kind
  · refine Database.Table.fits_ofSchema ?_ (stocked i)
    cases i <;> decide
  · cases i <;> unfold Database.Table.IsOrdered <;> decide
  · cases i <;> decide
  · cases i <;> decide

/-- Products with their categories, the parents of these and all their products, without the columns that
these are joined by. -/
theorem Database.find_isLoaded_shop :
    let s := Demo.Shop.productSchema
    let db := Demo.Shop.database Demo.Shop.stocked
    let request : Request :=
      { relations := some (.list ["category.parent", "category.products"])
        exclude := some "categoryId,category.products.id" }
    Schema.IsSound Demo.Shop.catalog s ∧ Schema.IsNamed Demo.Shop.catalog s ∧
      db.IsJoinable Demo.Shop.catalog s ∧
      ∃ q records, Query.ofRequest Demo.Shop.catalog s {} request = .ok q ∧
        db.find Demo.Shop.catalog s q false = .ok records ∧
        ∃ select t, statement Demo.Shop.catalog s q false = .ok select ∧ db.table? s.table = some t ∧
          ∀ depth, List.Forall₂ (db.IsLoaded Demo.Shop.catalog q.projection depth s [])
            ((db.chosen select (Loading.rootNames Demo.Shop.catalog s q.projection) t).map t.scope)
            records := by
  intro s db request
  have hsound := Demo.Shop.isSound .product
  have hnamed := Demo.Shop.isNamed .product
  have hjoin := Demo.Shop.isJoinable_stocked .product
  have hanswer : (match Query.ofRequest Demo.Shop.catalog s {} request with
      | .ok q => (db.find Demo.Shop.catalog s q false).isOk
      | .error _ => false) = true := by
    decide +kernel
  refine ⟨hsound, hnamed, hjoin, ?_⟩
  cases hq : Query.ofRequest Demo.Shop.catalog s {} request with
  | error e => simp [hq] at hanswer
  | ok q =>
    cases hfind : db.find Demo.Shop.catalog s q false with
    | error e => simp [hq, hfind, Except.isOk, Except.toBool] at hanswer
    | ok records => exact ⟨q, records, rfl, hfind, find_isLoaded hsound hnamed hjoin hq hfind⟩

theorem Demo.Desk.isJoinable_withPassword (kind : Desk) :
    (withPassword .null).IsJoinable Desk.catalog (Desk.catalog kind) := by
  refine Database.isJoinable_of_table? (table?_withPassword .null) (fun i => ?_) (fun i => ?_)
    (fun i => ?_) (fun i => ?_) kind
  · refine Database.Table.fits_ofSchema ?_ (rowsWith .null i)
    cases i <;> decide
  · cases i <;> unfold Database.Table.IsOrdered <;> decide
  · cases i <;> decide
  · cases i <;> decide

/-- Where a relation has no name, a record may hold more than was asked for. -/
theorem Database.not_isLoaded_desk :
    let s := Demo.Desk.catalog .ticket
    let db := Demo.Desk.withPassword .null
    Schema.IsSound Demo.Desk.catalog s ∧ db.IsJoinable Demo.Desk.catalog s ∧
      ∃ q records, Query.ofRequest Demo.Desk.catalog s {} { relations := some (.list [".x"]) } = .ok q ∧
        db.find Demo.Desk.catalog s q false = .ok records ∧
        ¬ ∃ rows, List.Forall₂ (db.IsLoaded Demo.Desk.catalog q.projection 1 s []) rows records := by
  intro s db
  refine ⟨Demo.Desk.isSound .ticket, Demo.Desk.isJoinable_withPassword .ticket, ?_⟩
  have hanswer : (match Query.ofRequest Demo.Desk.catalog s {} { relations := some (.list [".x"]) } with
      | .ok q =>
        match db.find Demo.Desk.catalog s q false with
        | .ok records =>
          records.any (fun record => (record.get? "x").isSome) &&
            !(q.projection.columns.contains "x") &&
            !(q.projection.relations.any fun entry => Path.names entry.path == ["x"])
        | .error _ => false
      | .error _ => false) = true := by
    decide +kernel
  split at hanswer
  · next q hq =>
    split at hanswer
    · next records hfind =>
      refine ⟨q, records, hq, hfind, ?_⟩
      rintro ⟨rows, hrows⟩
      simp only [Bool.and_eq_true, List.any_eq_true, Bool.not_eq_true', List.any_eq_false] at hanswer
      obtain ⟨⟨⟨record, hrecord, hsome⟩, hcolumn⟩, hloads⟩ := hanswer
      obtain ⟨i, hi, rfl⟩ := List.mem_iff_getElem.1 hrecord
      obtain ⟨-, hnames, -⟩ := hrows.get (hrows.length_eq ▸ hi) hi
      rcases (hnames "x").1 hsome with h | ⟨entry, he, h⟩
      · simp [Projection.columnsAlong] at h hcolumn
        exact hcolumn h
      · exact hloads entry he (by simpa using h)
    · cases hanswer
  · cases hanswer

end RecordQuery
