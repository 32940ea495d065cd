import RecordQuery.Proofs.Projections
import RecordQuery.Proofs.Reading.Compiled
/-!
# The columns of a statement

No statement for related records lacks columns: it asks for the one that they are joined by
(`Loading.Link.names_ne_nil`). The statement for the records of the root asks for what is selected and for the
columns that relations are joined by, so it lacks columns if a request leaves all of them out and names no
relation (`Query.rootNames_eq_nil_iff`). Then, and only then, the database refuses the statement for that
(`Query.find_eq_noColumns_iff`), although the request was accepted (`Query.lacks_columns_iff`).
-/

namespace RecordQuery

open Outcome Sql

variable {ε ε' α β ι : Type} {catalog : Catalog ι} {s : Schema ι} {db : Database} {columns : List String}
  {p : Projection} {q : Query}

/-! ## Failures of a kind -/

namespace Outcome

/-- Whether a computation fails in some ways only, if at all. -/
def FailsOnly (P : ε → Prop) (x : Except ε α) : Prop := ∀ e, x = .error e → P e

namespace FailsOnly

variable {P : ε → Prop} {x : Except ε α}

theorem ok (a : α) : FailsOnly P (.ok a : Except ε α) := fun _ h => by cases h

theorem error {e : ε} (h : P e) : FailsOnly P (.error e : Except ε α) := fun _ he => by cases he; exact h

theorem bind {f : α → Except ε β} (hx : FailsOnly P x) (hf : ∀ a, FailsOnly P (f a)) :
    FailsOnly P (x >>= f) := by
  cases x with
  | error e => exact error (hx e rfl)
  | ok a => exact hf a

theorem map (hx : FailsOnly P x) (f : α → β) : FailsOnly P (x.map f) := by
  cases x with
  | error e => exact error (hx e rfl)
  | ok a => exact ok (f a)

theorem mapError {P : ε' → Prop} {f : ε → ε'} (hx : FailsOnly (fun e => P (f e)) x) :
    FailsOnly P (x.mapError f) := by
  cases x with
  | error e => exact error (hx e rfl)
  | ok a => exact ok a

theorem foldlM {f : β → α → Except ε β} (hf : ∀ b a, FailsOnly P (f b a)) (xs : List α) (b : β) :
    FailsOnly P (xs.foldlM f b) := by
  induction xs generalizing b with
  | nil => exact ok b
  | cons x xs ih =>
    rw [List.foldlM_cons]
    exact (hf b x).bind ih

theorem forM {f : α → Except ε Unit} (hf : ∀ a, FailsOnly P (f a)) (xs : List α) : FailsOnly P (xs.forM f) := by
  rw [List.forM_eq_forM]
  induction xs with
  | nil => exact ok ()
  | cons x xs ih =>
    rw [List.forM_cons]
    exact (hf x).bind fun _ => ih

theorem mapM {f : α → Except ε β} (hf : ∀ a, FailsOnly P (f a)) (xs : List α) : FailsOnly P (xs.mapM f) := by
  induction xs with
  | nil => exact ok []
  | cons x xs ih =>
    rw [List.mapM_cons]
    exact (hf x).bind fun _ => ih.bind fun _ => ok _

end FailsOnly

end Outcome

/-! ## Statements with columns -/

namespace Database

/-- A statement with columns is not refused for the lack of them. -/
theorem failsOnly_select (q : Select) (h : columns ≠ []) : FailsOnly (· ≠ .noColumns) (db.select q columns) := by
  have htable (name : String) : FailsOnly (· ≠ .noColumns) (db.table name) := by
    rw [table]
    split
    · exact .ok _
    · exact .error (by simp)
  have hname (t : Table) (name : String) : FailsOnly (· ≠ .noColumns) (t.requireName name) := by
    rw [Table.requireName]
    split
    · exact .ok _
    · exact .error (by simp)
  have hterm (t : Table) (term : SortTerm) : FailsOnly (· ≠ .noColumns) (db.requireTerm t term) := by
    cases term with
    | column name => exact hname t name
    | related number name key column localKey mark =>
      exact (htable name).bind fun target => (hname t localKey).bind fun _ => .forM (hname target) _
  rw [select, if_neg (by simpa using h)]
  split
  · exact .error (by simp)
  · refine (htable _).bind fun t => (FailsOnly.forM (hname t) _).bind fun _ =>
      (FailsOnly.forM (fun name => (htable name).map _) _).bind fun _ =>
        (FailsOnly.forM (fun key => ?_) _).bind fun _ => .ok _
    exact hterm t key.1

end Database

/-- Cells that cannot be read are no lack of columns. -/
theorem Record.failsOnly_ofCells? (s : Schema ι) (names : List String) (cells : List Cell) :
    FailsOnly (· ≠ .noColumns) (ofCells? s names cells) := by
  refine (FailsOnly.forM (fun (name, cell) => ?_) _).map _
  dsimp only
  split
  · exact .error (by simp)
  · exact .ok _

namespace Loading

variable {link : Link ι} {entry : RelationColumns}

theorem failsOnly_fetch (s : Schema ι) (q : Select) (h : columns ≠ []) :
    FailsOnly (· ≠ .database .noColumns) (fetch db s q columns) := by
  have hcolumns : FailsOnly (· ≠ .database .noColumns)
      ((columns.forM (Sql.requireColumn s)).mapError StoreError.invalidQuery) :=
    .mapError fun _ _ => by simp
  have hselect : FailsOnly (· ≠ .database .noColumns) ((db.select q columns).mapError StoreError.database) :=
    .mapError (by simpa using Database.failsOnly_select q h)
  refine hcolumns.bind fun _ => hselect.bind fun rows => .mapError ?_
  simpa using FailsOnly.mapM (Record.failsOnly_ofCells? s columns) rows

/-- The records at a path are asked for with the column that they are joined by. -/
theorem Link.names_ne_nil (catalog : Catalog ι) (p : Projection) (link : Link ι) (entry : RelationColumns) :
    entry.columns ++ link.internal catalog p entry ≠ [] := by
  have hkey : link.lowerKey ∈ entry.columns ++ link.internal catalog p entry := by
    by_cases hselected : link.lowerKey ∈ entry.columns
    · exact List.mem_append_left _ hselected
    · exact List.mem_append_right _ (mem_internalColumns_iff.2 ⟨List.mem_cons_self, hselected⟩)
  exact List.ne_nil_of_mem hkey

/-- Related records are never refused for the lack of columns. -/
theorem failsOnly_load (root : Schema ι) (records : List Record) :
    FailsOnly (· ≠ .database .noColumns) (load db catalog root p records) := by
  have hfollow (link : Link ι) (entry : RelationColumns) (upper : List Record) :
      FailsOnly (· ≠ .database .noColumns) (link.follow db catalog p entry upper) := by
    rw [Link.follow]
    split
    · exact .ok _
    · refine FailsOnly.bind (.mapError fun _ _ => by simp) fun q => ?_
      exact failsOnly_fetch _ _ (Link.names_ne_nil catalog p link entry)
  have hlevel (levels : List (Level ι)) (entry : RelationColumns) :
      FailsOnly (· ≠ .database .noColumns) (loadLevel db catalog root p records levels entry) := by
    rw [loadLevel]
    split
    · exact .error (by simp)
    · exact (hfollow _ entry _).map _
  rw [load]
  split
  · exact .ok _
  · exact (FailsOnly.foldlM hlevel _ _).map _

end Loading

/-- A query that has a statement is refused for the lack of columns exactly if there are none to be asked for. -/
theorem Database.find_eq_noColumns_iff {single : Bool} {select : Select}
    (h : statement catalog s q single = .ok select) :
    db.find catalog s q single = .error (.database .noColumns) ↔
      Loading.rootNames catalog s q.projection = [] := by
  have hfind : db.find catalog s q single = (do
      let records ← Loading.fetch db s select (Loading.rootNames catalog s q.projection)
      let records ← Loading.load db catalog s q.projection records
      .ok (records.map (Record.without · (Loading.internalColumns q.projection.columns
        (Loading.neededKeys catalog s q.projection ""))))) := by
    rw [find, h]
    rfl
  rw [hfind]
  constructor
  · intro hlack
    by_contra hnames
    refine FailsOnly.bind (Loading.failsOnly_fetch s select hnames) (fun records => ?_) _ hlack rfl
    exact (Loading.failsOnly_load s records).bind fun _ => .ok _
  · intro hnames
    rw [hnames]
    rfl

/-! ## Requests that leave all columns out -/

namespace Query

variable {limits : PageLimits} {request : Request} {identity : Option (String × Scalar)}

/-- A request that names relations has a key of the root to join by. -/
theorem neededKeys_ne_nil (h : ofRequest catalog s limits request identity = .ok q) (hq : q.relations ≠ []) :
    Loading.neededKeys catalog s q.projection "" ≠ [] := by
  obtain ⟨-, -, -, -, -, hentries⟩ := ofRequest_eq_ok h
  obtain ⟨hpaths, hleads⟩ := Projection.entries_eq_ok hentries
  obtain ⟨given, hgiven⟩ := List.exists_mem_of_ne_nil _ hq
  cases hnames : Path.names given with
  | nil => exact absurd hnames (Path.names_ne_nil given)
  | cons name others =>
    -- The first name of a path that is asked for has an entry, and it is a relation of the root.
    have hname : Path.isName name := Path.isName_of_mem_names (by rw [hnames]; exact List.mem_cons_self)
    have hwithin : Path.IsWithin given name := by
      rw [Path.isWithin_iff_names, Path.names_of_isName hname, hnames]
      exact List.prefix_append [name] others
    have hmem : name ∈ q.projection.relations.map RelationColumns.path :=
      hpaths ▸ Projection.mem_closure_iff.2 ⟨given, hgiven, hwithin⟩
    obtain ⟨entry, hentry, rfl⟩ := List.mem_map.1 hmem
    obtain ⟨target, htarget, -⟩ := hleads entry hentry
    rw [Schema.schemaAt?_eq_reach?, Path.names_of_isName hname, Schema.reach?, Option.bind_eq_some_iff] at htarget
    obtain ⟨r, hr, -⟩ := htarget
    refine List.ne_nil_of_mem (Loading.mem_neededKeys_iff.2 ⟨entry, hentry, Path.parent_of_isName hname, r, ?_, rfl⟩)
    rwa [Path.last_of_isName hname]

/-- An accepted request asks for no column of the root exactly if it names no relation and every column is
hidden or left out. -/
theorem rootNames_eq_nil_iff (h : ofRequest catalog s limits request identity = .ok q) :
    Loading.rootNames catalog s q.projection = [] ↔ q.relations = [] ∧ ∀ name ∈ s.columnNames,
      s.isHidden name ∨ (Path.isName name ∧ name ∈ (Exclusions.read request.exclude).paths) := by
  obtain ⟨-, -, -, -, hcolumns, hentries⟩ := ofRequest_eq_ok h
  have hselected : q.projection.columns = [] ↔ ∀ name ∈ s.columnNames,
      s.isHidden name ∨ (Path.isName name ∧ name ∈ (Exclusions.read request.exclude).paths) := by
    rw [hcolumns, Projection.visible, List.filter_eq_nil_iff]
    simp only [Exclusions.contains_rootFields, Exclusions.contains]
    refine forall₂_congr fun name _ => ?_
    cases s.isHidden name <;> simp
  rw [← hselected, Loading.rootNames, List.append_eq_nil_iff, and_comm]
  refine and_congr_left fun hnone => ?_
  rw [hnone]
  constructor
  · intro hinternal
    by_contra hq
    obtain ⟨key, hkey⟩ := List.exists_mem_of_ne_nil _ (neededKeys_ne_nil h hq)
    have := Loading.mem_internalColumns_iff.2 ⟨hkey, List.not_mem_nil (a := key)⟩
    rw [hinternal] at this
    cases this
  · intro hq
    have hrelations : q.projection.relations = [] := by
      rw [hq] at hentries
      exact (Except.ok.inj hentries).symm
    rw [Loading.neededKeys, hrelations]
    rfl

/-- The query of an accepted request is refused for the lack of columns exactly if there are none. -/
theorem find_eq_noColumns_iff (hsound : Schema.IsSound catalog s)
    (hidentity : identity = none ∨ ∃ id, identity = some (s.key, id))
    (h : ofRequest catalog s limits request identity = .ok q) (db : Database) (single : Bool) :
    db.find catalog s q single = .error (.database .noColumns) ↔
      Loading.rootNames catalog s q.projection = [] := by
  obtain ⟨-, -, -, hsort, -, -⟩ := ofRequest_eq_ok h
  obtain ⟨select, hselect⟩ := exists_statement (hasCondition_ofRequest hsound hidentity h) hsort single
  exact Database.find_eq_noColumns_iff hselect

/-- What an accepted request asks of the database has columns, with one exception: a request without relations
that leaves out all columns of the root that are not hidden. Its statement has none, and is refused for that;
no other is. -/
theorem lacks_columns_iff (hsound : Schema.IsSound catalog s)
    (hidentity : identity = none ∨ ∃ id, identity = some (s.key, id))
    (h : ofRequest catalog s limits request identity = .ok q) :
    (Loading.rootNames catalog s q.projection = [] ↔ q.relations = [] ∧ ∀ name ∈ s.columnNames,
      s.isHidden name ∨ (Path.isName name ∧ name ∈ (Exclusions.read request.exclude).paths)) ∧
    (∀ entry ∈ q.projection.relations, ∀ link, Loading.Link.at? catalog s entry.path = some link →
      entry.columns ++ link.internal catalog q.projection entry ≠ []) ∧
    ∀ (db : Database) (single : Bool), db.find catalog s q single = .error (.database .noColumns) ↔
      Loading.rootNames catalog s q.projection = [] :=
  ⟨rootNames_eq_nil_iff h, fun entry _ link _ => Loading.Link.names_ne_nil _ _ link entry,
    find_eq_noColumns_iff hsound hidentity h⟩

/-- The categories of the shop with their parents, all columns of both left out: the columns that they are joined
by are asked for. -/
theorem lacks_columns_iff_shop :
    ∃ q, ofRequest Demo.Shop.catalog Demo.Shop.categorySchema {}
        { relations := some (.delimited "parent"), exclude := some "id,name,parentId,parent.id,parent.name" } =
          .ok q ∧
      Loading.rootNames Demo.Shop.catalog Demo.Shop.categorySchema q.projection = ["parentId"] ∧
      (∀ entry ∈ q.projection.relations, ∀ link,
        Loading.Link.at? Demo.Shop.catalog Demo.Shop.categorySchema entry.path = some link →
          entry.columns ++ link.internal Demo.Shop.catalog q.projection entry ≠ []) ∧
      ∀ (db : Database) (single : Bool),
        db.find Demo.Shop.catalog Demo.Shop.categorySchema q single ≠ .error (.database .noColumns) := by
  have hanswer : (match ofRequest Demo.Shop.catalog Demo.Shop.categorySchema {}
        { relations := some (.delimited "parent"), exclude := some "id,name,parentId,parent.id,parent.name" } with
      | .ok q => Loading.rootNames Demo.Shop.catalog Demo.Shop.categorySchema q.projection == ["parentId"]
      | .error _ => false) = true := by
    decide +kernel
  split at hanswer
  · next q hq =>
    have hnames := beq_iff_eq.1 hanswer
    obtain ⟨-, hlinks, hfind⟩ := lacks_columns_iff (Demo.Shop.isSound .category) (.inl rfl) hq
    refine ⟨q, hq, hnames, hlinks, fun db single h => ?_⟩
    cases hnames.symm.trans ((hfind db single).1 h)
  · cases hanswer

/-- All columns of the categories may be left out, and then their statement is refused in every database. -/
theorem lacks_columns_categories : Schema.IsSound Demo.Shop.catalog Demo.Shop.categorySchema ∧
    ∃ q, ofRequest Demo.Shop.catalog Demo.Shop.categorySchema {} { exclude := some "id,name,parentId" } = .ok q ∧
      Loading.rootNames Demo.Shop.catalog Demo.Shop.categorySchema q.projection = [] ∧
      ∀ (db : Database) (single : Bool), db.find Demo.Shop.catalog Demo.Shop.categorySchema q single =
        .error (.database .noColumns) := by
  have hsound := Demo.Shop.isSound .category
  have hanswer : (match ofRequest Demo.Shop.catalog Demo.Shop.categorySchema {}
        { exclude := some "id,name,parentId" } with
      | .ok q => Loading.rootNames Demo.Shop.catalog Demo.Shop.categorySchema q.projection == []
      | .error _ => false) = true := by
    decide +kernel
  split at hanswer
  · next q hq =>
    have hnames := beq_iff_eq.1 hanswer
    exact ⟨hsound, q, hq, hnames, fun db single =>
      (find_eq_noColumns_iff hsound (.inl rfl) hq db single).2 hnames⟩
  · cases hanswer

end Query

end RecordQuery
