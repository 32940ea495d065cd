import RecordQuery.Proofs.Loading.Loaded
/-!
# Filtering, loading and sorting agree

A relation is followed in three ways: a filter looks a key up among those of the rows that will do, loading
attaches the records of the rows with the same key, and sorting looks for the one row of a key. All three see
the rows that the relation joins to a row (`Database.related`).

* `eval_related_eq_yes_iff`: the condition on a relation is true of a row if what it asks is true of a row that is
  joined to it;
* `sortCell_related_eq`: a row is sorted by a cell of the row that is joined to it;
* `related_agree`: both see the rows whose records are attached when the relation is loaded.
-/

namespace RecordQuery

open Outcome Sql
open Database (Row Table)

section

variable {ι : Type} {catalog : Catalog ι} {root s : Schema ι} {db : Database} {r : Relation ι} {row : Scope}
  {name : String}

/-- Two columns of integers are equal exactly if they hold the same integer. -/
theorem Sql.Operand.holds_equals {a b : Operand} (ha : a.affinity = some .integer)
    (hb : b.affinity = some .integer) (hacell : a.cell.IsIndex) (hbcell : b.cell.IsIndex) :
    (a.equals b).holds = (!a.cell.isNull && b.cell == a.cell) := by
  have hcommon : a.common b = some .integer := by
    rw [common, ha, hb]
    rfl
  rw [equals, compare?, hcommon]
  rcases hacell.eq_or with hacell | ⟨i, hacell⟩ <;> rcases hbcell.eq_or with hbcell | ⟨j, hbcell⟩ <;>
    simp only [hacell, hbcell, Affinity.comparand, Cell.toNumber, Cell.compare?, Cell.isNull]
  · rfl
  · rfl
  · rfl
  · rw [Bool.eq_iff_iff]
    simp [Truth.ofBool?, Comparison.admits, Cell.compareKnown, order_toInt_eq_iff, @eq_comm _ i j]

namespace Database

/-- In a column of integers a row holds its cell as one. -/
theorem affinity_resolve_of_mem (hjoin : db.IsJoinable catalog root) (hs : Schema.IsIn catalog root s)
    (hname : s.IsIndex name) (hrow : row ∈ db.scopes s.table) :
    (Scope.resolve [row] name).affinity = some .integer := by
  cases ht : db.table? s.table with
  | none => simp [scopes, ht] at hrow
  | some t =>
    rw [scopes_eq_map ht] at hrow
    obtain ⟨r, -, rfl⟩ := List.mem_map.1 hrow
    exact (hjoin.fits s hs t ht).affinity_resolve hname r

section

variable (hsound : Schema.IsSound catalog root) (hjoin : db.IsJoinable catalog root)
  (hs : Schema.IsIn catalog root s) (hr : r ∈ s.relations) (hrow : row ∈ db.scopes s.table)

include hjoin hs hr hrow

/-- Of the rows there, a relation joins to a row the live ones whose key equals the key of the row. -/
theorem related_eq_filter :
    db.related catalog s r row = (db.scopes (catalog r.target).table).filter fun other =>
      (catalog r.target).isLive other && ((Scope.resolve [row] (s.joinKeys catalog r).1).equals
        (Scope.resolve [other] (s.joinKeys catalog r).2)).holds := by
  obtain ⟨hhere, hthere⟩ := hjoin.joins s hs r hr
  have htarget : Schema.IsIn catalog root (catalog r.target) := Schema.isIn_catalog r.target
  rw [related, joined]
  refine List.filter_congr fun other hother => ?_
  rw [Operand.holds_equals (affinity_resolve_of_mem hjoin hs hhere hrow)
    (affinity_resolve_of_mem hjoin htarget hthere hother) (hjoin.here s hs r hr row hrow)
    (hjoin.there s hs r hr other hother), Bool.and_assoc]
  rfl

include hsound in
/-- The condition on a relation is true of a row exactly if what it asks is true of a row joined to it. -/
theorem eval_related_eq_yes_iff (hrel : s.relation? name = some r) {q : Predicate} {c : Condition}
    (hc : Condition.ofConstraint catalog s name (.related q) = .ok c) :
    c.eval db.scopes [row] = .yes ↔
      ∃ other ∈ db.related catalog s r row, q.truth catalog db.scopes (catalog r.target) other = .yes := by
  have hknown : Schema.AreKnown catalog root db.scopes := fun s' hs' _ hrow' _ hname =>
    isSome_of_mem_scopes (fun s hs t ht => (hjoin.fits s hs t ht).covers) hs' hrow' hname
  rw [Predicate.eval_ofConstraint hsound hknown name (.related q) hs (hknown s hs row hrow) hc [],
    Predicate.fieldTruth, hrel, related_eq_filter hjoin hs hr hrow]
  simp only [Operand.among]
  rw [Truth.any_eq_yes_iff]
  simp only [List.map_map, List.mem_map, List.mem_filter, Bool.and_eq_true, Function.comp_apply,
    Truth.holds_eq_true_iff]
  constructor
  · rintro ⟨other, ⟨hmem, hlive, hq⟩, hequals⟩
    exact ⟨other, ⟨hmem, hlive, hequals⟩, hq⟩
  · rintro ⟨other, ⟨hmem, hlive, hequals⟩, hq⟩
    exact ⟨other, ⟨hmem, hlive, hq⟩, hequals⟩

/-- A row is sorted by a cell of the one row that a relation joins to it. -/
theorem sortCell_related_eq {localKey : String} (hbelongs : r.join = .belongsTo localKey) (number : Nat)
    (column : String) :
    db.sortCell row (.related number (catalog r.target).table (catalog r.target).key column localKey
        (catalog r.target).deletionMark?) =
      ((db.related catalog s r row).head?.map (cellOf · column)).getD .null := by
  have hkeys : s.joinKeys catalog r = (localKey, (catalog r.target).key) := by rw [Schema.joinKeys, hbelongs]
  obtain ⟨hhere, hthere⟩ := hjoin.joins s hs r hr
  have hlocal := hjoin.here s hs r hr row hrow
  have htarget : Schema.IsIn catalog root (catalog r.target) := Schema.isIn_catalog r.target
  rw [hkeys] at hhere hthere hlocal
  rw [View.Alike.sortCell_related, ← List.head?_filter, List.filter_filter, related, joined, hkeys]
  congr 3
  refine List.filter_congr fun other hother => ?_
  have hkey := hjoin.there s hs r hr other hother
  rw [hkeys] at hkey
  rw [Operand.holds_equals (affinity_resolve_of_mem hjoin htarget hthere hother)
    (affinity_resolve_of_mem hjoin hs hhere hrow) hkey hlocal]
  change ((!(cellOf other _).isNull && cellOf row localKey == cellOf other _) && _) = _
  by_cases hequal : cellOf other (catalog r.target).key = cellOf row localKey
  · rw [hequal, beq_self_eq_true, Bool.and_true, Bool.and_true, Bool.and_comm]
  · rw [beq_eq_false_iff_ne.2 hequal, beq_eq_false_iff_ne.2 (Ne.symm hequal), Bool.and_false, Bool.false_and,
      Bool.and_false]

end

/-- What is attached to a row under a relation: rows there with their records, which the record of the row holds
under the name of the relation, all of them or the only one. -/
structure Attaches (db : Database) (catalog : Catalog ι) (p : Projection) (name : String) (r : Relation ι)
    (record : Record) (attached : List (Scope × Record)) : Prop where
  loaded : ∀ a ∈ attached, ∀ depth, db.IsLoaded catalog p depth (catalog r.target) [name] a.1 a.2
  many : r.isMany = true → record.get? name = some (.array (attached.map fun a => .object a.2))
  one : r.isMany = false → record.get? name = some ((attached.head?.map fun a => .object a.2).getD .null) ∧
    attached.length ≤ 1

/-- Records that are shown alike under a relation are the same. -/
theorem records_eq_of_shown {records others : List Record} {many : Bool} {json : Option Json}
    (h : if many then json = some (.array (records.map Json.object))
      else records.length ≤ 1 ∧ json = some ((records.head?.map Json.object).getD .null))
    (h' : if many then json = some (.array (others.map Json.object))
      else others.length ≤ 1 ∧ json = some ((others.head?.map Json.object).getD .null)) : records = others := by
  cases many with
  | true =>
    have harray := Json.array.inj (Option.some.inj (h.symm.trans h'))
    exact List.map_injective_iff.2 (fun _ _ => Json.object.inj) harray
  | false =>
    obtain ⟨hlength, hjson⟩ := h
    obtain ⟨hlength', hjson'⟩ := h'
    have hhead := Option.some.inj (hjson.symm.trans hjson')
    rcases records with _ | ⟨record, _ | ⟨_, _⟩⟩ <;> rcases others with _ | ⟨other, _ | ⟨_, _⟩⟩ <;>
      simp_all

/-- Under a relation that is loaded, a record has the records of the rows that the relation joins to its row. -/
theorem exists_attaches {p : Projection} {record : Record} (hrel : s.relation? name = some r) (hloads : p.Loads [name])
    (h : ∀ depth, db.IsLoaded catalog p depth s [] row record) :
    ∃ attached, db.Attaches catalog p name r record attached ∧
      attached.map Prod.fst = db.related catalog s r row := by
  have hdepth : ∀ depth, ∃ records,
      List.Forall₂ (db.IsLoaded catalog p depth (catalog r.target) [name]) (db.related catalog s r row) records ∧
      if r.isMany then record.get? name = some (.array (records.map Json.object))
      else records.length ≤ 1 ∧ record.get? name = some ((records.head?.map Json.object).getD .null) := by
    intro depth
    obtain ⟨records, hrecords, hshown⟩ := (h (depth + 1)).2.2.2 name r hrel hloads
    exact ⟨records, hrecords, by rwa [hrecords.length_eq] at hshown⟩
  -- At each depth there are such records, and they are the same ones, for the value under the name shows them.
  obtain ⟨records, hrecords, hshown⟩ := hdepth 0
  have hlength := hrecords.length_eq
  have hsnd : ((db.related catalog s r row).zip records).map Prod.snd = records := List.map_snd_zip hlength.ge
  have hattached : ((db.related catalog s r row).zip records).map (fun a => Json.object a.2) =
      records.map Json.object := by
    rw [← hsnd, List.map_map, hsnd]
    rfl
  refine ⟨(db.related catalog s r row).zip records, ⟨fun a ha depth => ?_, fun hmany => ?_, fun hone => ?_⟩,
    List.map_fst_zip hlength.le⟩
  · obtain ⟨others, hothers, hshown'⟩ := hdepth depth
    obtain rfl := records_eq_of_shown hshown hshown'
    exact (List.forall₂_iff_zip.1 hothers).2 ha
  · rw [hattached]
    simpa [hmany] using hshown
  · rw [← List.head?_map, hattached, List.head?_map, ← List.length_map Prod.snd, hsnd]
    simp only [hone, Bool.false_eq_true, if_false] at hshown
    exact hshown.symm

/-- The records of a query are those of the rows that its statement chooses, with what is loaded and without what only
loading needs. -/
theorem exists_load_of_find {query : Query} {single : Bool} {records : List Record}
    (h : db.find catalog s query single = .ok records) :
    ∃ select t loaded, statement catalog s query single = .ok select ∧ db.table? s.table = some t ∧
      Loading.load db catalog s query.projection
        (((db.chosen select (Loading.rootNames catalog s query.projection) t).map t.scope).map
          (Record.ofRow s (Loading.rootNames catalog s query.projection))) = .ok loaded ∧
      records = loaded.map fun record => record.without (Loading.internalColumns query.projection.columns
        (Loading.neededKeys catalog s query.projection "")) := by
  obtain ⟨select, hselect, h⟩ := bind_eq_ok_iff.1 h
  have hselect := mapError_eq_ok_iff.1 hselect
  obtain ⟨fetched, hfetch, h⟩ := bind_eq_ok_iff.1 h
  obtain ⟨loaded, hload, h⟩ := bind_eq_ok_iff.1 h
  obtain rfl := Except.ok.inj h
  obtain ⟨t, ht, -, rfl⟩ := Loading.fetch_eq_ok hfetch
  rw [table_of_statement hselect] at ht
  refine ⟨select, t, loaded, hselect, ht, ?_, rfl⟩
  rw [List.map_map]
  exact hload

/-- A filter on a relation, the records that are attached when it is loaded, and a sort key behind it see the same
rows. Whatever request loads the relation: the rows that are attached to a row are those that it is joined to, the
condition on the relation is true of the row exactly if what it asks is true of one of them, and a sort key is the
cell of the attached row, or null if none is attached. -/
theorem related_agree (hsound : Schema.IsSound catalog s) (hnamed : Schema.IsNamed catalog s)
    (hjoin : db.IsJoinable catalog s) (hrel : s.relation? name = some r) {limits : PageLimits} {request : Request}
    {identity : Option (String × Scalar)} {query : Query}
    (hquery : Query.ofRequest catalog s limits request identity = .ok query) (hloads : query.projection.Loads [name])
    {single : Bool} {records : List Record} (h : db.find catalog s query single = .ok records) :
    ∃ select t, statement catalog s query single = .ok select ∧ db.table? s.table = some t ∧
      List.Forall₂ (fun row record => ∃ attached, db.Attaches catalog query.projection name r record attached ∧
          attached.map Prod.fst = db.related catalog s r row ∧
          (∀ access q, q.check catalog access (catalog r.target) = .ok () →
            ∃ c, Condition.ofConstraint catalog s name (.related q) = .ok c ∧
              (c.eval db.scopes [row] = .yes ↔
                ∃ a ∈ attached, q.truth catalog db.scopes (catalog r.target) a.1 = .yes)) ∧
          ∀ number path column, Path.first? path = some (name, column) → r.isMany = false →
            (catalog r.target).hasColumn column →
            ∃ term, SortTerm.ofPath catalog s number path = .ok term ∧
              db.sortCell row term = ((attached.head?.map fun a => cellOf a.1 column).getD .null))
        ((db.chosen select (Loading.rootNames catalog s query.projection) t).map t.scope) records := by
  obtain ⟨select, t, loaded, hselect, ht, hload, rfl⟩ := exists_load_of_find h
  refine ⟨select, t, hselect, ht, ?_⟩
  have hs : Schema.IsIn catalog s s := Schema.isIn_root
  have hr := (Schema.relation?_eq_some hrel).1
  have hrows : ∀ row ∈ (db.chosen select (Loading.rootNames catalog s query.projection) t).map t.scope,
      row ∈ db.scopes s.table := by
    rw [scopes_eq_map ht]
    exact fun row hrow => List.map_subset t.scope
      (fun r hr => mem_of_mem_matching (mem_matching_of_mem_chosen hr)) hrow
  have hrecords := Loading.load_eq_ok hsound hnamed (Query.isSelection_ofRequest hquery) hjoin hrows hload
  refine List.forall₂_iff_zip.2 ⟨(hrecords 0).length_eq, fun {row record} hmem => ?_⟩
  have hrow := hrows row (List.of_mem_zip hmem).1
  have hloaded : ∀ depth, db.IsLoaded catalog query.projection depth s [] row record := fun depth =>
    (List.forall₂_iff_zip.1 (hrecords depth)).2 hmem
  obtain ⟨attached, hattached, hrows⟩ := exists_attaches hrel hloads hloaded
  refine ⟨attached, hattached, hrows, fun access q hq => ?_, fun number path column hpath hone hcolumn => ?_⟩
  · obtain ⟨c, hc⟩ := Predicate.exists_ofConstraint name (.related q)
      (Predicate.checkField_related_iff.2 ⟨r, hrel, hq⟩)
    refine ⟨c, hc, ?_⟩
    rw [eval_related_eq_yes_iff hsound hjoin hs hr hrow hrel hc, ← hrows]
    simp
  · cases hbelongs : r.join with
    | hasMany foreignKey => simp [Relation.isMany, hbelongs] at hone
    | belongsTo localKey =>
      refine ⟨.related number (catalog r.target).table (catalog r.target).key column localKey
        (catalog r.target).deletionMark?, ?_, ?_⟩
      · have hrequire := Condition.requireColumn_eq_ok_iff.2 hcolumn
        simp [SortTerm.ofPath, hpath, hrel, hbelongs, hrequire, bind, Except.bind]
      · rw [sortCell_related_eq hjoin hs hr hrow hbelongs, ← hrows, List.head?_map, Option.map_map]
        rfl

/-- A category of the shop with its parent. -/
theorem related_agree_shop :
    let s := Demo.Shop.categorySchema
    let db := Demo.Shop.database Demo.Shop.stocked
    let r : Relation Demo.Shop := ⟨"parent", .category, .belongsTo "parentId"⟩
    let request : Request := { relations := some (.list ["parent"]) }
    Schema.IsSound Demo.Shop.catalog s ∧ Schema.IsNamed Demo.Shop.catalog s ∧
      db.IsJoinable Demo.Shop.catalog s ∧ s.relation? "parent" = some r ∧
      ∃ query records, Query.ofRequest Demo.Shop.catalog s {} request (some ("id", .int 2)) = .ok query ∧
        query.projection.Loads ["parent"] ∧ db.find Demo.Shop.catalog s query true = .ok records ∧
        ∃ select t, statement Demo.Shop.catalog s query true = .ok select ∧ db.table? s.table = some t ∧
          List.Forall₂ (fun row record => ∃ attached,
              db.Attaches Demo.Shop.catalog query.projection "parent" r record attached ∧
              attached.map Prod.fst = db.related Demo.Shop.catalog s r row ∧
              (∀ access q, q.check Demo.Shop.catalog access (Demo.Shop.catalog r.target) = .ok () →
                ∃ c, Condition.ofConstraint Demo.Shop.catalog s "parent" (.related q) = .ok c ∧
                  (c.eval db.scopes [row] = .yes ↔ ∃ a ∈ attached,
                    q.truth Demo.Shop.catalog db.scopes (Demo.Shop.catalog r.target) a.1 = .yes)) ∧
              ∀ number path column, Path.first? path = some ("parent", column) → r.isMany = false →
                (Demo.Shop.catalog r.target).hasColumn column →
                ∃ term, SortTerm.ofPath Demo.Shop.catalog s number path = .ok term ∧
                  db.sortCell row term = ((attached.head?.map fun a => cellOf a.1 column).getD .null))
            ((db.chosen select (Loading.rootNames Demo.Shop.catalog s query.projection) t).map t.scope) records := by
  intro s db r request
  have hsound := Demo.Shop.isSound .category
  have hnamed := Demo.Shop.isNamed .category
  have hjoin := Demo.Shop.isJoinable_stocked .category
  have hrel : s.relation? "parent" = some r := by rfl
  have hanswer : (match Query.ofRequest Demo.Shop.catalog s {} request (some ("id", .int 2)) with
      | .ok q => (q.projection.relations.any fun entry => Path.names entry.path == ["parent"]) &&
          (db.find Demo.Shop.catalog s q true).isOk
      | .error _ => false) = true := by
    decide +kernel
  refine ⟨hsound, hnamed, hjoin, hrel, ?_⟩
  cases hquery : Query.ofRequest Demo.Shop.catalog s {} request (some ("id", .int 2)) with
  | error e => simp [hquery] at hanswer
  | ok query =>
    cases hfind : db.find Demo.Shop.catalog s query true with
    | error e => simp [hquery, hfind, Except.isOk, Except.toBool] at hanswer
    | ok records =>
      have hloads : query.projection.Loads ["parent"] := by
        simpa [hquery, hfind, Except.isOk, Except.toBool, Projection.Loads] using hanswer
      exact ⟨query, records, rfl, hloads, hfind, related_agree hsound hnamed hjoin hrel hquery hloads hfind⟩

end Database

end

/-! ## Relations without a name -/

/-- The kinds of a graph in which a relation has an empty name. -/
inductive Demo.Archive where
  | ticket
  | note
  | account
  | memo
  deriving DecidableEq

namespace Demo.Archive

/-- The path that leads from tickets over their relation without a name to notes, and on to memos, is followed from
the tickets themselves, to accounts: what is attached to a memo is attached to an account, in the place of its
key. -/
def catalog : Catalog Archive
  | .ticket =>
    { name := "Ticket", table := "tickets", key := "id", columns := [Shop.keyColumn "id"],
      relations := [⟨"", .note, .belongsTo "id"⟩, ⟨"x", .account, .belongsTo "id"⟩],
      hidden := [], deletion := .hard }
  | .note =>
    { name := "Note", table := "notes", key := "id", columns := [Shop.keyColumn "id"],
      relations := [⟨"x", .memo, .belongsTo "id"⟩], hidden := [], deletion := .hard }
  | .account =>
    { name := "Account", table := "accounts", key := "nr",
      columns := [Shop.keyColumn "nr", { name := "id", kind := .integer, nullable := true }],
      relations := [], hidden := [], deletion := .hard }
  | .memo =>
    { name := "Memo", table := "memos", key := "id", columns := [Shop.keyColumn "id"],
      relations := [⟨"nr", .memo, .belongsTo "id"⟩], hidden := [], deletion := .hard }

/-- A ticket and its account. -/
def rows : Archive → List Row
  | .ticket => [⟨1, []⟩]
  | .account => [⟨1, []⟩]
  | _ => []

/-- The tables of the archive. -/
def database : Database where
  tables := [Archive.ticket, .note, .account, .memo].map fun kind => Table.ofSchema (catalog kind) (rows kind)

theorem isSound (kind : Archive) : Schema.IsSound catalog (catalog kind) := by
  intro s hs
  obtain ⟨i, rfl⟩ := Schema.exists_of_isIn hs
  cases i <;> decide

theorem table?_database (kind : Archive) :
    database.table? (catalog kind).table = some (Table.ofSchema (catalog kind) (rows kind)) := by
  refine Database.table?_eq_ofSchema rfl (fun i => ?_) (fun i => ?_) (fun i j => ?_) kind
  · cases i <;> decide
  · cases i <;> decide
  · cases i <;> cases j <;> decide

theorem isJoinable (kind : Archive) : database.IsJoinable catalog (catalog kind) := by
  refine Database.isJoinable_of_table? table?_database (fun i => ?_) (fun i => ?_) (fun i => ?_) (fun i => ?_) kind
  · refine Database.Table.fits_ofSchema ?_ (rows i)
    cases i <;> decide
  · cases i <;> unfold Database.Table.IsOrdered <;> decide
  · cases i <;> decide
  · cases i <;> decide

end Demo.Archive

/-- Where a relation has no name, a filter may see a row that loading does not attach: the ticket is found by the
key of its account, and no account is attached to it. -/
theorem Database.not_related_agree_archive :
    let s := Demo.Archive.catalog .ticket
    let db := Demo.Archive.database
    let r : Relation Demo.Archive := ⟨"x", .account, .belongsTo "id"⟩
    let q := Predicate.eq "nr" (.int 1)
    let request : Request :=
      { search := some (.fields [("x", .nested (.fields [("nr", .equals (.int 1))]))])
        relations := some (.list [".x.nr", "x"]) }
    Schema.IsSound Demo.Archive.catalog s ∧ db.IsJoinable Demo.Archive.catalog s ∧ s.relation? "x" = some r ∧
      q.check Demo.Archive.catalog .visible (Demo.Archive.catalog r.target) = .ok () ∧
      (∃ c, Condition.ofConstraint Demo.Archive.catalog s "x" (.related q) = .ok c ∧
        ∀ row ∈ db.scopes s.table, c.eval db.scopes [row] = .yes) ∧
      ∃ query record, Query.ofRequest Demo.Archive.catalog s {} request = .ok query ∧
        query.projection.Loads ["x"] ∧ db.find Demo.Archive.catalog s query false = .ok [record] ∧
        record.get? "x" = some .null := by
  intro s db r q request
  refine ⟨Demo.Archive.isSound .ticket, Demo.Archive.isJoinable .ticket, rfl, ?_, ?_, ?_⟩
  · cbv
  · refine ⟨_, rfl, ?_⟩
    have hall : ((db.scopes s.table).all fun row =>
        (Condition.among "id" "nr" "accounts" [.all [.compare "nr" .eq (.integer 1)]]).eval db.scopes [row] == .yes)
          = true := by
      decide +kernel
    exact fun row hrow => beq_iff_eq.1 (List.all_eq_true.1 hall row hrow)
  · have hanswer : ((Query.ofRequest Demo.Archive.catalog s {} request).toOption.any fun query =>
        (query.projection.relations.any fun entry => Path.names entry.path == ["x"]) &&
          (db.find Demo.Archive.catalog s query false).toOption.any fun records =>
            records.length == 1 && records.all fun record => (record.get? "x").any Json.isNull) = true := by
      decide +kernel
    obtain ⟨query, hquery, h⟩ := any_toOption_iff.1 hanswer
    obtain ⟨hloads, h⟩ := Bool.and_eq_true_iff.1 h
    obtain ⟨records, hfind, h⟩ := any_toOption_iff.1 h
    obtain ⟨hlength, hall⟩ := Bool.and_eq_true_iff.1 h
    obtain ⟨record, rfl⟩ := List.length_eq_one_iff.1 (beq_iff_eq.1 hlength)
    obtain ⟨json, hjson, hnull⟩ := (Option.any_eq_true _ _).1 (List.all_eq_true.1 hall record List.mem_cons_self)
    obtain rfl : json = .null := by cases json <;> simp_all [Json.isNull]
    exact ⟨query, record, hquery, by simpa [Projection.Loads] using hloads, hfind, hjson⟩

end RecordQuery
