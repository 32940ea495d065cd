import RecordQuery.Database.Reading
import RecordQuery.Store.Row
/-!
# Loading related records

The relation paths of a projection are loaded level by level: the records of a level are those whose
key is among the keys that the records one level up hold (`loadLevels`). Then every level is attached
to the one above it, the deepest first, so that a record is complete when it is attached itself
(`finish`). Join keys that were not asked for are fetched all the same and taken away on attaching.
-/

namespace RecordQuery.Loading

variable {ι : Type}

/-- How the records at a path are joined to those one name up. -/
structure Link (ι : Type) where
  path : String
  target : Schema ι
  /-- The column of the record above. -/
  upperKey : String
  /-- The column of the record at the path. -/
  lowerKey : String
  isMany : Bool

/-- The link of a relation path. -/
def Link.at? (catalog : Catalog ι) (root : Schema ι) (path : String) : Option (Link ι) := do
  let owner ← if (Path.parent path).isEmpty then some root
    else root.schemaAt? catalog (Path.parent path)
  let r ← owner.relation? (Path.last path)
  let (upperKey, lowerKey) := owner.joinKeys catalog r
  some ⟨path, catalog r.target, upperKey, lowerKey, r.isMany⟩

/-- The columns that the records at a path must carry for the levels below. -/
def neededKeys (catalog : Catalog ι) (s : Schema ι) (p : Projection) (path : String) :
    List String :=
  (p.relations.filterMap fun entry =>
    if Path.parent entry.path == path then
      (s.relation? (Path.last entry.path)).map fun r => (s.joinKeys catalog r).1
    else none).foldl Path.addNew []

/-- The needed columns that are not selected. -/
def internalColumns (selected needed : List String) : List String :=
  (needed.foldl Path.addNew []).filter fun name => !selected.contains name

/-- The records that a statement reads. -/
def fetch (db : Database) (s : Schema ι) (q : Sql.Select) (columns : List String) :
    Except StoreError (List Record) := do
  (columns.forM (Sql.requireColumn s)).mapError .invalidQuery
  let rows ← (db.select q columns).mapError .database
  (rows.mapM (Record.ofCells? s columns)).mapError .database

/-- The values that are not null, each once; values are told apart by their text. -/
def distinctValues (records : List Record) (column : String) : List Json :=
  (records.filterMap (·.get? column)).foldl (fun values value =>
    if value.isNull || values.any (·.compact == value.compact) then values
    else values ++ [value]) []

/-- The records at one path. -/
structure Level (ι : Type) where
  link : Link ι
  internal : List String
  records : List Record

/-- The records of the level at a path, the root's at the empty path. -/
def recordsAt (rootRecords : List Record) (levels : List (Level ι)) (path : String) :
    List Record :=
  if path.isEmpty then rootRecords
  else ((levels.find? (·.link.path == path)).map Level.records).getD []

/-- The columns that the records of a link carry although they are not selected. -/
def Link.internal (catalog : Catalog ι) (p : Projection) (link : Link ι) (entry : RelationColumns) :
    List String :=
  internalColumns entry.columns (link.lowerKey :: neededKeys catalog link.target p entry.path)

/-- The records that a link leads to from those above. -/
def Link.follow (db : Database) (catalog : Catalog ι) (p : Projection) (link : Link ι)
    (entry : RelationColumns) (upper : List Record) : Except StoreError (List Record) := do
  let keys := (distinctValues upper link.upperKey).filterMap Sql.Param.ofJson?
  if keys.isEmpty then .ok []
  else
    let q ← ((Sql.Select.live link.target).filterIn link.target link.lowerKey keys).mapError .invalidQuery
    fetch db link.target (q.sortByKey link.target) (entry.columns ++ link.internal catalog p entry)

/-- Loads one more level. -/
def loadLevel (db : Database) (catalog : Catalog ι) (root : Schema ι) (p : Projection)
    (rootRecords : List Record) (levels : List (Level ι)) (entry : RelationColumns) :
    Except StoreError (List (Level ι)) :=
  match Link.at? catalog root entry.path with
  | none => .error (.invalidQuery (.unknownRelation entry.path))
  | some link =>
    let upper := recordsAt rootRecords levels (Path.parent entry.path)
    (link.follow db catalog p entry upper).map fun records =>
      levels ++ [⟨link, link.internal catalog p entry, records⟩]

/-- Loads all levels, those above first. -/
def loadLevels (db : Database) (catalog : Catalog ι) (root : Schema ι) (p : Projection)
    (rootRecords : List Record) : Except StoreError (List (Level ι)) :=
  p.relations.foldlM (loadLevel db catalog root p rootRecords) []

/-- What a level holds for a key: all its records that are joined by it, or the first one. -/
def Level.related (level : Level ι) (key : Option Json) : Json :=
  let joined := level.records.filter fun record =>
    match key, record.get? level.link.lowerKey with
    | some k, some l => !k.isNull && k.compact == l.compact
    | _, _ => false
  let shown := joined.map fun record => Json.object (record.without level.internal)
  if level.link.isMany then .array shown else shown.head?.getD .null

/-- Attaches a level to the records above it. -/
def Level.attachTo (level : Level ι) (records : List Record) : List Record :=
  records.map fun record =>
    record.insert (Path.last level.link.path) (level.related (record.get? level.link.upperKey))

/-- Attaches to the records at a path the levels directly below it, the last one first. -/
def attachAll (path : String) (levels : List (Level ι)) (records : List Record) : List Record :=
  levels.foldr (fun level records =>
    if Path.parent level.link.path == path then level.attachTo records else records) records

/-- The levels with everything below attached to their records. The empty path is the root's, so nothing is
below a level that has it too. -/
def finish (levels : List (Level ι)) : List (Level ι) :=
  levels.foldr (fun level below =>
    (if level.link.path.isEmpty then level
    else { level with records := attachAll level.link.path below level.records }) :: below) []

/-- The records with their related ones. -/
def load (db : Database) (catalog : Catalog ι) (root : Schema ι) (p : Projection)
    (records : List Record) : Except StoreError (List Record) :=
  if p.relations.isEmpty || records.isEmpty then .ok records
  else (loadLevels db catalog root p records).map fun levels =>
    attachAll "" (finish levels) records

end RecordQuery.Loading
