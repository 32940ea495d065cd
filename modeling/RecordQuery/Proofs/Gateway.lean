import RecordQuery.Gateway.Basic
import RecordQuery.Proofs.Outcome
import RecordQuery.Store.InDatabase
/-!
# Gateways over a database

What the operations of a gateway over a database come to, as functions of the database: an answer and
the database afterwards. Reading leaves the database as it is; a failure of the store is told in the
operation's own words.
-/

namespace RecordQuery

namespace Database

variable {ε α β : Type}

/-- What a step comes to in a database: its answer, and the database afterwards. -/
def run (db : Database) (x : ExceptT ε (StateM Database) α) : Except ε α × Database :=
  StateT.run (ExceptT.run x) db

/-- One step after the other: the second one is left out if the first one fails. -/
theorem run_bind (db : Database) (x : ExceptT ε (StateM Database) α)
    (f : α → ExceptT ε (StateM Database) β) :
    db.run (x >>= f) = match db.run x with
      | (.ok a, db) => db.run (f a)
      | (.error e, db) => (.error e, db) := by
  simp only [run, ExceptT.run_bind, StateT.run_bind]
  obtain ⟨result, after⟩ := StateT.run (ExceptT.run x) db
  cases result <;> rfl

end Database

namespace Gateway

variable {ι α β : Type} {catalog : Catalog ι} {s : Schema ι} {limits : PageLimits} {g : Gateway Database ι}
  {db : Database} {message : String} {q : Query} {request : Request}

/-- A gateway to a schema's records in a database. -/
def inDatabase (catalog : Catalog ι) (s : Schema ι) (limits : PageLimits) : Gateway Database ι :=
  { catalog, schema := s, store := Database.store catalog, limits }

@[simp] theorem inDatabase_catalog : (inDatabase catalog s limits).catalog = catalog := rfl

@[simp] theorem inDatabase_schema : (inDatabase catalog s limits).schema = s := rfl

@[simp] theorem inDatabase_limits : (inDatabase catalog s limits).limits = limits := rfl

@[simp] theorem inDatabase_store : (inDatabase catalog s limits).store = Database.store catalog := rfl

/-- A gateway is made for consistent schemas only. -/
theorem ofSchema_eq_ok_iff : ofSchema catalog s (Database.store catalog) limits = .ok g ↔
    s.check catalog = .ok () ∧ inDatabase catalog s limits = g := by
  rw [ofSchema, Outcome.bind_eq_ok_iff]
  simp only [Except.ok.injEq]
  exact ⟨fun ⟨_, hc, hg⟩ => ⟨hc, hg⟩, fun ⟨hc, hg⟩ => ⟨(), hc, hg⟩⟩

/-! ## Steps -/

theorem run_accept (result : Checked α) :
    db.run (accept result : Step Database α) = (result.mapError .malformed, db) := rfl

/-- A step of the store, in the operation's own words. -/
theorem run_stored (step : Store.Step Database α) :
    db.run (stored message step) =
      ((db.run step).1.mapError fun _ => .storeFailure message, (db.run step).2) := rfl

/-! ## Reading -/

theorem run_findOne (q : Query) : db.run ((Database.store catalog).findOne s q) =
    ((db.find catalog s q true).map List.head?, db) := rfl

theorem run_findMany (q : Query) :
    db.run ((Database.store catalog).findMany s q) = (db.find catalog s q false, db) := rfl

theorem run_count (q : Query) :
    db.run ((Database.store catalog).count s q) = (db.countOf catalog s q, db) := rfl

/-- A page is counted first. -/
theorem run_findManyAndCount (q : Query) : db.run ((Database.store catalog).findManyAndCount s q) =
    ((db.countOf catalog s q).bind fun total =>
      (db.find catalog s q false).map fun records => (records, total), db) := by
  rw [Store.findManyAndCount, Database.run_bind, run_count]
  cases db.countOf catalog s q with
  | error e => rfl
  | ok total =>
    simp only [Except.bind]
    rw [Database.run_bind, run_findMany]
    cases db.find catalog s q false <;> rfl

/-- The first record of a query, as it is shown. -/
theorem run_first (message : String) (q : Query) :
    db.run ((inDatabase catalog s limits).first message q) =
      (((db.find catalog s q true).map fun records =>
        records.head?.map (inDatabase catalog s limits).shown).mapError fun _ => .storeFailure message,
        db) := by
  rw [first, Database.run_bind, run_stored, inDatabase_store, inDatabase_schema, run_findOne]
  cases db.find catalog s q true <;> rfl

/-- What finding a record comes to. -/
def answerOfFind (catalog : Catalog ι) (s : Schema ι) (limits : PageLimits) (db : Database)
    (id : Scalar) (request : Request) : Except Error Record := do
  let q ← (Query.ofRequest catalog s limits request (some (s.key, id))).mapError .malformed
  let records ← (db.find catalog s q true).mapError fun _ => .storeFailure readFailed
  match records.head? with
  | some record => .ok (Concealment.record catalog s record)
  | none => .error (.notFound s.name id.display)

/-- What finding a record that satisfies a predicate comes to. -/
def answerOfFindBy (catalog : Catalog ι) (s : Schema ι) (limits : PageLimits) (db : Database)
    (predicate : Predicate) (request : Request) : Except Error (Option Record) := do
  (predicate.check catalog .any s).mapError .malformed
  let q ← (Query.ofRequest catalog s limits request).mapError .malformed
  let records ← (db.find catalog s { q with predicate := predicate.and q.predicate } true).mapError
    fun _ => .storeFailure readFailed
  .ok (records.head?.map (Concealment.record catalog s))

/-- What a listing comes to: the count is asked for first. -/
def answerOfList (catalog : Catalog ι) (s : Schema ι) (limits : PageLimits) (db : Database)
    (request : Request) : Except Error Listing := do
  let q ← (Query.ofRequest catalog s limits request).mapError .malformed
  let total ← match q.page with
    | some _ => (db.countOf catalog s q).mapError fun _ => .storeFailure readFailed
    | none => .ok 0
  let records ← (db.find catalog s q false).mapError fun _ => .storeFailure readFailed
  .ok ⟨records.map (Concealment.record catalog s), q.page.map (·.summary total)⟩

theorem run_find (id : Scalar) (request : Request) :
    db.run ((inDatabase catalog s limits).find id request) =
      (answerOfFind catalog s limits db id request, db) := by
  rw [find, Database.run_bind, run_accept, answerOfFind]
  simp only [inDatabase_catalog, inDatabase_schema, inDatabase_limits]
  cases Query.ofRequest catalog s limits request (some (s.key, id)) with
  | error e => rfl
  | ok q =>
    simp only [Outcome.mapError_ok]
    rw [Database.run_bind, run_first]
    simp only [bind, Except.bind]
    cases db.find catalog s q true with
    | error e => rfl
    | ok records => cases records <;> rfl

theorem run_findBy (predicate : Predicate) (request : Request) :
    db.run ((inDatabase catalog s limits).findBy predicate request) =
      (answerOfFindBy catalog s limits db predicate request, db) := by
  rw [findBy, Database.run_bind, run_accept, answerOfFindBy]
  simp only [inDatabase_catalog, inDatabase_schema, inDatabase_limits]
  cases predicate.check catalog .any s with
  | error e => rfl
  | ok u =>
    simp only [Outcome.mapError_ok]
    rw [Database.run_bind, run_accept]
    cases Query.ofRequest catalog s limits request with
    | error e => rfl
    | ok q =>
      simp only [Outcome.mapError_ok]
      rw [run_first]
      simp only [bind, Except.bind]
      cases db.find catalog s { q with predicate := predicate.and q.predicate } true <;> rfl

theorem run_list (request : Request) :
    db.run ((inDatabase catalog s limits).list request) =
      (answerOfList catalog s limits db request, db) := by
  rw [list, Database.run_bind, run_accept, answerOfList]
  simp only [inDatabase_catalog, inDatabase_schema, inDatabase_limits, inDatabase_store]
  cases Query.ofRequest catalog s limits request with
  | error e => rfl
  | ok q =>
    simp only [Outcome.mapError_ok]
    cases hp : q.page with
    | none =>
      simp only [Database.run_bind, run_stored, run_findMany]
      simp only [bind, Except.bind, hp]
      cases db.find catalog s q false <;> rfl
    | some page =>
      simp only [Database.run_bind, run_stored, run_findManyAndCount]
      simp only [bind, Except.bind, hp]
      cases db.countOf catalog s q with
      | error e => rfl
      | ok total => cases db.find catalog s q false <;> rfl

end Gateway

end RecordQuery
