import RecordQuery.Proofs.Concealment
import RecordQuery.Proofs.Loading.Loaded
import RecordQuery.Proofs.Stores.Calls
import RecordQuery.Store.InDatabase
/-!
# Queries that can be compiled

A request is checked against the schemas before it becomes a query, and the store checks the query again
while it makes statements of it. What passes the first check passes the second one too: all statements for the
query can be made (`Query.isCompiled_of_parts`), so no reading of a gateway is refused by its database
(`Gateway.compiled_and_not_refused`). Only a relation of the root with an empty name comes between: the path
that begins with it looks like one of the root (`Gateway.refused_of_empty_name`).
-/

namespace RecordQuery

open Outcome Sql

variable {α β ι : Type} {catalog : Catalog ι} {s : Schema ι} {p q : Predicate} {field : String}

/-! ## Predicates and sort keys -/

namespace Predicate

open Sql.Condition

/-- Whether a predicate can be turned into a condition. -/
def HasCondition (catalog : Catalog ι) (s : Schema ι) (p : Predicate) : Prop :=
  ∃ c, ofPredicate catalog s p = .ok c

theorem hasCondition_all_iff {fields : List (String × Constraint)} {groups : List Predicate} :
    HasCondition catalog s (.all fields groups) ↔
      (∃ tests, Condition.ofFields catalog s fields = .ok tests) ∧ ∃ inner, ofAll catalog s groups = .ok inner := by
  constructor
  · rintro ⟨c, hc⟩
    obtain ⟨tests, inner, ht, hi, -⟩ := ofPredicate_all_eq_ok_iff.1 hc
    exact ⟨⟨tests, ht⟩, inner, hi⟩
  · rintro ⟨⟨tests, ht⟩, inner, hi⟩
    exact ⟨_, ofPredicate_all_eq_ok_iff.2 ⟨tests, inner, ht, hi, rfl⟩⟩

theorem exists_ofAll_of_hasCondition {ps : List Predicate} (h : ∀ p ∈ ps, HasCondition catalog s p) :
    ∃ cs, ofAll catalog s ps = .ok cs := by
  induction ps with
  | nil => exact ⟨[], rfl⟩
  | cons p ps ih =>
    obtain ⟨⟨c, hc⟩, hps⟩ := List.forall_mem_cons.1 h
    obtain ⟨cs, hcs⟩ := ih hps
    exact ⟨_, ofAll_cons_eq_ok_iff.2 ⟨c, cs, hc, hcs, rfl⟩⟩

/-- A column that has a value, beside other fields. -/
theorem exists_ofFields_cons (hf : s.hasColumn field) (t : Test) {fields : List (String × Constraint)}
    (h : ∃ tests, Condition.ofFields catalog s fields = .ok tests) :
    ∃ tests, Condition.ofFields catalog s ((field, .test t) :: fields) = .ok tests := by
  obtain ⟨tests, ht⟩ := h
  exact ⟨_, ofFields_cons_eq_ok_iff.2 ⟨_, tests, ofConstraint_test_eq_ok_iff.2 ⟨hf, rfl⟩, ht, rfl⟩⟩

theorem hasCondition_eq (hf : s.hasColumn field) (value : Scalar) : HasCondition catalog s (eq field value) :=
  hasCondition_all_iff.2 ⟨exists_ofFields_cons hf _ ⟨[], rfl⟩, [], rfl⟩

/-- A column may have to have a value too. -/
theorem HasCondition.andEq (hp : HasCondition catalog s p) (hf : s.hasColumn field) (value : Scalar) :
    HasCondition catalog s (p.andEq field value) := by
  have hw : HasCondition catalog s
      (.all [(field, .test (.eq value))] (if p.isEverything then [] else [p])) := by
    refine hasCondition_all_iff.2 ⟨exists_ofFields_cons hf _ ⟨[], rfl⟩, exists_ofAll_of_hasCondition fun q hq => ?_⟩
    split at hq
    · cases hq
    · obtain rfl := List.mem_singleton.1 hq
      exact hp
  cases p with
  | all fields groups =>
    rw [Predicate.andEq]
    split
    · exact hw
    · obtain ⟨hfields, hgroups⟩ := hasCondition_all_iff.1 hp
      exact hasCondition_all_iff.2 ⟨exists_ofFields_cons hf _ hfields, hgroups⟩
  | _ => exact hw

/-- Both of two predicates may be asked for. -/
theorem HasCondition.and (hp : HasCondition catalog s p) (hq : HasCondition catalog s q) :
    HasCondition catalog s (p.and q) := by
  have hboth : HasCondition catalog s (.all [] [p, q]) :=
    hasCondition_all_iff.2 ⟨⟨[], rfl⟩, exists_ofAll_of_hasCondition (by simp [hp, hq])⟩
  cases hqe : q.isEverything with
  | true => simpa [Predicate.and, hqe] using hp
  | false =>
    cases hpe : p.isEverything with
    | true => simpa [Predicate.and, hqe, hpe] using hq
    | false =>
      cases p with
      | all fields groups =>
        obtain ⟨hfields, ds, hds⟩ := hasCondition_all_iff.1 hp
        obtain ⟨es, hes⟩ := exists_ofAll_of_hasCondition (List.forall_mem_singleton.2 hq)
        have hgroups := ofAll_append_eq_ok_iff.2 ⟨ds, es, hds, hes, rfl⟩
        simpa [Predicate.and, hqe, hpe] using hasCondition_all_iff.2 ⟨hfields, _, hgroups⟩
      | _ => simpa [Predicate.and, hqe, hpe] using hboth

end Predicate

namespace Sql

/-- What records can be sorted by has a term. -/
theorem SortTerm.exists_ofPath {path : String} (h : SortKeys.isSortable catalog s path) (number : Nat) :
    ∃ term, ofPath catalog s number path = .ok term := by
  rw [SortKeys.isSortable] at h
  rw [ofPath]
  cases hpath : Path.first? path with
  | none =>
    rw [hpath] at h
    exact ⟨_, bind_eq_ok_iff.2 ⟨(), Condition.requireColumn_eq_ok_iff.2 (Access.admits_iff.1 h).1, rfl⟩⟩
  | some parts =>
    obtain ⟨relation, column⟩ := parts
    simp only [hpath] at h ⊢
    cases hr : s.relation? relation with
    | none => simp [hr] at h
    | some r =>
      simp only [hr, Bool.and_eq_true, Bool.not_eq_true', Relation.isMany] at h ⊢
      obtain ⟨hone, hcolumn⟩ := h
      cases hjoin : r.join with
      | hasMany foreignKey => simp [hjoin] at hone
      | belongsTo localKey =>
        exact ⟨_, bind_eq_ok_iff.2 ⟨(), Condition.requireColumn_eq_ok_iff.2 (Access.admits_iff.1 hcolumn).1, rfl⟩⟩

theorem Select.exists_sort {keys : SortKeys} (h : ∀ key ∈ keys, SortKeys.isSortable catalog s key.1)
    (select : Select) : ∃ sorted, select.sort catalog s keys = .ok sorted := by
  induction keys generalizing select with
  | nil => exact ⟨select, rfl⟩
  | cons key keys ih =>
    obtain ⟨hkey, hkeys⟩ := List.forall_mem_cons.1 h
    obtain ⟨term, hterm⟩ :=
      SortTerm.exists_ofPath hkey ((select.order.filter fun sorted => sorted.1.isRelated).length + 1)
    obtain ⟨sorted, hsorted⟩ := ih hkeys { select with order := select.order ++ [(term, key.2)] }
    refine ⟨sorted, ?_⟩
    rw [sort, List.foldlM_cons]
    exact bind_eq_ok_iff.2 ⟨_, map_eq_ok_iff.2 ⟨term, hterm, rfl⟩, hsorted⟩

/-- Columns of the schema can be asked for. -/
theorem Select.exists_textFor {columns : List String} (h : ∀ name ∈ columns, s.hasColumn name) (select : Select) :
    ∃ text, select.textFor s columns = .ok text :=
  ⟨_, bind_eq_ok_iff.2 ⟨(), forM_eq_ok_iff.2 fun name hn => Condition.requireColumn_eq_ok_iff.2 (h name hn), rfl⟩⟩

end Sql

/-! ## Queries -/

/-- All statements that the store makes for a query can be made: the one for the records of the root, single or
not, the one that counts them, and for each relation path the one for the records there, whatever the values
that they are joined by. -/
structure Query.IsCompiled (catalog : Catalog ι) (s : Schema ι) (q : Query) : Prop where
  records : ∀ single, ∃ select text, Database.statement catalog s q single = .ok select ∧
    select.textFor s (Loading.rootNames catalog s q.projection) = .ok text
  count : ∃ select, (Select.live s).filter catalog s q.predicate = .ok select
  levels : ∀ entry ∈ q.projection.relations, ∃ link, Loading.Link.at? catalog s entry.path = some link ∧
    ∀ values, ∃ select text, (Select.live link.target).filterIn link.target link.lowerKey values = .ok select ∧
      (select.sortByKey link.target).textFor link.target
        (entry.columns ++ link.internal catalog q.projection entry) = .ok text

/-- There is a statement for the records of the root. -/
theorem Query.exists_statement {q : Query} (hp : q.predicate.HasCondition catalog s)
    (hsort : q.sort.check catalog s = .ok ()) (single : Bool) :
    ∃ select, Database.statement catalog s q single = .ok select := by
  obtain ⟨filtered, hfiltered⟩ := Select.exists_filter_of_condition hp (Select.live s)
  obtain ⟨sorted, hsorted⟩ := Select.exists_sort (SortKeys.isSortable_of_check hsort) filtered
  exact ⟨_, bind_eq_ok_iff.2 ⟨filtered, hfiltered, bind_eq_ok_iff.2 ⟨sorted, hsorted, rfl⟩⟩⟩

section

variable (hsound : Schema.IsSound catalog s) (hnamed : ∀ r ∈ s.relations, r.name ≠ "")

include hsound

/-- The predicate of a request's query has a condition, with the key that has to have a value too. -/
theorem Query.hasCondition_ofRequest {limits : PageLimits} {request : Request}
    {identity : Option (String × Scalar)} {q : Query}
    (hidentity : identity = none ∨ ∃ id, identity = some (s.key, id))
    (h : ofRequest catalog s limits request identity = .ok q) : q.predicate.HasCondition catalog s := by
  obtain ⟨p, hcheck, hpredicate, -⟩ := ofRequest_eq_ok h
  rw [hpredicate]
  rcases hidentity with rfl | ⟨id, rfl⟩
  · exact Predicate.exists_ofPredicate p hcheck
  · exact Predicate.HasCondition.andEq (Predicate.exists_ofPredicate p hcheck)
      (Schema.hasColumn_key (hsound s Schema.isIn_root)) id

/-- The columns of the root that the levels below are joined by are there. -/
theorem Loading.hasColumn_rootNames {p : Projection} (hp : p.IsSelection catalog s) :
    ∀ name ∈ rootNames catalog s p, s.hasColumn name := by
  intro name hn
  rcases List.mem_append.1 hn with hn | hn
  · exact hp.columns name hn
  · obtain ⟨_, _, _, r, hr, rfl⟩ := mem_neededKeys_iff.1 (mem_internalColumns_iff.1 hn).1
    exact Schema.hasColumn_joinKeys_fst (hsound s Schema.isIn_root) (Schema.relation?_eq_some hr).1

include hnamed

/-- Each path of a selection has a link, by a column that is there and to columns that are there. -/
theorem Loading.exists_link {p : Projection} (hp : p.IsSelection catalog s) {entry : RelationColumns}
    (he : entry ∈ p.relations) : ∃ link, Link.at? catalog s entry.path = some link ∧
      link.target.hasColumn link.lowerKey ∧
      ∀ name ∈ entry.columns ++ link.internal catalog p entry, link.target.hasColumn name := by
  obtain ⟨target, htarget, hcolumns⟩ := hp.leads entry he
  obtain ⟨owner, r, howner, hr, rfl⟩ := Schema.exists_above? hnamed htarget
  have hthere : Schema.IsIn catalog s (catalog r.target) := Schema.isIn_catalog r.target
  have hlower : (catalog r.target).hasColumn (owner.joinKeys catalog r).2 :=
    Schema.hasColumn_joinKeys_snd (hsound owner (Schema.isIn_of_above? howner)) (Schema.relation?_eq_some hr).1
      (hsound _ hthere)
  refine ⟨_, Link.at?_eq_some_iff.2 ⟨owner, r, howner, hr, rfl⟩, hlower, fun name hn => ?_⟩
  rcases List.mem_append.1 hn with hn | hn
  · exact hcolumns name hn
  · rcases List.mem_cons.1 (mem_internalColumns_iff.1 hn).1 with rfl | hn
    · exact hlower
    · obtain ⟨_, _, _, below, hbelow, rfl⟩ := mem_neededKeys_iff.1 hn
      exact Schema.hasColumn_joinKeys_fst (hsound _ hthere) (Schema.relation?_eq_some hbelow).1

/-- A query is compiled if its predicate has a condition, its sort keys have passed their check, and its
projection selects what is there. -/
theorem Query.isCompiled_of_parts {q : Query} (hp : q.predicate.HasCondition catalog s)
    (hsort : q.sort.check catalog s = .ok ()) (hprojection : q.projection.IsSelection catalog s) :
    q.IsCompiled catalog s where
  records single := by
    obtain ⟨select, hselect⟩ := exists_statement hp hsort single
    obtain ⟨text, htext⟩ := Select.exists_textFor (Loading.hasColumn_rootNames hsound hprojection) select
    exact ⟨select, text, hselect, htext⟩
  count := Select.exists_filter_of_condition hp (Select.live s)
  levels entry he := by
    obtain ⟨link, hlink, hlower, hcolumns⟩ := Loading.exists_link hsound hnamed hprojection he
    refine ⟨link, hlink, fun values => ?_⟩
    obtain ⟨text, htext⟩ := Select.exists_textFor hcolumns (Select.sortByKey link.target
      { Select.live link.target with
        conditions := (Select.live link.target).conditions ++ [.oneOf link.lowerKey values] })
    exact ⟨_, text, bind_eq_ok_iff.2 ⟨(), Condition.requireColumn_eq_ok_iff.2 hlower, rfl⟩, htext⟩

/-- The query of a request is compiled, and stays so if its key has to have a value or a trusted predicate is
asked for too. -/
theorem Query.isCompiled_ofRequest {limits : PageLimits} {request : Request}
    {identity : Option (String × Scalar)} {q : Query}
    (hidentity : identity = none ∨ ∃ id, identity = some (s.key, id))
    (h : ofRequest catalog s limits request identity = .ok q) :
    q.IsCompiled catalog s ∧ ∀ trusted : Predicate, trusted.check catalog .any s = .ok () →
      IsCompiled catalog s { q with predicate := trusted.and q.predicate } := by
  obtain ⟨-, -, -, hsort, -, -⟩ := ofRequest_eq_ok h
  have hprojection := isSelection_ofRequest h
  have hp := hasCondition_ofRequest hsound hidentity h
  refine ⟨isCompiled_of_parts hsound hnamed hp hsort hprojection, fun trusted htrusted => ?_⟩
  exact isCompiled_of_parts hsound hnamed
    (Predicate.HasCondition.and (Predicate.exists_ofPredicate trusted htrusted) hp) hsort hprojection

/-- The query for the record of a key is compiled. -/
theorem Query.isCompiled_byKey (id : Scalar) : (byKey s id).IsCompiled catalog s := by
  refine isCompiled_of_parts hsound hnamed
    (Predicate.hasCondition_eq (Schema.hasColumn_key (hsound s Schema.isIn_root)) id) rfl ⟨?_, ?_, ?_⟩
  · exact Path.isClosed_nil
  · exact fun name hn => (Projection.mem_visible_iff.1 hn).1
  · exact fun entry he => absurd he List.not_mem_nil

end

/-! ## Readings of a database -/

/-- What is done is not refused as a query that does not fit the schema. -/
def IsRun (result : Except StoreError α) : Prop := ∀ fault, result ≠ .error (.invalidQuery fault)

namespace IsRun

theorem ok (a : α) : IsRun (.ok a : Except StoreError α) := fun _ h => by cases h

theorem bind {x : Except StoreError α} {f : α → Except StoreError β} (hx : IsRun x)
    (hf : ∀ a, x = .ok a → IsRun (f a)) : IsRun (x >>= f) := by
  cases x with
  | error e => exact fun fault h => hx fault (by cases h; rfl)
  | ok a => exact hf a rfl

theorem map {x : Except StoreError α} (hx : IsRun x) (f : α → β) : IsRun (x.map f) := by
  cases x with
  | error e => exact fun fault h => hx fault (by cases h; rfl)
  | ok a => exact ok (f a)

/-- What a database says is no refusal. -/
theorem database (x : Except Database.Fault α) : IsRun (x.mapError .database) := by
  cases x with
  | error e => exact fun _ h => by cases h
  | ok a => exact ok a

theorem foldlM {f : β → α → Except StoreError β} {xs : List α} (h : ∀ b, ∀ x ∈ xs, IsRun (f b x)) (b : β) :
    IsRun (xs.foldlM f b) := by
  induction xs generalizing b with
  | nil => exact ok b
  | cons x xs ih =>
    rw [List.foldlM_cons]
    exact (h b x List.mem_cons_self).bind fun c _ => ih (fun b y hy => h b y (List.mem_cons_of_mem x hy)) c

end IsRun

/-- A statement that has a text is run. -/
theorem Loading.isRun_fetch {db : Database} {select : Select} {columns : List String} {text : String}
    (h : select.textFor s columns = .ok text) : IsRun (fetch db s select columns) := by
  obtain ⟨⟨⟩, hcolumns, -⟩ := bind_eq_ok_iff.1 h
  rw [fetch, hcolumns]
  exact (IsRun.database _).bind fun _ _ => IsRun.database _

namespace Query.IsCompiled

variable {q : Query}

/-- The records at a path are looked for. -/
theorem loadLevel (h : q.IsCompiled catalog s) (db : Database) (records : List Record)
    (levels : List (Loading.Level ι)) {entry : RelationColumns} (he : entry ∈ q.projection.relations) :
    IsRun (Loading.loadLevel db catalog s q.projection records levels entry) := by
  obtain ⟨link, hlink, hselect⟩ := h.levels entry he
  simp only [Loading.loadLevel, hlink]
  refine IsRun.map ?_ _
  rw [Loading.Link.follow]
  split
  · exact .ok []
  · obtain ⟨select, text, hfilter, htext⟩ := hselect _
    rw [hfilter]
    exact Loading.isRun_fetch htext

theorem load (h : q.IsCompiled catalog s) (db : Database) (records : List Record) :
    IsRun (Loading.load db catalog s q.projection records) := by
  rw [Loading.load]
  split
  · exact .ok records
  · exact (IsRun.foldlM (fun levels entry he => h.loadLevel db records levels he) []).map _

/-- A compiled query is run. -/
theorem find (h : q.IsCompiled catalog s) (db : Database) (single : Bool) : IsRun (db.find catalog s q single) := by
  obtain ⟨select, text, hselect, htext⟩ := h.records single
  rw [Database.find, hselect]
  exact (Loading.isRun_fetch htext).bind fun records _ => (h.load db records).bind fun loaded _ => .ok _

theorem countOf (h : q.IsCompiled catalog s) (db : Database) : IsRun (db.countOf catalog s q) := by
  obtain ⟨select, hselect⟩ := h.count
  rw [Database.countOf, hselect]
  exact (IsRun.database _).bind fun n _ => .ok _

end Query.IsCompiled

/-! ## Readings of a gateway -/

/-- Whether a call of a store was not refused. -/
def Exchange.IsRun : Exchange → Prop
  | count _ answer => RecordQuery.IsRun answer
  | findOne _ answer => RecordQuery.IsRun answer
  | findMany _ answer => RecordQuery.IsRun answer
  | save _ answer => RecordQuery.IsRun answer
  | delete _ answer => RecordQuery.IsRun answer

namespace Gateway

/-- All calls that a step adds are of a kind, wherever it starts. -/
def Makes {ε σ : Type} (G : Exchange → Prop) (x : ExceptT ε (StateM (σ × List Exchange)) α) : Prop :=
  Does (fun _ calls => ∀ call ∈ calls, G call) x

namespace Makes

variable {ε σ : Type} {G : Exchange → Prop}

theorem pure (a : α) : Makes G (Pure.pure a : ExceptT ε (StateM (σ × List Exchange)) α) :=
  Does.pure (by simp)

theorem throw (e : ε) : Makes G (throw e : ExceptT ε (StateM (σ × List Exchange)) α) :=
  Does.throw (by simp)

theorem bind {x : ExceptT ε (StateM (σ × List Exchange)) α} {f : α → ExceptT ε (StateM (σ × List Exchange)) β}
    (h : Makes G x) (hf : ∀ a, Makes G (f a)) : Makes G (x >>= f) :=
  Does.bind h (fun _ _ h => h) fun a _ hcalls => (hf a).mono fun _ _ hmore call hcall =>
    (List.mem_append.1 hcall).elim (hcalls call) (hmore call)

theorem accept {result : Checked α} {f : α → Step (σ × List Exchange) β}
    (hf : ∀ a, result = .ok a → Makes G (f a)) : Makes G (accept result >>= f) := by
  cases result with
  | error cause => exact throw _
  | ok a => exact hf a rfl

theorem note {entry : Except StoreError α → Exchange} {step : Store.Step σ α}
    (h : ∀ state, G (entry (runIn state step).1)) : Makes G (Store.note entry step) :=
  fun state _ => ⟨_, List.forall_mem_singleton.2 (h state), rfl⟩

theorem stored {message : String} {x : Store.Step (σ × List Exchange) α} (h : Makes G x) :
    Makes G (stored message x) :=
  (Does.stored h).mono fun _ _ ⟨_, hcalls, _⟩ => hcalls

end Makes

/-- Whether a call that reads was not refused. -/
def ReadIsRun (call : Exchange) : Prop := call.writes = false → call.IsRun

section

variable {limits : PageLimits} {message : String} {q : Query}

/-- The gateway to a schema's records in a database that notes its calls. -/
def noted (catalog : Catalog ι) (s : Schema ι) (limits : PageLimits) : Gateway (Database × List Exchange) ι :=
  (inDatabase catalog s limits).withStore (Database.store catalog).noting

theorem makes_findMany (h : q.IsCompiled catalog s) (limits : PageLimits) :
    Makes ReadIsRun ((noted catalog s limits).store.findMany s q) :=
  .note fun db _ => h.find db false

theorem makes_count (h : q.IsCompiled catalog s) (limits : PageLimits) :
    Makes ReadIsRun ((noted catalog s limits).store.count s q) :=
  .note fun db _ => h.countOf db

theorem makes_first (h : q.IsCompiled catalog s) :
    Makes ReadIsRun ((noted catalog s limits).first message q) :=
  (Makes.stored (.note fun db _ => (h.find db true).map _)).bind fun _ => .pure _

theorem makes_save (record : Record) : Makes ReadIsRun ((noted catalog s limits).save message record) :=
  (Makes.stored (.note fun _ hwrites => nomatch hwrites)).bind fun _ => .pure _

theorem makes_delete (id : Scalar) :
    Makes ReadIsRun (stored message ((noted catalog s limits).store.delete s id)) :=
  .stored (.note fun _ hwrites => nomatch hwrites)

variable (hsound : Schema.IsSound catalog s) (hnamed : ∀ r ∈ s.relations, r.name ≠ "")

include hsound hnamed

theorem makes_existing (id : Scalar) : Makes ReadIsRun ((noted catalog s limits).existing message id) :=
  (makes_first (Query.isCompiled_byKey hsound hnamed id)).bind fun found => match found with
    | some _ => .pure _
    | none => .throw _

/-- No reading of a task is refused. -/
theorem makes_perform (limits : PageLimits) (now : Instant) (task : Task) :
    Makes ReadIsRun ((noted catalog s limits).perform now task) := by
  cases task with
  | create actor data =>
    exact (Makes.accept fun _ _ => .accept fun _ _ => makes_save _).bind fun _ => .pure _
  | update actor id data =>
    exact (Makes.accept fun _ _ => (makes_existing hsound hnamed id).bind fun _ => makes_save _).bind fun _ => .pure _
  | delete actor id =>
    refine ((makes_existing hsound hnamed id).bind fun record => ?_).bind fun _ => .pure _
    cases (noted catalog s limits).schema.deletionMark? with
    | some column => exact (makes_save _).bind fun _ => .pure _
    | none => exact (makes_delete id).bind fun _ => .pure _
  | find id request =>
    refine (Makes.accept fun q hq => ?_).bind fun _ => .pure _
    have hcompiled := (Query.isCompiled_ofRequest hsound hnamed (.inr ⟨id, rfl⟩) hq).1
    exact (makes_first hcompiled).bind fun found => match found with
      | some _ => .pure _
      | none => .throw _
  | findBy predicate request =>
    refine (Makes.accept fun _ hcheck => .accept fun q hq => ?_).bind fun _ => .pure _
    exact makes_first ((Query.isCompiled_ofRequest hsound hnamed (.inl rfl) hq).2 predicate hcheck)
  | list request =>
    refine (Makes.accept fun q hq => ?_).bind fun _ => .pure _
    have hcompiled := (Query.isCompiled_ofRequest hsound hnamed (.inl rfl) hq).1
    cases q.page with
    | some page =>
      have hpage := (makes_count hcompiled limits).bind fun total =>
        (makes_findMany hcompiled limits).bind fun records =>
          Makes.pure (ε := StoreError) (records, total)
      exact (Makes.stored hpage).bind fun _ => .pure _
    | none => exact (Makes.stored (makes_findMany hcompiled limits)).bind fun _ => .pure _

end

/-- What is accepted can be compiled: all statements can be made for the query of a request, for a record of a
key or not, and for one that has to satisfy a trusted predicate too, and no reading of a gateway is refused by
its database. -/
theorem compiled_and_not_refused (hsound : Schema.IsSound catalog s) (hnamed : ∀ r ∈ s.relations, r.name ≠ "")
    (limits : PageLimits) :
    (∀ request identity q, (identity = none ∨ ∃ id, identity = some (s.key, id)) →
      Query.ofRequest catalog s limits request identity = .ok q → q.IsCompiled catalog s) ∧
    (∀ trusted : Predicate, ∀ request q, trusted.check catalog .any s = .ok () →
      Query.ofRequest catalog s limits request = .ok q →
      Query.IsCompiled catalog s { q with predicate := trusted.and q.predicate }) ∧
    ∀ db now task, ∀ call ∈ (inDatabase catalog s limits).calls now db task, call.writes = false → call.IsRun := by
  refine ⟨fun _ _ _ hidentity hq => (Query.isCompiled_ofRequest hsound hnamed hidentity hq).1,
    fun trusted _ _ htrusted hq => (Query.isCompiled_ofRequest hsound hnamed (.inl rfl) hq).2 trusted htrusted,
    fun db now task => ?_⟩
  obtain ⟨added, hadded, hcalls⟩ := makes_perform hsound hnamed limits now task db []
  rw [List.nil_append] at hcalls
  exact fun call hcall => hadded call (by rw [← hcalls]; exact hcall)

/-- The shop's products with their categories: the calls of a page, and of a search that a trusted predicate
narrows. -/
theorem compiled_and_not_refused_shop :
    let s := Demo.Shop.productSchema
    let db := Demo.Shop.database Demo.Shop.stocked
    let g := inDatabase Demo.Shop.catalog s {}
    let request : Request :=
      { relations := some (.list ["category.parent"]), sort := [("category.name", .ascending)], page := some 1 }
    let trusted := Predicate.eq "name" (.text "Milk")
    Schema.IsSound Demo.Shop.catalog s ∧ (∀ r ∈ s.relations, r.name ≠ "") ∧
      trusted.check Demo.Shop.catalog .any s = .ok () ∧
      (∃ q, Query.ofRequest Demo.Shop.catalog s {} request = .ok q ∧ q.IsCompiled Demo.Shop.catalog s ∧
        Query.IsCompiled Demo.Shop.catalog s { q with predicate := trusted.and q.predicate }) ∧
      (g.calls (.ofEpoch 0 0) db (.list request)).map Exchange.writes = [false, false] ∧
      ∀ call ∈ g.calls (.ofEpoch 0 0) db (.list request), call.IsRun := by
  intro s db g request trusted
  have hsound := Demo.Shop.isSound .product
  have hnamed : ∀ r ∈ s.relations, r.name ≠ "" := by decide
  have htrusted : trusted.check Demo.Shop.catalog .any s = .ok () := by cbv
  have hanswer : (Query.ofRequest Demo.Shop.catalog s {} request).isOk = true := by decide +kernel
  have hwrites : (g.calls (.ofEpoch 0 0) db (.list request)).map Exchange.writes = [false, false] := by
    decide +kernel
  obtain ⟨hcompiled, hboth, hcalls⟩ := compiled_and_not_refused hsound hnamed {}
  refine ⟨hsound, hnamed, htrusted, ?_, hwrites, fun call hcall => hcalls db _ _ call hcall ?_⟩
  · cases hq : Query.ofRequest Demo.Shop.catalog s {} request with
    | error e => simp [hq, Except.isOk, Except.toBool] at hanswer
    | ok q => exact ⟨q, rfl, hcompiled request none q (.inl rfl) hq, hboth trusted request q htrusted hq⟩
  · have hwritten := List.mem_map_of_mem (f := Exchange.writes) hcall
    rw [hwrites] at hwritten
    simpa using hwritten

/-- A path that begins with an empty name is accepted, and looked for among the relations of the root, where it
is not. -/
theorem refused_of_empty_name :
    let s := { Demo.Desk.catalog .ticket with relations := [⟨"", .note, .belongsTo "id"⟩] }
    let db := Demo.Desk.withPassword .null
    Schema.IsSound Demo.Desk.catalog s ∧
      ∃ q, Query.ofRequest Demo.Desk.catalog s {} { relations := some (.list [".x"]) } = .ok q ∧
        ¬ q.IsCompiled Demo.Desk.catalog s ∧
        db.find Demo.Desk.catalog s q false = .error (.invalidQuery (.unknownRelation ".x")) := by
  intro s db
  have hsound : Schema.IsSound Demo.Desk.catalog s := by
    rintro other (rfl | ⟨i, rfl⟩)
    · decide
    · cases i <;> decide
  have hanswer : (match Query.ofRequest Demo.Desk.catalog s {} { relations := some (.list [".x"]) } with
      | .ok q =>
        match db.find Demo.Desk.catalog s q false with
        | .ok _ => false
        | .error e => e == .invalidQuery (.unknownRelation ".x")
      | .error _ => false) = true := by
    decide +kernel
  refine ⟨hsound, ?_⟩
  split at hanswer
  · next q hq =>
    split at hanswer
    · cases hanswer
    · next e hfind =>
      obtain rfl := beq_iff_eq.1 hanswer
      exact ⟨q, hq, fun hcompiled => hcompiled.find db false _ hfind, hfind⟩
  · cases hanswer

end Gateway

end RecordQuery
