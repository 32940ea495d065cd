import RecordQuery.Gateway.Basic
/-!
# Stores that behave alike

A gateway is asked for one of six tasks (`Gateway.Task`). What it answers depends on what its store does, but
never on the error that a store fails with: over two stores that behave alike but for their errors
(`Store.Alike`) it gives the same answer (`Gateway.same_perform`).
-/

namespace RecordQuery

variable {ε α β σ τ ι : Type} {R : σ → τ → Prop} {a : σ} {b : τ} {message : String}

/-- What a step comes to in a state: its answer, and the state afterwards. -/
def runIn (state : σ) (x : ExceptT ε (StateM σ) α) : Except ε α × σ :=
  StateT.run (ExceptT.run x) state

/-- One step after the other: the second one is left out if the first one fails. -/
theorem runIn_bind (state : σ) (x : ExceptT ε (StateM σ) α) (f : α → ExceptT ε (StateM σ) β) :
    runIn state (x >>= f) = match runIn state x with
      | (.ok a, state) => runIn state (f a)
      | (.error e, state) => (.error e, state) := by
  simp only [runIn, ExceptT.run_bind, StateT.run_bind]
  obtain ⟨result, after⟩ := StateT.run (ExceptT.run x) state
  cases result <;> rfl

namespace Gateway

/-- What can be asked of a gateway. -/
inductive Task where
  | create (actor : Option Scalar) (data : Record)
  | update (actor : Option Scalar) (id : Scalar) (data : Record)
  | delete (actor : Option Scalar) (id : Scalar)
  | find (id : Scalar) (request : Request)
  | findBy (predicate : Predicate) (request : Request)
  | list (request : Request)

/-- What a task gives. -/
inductive Reply where
  | record (record : Record)
  | deleted (result : Deleted)
  | first (record : Option Record)
  | listing (listing : Listing)

/-- Does what is asked. -/
def perform (g : Gateway σ ι) (now : Instant) : Task → Step σ Reply
  | .create actor data => do return .record (← g.create now actor data)
  | .update actor id data => do return .record (← g.update now actor id data)
  | .delete actor id => do return .deleted (← g.delete now actor id)
  | .find id request => do return .record (← g.find id request)
  | .findBy predicate request => do return .first (← g.findBy predicate request)
  | .list request => do return .listing (← g.list request)

/-- The gateway to the same records in another store. -/
def withStore (g : Gateway σ ι) (store : Store τ ι) : Gateway τ ι where
  catalog := g.catalog
  schema := g.schema
  store := store
  limits := g.limits

/-- What is answered in a state. -/
def answer (g : Gateway σ ι) (now : Instant) (state : σ) (task : Task) : Except Error Reply :=
  (runIn state (g.perform now task)).1

end Gateway

/-! ## Steps of two stores -/

/-- From related states, both steps succeed with the same result or both fail, and the states afterwards are
related. -/
def Store.Step.Alike (R : σ → τ → Prop) (x : Store.Step σ α) (y : Store.Step τ α) : Prop :=
  ∀ a b, R a b → (runIn a x).1.toOption = (runIn b y).1.toOption ∧ R (runIn a x).2 (runIn b y).2

/-- Stores that differ at most in the errors that they fail with. -/
structure Store.Alike (R : σ → τ → Prop) (store : Store σ ι) (other : Store τ ι) : Prop where
  count : ∀ s q, Step.Alike R (store.count s q) (other.count s q)
  findOne : ∀ s q, Step.Alike R (store.findOne s q) (other.findOne s q)
  findMany : ∀ s q, Step.Alike R (store.findMany s q) (other.findMany s q)
  save : ∀ s record, Step.Alike R (store.save s record) (other.save s record)
  delete : ∀ s id, Step.Alike R (store.delete s id) (other.delete s id)

namespace Store.Step.Alike

variable {x : Store.Step σ α} {y : Store.Step τ α}

/-- Both steps succeed with one result, or both fail. -/
theorem cases_run (h : Alike R x y) (hab : R a b) :
    (∃ c a' b', runIn a x = (.ok c, a') ∧ runIn b y = (.ok c, b') ∧ R a' b') ∨
    ∃ e e' a' b', runIn a x = (.error e, a') ∧ runIn b y = (.error e', b') ∧ R a' b' := by
  obtain ⟨hresult, hafter⟩ := h a b hab
  rcases hx : runIn a x with ⟨e | c, a'⟩ <;> rcases hy : runIn b y with ⟨e' | c', b'⟩ <;>
    simp only [hx, hy, Except.toOption, reduceCtorEq, Option.some.injEq] at hresult hafter
  · exact .inr ⟨e, e', a', b', rfl, rfl, hafter⟩
  · exact .inl ⟨c, a', b', rfl, by rw [hresult], hafter⟩

theorem pure (c : α) : Alike R (Pure.pure c) (Pure.pure c) :=
  fun _ _ hab => ⟨rfl, hab⟩

theorem bind {f : α → Store.Step σ β} {f' : α → Store.Step τ β} (h : Alike R x y)
    (hf : ∀ c, Alike R (f c) (f' c)) : Alike R (x >>= f) (y >>= f') := by
  intro a b hab
  rw [runIn_bind, runIn_bind]
  rcases h.cases_run hab with ⟨c, a', b', hx, hy, hab'⟩ | ⟨e, e', a', b', hx, hy, hab'⟩
  · rw [hx, hy]
    exact hf c a' b' hab'
  · rw [hx, hy]
    exact ⟨rfl, hab'⟩

end Store.Step.Alike

/-- Counting and finding in one go is alike as well. -/
theorem Store.Alike.findManyAndCount {store : Store σ ι} {other : Store τ ι} (h : Alike R store other)
    (s : Schema ι) (q : Query) :
    Step.Alike R (store.findManyAndCount s q) (other.findManyAndCount s q) :=
  (h.count s q).bind fun _ => (h.findMany s q).bind fun _ => .pure _

/-- A step that fails with one error, whatever went wrong. -/
def Store.Step.failingWith (error : StoreError) (x : Store.Step σ α) : Store.Step σ α :=
  ExceptT.mk do return (← x.run).mapError fun _ => error

theorem Store.Step.alike_failingWith (error : StoreError) (x : Store.Step σ α) :
    Step.Alike Eq x (x.failingWith error) := by
  rintro state _ rfl
  have hrun : runIn state (x.failingWith error) = ((runIn state x).1.mapError fun _ => error, (runIn state x).2) := rfl
  rw [hrun]
  rcases runIn state x with ⟨e | c, after⟩ <;> exact ⟨rfl, rfl⟩

/-- The store that fails with one error, whatever went wrong. -/
def Store.failingWith (error : StoreError) (store : Store σ ι) : Store σ ι where
  count s q := (store.count s q).failingWith error
  findOne s q := (store.findOne s q).failingWith error
  findMany s q := (store.findMany s q).failingWith error
  save s record := (store.save s record).failingWith error
  delete s id := (store.delete s id).failingWith error

theorem Store.alike_failingWith (error : StoreError) (store : Store σ ι) :
    Alike Eq store (store.failingWith error) where
  count _ _ := Step.alike_failingWith error _
  findOne _ _ := Step.alike_failingWith error _
  findMany _ _ := Step.alike_failingWith error _
  save _ _ := Step.alike_failingWith error _
  delete _ _ := Step.alike_failingWith error _

/-! ## Steps of two gateways -/

namespace Gateway

/-- A step of the store, in the gateway's own words. -/
theorem runIn_stored (state : σ) (x : Store.Step σ α) : runIn state (stored message x) =
    ((runIn state x).1.mapError fun _ => .storeFailure message, (runIn state x).2) := rfl

/-- From related states, both steps give the same answer, and the states afterwards are related. -/
def Same (R : σ → τ → Prop) (x : Step σ α) (y : Step τ α) : Prop :=
  ∀ a b, R a b → (runIn a x).1 = (runIn b y).1 ∧ R (runIn a x).2 (runIn b y).2

namespace Same

theorem pure (c : α) : Same R (Pure.pure c) (Pure.pure c) :=
  fun _ _ hab => ⟨rfl, hab⟩

theorem throw (e : Error) : Same R (throw e : Step σ α) (throw e : Step τ α) :=
  fun _ _ hab => ⟨rfl, hab⟩

theorem accept (result : Checked α) : Same R (accept result) (accept result) :=
  fun _ _ hab => ⟨rfl, hab⟩

theorem bind {x : Step σ α} {y : Step τ α} {f : α → Step σ β} {f' : α → Step τ β} (h : Same R x y)
    (hf : ∀ c, Same R (f c) (f' c)) : Same R (x >>= f) (y >>= f') := by
  intro a b hab
  obtain ⟨hanswer, hafter⟩ := h a b hab
  rw [runIn_bind, runIn_bind]
  rcases hx : runIn a x with ⟨result, a'⟩
  rcases hy : runIn b y with ⟨result', b'⟩
  rw [hx, hy] at hanswer hafter
  obtain rfl : result = result' := hanswer
  cases result with
  | error e => exact ⟨rfl, hafter⟩
  | ok c => exact hf c a' b' hafter

/-- The gateway's own words leave nothing of the store's error. -/
theorem stored {x : Store.Step σ α} {y : Store.Step τ α} (h : Store.Step.Alike R x y) :
    Same R (stored message x) (stored message y) := by
  intro a b hab
  rw [runIn_stored, runIn_stored]
  rcases h.cases_run hab with ⟨c, a', b', hx, hy, hab'⟩ | ⟨e, e', a', b', hx, hy, hab'⟩ <;> rw [hx, hy] <;>
    exact ⟨rfl, hab'⟩

end Same

section

variable {g : Gateway σ ι} {other : Store τ ι} (h : Store.Alike R g.store other)

include h

theorem same_first (q : Query) : Same R (g.first message q) ((g.withStore other).first message q) :=
  (Same.stored (h.findOne _ q)).bind fun _ => .pure _

theorem same_existing (id : Scalar) : Same R (g.existing message id) ((g.withStore other).existing message id) :=
  (same_first h _).bind fun found => match found with
    | some _ => .pure _
    | none => .throw _

theorem same_save (record : Record) : Same R (g.save message record) ((g.withStore other).save message record) :=
  (Same.stored (h.save _ record)).bind fun _ => .pure _

theorem same_create (now : Instant) (actor : Option Scalar) (data : Record) :
    Same R (g.create now actor data) ((g.withStore other).create now actor data) :=
  (Same.accept _).bind fun _ => (Same.accept _).bind fun _ => same_save h _

theorem same_update (now : Instant) (actor : Option Scalar) (id : Scalar) (data : Record) :
    Same R (g.update now actor id data) ((g.withStore other).update now actor id data) :=
  (Same.accept _).bind fun _ => (same_existing h id).bind fun _ => same_save h _

theorem same_delete (now : Instant) (actor : Option Scalar) (id : Scalar) :
    Same R (g.delete now actor id) ((g.withStore other).delete now actor id) := by
  refine (same_existing h id).bind fun record => ?_
  simp only [withStore]
  cases g.schema.deletionMark? with
  | some column => exact (same_save h _).bind fun _ => .pure _
  | none => exact (Same.stored (h.delete _ id)).bind fun _ => .pure _

theorem same_find (id : Scalar) (request : Request) :
    Same R (g.find id request) ((g.withStore other).find id request) :=
  (Same.accept _).bind fun q => (same_first h q).bind fun found => match found with
    | some _ => .pure _
    | none => .throw _

theorem same_findBy (predicate : Predicate) (request : Request) :
    Same R (g.findBy predicate request) ((g.withStore other).findBy predicate request) :=
  (Same.accept _).bind fun _ => (Same.accept _).bind fun _ => same_first h _

theorem same_list (request : Request) : Same R (g.list request) ((g.withStore other).list request) := by
  refine (Same.accept _).bind fun q => ?_
  cases q.page with
  | some page => exact (Same.stored (h.findManyAndCount _ q)).bind fun _ => .pure _
  | none => exact (Same.stored (h.findMany _ q)).bind fun _ => .pure _

/-- Over stores that behave alike, each task is answered alike. -/
theorem same_perform (now : Instant) (task : Task) :
    Same R (g.perform now task) ((g.withStore other).perform now task) := by
  cases task with
  | create actor data => exact (same_create h now actor data).bind fun _ => .pure _
  | update actor id data => exact (same_update h now actor id data).bind fun _ => .pure _
  | delete actor id => exact (same_delete h now actor id).bind fun _ => .pure _
  | find id request => exact (same_find h id request).bind fun _ => .pure _
  | findBy predicate request => exact (same_findBy h predicate request).bind fun _ => .pure _
  | list request => exact (same_list h request).bind fun _ => .pure _

end

end Gateway

end RecordQuery
