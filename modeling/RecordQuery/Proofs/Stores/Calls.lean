import RecordQuery.Demo.Shop
import RecordQuery.Proofs.Stores.Alike
import RecordQuery.Store.Scripted
/-!
# What a gateway asks of its store

A store can note its calls with its answers (`Store.noting`), which changes nothing of what it does
(`Store.alike_noting`). Whatever the store does, each task of a gateway takes one of four courses (`Course`):
a malformed request is refused before any call, a missing record is one search that found nothing, a failure
is the failure of the last call, and a success ends with a call that may be the only one that writes
(`Gateway.does_perform`).
-/

namespace RecordQuery

variable {ε α β σ τ ι : Type} {message : String}

/-- A call of a store with its answer. -/
inductive Exchange where
  | count (query : Query) (answer : Except StoreError Int64)
  | findOne (query : Query) (answer : Except StoreError (Option Record))
  | findMany (query : Query) (answer : Except StoreError (List Record))
  | save (record : Record) (answer : Except StoreError Record)
  | delete (id : Scalar) (answer : Except StoreError Nat)

namespace Exchange

/-- Whether something may have been written. -/
def writes : Exchange → Bool
  | count _ _ => false
  | findOne _ _ => false
  | findMany _ _ => false
  | save _ _ => true
  | delete _ _ => true

/-- Whether the store answered with an error. -/
def failed : Exchange → Bool
  | count _ answer => !answer.isOk
  | findOne _ answer => !answer.isOk
  | findMany _ answer => !answer.isOk
  | save _ answer => !answer.isOk
  | delete _ answer => !answer.isOk

/-- A call that read something and went well. -/
def IsRead (call : Exchange) : Prop :=
  call.writes = false ∧ call.failed = false

end Exchange

namespace Store

/-- Runs a step and notes the call with its answer. -/
def note (entry : Except StoreError α → Exchange) (step : Step σ α) : Step (σ × List Exchange) α :=
  ExceptT.mk fun (state, calls) =>
    let (answer, state) := runIn state step
    (answer, state, calls ++ [entry answer])

/-- The store that notes its calls. -/
def noting (store : Store σ ι) : Store (σ × List Exchange) ι where
  count s q := note (.count q) (store.count s q)
  findOne s q := note (.findOne q) (store.findOne s q)
  findMany s q := note (.findMany q) (store.findMany s q)
  save s record := note (.save record) (store.save s record)
  delete s id := note (.delete id) (store.delete s id)

theorem Step.alike_note (entry : Except StoreError α → Exchange) (step : Step σ α) :
    Step.Alike (fun noted state => noted.1 = state) (note entry step) step := by
  rintro ⟨state, calls⟩ _ rfl
  exact ⟨rfl, rfl⟩

/-- Noting the calls changes nothing. -/
theorem alike_noting (store : Store σ ι) : Alike (fun noted state => noted.1 = state) store.noting store where
  count _ _ := Step.alike_note _ _
  findOne _ _ := Step.alike_note _ _
  findMany _ _ := Step.alike_note _ _
  save _ _ := Step.alike_note _ _
  delete _ _ := Step.alike_note _ _

end Store

namespace Gateway

/-- The calls of the store while it does what is asked. -/
def calls (g : Gateway σ ι) (now : Instant) (state : σ) (task : Task) : List Exchange :=
  (runIn (state, []) ((g.withStore g.store.noting).perform now task)).2.2

/-- A gateway answers the same if the calls are noted. -/
theorem answer_noting (g : Gateway σ ι) (now : Instant) (state : σ) (calls : List Exchange) (task : Task) :
    (g.withStore g.store.noting).answer now (state, calls) task = g.answer now state task :=
  ((same_perform (g := g.withStore g.store.noting) g.store.alike_noting now task) (state, calls) state rfl).1

/-! ## Courses -/

/-- What an answer and the calls for it look like. -/
inductive Course : Except Error α → List Exchange → Prop where
  /-- What is malformed is refused before the store is asked for anything. -/
  | malformed (cause : Malformed) : Course (.error (.malformed cause)) []
  /-- The record of a key was looked for, and was not there. -/
  | missing (entity id : String) (q : Query) : Course (.error (.notFound entity id)) [.findOne q (.ok none)]
  /-- The last call failed. -/
  | failed (message : String) {reads : List Exchange} {last : Exchange} (hreads : ∀ call ∈ reads, call.IsRead)
      (hlast : last.failed = true) : Course (.error (.storeFailure message)) (reads ++ [last])
  /-- All calls went well, and only the last one may have written. -/
  | done (a : α) {reads : List Exchange} {last : Exchange} (hreads : ∀ call ∈ reads, call.IsRead)
      (hlast : last.failed = false) : Course (.ok a) (reads ++ [last])

/-- A last call that decides the answer. -/
inductive Ending : Except Error α → List Exchange → Prop where
  | failed (message : String) {last : Exchange} (hlast : last.failed = true) :
      Ending (.error (.storeFailure message)) [last]
  | done (a : α) {last : Exchange} (hlast : last.failed = false) : Ending (.ok a) [last]

/-- What went well before a last call may go before it. -/
theorem Ending.course {answer : Except Error α} {calls : List Exchange} (h : Ending answer calls)
    (reads : List Exchange) (hreads : ∀ call ∈ reads, call.IsRead) : Course answer (reads ++ calls) := by
  cases h with
  | failed message hlast => exact .failed message hreads hlast
  | done a hlast => exact .done a hreads hlast

/-- The answer of a step and the calls that it adds are as described, wherever it starts. -/
def Does (P : Except ε α → List Exchange → Prop) (x : ExceptT ε (StateM (σ × List Exchange)) α) : Prop :=
  ∀ state calls, ∃ added, P (runIn (state, calls) x).1 added ∧ (runIn (state, calls) x).2.2 = calls ++ added

namespace Does

variable {P : Except ε α → List Exchange → Prop} {P' Q : Except ε β → List Exchange → Prop}
  {x : ExceptT ε (StateM (σ × List Exchange)) α}

theorem mono {P' : Except ε α → List Exchange → Prop} (h : Does P x) (hP : ∀ r calls, P r calls → P' r calls) :
    Does P' x := fun state calls =>
  let ⟨added, hadded, hafter⟩ := h state calls
  ⟨added, hP _ _ hadded, hafter⟩

/-- One step after the other: its calls come after those of the first one. -/
theorem bind {f : α → ExceptT ε (StateM (σ × List Exchange)) β} (h : Does P x)
    (herror : ∀ e calls, P (.error e) calls → Q (.error e) calls)
    (hf : ∀ a calls, P (.ok a) calls → Does (fun r more => Q r (calls ++ more)) (f a)) : Does Q (x >>= f) := by
  intro state calls
  obtain ⟨added, hadded, hafter⟩ := h state calls
  rw [runIn_bind]
  rcases hx : runIn (state, calls) x with ⟨e | a, state', calls'⟩
  · rw [hx] at hadded hafter
    exact ⟨added, herror e added hadded, hafter⟩
  · rw [hx] at hadded hafter
    obtain ⟨more, hmore, hafter'⟩ := hf a added hadded state' calls'
    obtain rfl : calls' = calls ++ added := hafter
    exact ⟨added ++ more, hmore, by rw [hafter', List.append_assoc]⟩

theorem pure {a : α} (h : P (.ok a) []) : Does P (Pure.pure a : ExceptT ε (StateM (σ × List Exchange)) α) :=
  fun _ _ => ⟨[], h, (List.append_nil _).symm⟩

theorem throw {e : ε} (h : P (.error e) []) : Does P (throw e : ExceptT ε (StateM (σ × List Exchange)) α) :=
  fun _ _ => ⟨[], h, (List.append_nil _).symm⟩

/-- What is accepted makes no call, and what is refused ends the course. -/
theorem accept {f : α → Step (σ × List Exchange) β} (result : Checked α) (hf : ∀ a, Does Course (f a)) :
    Does Course (accept result >>= f) := by
  cases result with
  | error cause => exact Does.throw (.malformed cause)
  | ok a => exact hf a

/-- A call of the store, with its answer. -/
theorem note (entry : Except StoreError α → Exchange) (step : Store.Step σ α) :
    Does (fun r calls => calls = [entry r]) (Store.note entry step) :=
  fun _ _ => ⟨_, rfl, rfl⟩

/-- A step of the store, told in the gateway's words. -/
theorem stored {P : Except StoreError α → List Exchange → Prop} {x : Store.Step (σ × List Exchange) α}
    (h : Does P x) : Does (fun r calls => ∃ answer, P answer calls ∧
      r = answer.mapError fun _ => .storeFailure message) (stored message x) :=
  fun state calls =>
    let ⟨added, hadded, hafter⟩ := h state calls
    ⟨added, ⟨_, hadded, rfl⟩, hafter⟩

/-- What gives a result of its own ends the course as well. -/
theorem ending_map {x : Step (σ × List Exchange) α} (h : Does Ending x) (f : α → β) :
    Does Ending (do return f (← x) : Step (σ × List Exchange) β) := by
  refine h.bind ?_ ?_
  · intro e calls he
    cases he with
    | failed message hlast => exact .failed message hlast
  · intro a calls ha
    cases ha with
    | done _ hlast => exact .pure (.done _ hlast)

/-- A call that tells whether it failed ends the course. -/
theorem ending {entry : Except StoreError α → Exchange} (hentry : ∀ answer, (entry answer).failed = !answer.isOk)
    (step : Store.Step σ α) : Does Ending (Gateway.stored message (Store.note entry step)) := by
  refine (stored (note entry step)).mono ?_
  rintro r calls ⟨error | a, rfl, rfl⟩
  · exact .failed message (hentry _)
  · exact .done a (hentry _)

/-- What gives a result of its own keeps the course. -/
theorem map {x : Step (σ × List Exchange) α} (h : Does Course x) (f : α → β) :
    Does Course (do return f (← x) : Step (σ × List Exchange) β) := by
  refine h.bind ?_ ?_
  · intro e calls he
    cases he with
    | malformed cause => exact .malformed cause
    | missing entity id q => exact .missing entity id q
    | failed message hreads hlast => exact .failed message hreads hlast
  · intro a calls ha
    refine .pure ?_
    rw [List.append_nil]
    cases ha with
    | done _ hreads hlast => exact .done _ hreads hlast

end Does

theorem Does.course {x : Step (σ × List Exchange) α} (h : Does Ending x) : Does Course x :=
  h.mono fun _ _ hending => hending.course [] fun _ hcall => absurd hcall List.not_mem_nil

/-! ## Operations -/

section

variable (g : Gateway σ ι) (now : Instant) (actor : Option Scalar) (id : Scalar) (request : Request)

/-- Looking for the first record. -/
theorem does_first (q : Query) :
    Does (fun r calls => ∃ answer, calls = [.findOne q answer] ∧
        r = (answer.map (Option.map g.shown)).mapError fun _ => .storeFailure message)
      ((g.withStore g.store.noting).first message q) := by
  refine (Does.stored (.note (.findOne q) (g.store.findOne g.schema q))).bind ?_ ?_
  · rintro e calls ⟨error | a, rfl, he⟩
    · exact ⟨.error error, rfl, he⟩
    · cases he
  · rintro a calls ⟨error | a', rfl, ha⟩
    · cases ha
    · obtain rfl := Except.ok.inj ha
      exact .pure ⟨.ok a, rfl, rfl⟩

/-- The search for a record ends the course. -/
theorem does_first_ending (q : Query) : Does Ending ((g.withStore g.store.noting).first message q) :=
  (Does.ending (fun _ => rfl) _).ending_map _

/-- A record that is looked for by its key, and something that is done with it. -/
theorem does_first_then (entity display : String) {f : Option Record → Step (σ × List Exchange) α} {q : Query}
    (hnone : f none = throw (.notFound entity display))
    (hsome : ∀ record, Does (fun r more => ∀ read, read.IsRead → Course r (read :: more)) (f (some record))) :
    Does Course ((g.withStore g.store.noting).first message q >>= f) := by
  refine (does_first g q).bind ?_ ?_
  · rintro e calls ⟨error | found, rfl, he⟩
    · obtain rfl := Except.error.inj he
      exact (Ending.failed message rfl).course [] (by simp)
    · cases he
  · rintro found calls ⟨error | answer, rfl, hfound⟩
    · cases hfound
    · obtain rfl := Except.ok.inj hfound
      cases answer with
      | none =>
        rw [Option.map_none, hnone]
        exact .throw (.missing entity display q)
      | some record => exact (hsome _).mono fun r more h => h _ ⟨rfl, rfl⟩

/-- The record of a key, and a last call for it. -/
theorem does_existing_then {f : Record → Step (σ × List Exchange) α} (hf : ∀ record, Does Ending (f record)) :
    Does Course ((g.withStore g.store.noting).existing message id >>= f) := by
  rw [existing, bind_assoc]
  refine does_first_then g g.schema.name id.display rfl fun record => ?_
  exact (hf record).mono fun _ _ hending read hread => hending.course [read] (by simpa using hread)

theorem does_save (record : Record) : Does Ending ((g.withStore g.store.noting).save message record) :=
  (Does.ending (fun _ => rfl) _).ending_map _

theorem does_create (data : Record) : Does Course ((g.withStore g.store.noting).create now actor data) :=
  .accept _ fun _ => .accept _ fun _ => (does_save g _).course

theorem does_update (data : Record) : Does Course ((g.withStore g.store.noting).update now actor id data) :=
  .accept _ fun _ => does_existing_then g id fun _ => does_save g _

theorem does_delete : Does Course ((g.withStore g.store.noting).delete now actor id) := by
  refine does_existing_then g id fun record => ?_
  simp only [withStore]
  cases g.schema.deletionMark? with
  | some column => exact (does_save g _).ending_map _
  | none => exact (Does.ending (fun _ => rfl) _).ending_map _

theorem does_find : Does Course ((g.withStore g.store.noting).find id request) :=
  .accept _ fun q => does_first_then g g.schema.name id.display rfl fun record =>
    .pure fun read hread => (Ending.done _ hread.2).course [] (by simp)

theorem does_findBy (predicate : Predicate) : Does Course ((g.withStore g.store.noting).findBy predicate request) :=
  .accept _ fun _ => .accept _ fun _ => (does_first_ending g _).course

/-- Counting and finding in one go: the second call is left out if the first one fails. -/
theorem does_findManyAndCount (store : Store σ ι) (s : Schema ι) (q : Query) :
    Does (fun r calls => (∃ error, r = .error error ∧ calls = [.count q (.error error)]) ∨
        ∃ total answer, r = answer.map (·, total) ∧ calls = [.count q (.ok total), .findMany q answer])
      (store.noting.findManyAndCount s q) := by
  refine (Does.note (.count q) (store.count s q)).bind (fun e _ hcalls => .inl ⟨e, rfl, hcalls⟩) ?_
  rintro total _ rfl
  refine (Does.note (.findMany q) (store.findMany s q)).bind ?_ ?_
  · rintro e _ rfl
    exact .inr ⟨total, .error e, rfl, rfl⟩
  · rintro records _ rfl
    exact .pure (.inr ⟨total, .ok records, rfl, rfl⟩)

/-- A page takes the course of two calls. -/
theorem does_page (q : Query) :
    Does Course (stored message ((g.withStore g.store.noting).store.findManyAndCount g.schema q)) := by
  refine (Does.stored (does_findManyAndCount g.store g.schema q)).mono ?_
  rintro r calls ⟨answer, ⟨error, rfl, rfl⟩ | ⟨total, answer, rfl, rfl⟩, rfl⟩
  · exact (Ending.failed message rfl).course [] (by simp)
  · have hcount : ∀ call ∈ [Exchange.count q (.ok total)], call.IsRead := by
      simp [Exchange.IsRead, Exchange.writes, Exchange.failed, Except.isOk, Except.toBool]
    cases answer with
    | error error => exact .failed message hcount rfl
    | ok records => exact .done _ hcount rfl

theorem does_list : Does Course ((g.withStore g.store.noting).list request) := by
  refine .accept _ fun q => ?_
  cases q.page with
  | some page => exact (does_page g q).map _
  | none => exact ((Does.ending (fun _ => rfl) _).ending_map _).course

/-- Each task takes one of the four courses, whatever the store does. -/
theorem does_perform (task : Task) : Does Course ((g.withStore g.store.noting).perform now task) := by
  cases task with
  | create actor data => exact (does_create g now actor data).map _
  | update actor id data => exact (does_update g now actor id data).map _
  | delete actor id => exact (does_delete g now actor id).map _
  | find id request => exact (does_find g id request).map _
  | findBy predicate request => exact (does_findBy g request predicate).map _
  | list request => exact (does_list g request).map _

end

/-- What is answered and the calls for it look like one of the four courses. -/
theorem course_answer (g : Gateway σ ι) (now : Instant) (state : σ) (task : Task) :
    Course (g.answer now state task) (g.calls now state task) := by
  obtain ⟨added, hcourse, hcalls⟩ := does_perform g now task state []
  rw [← g.answer_noting now state [] task, calls, hcalls]
  exact hcourse

/-- Failures never write and never leak, whatever the store does: only the last call may have written or failed;
what is malformed made no call; a record is missing because one search found nothing; a failure is reported if
and only if the last call failed; and the report is the same whatever error it failed with. -/
theorem failures_of_answer (g : Gateway σ ι) (now : Instant) (state : σ) (task : Task) :
    (∀ call ∈ (g.calls now state task).dropLast, call.writes = false ∧ call.failed = false) ∧
    (∀ cause, g.answer now state task = .error (.malformed cause) → g.calls now state task = []) ∧
    (∀ entity id, g.answer now state task = .error (.notFound entity id) →
      ∃ q, g.calls now state task = [.findOne q (.ok none)]) ∧
    ((∃ message, g.answer now state task = .error (.storeFailure message)) ↔
      ∃ last ∈ (g.calls now state task).getLast?, last.failed = true) ∧
    ∀ {τ : Type} (R : σ → τ → Prop) (other : Store τ ι) (state' : τ), Store.Alike R g.store other →
      R state state' → (g.withStore other).answer now state' task = g.answer now state task := by
  refine ⟨?_, ?_, ?_, ?_, fun R other state' h hR => (same_perform h now task state state' hR).1.symm⟩
  all_goals
    have hcourse := course_answer g now state task
    generalize g.answer now state task = answer at hcourse ⊢
    generalize g.calls now state task = calls at hcourse ⊢
  · cases hcourse with
    | malformed cause => simp
    | missing entity id q => simp
    | failed message hreads hlast => rwa [List.dropLast_concat]
    | done a hreads hlast => rwa [List.dropLast_concat]
  · rintro cause rfl
    cases hcourse
    rfl
  · rintro entity id rfl
    cases hcourse with
    | missing _ _ q => exact ⟨q, rfl⟩
  · cases hcourse with
    | malformed cause => simp
    | missing entity id q => simp [Exchange.failed, Except.isOk, Except.toBool]
    | failed message hreads hlast => simpa using hlast
    | done a hreads hlast => simpa using hlast

/-- A shop whose rows cannot be found: a page is counted, and then the failure is told in the gateway's words, the
same over a store that fails with another error. A payload with an unknown field asks nothing of the store, and a
category that is not there is looked for once. -/
theorem failures_of_answer_shop :
    let g : Gateway (List Call) Demo.Shop :=
      { catalog := Demo.Shop.catalog, schema := Demo.Shop.categorySchema,
        store := ({ failing := [.findMany] } : Script).store }
    let other := g.store.failingWith (.database (.noTable "categories"))
    let now := Instant.ofEpoch 0 0
    let page := Task.list { page := some 1 }
    let create := Task.create none [("color", .string "white")]
    let find := Task.find (.int 1) {}
    ((∃ last ∈ (g.calls now [] page).getLast?, last.failed = true) ∧
        (g.calls now [] page).dropLast.map Exchange.writes = [false] ∧ Store.Alike Eq g.store other ∧
        (g.withStore other).answer now [] page = .error (.storeFailure "Failed to load records")) ∧
      ((∃ cause, g.answer now [] create = .error (.malformed cause)) ∧ g.calls now [] create = []) ∧
      g.answer now [] find = .error (.notFound "Category" "1") ∧
        ∃ q, g.calls now [] find = [.findOne q (.ok none)] := by
  intro g other now page create find
  have hpage : g.answer now [] page = .error (.storeFailure "Failed to load records") := rfl
  have hcreate : g.answer now [] create = .error (.malformed (.unknownPayloadField "color" "Category")) := rfl
  have hfind : g.answer now [] find = .error (.notFound "Category" "1") := rfl
  have hother : Store.Alike Eq g.store other := g.store.alike_failingWith _
  obtain ⟨-, -, -, hfailed, hsame⟩ := failures_of_answer g now [] page
  have hcalls : g.calls now [] create = [] := (failures_of_answer g now [] create).2.1 _ hcreate
  have hfound : ∃ q, g.calls now [] find = [.findOne q (.ok none)] :=
    (failures_of_answer g now [] find).2.2.1 _ _ hfind
  exact ⟨⟨hfailed.1 ⟨_, hpage⟩, rfl, hother, (hsame Eq other [] hother rfl).trans hpage⟩, ⟨⟨_, hcreate⟩, hcalls⟩,
    hfind, hfound⟩

end Gateway

end RecordQuery
