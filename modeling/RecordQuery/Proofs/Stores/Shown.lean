import Mathlib.Data.List.Forall2
import RecordQuery.Proofs.Stores.Calls
/-!
# What is shown of what a store gives

A place in a record is a way down through the records attached in it (`recordAt?`), and the names on the way
lead from a schema to others (`schemasAt`), round and round if the relations do. What is shown of a record has
no field that is hidden where it stands, all the others as they were given, and nothing left to conceal
(`Conceals`).

* `exists_recordAt?_members`, `recordAt?_members`: what concealing a record leaves at a place is what concealing
  the record at the place leaves;
* `conceals_record`: concealing a record leaves what may be shown of it;
* `conceals_of_answer`: each answer of a gateway shows the records of its store's last answer so, whatever the
  store gives.
-/

namespace RecordQuery

variable {σ ι : Type} {catalog : Catalog ι} {schemas : List (Schema ι)} {s : Schema ι}

/-! ## Places in a record -/

/-- The record that a value is, if it is an object. -/
def Json.record? : Json → Option Record
  | .object ms => some ms
  | _ => none

/-- The records in a value: an object, or the objects in an array. -/
def Json.records : Json → List Record
  | .object ms => [ms]
  | .array xs => xs.filterMap Json.record?
  | _ => []

/-- The records that are attached to a record under a name. -/
def attachedTo (r : Record) (name : String) : List Record :=
  r.flatMap fun m => if m.1 = name then m.2.records else []

/-- The record at a place in a record. Each step goes to one of those attached under a name. -/
def recordAt? : Record → List (String × Nat) → Option Record
  | r, [] => some r
  | r, (name, i) :: place => (attachedTo r name)[i]?.bind (recordAt? · place)

/-- The names on the way to a place. -/
def namesTo (place : List (String × Nat)) : List String := place.map Prod.fst

/-- The schemas that names lead to, along every relation of each name. -/
def schemasAt (catalog : Catalog ι) : List (Schema ι) → List String → List (Schema ι)
  | schemas, [] => schemas
  | schemas, name :: names =>
    schemasAt catalog (schemas.flatMap fun s =>
      (s.relations.filter (·.name == name)).map fun r => catalog r.target) names

/-- Whether a field is hidden behind names. -/
def isHiddenAt (catalog : Catalog ι) (schemas : List (Schema ι)) (names : List String) (field : String) : Bool :=
  (schemasAt catalog schemas names).any (·.isHidden field)

/-- Whether a field is a relation behind names. -/
def isRelationAt (catalog : Catalog ι) (schemas : List (Schema ι)) (names : List String) (field : String) : Bool :=
  (schemasAt catalog schemas names).any fun s => s.relations.any (·.name == field)

/-- No name on the way is hidden where it stands. -/
def IsOpenTo (catalog : Catalog ι) (schemas : List (Schema ι)) (names : List String) : Prop :=
  ∀ before name after, names = before ++ name :: after → isHiddenAt catalog schemas before name = false

/-- A value without its members, if it is an object. -/
def Json.emptied : Json → Json
  | .object _ => .object []
  | json => json

/-- A value without the members of the records in it. -/
def Json.outline : Json → Json
  | .array xs => .array (xs.map Json.emptied)
  | json => json.emptied

/-- The fields that a record has itself behind names, with all of their values but what is in the records
attached to it. -/
def ownFields (catalog : Catalog ι) (schemas : List (Schema ι)) (names : List String) (r : Record) : Record :=
  r.map fun m => (m.1, if isRelationAt catalog schemas names m.1 then m.2.outline else m.2)

/-- What is shown of a record of a schema is what may be shown of it. -/
structure Conceals (catalog : Catalog ι) (s : Schema ι) (given shown : Record) : Prop where
  /-- Nothing hidden is there, at no place. -/
  hides : ∀ place r, recordAt? shown place = some r → ∀ m ∈ r, isHiddenAt catalog [s] (namesTo place) m.1 = false
  /-- Everything else is there as it was given, at every place. -/
  keeps : ∀ place r, recordAt? given place = some r → IsOpenTo catalog [s] (namesTo place) →
    ∃ r', recordAt? shown place = some r' ∧ ownFields catalog [s] (namesTo place) r' =
      ownFields catalog [s] (namesTo place) (r.filter fun m => !isHiddenAt catalog [s] (namesTo place) m.1)
  /-- Nothing is left to conceal. -/
  again : Concealment.record catalog s shown = shown

namespace Concealment

/-! ## One level -/

/-- The members that are left, with nothing hidden in what is attached. -/
theorem members_eq_map (schemas : List (Schema ι)) (r : Record) : members catalog schemas r =
    (r.filter fun m => !schemas.any (·.isHidden m.1)).map fun m =>
      (m.1, value catalog (attached catalog schemas m.1) m.2) := by
  induction r with
  | nil => rw [members]; rfl
  | cons m r ih =>
    rw [members]
    cases h : schemas.any (·.isHidden m.1) <;> simp [h, ih]

/-- An item of an array, of which only an object is a record. -/
def item (catalog : Catalog ι) (schemas : List (Schema ι)) : Json → Json
  | .object ms => .object (members catalog schemas ms)
  | x => x

theorem items_eq_map (schemas : List (Schema ι)) (xs : List Json) :
    items catalog schemas xs = xs.map (item catalog schemas) := by
  induction xs with
  | nil => rw [items]; rfl
  | cons x xs ih => cases x <;> simp [items, item, ih]

/-- The records in a value are concealed one by one. -/
theorem records_value (schemas : List (Schema ι)) (json : Json) :
    (value catalog schemas json).records = json.records.map (members catalog schemas) := by
  cases json with
  | object ms => rw [value]; rfl
  | array xs =>
    rw [value, items_eq_map, Json.records, Json.records, List.filterMap_map, List.map_filterMap]
    congr 1
    funext x
    cases x <;> rfl
  | _ => simp [value, Json.records]

/-- Nothing but the records in a value is touched. -/
theorem outline_value (schemas : List (Schema ι)) (json : Json) :
    (value catalog schemas json).outline = json.outline := by
  cases json with
  | object ms => rw [value]; rfl
  | array xs =>
    rw [value, items_eq_map, Json.outline, Json.outline, List.map_map]
    congr 2
    funext x
    cases x <;> rfl
  | _ => simp [value]

mutual

/-- Nothing is taken where no schema is known. -/
theorem members_nil : ∀ r : Record, members catalog ([] : List (Schema ι)) r = r
  | [] => by rw [members]
  | (name, json) :: r => by
    rw [members, List.any_nil, if_neg (by decide), attached, List.flatMap_nil, value_nil json, members_nil r]

theorem value_nil : ∀ json : Json, value catalog ([] : List (Schema ι)) json = json
  | .object ms => by rw [value, members_nil ms]
  | .array xs => by rw [value, items_nil xs]
  | .null => by simp [value]
  | .bool _ => by simp [value]
  | .number _ => by simp [value]
  | .string _ => by simp [value]

theorem items_nil : ∀ xs : List Json, items catalog ([] : List (Schema ι)) xs = xs
  | [] => by rw [items]
  | .object ms :: xs => by rw [items, members_nil ms, items_nil xs]
  | .array _ :: xs => by simp [items, items_nil xs]
  | .null :: xs => by simp [items, items_nil xs]
  | .bool _ :: xs => by simp [items, items_nil xs]
  | .number _ :: xs => by simp [items, items_nil xs]
  | .string _ :: xs => by simp [items, items_nil xs]

end

mutual

/-- What is left has nothing to conceal. -/
theorem members_members : ∀ (schemas : List (Schema ι)) (r : Record),
    members catalog schemas (members catalog schemas r) = members catalog schemas r
  | _, [] => by simp [members]
  | schemas, (name, json) :: r => by
    cases h : schemas.any (·.isHidden name) with
    | true =>
      rw [members, if_pos h]
      exact members_members schemas r
    | false =>
      have hn : ¬schemas.any (·.isHidden name) = true := by simp [h]
      rw [members, if_neg hn, members, if_neg hn, value_value _ json, members_members schemas r]

theorem value_value : ∀ (schemas : List (Schema ι)) (json : Json),
    value catalog schemas (value catalog schemas json) = value catalog schemas json
  | schemas, .object ms => by rw [value, value, members_members schemas ms]
  | schemas, .array xs => by rw [value, value, items_items schemas xs]
  | _, .null => by simp [value]
  | _, .bool _ => by simp [value]
  | _, .number _ => by simp [value]
  | _, .string _ => by simp [value]

theorem items_items : ∀ (schemas : List (Schema ι)) (xs : List Json),
    items catalog schemas (items catalog schemas xs) = items catalog schemas xs
  | _, [] => by simp [items]
  | schemas, .object ms :: xs => by rw [items, items, members_members schemas ms, items_items schemas xs]
  | schemas, .array _ :: xs => by simp [items, items_items schemas xs]
  | schemas, .null :: xs => by simp [items, items_items schemas xs]
  | schemas, .bool _ :: xs => by simp [items, items_items schemas xs]
  | schemas, .number _ :: xs => by simp [items, items_items schemas xs]
  | schemas, .string _ :: xs => by simp [items, items_items schemas xs]

end

/-! ## All places -/

/-- Under a name that is not hidden all the records are left, each concealed, and under a hidden one none. -/
theorem attachedTo_members (schemas : List (Schema ι)) (r : Record) (name : String) :
    attachedTo (members catalog schemas r) name =
      if schemas.any (·.isHidden name) then []
      else (attachedTo r name).map (members catalog (attached catalog schemas name)) := by
  induction r with
  | nil => simp [members, attachedTo]
  | cons m r ih =>
    rw [members]
    cases hm : schemas.any (·.isHidden m.1) with
    | true =>
      rw [if_pos rfl, ih]
      by_cases hname : m.1 = name
      · rw [← hname, hm, if_pos rfl, if_pos rfl]
      · simp [attachedTo, hname]
    | false =>
      have hcons : ∀ (m : String × Json) (r : Record),
          attachedTo (m :: r) name = (if m.1 = name then m.2.records else []) ++ attachedTo r name := fun _ _ => rfl
      rw [if_neg (by decide), hcons, hcons, ih]
      by_cases hname : m.1 = name
      · subst hname
        simp [hm, records_value]
      · simp [hname]

theorem isOpenTo_cons {name : String} {names : List String} : IsOpenTo catalog schemas (name :: names) ↔
    schemas.any (·.isHidden name) = false ∧ IsOpenTo catalog (attached catalog schemas name) names := by
  constructor
  · intro h
    refine ⟨h [] name names rfl, fun before other after hnames => ?_⟩
    exact h (name :: before) other after (by rw [hnames]; rfl)
  · rintro ⟨hname, h⟩ before other after hnames
    cases before with
    | nil =>
      obtain ⟨rfl, -⟩ := List.cons.inj hnames
      exact hname
    | cons first before =>
      obtain ⟨rfl, hrest⟩ := List.cons.inj hnames
      exact h before other after hrest

/-- What is left at a place is what concealing the record there leaves. -/
theorem exists_recordAt?_members : ∀ (place : List (String × Nat)) (schemas : List (Schema ι)) (r : Record)
    {r' : Record}, recordAt? (members catalog schemas r) place = some r' →
      ∃ r₀, members catalog (schemasAt catalog schemas (namesTo place)) r₀ = r'
  | [], schemas, r, r', h => ⟨r, Option.some.inj h⟩
  | (name, i) :: place, schemas, r, r', h => by
    rw [recordAt?, attachedTo_members] at h
    obtain ⟨below, hbelow, h⟩ := Option.bind_eq_some_iff.1 h
    cases hname : schemas.any (·.isHidden name) with
    | true => simp [hname] at hbelow
    | false =>
      rw [hname, if_neg (by decide), List.getElem?_map] at hbelow
      obtain ⟨r₁, -, rfl⟩ := Option.map_eq_some_iff.1 hbelow
      exact exists_recordAt?_members place _ r₁ h

/-- What is at an open place is left there, concealed. -/
theorem recordAt?_members : ∀ (place : List (String × Nat)) (schemas : List (Schema ι)) (r : Record) {r₀ : Record},
    recordAt? r place = some r₀ → IsOpenTo catalog schemas (namesTo place) →
      recordAt? (members catalog schemas r) place =
        some (members catalog (schemasAt catalog schemas (namesTo place)) r₀)
  | [], schemas, r, r₀, h, _ => by
    obtain rfl := Option.some.inj h
    rfl
  | (name, i) :: place, schemas, r, r₀, h, hopen => by
    obtain ⟨hname, hopen⟩ := isOpenTo_cons.1 hopen
    obtain ⟨r₁, hr₁, h⟩ := Option.bind_eq_some_iff.1 h
    rw [recordAt?, attachedTo_members, hname, if_neg (by decide), List.getElem?_map, hr₁]
    exact recordAt?_members place _ r₁ h hopen

/-- What is left at a place has no field that is hidden there. -/
theorem isHidden_of_mem_members {r : Record} {m : String × Json} (h : m ∈ members catalog schemas r) :
    schemas.any (·.isHidden m.1) = false := by
  rw [members_eq_map] at h
  obtain ⟨m', hm', rfl⟩ := List.mem_map.1 h
  simpa using (List.mem_filter.1 hm').2

/-- All other fields are left as they were, but for what is in the records attached to them. -/
theorem ownFields_members (names : List String) (r : Record) :
    ownFields catalog schemas names (members catalog (schemasAt catalog schemas names) r) =
      ownFields catalog schemas names (r.filter fun m => !isHiddenAt catalog schemas names m.1) := by
  rw [members_eq_map, ownFields, ownFields, List.map_map]
  refine List.map_congr_left fun m _ => ?_
  cases h : isRelationAt catalog schemas names m.1 with
  | true => simp [h, outline_value]
  | false =>
    have hnone : attached catalog (schemasAt catalog schemas names) m.1 = [] := by
      simpa [isRelationAt, attached, List.filter_eq_nil_iff] using h
    simp [h, hnone, value_nil]

/-- Concealing a record leaves what may be shown of it. -/
theorem conceals_record (catalog : Catalog ι) (s : Schema ι) (r : Record) :
    Conceals catalog s r (record catalog s r) where
  hides place r' h m hm := by
    obtain ⟨r₀, rfl⟩ := exists_recordAt?_members place [s] r h
    exact isHidden_of_mem_members hm
  keeps place r₀ h hopen := ⟨_, recordAt?_members place [s] r h hopen, ownFields_members _ r₀⟩
  again := members_members [s] r

end Concealment

/-! ## What a gateway answers -/

/-- The records that a store gave. -/
def Exchange.given : Exchange → List Record
  | .findOne _ (.ok record) => record.toList
  | .findMany _ (.ok records) => records
  | .save _ (.ok record) => [record]
  | _ => []

namespace Gateway

/-- The records that a reply shows. -/
def Reply.records : Reply → List Record
  | .record r => [r]
  | .deleted (.marked r) => [r]
  | .deleted (.removed _) => []
  | .first r => r.toList
  | .listing l => l.records

variable {α β : Type} {message : String} {g : Gateway σ ι} {records : α → List Record} {records' : β → List Record}

/-- A result shows the records of the last call, concealed. -/
def Shows (g : Gateway σ ι) (records : α → List Record) (result : Except Error α) (calls : List Exchange) : Prop :=
  ∀ a, result = .ok a → ∃ reads last, calls = reads ++ [last] ∧ records a = last.given.map g.shown

/-- What comes before makes no difference. -/
theorem shows_then {P : Except Error α → List Exchange → Prop} {x : Step (σ × List Exchange) α}
    {f : α → Step (σ × List Exchange) β} (h : Does P x) (hf : ∀ a, Does (Shows g records') (f a)) :
    Does (Shows g records') (x >>= f) := by
  refine h.bind (fun e calls _ a ha => nomatch ha) fun a calls _ => (hf a).mono fun r more hr b hb => ?_
  obtain ⟨reads, last, rfl, hlast⟩ := hr b hb
  exact ⟨calls ++ reads, last, by rw [List.append_assoc], hlast⟩

theorem does_accept (result : Checked α) :
    Does (fun _ _ => True) (accept result : Step (σ × List Exchange) α) :=
  fun _ _ => ⟨[], trivial, (List.append_nil _).symm⟩

/-- A last step that shows what the one before it gave, or fails. -/
theorem shows_last {x : Step (σ × List Exchange) α} {f : α → Step (σ × List Exchange) β}
    (h : Does (Shows g records) x)
    (hf : ∀ a, (∃ e, f a = throw e) ∨ ∃ b, f a = pure b ∧ records' b = records a) :
    Does (Shows g records') (x >>= f) := by
  refine h.bind (fun e calls _ a ha => nomatch ha) fun a calls ha => ?_
  rcases hf a with ⟨e, he⟩ | ⟨b, hb, hrecords⟩
  · rw [he]
    exact .throw fun _ hb => nomatch hb
  · rw [hb]
    refine .pure fun b' hb' => ?_
    obtain rfl := Except.ok.inj hb'
    rw [List.append_nil, hrecords]
    exact ha a rfl

theorem shows_map {x : Step (σ × List Exchange) α} {f : α → β} (h : Does (Shows g records) x)
    (hf : ∀ a, records' (f a) = records a) :
    Does (Shows g records') (do return f (← x) : Step (σ × List Exchange) β) :=
  shows_last h fun a => .inr ⟨f a, rfl, hf a⟩

/-- A call of the store, whose answer is shown. -/
theorem shows_stored {entry : Except StoreError α → Exchange} {step : Store.Step σ α} {f : α → β}
    (hf : ∀ a, records' (f a) = (entry (.ok a)).given.map g.shown) :
    Does (Shows g records') (do return f (← stored message (Store.note entry step)) : Step (σ × List Exchange) β) := by
  refine (Does.stored (.note entry step)).bind (fun e calls _ a ha => nomatch ha) ?_
  rintro a calls ⟨_ | a', rfl, ha⟩
  · cases ha
  · obtain rfl := Except.ok.inj ha
    refine .pure fun b hb => ?_
    obtain rfl := Except.ok.inj hb
    exact ⟨[], _, rfl, hf a⟩

section

variable (g : Gateway σ ι) (now : Instant) (actor : Option Scalar) (id : Scalar) (request : Request)

theorem shows_first (q : Query) :
    Does (Shows g Option.toList) ((g.withStore g.store.noting).first message q) :=
  shows_stored fun a => by cases a <;> rfl

theorem shows_save (record : Record) :
    Does (Shows g fun r => [r]) ((g.withStore g.store.noting).save message record) :=
  shows_stored fun _ => rfl

/-- The first record, or the report that there is none. -/
theorem shows_existing {q : Query} (e : Error) {f : Option Record → Step (σ × List Exchange) Record}
    (hnone : f none = throw e) (hsome : ∀ r, f (some r) = pure r) :
    Does (Shows g fun r => [r]) ((g.withStore g.store.noting).first message q >>= f) :=
  shows_last (shows_first g q) fun found => match found with
    | none => .inl ⟨e, hnone⟩
    | some r => .inr ⟨r, hsome r, rfl⟩

theorem shows_create (data : Record) :
    Does (Shows g fun r => [r]) ((g.withStore g.store.noting).create now actor data) :=
  shows_then (does_accept _) fun _ => shows_then (does_accept _) fun _ => shows_save g _

theorem shows_update (data : Record) :
    Does (Shows g fun r => [r]) ((g.withStore g.store.noting).update now actor id data) :=
  shows_then (does_accept _) fun _ =>
    shows_then (shows_existing g (g.missing id) rfl fun _ => rfl) fun _ => shows_save g _

theorem shows_delete :
    Does (Shows g fun d => (Reply.deleted d).records) ((g.withStore g.store.noting).delete now actor id) := by
  refine shows_then (shows_existing g (g.missing id) rfl fun _ => rfl) fun record => ?_
  simp only [withStore]
  cases g.schema.deletionMark? with
  | some column => exact shows_map (shows_save g _) fun _ => rfl
  | none => exact shows_stored fun _ => rfl

theorem shows_find : Does (Shows g fun r => [r]) ((g.withStore g.store.noting).find id request) :=
  shows_then (does_accept _) fun _ => shows_existing g (g.missing id) rfl fun _ => rfl

theorem shows_findBy (predicate : Predicate) :
    Does (Shows g Option.toList) ((g.withStore g.store.noting).findBy predicate request) :=
  shows_then (does_accept _) fun _ => shows_then (does_accept _) fun _ => shows_first g _

theorem shows_list : Does (Shows g Listing.records) ((g.withStore g.store.noting).list request) := by
  refine shows_then (does_accept _) fun q => ?_
  cases q.page with
  | none => exact shows_stored fun _ => rfl
  | some page =>
    refine (Does.stored (does_findManyAndCount g.store g.schema q)).bind (fun e calls _ a ha => nomatch ha) ?_
    rintro a calls ⟨answer, ⟨error, rfl, rfl⟩ | ⟨total, answer, rfl, rfl⟩, ha⟩
    · cases ha
    · cases answer with
      | error error => cases ha
      | ok found =>
        obtain rfl := Except.ok.inj ha
        refine .pure fun listing hlisting => ?_
        obtain rfl := Except.ok.inj hlisting
        exact ⟨[.count q (.ok total)], _, rfl, rfl⟩

/-- Whatever is asked, the reply shows the records of the store's last answer, concealed. -/
theorem shows_perform (task : Task) :
    Does (Shows g Reply.records) ((g.withStore g.store.noting).perform now task) := by
  cases task with
  | create actor data => exact shows_map (shows_create g now actor data) fun _ => rfl
  | update actor id data => exact shows_map (shows_update g now actor id data) fun _ => rfl
  | delete actor id => exact shows_map (shows_delete g now actor id) fun _ => rfl
  | find id request => exact shows_map (shows_find g id request) fun _ => rfl
  | findBy predicate request => exact shows_map (shows_findBy g request predicate) fun _ => rfl
  | list request => exact shows_map (shows_list g request) fun _ => rfl

end

/-- Whatever the store is and whatever is asked of the gateway: the records of an answer are those that the store
gave in its last answer, one by one without what is hidden at any place in them, with everything else, and with
nothing left to conceal. -/
theorem conceals_of_answer (g : Gateway σ ι) (now : Instant) (state : σ) (task : Task) {reply : Reply}
    (h : g.answer now state task = .ok reply) :
    ∃ reads last, g.calls now state task = reads ++ [last] ∧
      List.Forall₂ (Conceals g.catalog g.schema) last.given reply.records := by
  obtain ⟨added, hshows, hcalls⟩ := shows_perform g now task state []
  have hanswer : (runIn (state, []) ((g.withStore g.store.noting).perform now task)).1 = .ok reply :=
    (g.answer_noting now state [] task).trans h
  obtain ⟨reads, last, hadded, hrecords⟩ := hshows reply hanswer
  refine ⟨reads, last, by rw [calls, hcalls, hadded, List.nil_append], ?_⟩
  rw [hrecords, List.forall₂_map_right_iff, List.forall₂_same]
  exact fun r _ => Concealment.conceals_record g.catalog g.schema r

/-- An account with its password, and with a product whose creator has one too. -/
def leak : Record :=
  [("id", .ofInt64 1), ("password", .string "secret"),
    ("products", .array [.object [("password", .string "of a product"),
      ("creator", .object [("id", .ofInt64 1), ("password", .string "secret")])], .null])]

/-- The passwords of accounts are not shown, here and behind the relations that lead back to accounts. That of the
product is none. -/
theorem conceals_of_answer_shop :
    let g : Gateway (List Call) Demo.Shop :=
      { catalog := Demo.Shop.catalog, schema := Demo.Shop.userSchema, store := ({ rows := [leak] } : Script).store }
    let now := Instant.ofEpoch 0 0
    let shown : Record := [("id", .ofInt64 1), ("products", .array [.object [("password", .string "of a product"),
      ("creator", .object [("id", .ofInt64 1)])], .null])]
    g.answer now [] (.find (.int 1) {}) = .ok (.record shown) ∧ Conceals g.catalog g.schema leak shown := by
  intro g now shown
  have hanswer : g.answer now [] (.find (.int 1) {}) = .ok (.record shown) := by rfl
  have hfind : ∃ q, g.calls now [] (.find (.int 1) {}) = [.findOne q (.ok (some leak))] := ⟨_, rfl⟩
  obtain ⟨q, hfind⟩ := hfind
  obtain ⟨reads, last, hcalls, hconceals⟩ := conceals_of_answer g now [] (.find (.int 1) {}) hanswer
  have hlast : .findOne q (.ok (some leak)) = last := by
    simpa using congrArg List.getLast? (hfind.symm.trans hcalls)
  subst hlast
  exact ⟨hanswer, (List.forall₂_cons.1 hconceals).1⟩

end Gateway

end RecordQuery
