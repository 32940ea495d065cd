import RecordQuery.Proofs.Reading.Answers
import RecordQuery.Proofs.Shop
/-!
# Hidden columns do not show in what callers read

A column of a schema is open (`Schema.IsOpen`) if it is not hidden, or if the store needs it: as a key, as
a mark of deleted rows or to join records. Two databases that hold the same but in fields which are open
to no schema (`Database.Resembles`) look alike through the view of the open columns
(`Database.Resembles.alike`). So no caller's request tells them apart, where rows that no order tells
apart come in the order of their keys (`Gateway.list_eq_and_find_eq`). Relations without a name are left
out: what is fetched along them may be fetched as if it were another kind's (`Demo.Desk`).
-/

namespace RecordQuery

open Sql
open Database (Row Table)

section

variable {ι : Type} {catalog : Catalog ι} {root s : Schema ι} {name : String}

namespace Schema

/-- Whether a column can be seen by callers or is needed to find rows. -/
def IsOpen (catalog : Catalog ι) (root s : Schema ι) (name : String) : Prop :=
  s.hasColumn name ∧
    (s.isHidden name = false ∨ name = s.key ∨ s.deletionMark? = some name ∨
      ∃ owner r, IsIn catalog root owner ∧ r ∈ owner.relations ∧
        (owner = s ∧ (owner.joinKeys catalog r).1 = name ∨
          catalog r.target = s ∧ (owner.joinKeys catalog r).2 = name))

/-- A hidden column that the store does not need is not open. -/
theorem not_isOpen {kind : ι} (hhidden : s.isHidden name) (hkey : name ≠ s.key)
    (hmark : s.deletionMark? ≠ some name)
    (hjoin : ∀ i, ∀ r ∈ (catalog i).relations, ((catalog i).joinKeys catalog r).1 ≠ name ∧
      ((catalog i).joinKeys catalog r).2 ≠ name) :
    ¬ IsOpen catalog (catalog kind) s name := by
  rintro ⟨-, h | h | h | ⟨owner, r, hin, hr, h⟩⟩
  · rw [hhidden] at h
    cases h
  · exact hkey h
  · exact hmark h
  · obtain ⟨i, rfl⟩ := exists_of_isIn hin
    rcases h with ⟨-, h⟩ | ⟨-, h⟩
    · exact (hjoin i r hr).1 h
    · exact (hjoin i r hr).2 h

end Schema

/-- The view of the open columns. -/
def View.ofOpen (hsound : Schema.IsSound catalog root) : View catalog root where
  sees s name := Schema.IsIn catalog root s ∧ Schema.IsOpen catalog root s name
  hasColumn h := h.2.1
  key hs := ⟨hs, Schema.hasColumn_key (hsound _ hs), .inr (.inl rfl)⟩
  mark hs h := ⟨hs, Schema.hasColumn_mark h, .inr (.inr (.inl h))⟩
  joinHere hs hr := ⟨hs, Schema.hasColumn_joinKeys_fst (hsound _ hs) hr,
    .inr (.inr (.inr ⟨_, _, hs, hr, .inl ⟨rfl, rfl⟩⟩))⟩
  joinThere hs hr := ⟨Schema.isIn_catalog _,
    Schema.hasColumn_joinKeys_snd (hsound _ hs) hr (hsound _ (Schema.isIn_catalog _)),
    .inr (.inr (.inr ⟨_, _, hs, hr, .inr ⟨rfl, rfl⟩⟩))⟩

namespace Database

/-- Whether a field of a table is an open column of some schema. -/
def IsOpen (catalog : Catalog ι) (root : Schema ι) (t : Table) (f : Field) : Prop :=
  ∃ s name, Schema.IsIn catalog root s ∧ Text.Ascii.same t.name s.table ∧
    Schema.IsOpen catalog root s name ∧ Text.Ascii.same f.name name

/-- Two tables with the same keys and the same cells in open fields. -/
structure Table.Resembles (catalog : Catalog ι) (root : Schema ι) (t t' : Table) : Prop where
  definition : t.toDefinition = t'.toDefinition
  lastKey : t.lastKey = t'.lastKey
  rows : List.Forall₂ (fun r r' => r.key = r'.key ∧
    ∀ f ∈ t.fields, IsOpen catalog root t f → r.cell f = r'.cell f) t.rows t'.rows

/-- Tables resemble each other whose rows differ only under a name that no open field has. -/
theorem Table.resembles_ofSchema {rows rows' : List Row}
    (hname : ∀ f : Field, f.name = name → ¬ IsOpen catalog root (ofSchema s rows) f)
    (hrows : List.Forall₂ (fun r r' : Row => r.key = r'.key ∧
      ∀ other, other ≠ name → r.cells.lookup other = r'.cells.lookup other) rows rows') :
    Table.Resembles catalog root (ofSchema s rows) (ofSchema s rows') where
  definition := rfl
  lastKey := by
    have hlast : ∀ key, rows.foldl (fun key r => max key r.key) key =
        rows'.foldl (fun key r => max key r.key) key := by
      clear hname
      induction hrows with
      | nil => exact fun _ => rfl
      | cons h _ ih =>
        intro key
        rw [List.foldl_cons, List.foldl_cons, h.1]
        exact ih _
    exact hlast 0
  rows := by
    refine hrows.imp fun r r' ⟨hkey, hcells⟩ => ⟨hkey, fun f _ hopen => ?_⟩
    rw [Row.cell, Row.cell, hkey, hcells f.name fun h => hname f h hopen]

theorem Table.resembles_refl (t : Table) : Table.Resembles catalog root t t where
  definition := rfl
  lastKey := rfl
  rows := List.forall₂_same.2 fun _ _ => ⟨rfl, fun _ _ _ => rfl⟩

/-- Two databases whose tables are the same but in fields that are open to no schema. -/
structure Resembles (catalog : Catalog ι) (root : Schema ι) (db db' : Database) : Prop where
  visit : db.visit = db'.visit
  tables : List.Forall₂ (Table.Resembles catalog root) db.tables db'.tables

namespace Resembles

variable {db db' : Database} {t t' : Table} (h : Resembles catalog root db db')

include h

theorem sequence?_eq : db.sequence? = db'.sequence? := by
  rw [sequence?_eq_sequenceOf, sequence?_eq_sequenceOf]
  congr 1
  rw [← List.forall₂_eq_eq_eq, List.forall₂_map_left_iff, List.forall₂_map_right_iff]
  exact h.tables.imp fun t t' ht => by rw [ht.definition, ht.lastKey]

/-- A name means tables that resemble each other, or one and the same. -/
theorem rel_table? (name : String) :
    Option.Rel (fun t t' => t = t' ∨ Text.Ascii.same t.name name ∧ Table.Resembles catalog root t t')
      (db.table? name) (db'.table? name) := by
  rw [Database.table?, Database.table?, h.sequence?_eq]
  split
  · cases db'.sequence? with
    | none => exact .none
    | some t => exact .some (.inl rfl)
  · have hname : ∀ t t', Table.Resembles catalog root t t' →
        Text.Ascii.same t.name name = Text.Ascii.same t'.name name := fun t t' ht => by
      rw [ht.definition]
    have hrel := View.Alike.rel_find? hname h.tables
    cases hfound : db.tables.find? fun t => Text.Ascii.same t.name name with
    | none =>
      rw [hfound] at hrel
      generalize db'.tables.find? (fun t => Text.Ascii.same t.name name) = found at hrel
      cases hrel
      exact .none
    | some t =>
      rw [hfound] at hrel
      generalize db'.tables.find? (fun t => Text.Ascii.same t.name name) = found at hrel
      cases hrel with
      | some ht =>
        have hsame := List.find?_some hfound
        exact .some (.inr ⟨hsame, ht⟩)

theorem definition (name : String) :
    (db.table? name).map Table.toDefinition = (db'.table? name).map Table.toDefinition := by
  have hrel := h.rel_table? name
  generalize db.table? name = t, db'.table? name = t' at hrel
  cases hrel with
  | none => rfl
  | some ht =>
    rcases ht with rfl | ⟨-, ht⟩
    · rfl
    · rw [Option.map_some, Option.map_some, ht.definition]

/-- Rows agree on open columns. -/
theorem scope_eq (ht : db.table? s.table = some t) (ht' : db'.table? s.table = some t')
    (hs : Schema.IsIn catalog root s) : List.Forall₂
      (fun r r' => ∀ name, Schema.IsOpen catalog root s name → t.scope r name = t'.scope r' name)
      t.rows t'.rows := by
  have hrel := h.rel_table? s.table
  rw [ht, ht'] at hrel
  cases hrel with
  | some hrel =>
    rcases hrel with rfl | ⟨hname, hrel⟩
    · exact List.forall₂_same.2 fun r _ name _ => rfl
    · refine hrel.rows.imp fun r r' ⟨hkey, hcells⟩ name hopen => ?_
      rw [← Table.scope_eq hrel.definition, Table.scope, Table.scope]
      cases hf : t.field? name with
      | none => rw [hkey]
      | some f =>
        have hmem : f ∈ t.fields := List.mem_of_find?_eq_some hf
        have hsame : Text.Ascii.same f.name name = true :=
          List.find?_some (a := f) (p := fun f : Field => Text.Ascii.same f.name name) hf
        have hcell := hcells f hmem ⟨s, name, hs, hname, hopen, hsame⟩
        simp only [hcell]

/-- Databases that resemble each other look alike through the view of the open columns. -/
theorem alike (hsound : Schema.IsSound catalog root) (hcover : db.Covers catalog root)
    (hvisit : db.visit = .byKey) : (View.ofOpen hsound).Alike db db' where
  covers := hcover
  definition := h.definition
  rows {s t t'} hs ht ht' := by
    refine List.rel_filter (fun r r' hr => ?_)
      ((h.scope_eq ht ht' hs).imp fun r r' hr name hn => hr name hn.2)
    have hlive : s.isLive (t.scope r) = s.isLive (t'.scope r') := by
      rw [Schema.isLive, Schema.isLive]
      cases hm : s.deletionMark? with
      | none => rfl
      | some mark =>
        have hagree := hr mark ⟨hs, Schema.hasColumn_mark hm, .inr (.inr (.inl hm))⟩
        simp only [Option.all_some, Scope.resolve, List.findSome?_cons, hagree]
    simp only [hlive]
  visit := h.visit
  planned hp := by rw [hvisit] at hp; cases hp

end Resembles

end Database

namespace Gateway

/-- No request tells two databases apart that resemble each other: a listing gives the same records in the
same order with the same summary, finding a record gives the same one, and what fails on one fails on the
other in the same words. -/
theorem list_eq_and_find_eq {limits : PageLimits} {g : Gateway Database ι} {db db' : Database}
    (hsound : Schema.IsSound catalog s) (hnamed : Schema.IsNamed catalog s)
    (hg : Gateway.ofSchema catalog s (Database.store catalog) limits = .ok g)
    (hcover : db.Covers catalog s) (hsame : Database.Resembles catalog s db db')
    (hvisit : db.visit = .byKey) (request : Request) (id : Scalar) :
    (db.run (g.list request)).1 = (db'.run (g.list request)).1 ∧
      (db.run (g.find id request)).1 = (db'.run (g.find id request)).1 := by
  obtain ⟨-, rfl⟩ := ofSchema_eq_ok_iff.1 hg
  have halike := hsame.alike hsound hcover hvisit
  have hsees : ∀ t, Schema.IsIn catalog s t → ∀ name, Access.visible.admits t name →
      (View.ofOpen hsound).sees t name := by
    intro t ht name hn
    obtain ⟨hc, hh⟩ := Access.admits_iff.1 hn
    exact ⟨ht, hc, .inl (by simpa using hh)⟩
  have hkey : (View.ofOpen hsound).sees s s.key := (View.ofOpen hsound).key Schema.isIn_root
  simp only [run_list, run_find]
  exact ⟨halike.answerOfList_eq fun q => Query.isWithin_ofRequest hsees (.inl hnamed) (by simp),
    halike.answerOfFind_eq fun q => Query.isWithin_ofRequest hsees (.inl hnamed) (by simpa using hkey)⟩

end Gateway

end

/-! ## Passwords of the shop -/

/-- An account that has a password, and a product that it made. -/
def Demo.Shop.rowsWith (password : String) : Shop → List Row
  | .user => [⟨1, [("email", .text "ann@shop.org"), ("password", .text password)]⟩]
  | .category => []
  | .product => [⟨1, [("name", .text "Milk"), ("createdBy", .integer 1)]⟩]

/-- The shop with a password, where rows are met in the order of their keys. -/
def Demo.Shop.withPassword (password : String) : Database :=
  { database (rowsWith password) with visit := .byKey }

/-- The password is not open in the table of accounts. -/
theorem Demo.Shop.not_isOpen_password {root : Shop} {rows : List Row} {f : Field}
    (hf : f.name = "password") :
    ¬ Database.IsOpen Shop.catalog (Shop.catalog root) (Table.ofSchema userSchema rows) f := by
  rintro ⟨s, name, hs, ht, hopen, hname⟩
  obtain ⟨kind, rfl⟩ := Schema.exists_of_isIn hs
  have hpassword : ∀ kind, ∀ name ∈ (Shop.catalog kind).columnNames, Text.Ascii.same "password" name →
      name = "password" ∧ kind = .user := by
    intro kind
    cases kind <;> decide
  have hjoin : ∀ kind, ∀ r ∈ (Shop.catalog kind).relations,
      ((Shop.catalog kind).joinKeys Shop.catalog r).1 ≠ "password" ∧
        ((Shop.catalog kind).joinKeys Shop.catalog r).2 ≠ "password" := by
    intro kind
    cases kind <;> decide
  rw [hf] at hname
  obtain ⟨rfl, rfl⟩ := hpassword kind name (Schema.hasColumn_iff.1 hopen.1) hname
  exact Schema.not_isOpen (by decide) (by decide) (by decide) hjoin hopen

/-- Shops that differ in a password resemble each other. -/
theorem Demo.Shop.resembles_withPassword (root : Shop) (password password' : String) :
    Database.Resembles Shop.catalog (Shop.catalog root) (withPassword password)
      (withPassword password') where
  visit := rfl
  tables := by
    have hrows : ∀ other, other ≠ "password" →
        List.lookup other [("email", Cell.text "ann@shop.org"), ("password", .text password)] =
          List.lookup other [("email", Cell.text "ann@shop.org"), ("password", .text password')] := by
      intro other h
      simp only [List.lookup_cons, beq_eq_false_iff_ne.2 h]
    refine .cons ?_ (.cons ?_ (.cons ?_ .nil))
    · exact Table.resembles_ofSchema (fun f hf => not_isOpen_password hf) (.cons ⟨rfl, hrows⟩ .nil)
    · exact Table.resembles_refl _
    · exact Table.resembles_refl _

/-- A page of products with the accounts that made them shows nothing of a password, and no more does an
account. -/
theorem Gateway.list_eq_and_find_eq_shop :
    let s := Demo.Shop.productSchema
    let g := inDatabase Demo.Shop.catalog s {}
    let db := Demo.Shop.withPassword "a"
    let db' := Demo.Shop.withPassword "b"
    Schema.IsSound Demo.Shop.catalog s ∧ Schema.IsNamed Demo.Shop.catalog s ∧
      Gateway.ofSchema Demo.Shop.catalog s (Database.store Demo.Shop.catalog) {} = .ok g ∧
      db.Covers Demo.Shop.catalog s ∧ Database.Resembles Demo.Shop.catalog s db db' ∧
      db.visit = .byKey ∧ (db.run (g.list { relations := some (.list ["creator"]), page := some 1 })).1 =
        (db'.run (g.list { relations := some (.list ["creator"]), page := some 1 })).1 := by
  have hsound := Demo.Shop.isSound .product
  have hnamed := Demo.Shop.isNamed .product
  have hg := (@ofSchema_eq_ok_iff _ _ _ {} _).2
    ⟨Schema.check_eq_ok_iff.2 (hsound _ Schema.isIn_root), rfl⟩
  have hcover : (Demo.Shop.withPassword "a").Covers Demo.Shop.catalog (Demo.Shop.catalog .product) :=
    Demo.Shop.covers_database (Demo.Shop.rowsWith "a") .product
  have hsame := Demo.Shop.resembles_withPassword .product "a" "b"
  exact ⟨hsound, hnamed, hg, hcover, hsame, rfl,
    (list_eq_and_find_eq hsound hnamed hg hcover hsame rfl _ (.int 1)).1⟩

/-! ## Relations without a name -/

/-- The kinds of a graph in which a relation has an empty name. -/
inductive Demo.Desk where
  | ticket
  | note
  | account
  deriving DecidableEq

namespace Demo.Desk

/-- The path that leads from tickets over their relation without a name to notes is followed from the
tickets themselves, to accounts. -/
def catalog : Catalog Desk
  | .ticket =>
    { name := "Ticket", table := "tickets", key := "id", columns := [Shop.keyColumn "id"],
      relations := [⟨"", .note, .belongsTo "id"⟩, ⟨"x", .account, .belongsTo "id"⟩],
      hidden := [], deletion := .hard }
  | .note =>
    { name := "Note", table := "notes", key := "id",
      columns := [Shop.keyColumn "id", { name := "password", kind := .text, nullable := true }],
      relations := [⟨"x", .note, .belongsTo "id"⟩], hidden := [], deletion := .hard }
  | .account =>
    { name := "Account", table := "accounts", key := "id",
      columns := [Shop.keyColumn "id", { name := "password", kind := .text, nullable := true }],
      relations := [], hidden := ["password"], deletion := .hard }

/-- A ticket and an account with a password. -/
def rowsWith (password : Cell) : Desk → List Row
  | .ticket => [⟨1, []⟩]
  | .note => []
  | .account => [⟨1, [("password", password)]⟩]

/-- The tables of the desk. -/
def withPassword (password : Cell) : Database where
  tables := [Desk.ticket, .note, .account].map fun kind =>
    Table.ofSchema (catalog kind) (rowsWith password kind)
  visit := .byKey

theorem isSound (kind : Desk) : Schema.IsSound catalog (catalog kind) := by
  intro s hs
  obtain ⟨i, rfl⟩ := Schema.exists_of_isIn hs
  cases i <;> decide

theorem table?_withPassword (password : Cell) (kind : Desk) :
    (withPassword password).table? (catalog kind).table =
      some (Table.ofSchema (catalog kind) (rowsWith password kind)) := by
  refine Database.table?_eq_ofSchema rfl (fun i => ?_) (fun i => ?_) (fun i j => ?_) kind
  · cases i <;> decide
  · cases i <;> decide
  · cases i <;> cases j <;> decide

theorem covers_withPassword (password : Cell) (kind : Desk) :
    (withPassword password).Covers catalog (catalog kind) :=
  Database.covers_of_table? (table?_withPassword password) kind

theorem not_isOpen_password {root : Desk} {rows : List Row} {f : Field} (hf : f.name = "password") :
    ¬ Database.IsOpen catalog (catalog root) (Table.ofSchema (catalog .account) rows) f := by
  rintro ⟨s, name, hs, ht, hopen, hname⟩
  obtain ⟨kind, rfl⟩ := Schema.exists_of_isIn hs
  have hkind : ∀ kind, Text.Ascii.same "accounts" (catalog kind).table → kind = .account := by
    intro kind
    cases kind <;> decide
  have hpassword : ∀ name ∈ (catalog .account).columnNames, Text.Ascii.same "password" name →
      name = "password" := by
    decide
  have hjoin : ∀ kind, ∀ r ∈ (catalog kind).relations,
      ((catalog kind).joinKeys catalog r).1 ≠ "password" ∧
        ((catalog kind).joinKeys catalog r).2 ≠ "password" := by
    intro kind
    cases kind <;> decide
  rw [hf] at hname
  obtain rfl := hkind kind ht
  obtain rfl := hpassword name (Schema.hasColumn_iff.1 hopen.1) hname
  exact Schema.not_isOpen (by decide) (by decide) (by decide) hjoin hopen

theorem resembles_withPassword (root : Desk) (password password' : Cell) :
    Database.Resembles catalog (catalog root) (withPassword password) (withPassword password') where
  visit := rfl
  tables := by
    have hrows : ∀ other, other ≠ "password" →
        List.lookup other [("password", password)] = List.lookup other [("password", password')] := by
      intro other h
      simp only [List.lookup_cons, beq_eq_false_iff_ne.2 h]
    refine .cons ?_ (.cons ?_ (.cons ?_ .nil))
    · exact Table.resembles_refl _
    · exact Table.resembles_refl _
    · exact Table.resembles_ofSchema (fun f hf => not_isOpen_password hf) (.cons ⟨rfl, hrows⟩ .nil)

end Demo.Desk

/-- Where a relation has no name, a listing may fail on the content of a hidden column. -/
theorem Gateway.list_ne_desk :
    let s := Demo.Desk.catalog .ticket
    let g := inDatabase Demo.Desk.catalog s {}
    let db := Demo.Desk.withPassword (.blob [255])
    let db' := Demo.Desk.withPassword .null
    Schema.IsSound Demo.Desk.catalog s ∧
      Gateway.ofSchema Demo.Desk.catalog s (Database.store Demo.Desk.catalog) {} = .ok g ∧
      db.Covers Demo.Desk.catalog s ∧ Database.Resembles Demo.Desk.catalog s db db' ∧ db.visit = .byKey ∧
      (db.run (g.list { relations := some (.list [".x"]) })).1 ≠
        (db'.run (g.list { relations := some (.list [".x"]) })).1 := by
  have hsound := Demo.Desk.isSound .ticket
  have hg := (@ofSchema_eq_ok_iff _ _ _ {} _).2
    ⟨Schema.check_eq_ok_iff.2 (hsound _ Schema.isIn_root), rfl⟩
  have hcover := Demo.Desk.covers_withPassword (.blob [255]) .ticket
  have hsame := Demo.Desk.resembles_withPassword .ticket (.blob [255]) .null
  refine ⟨hsound, hg, hcover, hsame, rfl, ?_⟩
  have hfails : (answerOfList Demo.Desk.catalog (Demo.Desk.catalog .ticket) {}
      (Demo.Desk.withPassword (.blob [255])) { relations := some (.list [".x"]) }).isOk = false := by
    decide +kernel
  have hlists : (answerOfList Demo.Desk.catalog (Demo.Desk.catalog .ticket) {}
      (Demo.Desk.withPassword .null) { relations := some (.list [".x"]) }).isOk = true := by
    decide +kernel
  simp only [run_list]
  intro h
  rw [h, hlists] at hfails
  cases hfails

end RecordQuery
