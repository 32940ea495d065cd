import RecordQuery.Database.Sync
import RecordQuery.Database.Writing
import RecordQuery.Demo.Shop
import RecordQuery.Value
/-!
# Demonstration data

Rows for the tables of the shop, with fixed keys. A row whose key is taken is passed over, so seeding
a second time changes nothing.
-/

namespace RecordQuery.Demo

open Sql

/-- The rows of one table, each with a value per column. -/
structure Seed where
  table : String
  columns : List String
  rows : List (List Param)

namespace Seed

/-- The accounts, made at the time of seeding. -/
def users (now : Instant) : Seed where
  table := "users"
  columns := ["id", "email", "password", "role", "createdAt"]
  rows :=
    [[.integer 1, .text "admin@shop.test", .text "!seed-admin", .text "admin", .text now.text],
      [.integer 2, .text "user@shop.test", .text "!seed-user", .text "user", .text now.text]]

/-- The categories. -/
def categories : Seed where
  table := "categories"
  columns := ["id", "name", "parentId"]
  rows :=
    [[.integer 1, .text "Dairy", .null],
      [.integer 2, .text "Cheese", .integer 1],
      [.integer 3, .text "Bakery", .null]]

/-- A price in tenths. -/
def price (tenths : Nat) : Param := .real (Binary64.ofDecimal false tenths (-1))

/-- The products, all made by the first account. -/
def products : Seed where
  table := "products"
  columns :=
    ["id", "name", "description", "price", "inStock", "categoryId", "createdAt", "createdBy"]
  rows :=
    [[.integer 1, .text "Whole milk", .text "3.2% fat, 1 litre", price 890, .integer 1, .integer 1,
        .text "2024-01-05T09:00:00.000Z", .integer 1],
      [.integer 2, .text "Goat cheese", .text "Soft, 150 g", price 3400, .integer 1, .integer 2,
        .text "2024-01-12T09:00:00.000Z", .integer 1],
      [.integer 3, .text "Mozzarella", .null, price 2105, .integer 0, .integer 2,
        .text "2024-02-01T09:00:00.000Z", .integer 1],
      [.integer 4, .text "Rye bread", .text "Sliced loaf", price 650, .integer 1, .integer 3,
        .text "2024-02-14T09:00:00.000Z", .integer 1],
      [.integer 5, .text "Butter", .text "82.5%, 180 g", price 1899, .integer 1, .integer 1,
        .text "2024-03-03T09:00:00.000Z", .integer 1],
      [.integer 6, .text "Croissant", .null, price 1200, .integer 0, .integer 3,
        .text "2024-03-20T09:00:00.000Z", .integer 1],
      [.integer 7, .text "Gift card", .text "Uncategorised item", price 10000, .integer 1, .null,
        .text "2024-04-01T09:00:00.000Z", .integer 1]]

/-- All data of the shop, owners first. -/
def all (now : Instant) : List Seed := [users now, categories, products]

/-- Adds rows, except those that break a rule, counting them, until one fails. -/
def addRows (seed : Seed) (db : Database) (added : Nat) :
    List (List Param) → Except Database.Fault Nat × Database
  | [] => (.ok added, db)
  | row :: rows =>
    let statement : Insert :=
      { table := seed.table, values := seed.columns.zip row, resolution := some .skip }
    match db.insert statement with
    | (.ok (some _), db) => addRows seed db (added + 1) rows
    | (.ok none, db) => addRows seed db added rows
    | (.error fault, db) => (.error fault, db)

end Seed

/-- What seeding came to: a text for each table that got rows, and the faults. -/
structure Seeded where
  tables : List String := []
  failures : List Database.Fault := []

/-- Adds the rows of one table. -/
def seedOne (db : Database) (report : Seeded) (seed : Seed) : Database × Seeded :=
  match seed.addRows db 0 seed.rows with
  | (.ok 0, db) => (db, report)
  | (.ok n, db) =>
    (db, { report with
      tables := report.tables ++ [seed.table ++ " (" ++ toString n ++ " rows)"] })
  | (.error fault, db) => (db, { report with failures := report.failures ++ [fault] })

/-- Adds the data of the shop. -/
def seed (db : Database) (now : Instant) : Database × Seeded :=
  (Seed.all now).foldl (fun (db, report) seed => seedOne db report seed) (db, {})

/-- A new database of the shop, with or without its data. -/
def shop (now : Instant) (seeded : Bool) : Database :=
  let db := (({ now } : Database).sync (Shop.all.map Shop.catalog)).1
  if seeded then (seed db now).1 else db

end RecordQuery.Demo
