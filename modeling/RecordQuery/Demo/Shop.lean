import RecordQuery.Schema.Basic
import RecordQuery.Text.Ascii
/-!
# The demonstration shop

Three kinds of record: accounts with a password that is never shown, categories nested through their
parents, and products that belong to a category and to the account that made them.
-/

namespace RecordQuery.Demo

/-- The kinds of record of the shop. -/
inductive Shop where
  | user
  | category
  | product
  deriving DecidableEq

namespace Shop

/-- The kinds in the order in which their tables are made. -/
def all : List Shop := [.user, .category, .product]

/-- An automatic key. -/
def keyColumn (name : String) : Column :=
  { name, kind := .integer, isKey := true }

/-- The columns that hold when a record was made, changed and deleted. -/
def timeColumns : List Column :=
  [{ name := "createdAt", kind := .timestamp, role := some .createdAt },
    { name := "updatedAt", kind := .timestamp, nullable := true, role := some .updatedAt },
    { name := "deletedAt", kind := .timestamp, nullable := true, role := some .deletedAt }]

/-- Accounts. -/
def userSchema : Schema Shop where
  name := "User"
  table := "users"
  key := "id"
  columns :=
    [keyColumn "id",
      { name := "email", kind := .text },
      { name := "password", kind := .text },
      { name := "role", kind := .text, standard := some "'user'" }] ++ timeColumns
  relations := [⟨"products", .product, .hasMany "createdBy"⟩]
  hidden := ["password"]
  deletion := .soft

/-- Categories. -/
def categorySchema : Schema Shop where
  name := "Category"
  table := "categories"
  key := "id"
  columns :=
    [keyColumn "id",
      { name := "name", kind := .text },
      { name := "parentId", kind := .integer, nullable := true }]
  relations :=
    [⟨"parent", .category, .belongsTo "parentId"⟩, ⟨"products", .product, .hasMany "categoryId"⟩]
  hidden := []
  deletion := .hard

/-- Products. -/
def productSchema : Schema Shop where
  name := "Product"
  table := "products"
  key := "id"
  columns :=
    [keyColumn "id",
      { name := "name", kind := .text },
      { name := "description", kind := .text, nullable := true },
      { name := "price", kind := .real, standard := some "0" },
      { name := "inStock", kind := .boolean, standard := some "1" },
      { name := "photoId", kind := .integer, nullable := true },
      { name := "categoryId", kind := .integer, nullable := true }] ++ timeColumns ++
    [{ name := "createdBy", kind := .integer, nullable := true, role := some .createdBy },
      { name := "updatedBy", kind := .integer, nullable := true, role := some .updatedBy }]
  relations :=
    [⟨"category", .category, .belongsTo "categoryId"⟩, ⟨"creator", .user, .belongsTo "createdBy"⟩]
  hidden := []
  deletion := .soft

/-- The schemas of the shop. -/
def catalog : Catalog Shop
  | .user => userSchema
  | .category => categorySchema
  | .product => productSchema

/-- The kind of a table's or a record's name, in either case. -/
def named? (name : String) : Option Shop :=
  all.find? fun kind =>
    Text.Ascii.same (catalog kind).table name || Text.Ascii.same (catalog kind).name name

end Shop

end RecordQuery.Demo
