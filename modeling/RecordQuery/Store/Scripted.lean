import RecordQuery.Store.Basic
/-!
# Scripted stores

A store that answers from a `Script` and remembers its calls. It never filters: it finds the rows of
the script, cut to the page of the query, and saving gives the record back, with a key if it has none.
An operation that the script lets fail is remembered like any other. What a gateway asks of its store
can be read off the calls.
-/

namespace RecordQuery

/-- A call of a store, with what it was called for. -/
inductive Call where
  | count (query : Query)
  | findOne (query : Query)
  | findMany (query : Query)
  | save (record : Record)
  | delete (id : Scalar)

/-- The operations of a store. -/
inductive Operation where
  | count
  | findOne
  | findMany
  | save
  | delete
  deriving DecidableEq

/-- The operation of a call. -/
def Call.operation : Call → Operation
  | .count _ => .count
  | .findOne _ => .findOne
  | .findMany _ => .findMany
  | .save _ => .save
  | .delete _ => .delete

/-- What a store answers. -/
structure Script where
  rows : List Record := []
  total : Option Int64 := none
  failing : List Operation := []
  /-- The key of a record that is saved without one. -/
  freshKey : Int64 := 99

namespace Script

/-- Remembers a call and gives its answer, unless the operation fails. -/
def answer {α : Type} (script : Script) (call : Call) (a : α) : Store.Step (List Call) α :=
  ExceptT.mk fun calls =>
    (if script.failing.contains call.operation then .error .scripted else .ok a,
      calls ++ [call])

/-- The rows of the page of a query. -/
def pageRows (script : Script) (q : Query) : List Record :=
  match q.page with
  | some p => (script.rows.drop p.skip.toInt.toNat).take p.take.toInt.toNat
  | none => script.rows

/-- The record with a key. -/
def keyed {ι : Type} (script : Script) (s : Schema ι) (record : Record) : Record :=
  if record.has s.key then record else record.insert s.key (.ofInt64 script.freshKey)

/-- The store of a script. -/
def store {ι : Type} (script : Script) : Store (List Call) ι where
  count _ q := script.answer (.count q) (script.total.getD (Int64.ofNat script.rows.length))
  findOne _ q := script.answer (.findOne q) script.rows.head?
  findMany _ q := script.answer (.findMany q) (script.pageRows q)
  save s record := script.answer (.save record) (script.keyed s record)
  delete _ id := script.answer (.delete id) 1

end Script

end RecordQuery
