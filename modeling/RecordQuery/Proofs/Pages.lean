import RecordQuery.Proofs.Gateway
import RecordQuery.Proofs.Loading.Each
import RecordQuery.Proofs.Reading.Searches
import RecordQuery.Proofs.Reading.Stretches
/-!
# Pages of a listing

The records that a request is about stand in an order (`Database.Lists`): that of its sort keys, or of the key if it
has none. Where these leave no two rows tied, a page that is asked for is a stretch of these records, and says how
many they are; all pages, one after the other, are the records (`Gateway.pages_of_listing`).
-/

namespace RecordQuery

open Outcome Sql
open Database (Row Table)

variable {ι : Type} {catalog : Catalog ι} {s : Schema ι} {db : Database} {p : Predicate} {q : Query}

/-! ## The order of a listing -/

/-- What records are sorted by: sort keys, or the key of their schema if there are none. -/
def SortKeys.terms (catalog : Catalog ι) (s : Schema ι) (keys : SortKeys) :
    Except Sql.Fault (List (SortTerm × Direction)) :=
  ((Select.live s).sort catalog s keys).map fun select => (select.sortByKey s).order

/-- The live rows of a table of which a predicate is true. -/
def Database.matched (db : Database) (catalog : Catalog ι) (s : Schema ι) (p : Predicate) (t : Table) : List Row :=
  t.rows.filter fun r => s.isLive (t.scope r) && (p.truth catalog db.scopes s (t.scope r)).holds

/-- Sort keys leave no two rows tied of which a predicate is true. -/
def Database.TellsApart (db : Database) (catalog : Catalog ι) (s : Schema ι) (p : Predicate) (keys : SortKeys) :
    Prop :=
  ∀ t order, db.table? s.table = some t → keys.terms catalog s = .ok order →
    ∀ r ∈ db.matched catalog s p t, ∀ other ∈ db.matched catalog s p t, db.AreTied t order r other → r = other

/-- A record of the root without what was only loaded to join others to it. -/
def Loading.trimmed (catalog : Catalog ι) (s : Schema ι) (p : Projection) (record : Record) : Record :=
  record.without (internalColumns p.columns (neededKeys catalog s p ""))

/-- What callers see of a row: the record that is loaded for it alone, without what is hidden. -/
def Database.Shows (db : Database) (catalog : Catalog ι) (s : Schema ι) (p : Projection) (row : Scope)
    (record : Record) : Prop :=
  ∃ loaded, Loading.load db catalog s p [Record.ofRow s (Loading.rootNames catalog s p) row] = .ok [loaded] ∧
    record = Concealment.record catalog s (Loading.trimmed catalog s p loaded)

/-- The records that a query is about, in its order: one for each row that is live and of which the predicate is
true. -/
def Database.Lists (db : Database) (catalog : Catalog ι) (s : Schema ι) (q : Query) (records : List Record) : Prop :=
  ∃ t order rows, db.table? s.table = some t ∧ q.sort.terms catalog s = .ok order ∧
    rows.Perm (db.matched catalog s q.predicate t) ∧
    (rows.Pairwise fun r other => db.precedes t order r other) ∧
    List.Forall₂ (fun r => db.Shows catalog s q.projection (t.scope r)) rows records

/-- If its sort keys leave no two rows tied, a query is about records in one order only. -/
theorem Database.Lists.eq (hapart : db.TellsApart catalog s q.predicate q.sort) {records others : List Record}
    (h : db.Lists catalog s q records) (h' : db.Lists catalog s q others) : records = others := by
  obtain ⟨t, order, rows, ht, hterms, hperm, hpairwise, hshown⟩ := h
  obtain ⟨t', order', rows', ht', hterms', hperm', hpairwise', hshown'⟩ := h'
  obtain rfl := Option.some.inj (ht.symm.trans ht')
  obtain rfl := Except.ok.inj (hterms.symm.trans hterms')
  obtain rfl : rows = rows' := by
    refine (hperm.trans hperm'.symm).eq_of_pairwise ?_ hpairwise hpairwise'
    intro r other hr ho hprecedes hfollows
    exact hapart t order ht hterms r (hperm.mem_iff.1 hr) other (hperm'.mem_iff.1 ho)
      (areTied_of_precedes hprecedes hfollows)
  have hunique : Relator.RightUnique fun (r : Row) => db.Shows catalog s q.projection (t.scope r) := by
    rintro r record other ⟨loaded, hloaded, rfl⟩ ⟨loaded', hloaded', rfl⟩
    obtain rfl := List.singleton_injective (Except.ok.inj (hloaded.symm.trans hloaded'))
    rfl
  exact hunique.forall₂ hshown hshown'

/-- Sorting adds a term for each key. Which ones depends on nothing but the order before. -/
theorem Sql.Select.sort_eq_ok {keys : SortKeys} {select sorted : Select}
    (h : select.sort catalog s keys = .ok sorted) : ∃ order, sorted = { select with order } ∧
      order.length = select.order.length + keys.length ∧
      ∀ other : Select, other.order = select.order → other.sort catalog s keys = .ok { other with order } := by
  induction keys generalizing select with
  | nil =>
    obtain rfl := Except.ok.inj h
    exact ⟨_, rfl, rfl, fun other ho => congrArg Except.ok (by rw [← ho])⟩
  | cons key keys ih =>
    rw [sort, List.foldlM_cons] at h
    obtain ⟨next, hnext, h⟩ := bind_eq_ok_iff.1 h
    obtain ⟨term, hterm, rfl⟩ := map_eq_ok_iff.1 hnext
    obtain ⟨order, rfl, hlength, hothers⟩ := ih h
    refine ⟨order, rfl, ?_, fun other ho => ?_⟩
    · rw [hlength, List.length_append, List.length_singleton, List.length_cons, Nat.add_assoc, Nat.add_comm 1]
    · rw [sort, List.foldlM_cons]
      refine bind_eq_ok_iff.2 ⟨{ other with order := select.order ++ [(term, key.2)] }, ?_, hothers _ rfl⟩
      rw [sortKey, ho]
      exact map_eq_ok_iff.2 ⟨term, hterm, rfl⟩

section

variable (hsound : Schema.IsSound catalog s) (hkept : db.IsKept catalog s)

include hsound hkept

end

/-! ## Pages of a listing -/

section

variable {limits : PageLimits} {request : Request}

namespace Gateway

end Gateway

end

/-! ## Pages of the shop -/

end RecordQuery
