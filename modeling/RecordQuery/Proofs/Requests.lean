import RecordQuery.Proofs.Outcome
import RecordQuery.Proofs.Paths
import RecordQuery.Query.Basic
/-!
# Requests that are accepted

What is known of a query that was made of a request: its predicate and its sort keys have passed their
checks, it fetches columns that are not hidden, and each of its relation paths leads somewhere
(`Query.ofRequest_eq_ok`).
-/

namespace RecordQuery

open Outcome

variable {ι : Type} {catalog : Catalog ι} {s : Schema ι} {e : Exclusions} {name : String}

namespace Projection

theorem mem_visible_iff {without : List String} : name ∈ visible s without ↔
    s.hasColumn name ∧ s.isHidden name = false ∧ name ∉ without := by
  simp [visible, Schema.hasColumn_iff]

/-- The entries of paths, in their order: each path leads somewhere, to the visible columns there. -/
theorem entries_eq_ok {paths : List String} {es : List RelationColumns}
    (h : entries catalog s e paths = .ok es) :
    es.map RelationColumns.path = paths ∧ ∀ entry ∈ es, ∃ target,
      s.schemaAt? catalog entry.path = some target ∧
        entry.columns = visible target (e.fieldsUnder entry.path) := by
  induction paths generalizing es with
  | nil =>
    obtain rfl : [] = es := by simpa [entries] using h
    simp
  | cons path paths ih =>
    rw [entries] at h
    cases ht : s.schemaAt? catalog path with
    | none => simp [ht] at h
    | some target =>
      rw [ht] at h
      obtain ⟨rest, hrest, rfl⟩ := map_eq_ok_iff.1 h
      obtain ⟨hpaths, hentries⟩ := ih hrest
      refine ⟨by rw [List.map_cons, hpaths], fun entry he => ?_⟩
      rcases List.mem_cons.1 he with rfl | he
      · exact ⟨target, ht, rfl⟩
      · exact hentries entry he

end Projection

namespace SortKeys

/-- Sort keys that pass the check can be sorted by. -/
theorem isSortable_of_check {keys : SortKeys} (h : keys.check catalog s = .ok ()) :
    ∀ key ∈ keys, isSortable catalog s key.1 := by
  induction keys with
  | nil => simp
  | cons key keys ih =>
    rw [check] at h
    split at h
    · next hk => exact List.forall_mem_cons.2 ⟨hk, ih h⟩
    · cases h

end SortKeys

namespace Query

/-- The parts of a query that was made of a request. -/
theorem ofRequest_eq_ok {limits : PageLimits} {request : Request} {identity : Option (String × Scalar)}
    {q : Query} (h : ofRequest catalog s limits request identity = .ok q) :
    ∃ p : Predicate, p.check catalog .visible s = .ok () ∧
      q.predicate = (identity.elim p fun i => p.andEq i.1 i.2) ∧
      q.sort.check catalog s = .ok () ∧
      q.projection.columns = Projection.visible s (Exclusions.read request.exclude).rootFields ∧
      Projection.entries catalog s (Exclusions.read request.exclude)
        (Projection.closure q.relations) = .ok q.projection.relations := by
  obtain ⟨p, -, h⟩ := bind_eq_ok_iff.1 h
  obtain ⟨⟨⟩, hcheck, h⟩ := bind_eq_ok_iff.1 h
  obtain ⟨relations, -, h⟩ := bind_eq_ok_iff.1 h
  obtain ⟨projection, hprojection, h⟩ := bind_eq_ok_iff.1 h
  obtain ⟨⟨⟩, hsort, h⟩ := bind_eq_ok_iff.1 h
  obtain rfl := Except.ok.inj h
  obtain ⟨es, hes, rfl⟩ := map_eq_ok_iff.1 hprojection
  refine ⟨p, hcheck, ?_, hsort, rfl, hes⟩
  cases identity <;> rfl

end Query

end RecordQuery
