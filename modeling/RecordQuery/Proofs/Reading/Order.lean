import Mathlib.Data.List.Sort
import RecordQuery.Database.Reading
/-!
# Rows in order

Whatever path is chosen, the rows that are met are those that satisfy the statement, each once
(`Asking.perm_arrange`, `perm_met`). So a statement that sorts by the key gives them in the order of the
table (`chosen_eq_matching`).
-/

namespace RecordQuery.Database

open Sql

variable {db : Database} {q : Select} {t : Table} {names : List String}

namespace Asking

theorem perm_divide (a : Asking) (condition : Condition) (rows : List Row) :
    ((a.divide condition rows).1 ++ (a.divide condition rows).2).Perm rows := by
  rw [divide, List.partition_eq_filter_filter]
  exact List.filter_append_perm _ rows

/-- Taking one alternative after the other loses and repeats no row. -/
theorem perm_inTurn (a : Asking) {arrange : Condition → List Row → List Row}
    (h : ∀ condition rows, (arrange condition rows).Perm rows) (alternatives : List Condition)
    (rows : List Row) : (a.inTurn arrange alternatives rows).Perm rows := by
  induction alternatives generalizing rows with
  | nil => exact .refl rows
  | cons alternative alternatives ih =>
    rw [inTurn]
    exact ((h alternative _).append (ih _)).trans (a.perm_divide alternative rows)

theorem perm_arrangeWithin (n : Nat) (a : Asking) (conditions : List Condition) (rows : List Row) :
    (arrangeWithin n a conditions rows).Perm rows := by
  induction n generalizing a conditions rows with
  | zero => exact .refl rows
  | succ n ih =>
    rw [arrangeWithin]
    split
    · exact .refl rows
    · dsimp only
      split
      · split
        · exact rows.reverse_perm
        · exact .refl rows
      · split
        · exact .refl rows
        · split
          · exact (List.reverse_perm _).trans (List.mergeSort_perm rows _)
          · exact List.mergeSort_perm rows _
      · split
        · exact .refl rows
        · exact a.perm_inTurn (fun _ _ => ih _ _ _) _ rows

/-- The rows are met in some order, each once. -/
theorem perm_arrange (a : Asking) (conditions : List Condition) (rows : List Row) :
    (a.arrange conditions rows).Perm rows :=
  perm_arrangeWithin _ a conditions rows

end Asking

theorem perm_met (db : Database) (q : Select) (names : List String) (t : Table) :
    (db.met q names t).Perm (db.matching q t) := by
  rw [met]
  split
  · exact Asking.perm_arrange _ _ _
  · exact .refl _

theorem perm_sorted (db : Database) (t : Table) (order : List (SortTerm × Direction)) (rows : List Row) :
    (db.sorted t order rows).Perm rows := by
  rw [sorted]
  split
  · exact .refl rows
  · refine ((List.mergeSort_perm _ _).map Prod.snd).trans ?_
    rw [List.map_map]
    exact .of_eq (List.map_id rows)

theorem mem_of_mem_stretch {α : Type} {limit offset : Option Int64} {xs : List α} {x : α}
    (h : x ∈ stretch limit offset xs) : x ∈ xs := by
  unfold stretch at h
  dsimp only at h
  split at h
  · split at h
    · exact List.mem_of_mem_drop h
    · exact List.mem_of_mem_drop (List.mem_of_mem_take h)
  · exact List.mem_of_mem_drop h

/-- A statement gives rows of its table that satisfy it. -/
theorem mem_matching_of_mem_chosen {r : Row} (h : r ∈ db.chosen q names t) : r ∈ db.matching q t :=
  (perm_met db q names t).mem_iff.1 ((perm_sorted db t _ _).mem_iff.1 (mem_of_mem_stretch h))

theorem mem_of_mem_matching {r : Row} (h : r ∈ db.matching q t) : r ∈ t.rows := by
  rw [matching_eq_filter] at h
  exact (List.mem_filter.1 h).1

/-! ## Sorting by the key -/

/-- The rows of a table lie in the order of their keys. -/
def Table.IsOrdered (t : Table) : Prop := t.rows.Pairwise fun r other => r.key < other.key

theorem Table.IsOrdered.filter (h : t.IsOrdered) (p : Row → Bool) :
    (t.rows.filter p).Pairwise fun r other => r.key < other.key :=
  List.Pairwise.filter p h

/-- A name means the key in a table. -/
def Table.IsKey (t : Table) (name : String) : Prop := ∃ f, t.field? name = some f ∧ f.isKey

theorem cellOf_key {key : String} (h : t.IsKey key) (r : Row) :
    cellOf (t.scope r) key = .integer r.key := by
  obtain ⟨f, hf, hk⟩ := h
  simp [cellOf, Scope.resolve, Table.scope, hf, Row.cell, hk]

/-- Rows are sorted by the key along their keys. -/
theorem inOrder_key {collation : Collation} {i j : Int64} :
    inOrder [(collation, .ascending)] [.integer i] [.integer j] = decide (i ≤ j) := by
  simp only [inOrder, Cell.compareKnown, order, compareOfLessAndEq, Int64.le_iff_toInt_le]
  by_cases hlt : i.toInt < j.toInt
  · simp [hlt, Int.le_of_lt hlt]
  · by_cases heq : i.toInt = j.toInt
    · simp [heq]
    · have hle : ¬ i.toInt ≤ j.toInt := by omega
      simp [hlt, heq, hle]

/-- Rows that lie in the order of their keys are told apart by them. -/
theorem eq_of_key_eq {rows : List Row} (h : rows.Pairwise fun r other => r.key < other.key) {r other : Row}
    (hr : r ∈ rows) (ho : other ∈ rows) (hkey : r.key = other.key) : r = other := by
  have hnodup : (rows.map Row.key).Nodup := List.pairwise_map.2 (h.imp fun hlt => Int64.ne_of_lt hlt)
  exact List.inj_on_of_nodup_map hnodup hr ho hkey

/-- Sorting by the key puts rows in the order of their keys. -/
theorem sorted_key_eq {key : String} (hkey : t.IsKey key) {rows ordered : List Row}
    (hrows : rows.Perm ordered) (hordered : ordered.Pairwise fun r other => r.key < other.key) :
    db.sorted t [(.column key, .ascending)] rows = ordered := by
  have hsorted : db.sorted t [(.column key, .ascending)] rows =
      rows.mergeSort fun r other => decide (r.key ≤ other.key) := by
    rw [sorted]
    dsimp only [List.isEmpty_cons]
    rw [if_neg (by simp), List.map_mergeSort (s := fun r other : Row => decide (r.key ≤ other.key)), List.map_map]
    · exact congrArg (List.mergeSort · _) (List.map_id rows)
    · intro a ha b hb
      obtain ⟨r, -, rfl⟩ := List.mem_map.1 ha
      obtain ⟨other, -, rfl⟩ := List.mem_map.1 hb
      simp only [List.map_cons, List.map_nil, sortCell, cellOf_key hkey, inOrder_key]
  have hpairwise := @List.pairwise_mergeSort Row (fun r other => decide (r.key ≤ other.key))
    (fun a b c hab hbc => by
      simp only [decide_eq_true_eq] at hab hbc ⊢
      exact Int64.le_trans hab hbc)
    (fun a b => by simpa using Int64.le_total a.key b.key) rows
  have hperm := (List.mergeSort_perm rows fun r other => decide (r.key ≤ other.key)).trans hrows
  rw [hsorted]
  refine hperm.eq_of_pairwise ?_ (hpairwise.imp fun h => of_decide_eq_true h)
    (hordered.imp fun h => Int64.le_of_lt h)
  intro r other hr ho hle hge
  exact eq_of_key_eq hordered (hperm.mem_iff.1 hr) ho (Int64.le_antisymm hle hge)

/-- A statement that sorts by the key and has no limit gives the rows that satisfy it, in the order of the
table. -/
theorem chosen_eq_matching {key : String} (hkey : t.IsKey key) (ht : t.IsOrdered)
    (horder : q.order = [(.column key, .ascending)]) (hlimit : q.limit = none) (hoffset : q.offset = none) :
    db.chosen q names t = db.matching q t := by
  have hmatching : (db.matching q t).Pairwise fun r other => r.key < other.key := by
    rw [matching_eq_filter]
    exact ht.filter _
  rw [chosen, horder, sorted_key_eq hkey (perm_met db q names t) hmatching, hlimit, hoffset]
  rfl

end RecordQuery.Database
