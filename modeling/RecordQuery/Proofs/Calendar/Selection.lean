import RecordQuery.Proofs.Calendar.Order
import RecordQuery.Proofs.Form.Displays
import RecordQuery.Proofs.Membership
/-!
# Searching by time

A filter asks how the moment in a column compares with another one, or whether it lies between two (`Span`). The
column holds the text of the moment, and the statement compares it with the texts of the filter's moments. So the rows
that are found are those whose moment is as the filter asks, all moments taken down to the millisecond
(`Span.truth_test_eq_yes_iff`), and `Instant.text_keeps_time` puts this beside what else the text of a moment is for.
What is finer than a millisecond is lost: a moment that is a little later than the stored one finds it as if it were
no later (`Instant.found_though_earlier`).
-/

namespace RecordQuery

open Sql
open Database (Row)

/-! ## Comparing texts of moments -/

namespace Instant

variable {t u : Instant}

/-- Moments that are told apart by their texts come one after the other. -/
theorem text_not_lt_iff (ht : t.HasFourDigits) (hu : u.HasFourDigits) :
    ¬ t.text < u.text ↔ u.truncated.Before t.truncated ∨ t.truncated = u.truncated := by
  rw [← text_lt_iff hu ht, ← text_eq_iff ht hu, not_lt, le_iff_lt_or_eq, eq_comm (a := u.text)]

end Instant

/-- What a filter may ask about a moment. -/
inductive Span where
  | compared (comparison : Comparison) (bound : Instant)
  | between (low high : Instant)

namespace Span

variable {span : Span} {t : Instant} {a : Operand} {field : String}

/-- Whether a moment is as the filter asks. -/
def Admits : Span → Instant → Prop
  | .compared .eq d, t => t = d
  | .compared .ne d, t => t ≠ d
  | .compared .gt d, t => d.Before t
  | .compared .gte d, t => d.Before t ∨ t = d
  | .compared .lt d, t => t.Before d
  | .compared .lte d, t => t.Before d ∨ t = d
  | .between low high, t => (low.Before t ∨ t = low) ∧ (t.Before high ∨ t = high)

/-- The moments of a filter without what is finer than a millisecond. -/
def truncated : Span → Span
  | .compared comparison d => .compared comparison d.truncated
  | .between low high => .between low.truncated high.truncated

/-- Whether the years of the moments of a filter have four digits. -/
def HasFourDigits : Span → Prop
  | .compared _ d => d.HasFourDigits
  | .between low high => low.HasFourDigits ∧ high.HasFourDigits

/-- What is asked of a field. -/
def condition : Span → FieldCondition
  | .compared .eq d => .equals (.date d)
  | .compared .ne d => .operators { differs := some (.date d) }
  | .compared .gt d => .operators { gt := some (.date d) }
  | .compared .gte d => .operators { gte := some (.date d) }
  | .compared .lt d => .operators { lt := some (.date d) }
  | .compared .lte d => .operators { lte := some (.date d) }
  | .between low high => .operators { lower := some (.date low), upper := some (.date high) }

/-- The filter on a field. -/
def filter (field : String) (span : Span) : Filter := .fields [(field, span.condition)]

/-- The test on a column. -/
def test : Span → Test
  | .compared .eq d => .eq (.date d)
  | .compared .ne d => .ne (.date d)
  | .compared .gt d => .gt (.date d)
  | .compared .gte d => .gte (.date d)
  | .compared .lt d => .lt (.date d)
  | .compared .lte d => .lte (.date d)
  | .between low high => .between (.date low) (.date high)

theorem ofFilter_filter (field : String) (span : Span) :
    Predicate.ofFilter (span.filter field) = .ok (.all [(field, .test span.test)] []) := by
  cases span with
  | compared comparison d => cases comparison <;> rfl
  | between low high => rfl

end Span

namespace Sql.Operand

variable {a : Operand} {t d : Instant}

/-- A column of moments that compares texts by their characters, with a moment in it. -/
structure Shows (a : Operand) (t : Instant) : Prop where
  affinity : a.affinity = some Kind.timestamp.affinity
  collation : a.collation.getD .binary = .binary
  cell : a.cell = .text t.text

/-- A moment in a column is compared with another one by their texts. -/
theorem Shows.compare_eq (h : a.Shows t) (comparison : Comparison) (d : Instant) :
    a.compare comparison (.ofScalar (.date d)) = .ofBool (comparison.admits (order t.text d.text)) := by
  have hcomparand : ∀ s, a.comparand (.text s) = .text s := fun s => by rw [comparand, h.affinity]; rfl
  rw [compare, h.cell, h.collation]
  change Truth.ofBool? ((Cell.compare? .binary (a.comparand (.text t.text)) (a.comparand (.text d.text))).map
    comparison.admits) = _
  rw [hcomparand, hcomparand]
  rfl

end Sql.Operand

/-- What a comparison says of two texts. -/
theorem Sql.Comparison.admits_order_iff (comparison : Comparison) (s u : String) :
    comparison.admits (order s u) ↔ match comparison with
      | .eq => s = u
      | .ne => s ≠ u
      | .gt => u < s
      | .gte => ¬ s < u
      | .lt => s < u
      | .lte => ¬ u < s := by
  rw [order, compareOfLessAndEq]
  split
  next hlt => cases comparison <;> simp [Comparison.admits, hlt, hlt.ne, hlt.asymm]
  next hle =>
    split
    next heq => cases comparison <;> simp [Comparison.admits, heq]
    next hne =>
      have hgt : u < s := lt_of_le_of_ne (not_lt.1 hle) (Ne.symm hne)
      cases comparison <;> simp [Comparison.admits, hle, hne, hgt]

/-- A comparison with a moment is true of a column that holds a moment which stands to it as it is asked. -/
theorem Sql.Operand.Shows.compare_eq_yes_iff {a : Operand} {t d : Instant} (h : a.Shows t) (ht : t.HasFourDigits)
    (hd : d.HasFourDigits) (comparison : Comparison) :
    a.compare comparison (.ofScalar (.date d)) = .yes ↔
      (Span.compared comparison d).truncated.Admits t.truncated := by
  rw [h.compare_eq, ← Truth.holds_eq_true_iff, Truth.holds_ofBool, Comparison.admits_order_iff]
  cases comparison with
  | eq => exact Instant.text_eq_iff ht hd
  | ne => exact (Instant.text_eq_iff ht hd).not
  | gt => exact Instant.text_lt_iff hd ht
  | gte =>
    rw [Instant.text_not_lt_iff ht hd]
    rfl
  | lt => exact Instant.text_lt_iff ht hd
  | lte =>
    rw [Instant.text_not_lt_iff hd ht, eq_comm (a := d.truncated)]
    rfl

namespace Span

variable {span : Span} {t : Instant} {a : Operand} {field : String}

/-- The test of a filter is true of a column that holds a moment as it is asked for. -/
theorem truth_test_eq_yes_iff (h : a.Shows t) (ht : t.HasFourDigits) (hspan : span.HasFourDigits) :
    span.test.truth a = .yes ↔ span.truncated.Admits t.truncated := by
  cases span with
  | compared comparison d =>
    have hcompare : (Span.compared comparison d).test.truth a = a.compare comparison (.ofScalar (.date d)) := by
      cases comparison <;> rfl
    rw [hcompare, h.compare_eq_yes_iff ht hspan]
  | between low high =>
    change (a.compare .gte (.ofScalar (.date low))).and (a.compare .lte (.ofScalar (.date high))) = .yes ↔ _
    rw [Truth.and_eq_yes_iff, h.compare_eq_yes_iff ht hspan.1, h.compare_eq_yes_iff ht hspan.2]
    rfl

end Span

/-- The texts of moments whose years have four digits sort byte by byte as the moments do, down to the millisecond, and
are typed as the moments. A moment is displayed, written in JSON and bound to a statement as its text. So a filter on a
column in which the text of a moment is stored asks for the rows without a deletion mark whose moment is as the filter
says, all moments taken down to the millisecond. -/
theorem Instant.text_keeps_time {d e : Instant} (hd : d.HasFourDigits) (he : e.HasFourDigits) :
    (d.text.toUTF8.data.toList < e.text.toUTF8.data.toList ↔ d.truncated.Before e.truncated) ∧
    Coercion.coerce d.text = .date d.truncated ∧
    (Scalar.date d).display = d.text ∧ (Value.scalar (.date d)).toJson = .string d.text ∧
    Param.ofScalar (.date d) = .text d.text ∧
    ∀ {ι : Type} (catalog : Catalog ι) (s : Schema ι) (field : String), s.hasColumn field →
      ∀ span : Span, span.HasFourDigits → ∃ clause, (span.filter field).Asks catalog s clause ∧
        ∀ (rows : String → List Scope) (row : Scope) (around : List Scope),
          (Scope.resolve (row :: around) field).Shows e →
            (clause.eval rows (row :: around) = .yes ↔
              Condition.evalAll rows (row :: around) (Condition.unmarked s) = .yes ∧
                span.truncated.Admits e.truncated) := by
  refine ⟨bytes_text_lt_iff hd he, Coercion.coerce_moment hd.1 hd.2, rfl, rfl, rfl, ?_⟩
  intro ι catalog s field hcolumn span hspan
  obtain ⟨clause, hasks, heval⟩ := Filter.exists_asks (Span.ofFilter_filter field span) rfl
    (Condition.ofPredicate_test catalog hcolumn span.test)
  refine ⟨clause, hasks, fun rows row around hshows => ?_⟩
  rw [heval, Truth.and_eq_yes_iff, Condition.eval_test, Span.truth_test_eq_yes_iff hshows he hspan]

/-! ## Noon -/

/-- A moment of the first of January 1970, so many nanoseconds after noon. -/
def Instant.afterNoon (nano : Fin 1000000000) : Instant :=
  { ofEpoch 43200 0 with nano := nano, nano_lt := nano.isLt }

theorem Instant.text_keeps_time_noon :
    let d := Instant.afterNoon 999999999
    let e := { Instant.afterNoon 0 with second := 60, second_le := by decide }
    d.HasFourDigits ∧ e.HasFourDigits ∧
    (d.text.toUTF8.data.toList < e.text.toUTF8.data.toList ↔ d.truncated.Before e.truncated) ∧
    Coercion.coerce d.text = .date d.truncated ∧
    (Scalar.date d).display = d.text ∧ (Value.scalar (.date d)).toJson = .string d.text ∧
    Param.ofScalar (.date d) = .text d.text ∧
    ∀ {ι : Type} (catalog : Catalog ι) (s : Schema ι) (field : String), s.hasColumn field →
      ∀ span : Span, span.HasFourDigits → ∃ clause, (span.filter field).Asks catalog s clause ∧
        ∀ (rows : String → List Scope) (row : Scope) (around : List Scope),
          (Scope.resolve (row :: around) field).Shows e →
            (clause.eval rows (row :: around) = .yes ↔
              Condition.evalAll rows (row :: around) (Condition.unmarked s) = .yes ∧
                span.truncated.Admits e.truncated) := by
  intro d e
  have hd : d.HasFourDigits := ⟨by decide, by decide⟩
  have he : e.HasFourDigits := ⟨by decide, by decide⟩
  exact ⟨hd, he, text_keeps_time hd he⟩

/-- A product made at noon. -/
def Demo.Shop.madeAtNoon : Shop → List Row
  | .product => [⟨1, [("name", .text "Milk"), ("createdAt", .text (Instant.afterNoon 0).text)]⟩]
  | _ => []

/-- Asked for the products made half a millisecond after noon or later, the statement finds one that was made at
noon. -/
theorem Instant.found_though_earlier :
    let s := Demo.Shop.productSchema
    let db := Demo.Shop.database Demo.Shop.madeAtNoon
    let span := Span.compared .gte (Instant.afterNoon 500000)
    ∃ clause, (span.filter "createdAt").Asks Demo.Shop.catalog s clause ∧ ∃ row ∈ db.scopes s.table,
      (Scope.resolve [row] "createdAt").Shows (Instant.afterNoon 0) ∧
        clause.eval db.scopes [row] = .yes ∧ ¬ span.Admits (Instant.afterNoon 0) := by
  intro s db span
  have hcolumn : s.hasColumn "createdAt" := by decide
  obtain ⟨clause, hasks, heval⟩ := Filter.exists_asks (Span.ofFilter_filter "createdAt" span) rfl
    (Condition.ofPredicate_test Demo.Shop.catalog hcolumn span.test)
  refine ⟨clause, hasks, ?_⟩
  have hrows : db.scopes s.table = (Demo.Shop.madeAtNoon .product).map
      (Database.Table.ofSchema s (Demo.Shop.madeAtNoon .product)).scope :=
    Database.scopes_eq_map (Demo.Shop.table?_database _ .product)
  rw [hrows]
  refine ⟨_, List.mem_map_of_mem (List.mem_singleton_self _), ⟨by decide, by decide, by decide⟩, ?_, ?_⟩
  · rw [heval]
    decide
  · change ¬ (_ ∨ _)
    decide

end RecordQuery
