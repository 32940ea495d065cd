import RecordQuery.Proofs.Leaves
import RecordQuery.Proofs.Loading.Joins
import RecordQuery.Proofs.Reading.Sorting
/-!
# Keys that join records

Records are joined by the texts of what their columns are read as, while the rows below were found by comparing
cells. Where cells are kept as their columns store them, the two agree on all rows that are found: a row that is
found for some key and read as another one of the same column is found for that one too (`Kind.compare_eq_yes`).
-/

namespace RecordQuery

open Sql

/-! ## Whole numbers -/

namespace Binary64

theorem quotient_scaled {m n : Nat} {q : Int} (hq : -1074 ≤ q)
    (h : m * twoTo (q + 1074).toNat = n * twoTo 1074) : (scaled m 1 q).1 / (scaled m 1 q).2 = n := by
  rw [twoTo_eq_pow (q + 1074).toNat] at h
  by_cases hsign : 0 ≤ q
  · have hpow : (q + 1074).toNat = q.toNat + 1074 := by omega
    rw [hpow, twoTo_eq_pow, pow_add, ← mul_assoc] at h
    rw [scaled, if_pos hsign, Nat.div_one, twoTo_eq_pow]
    exact Nat.eq_of_mul_eq_mul_right (by positivity) h
  · have hpow : twoTo 1074 = 2 ^ ((-q).toNat + (q + 1074).toNat) := by
      rw [twoTo_eq_pow]
      exact congrArg _ (by omega)
    rw [hpow, pow_add, ← mul_assoc] at h
    rw [scaled, if_neg hsign, Nat.one_mul, twoTo_eq_pow, Nat.eq_of_mul_eq_mul_right (by positivity) h]
    exact Nat.mul_div_cancel n (by positivity)

/-- A double that is level with an integer has it as its integer part. -/
theorem truncate_of_rank {x : Binary64} {i : Int} (h : x.rank = rankOfInt i) : x.truncate = i := by
  have hq : -1074 ≤ x.parts.2 := by
    rw [parts_eq]
    unfold partsOf block
    split <;> dsimp only [Int.ofNat_eq_natCast] <;> omega
  have hunit : (0 : Int) < twoTo 1074 := Int.natCast_pos.2 (twoTo_pos 1074)
  have hquotient : ∀ n : Nat, x.parts.1 * twoTo (x.parts.2 + 1074).toNat = n * twoTo 1074 →
      (scaled x.parts.1 1 x.parts.2).1 / (scaled x.parts.1 1 x.parts.2).2 = n := fun n => quotient_scaled hq
  have hrank : x.rank = if x.isNegative then -((x.parts.1 * twoTo (x.parts.2 + 1074).toNat : Nat) : Int)
      else ((x.parts.1 * twoTo (x.parts.2 + 1074).toNat : Nat) : Int) := rfl
  have htruncate : x.truncate = if x.isNegative then
      -(((scaled x.parts.1 1 x.parts.2).1 / (scaled x.parts.1 1 x.parts.2).2 : Nat) : Int)
      else (((scaled x.parts.1 1 x.parts.2).1 / (scaled x.parts.1 1 x.parts.2).2 : Nat) : Int) := rfl
  rw [hrank, rankOfInt] at h
  rw [htruncate]
  generalize x.parts.1 * twoTo (x.parts.2 + 1074).toNat = magnitude at h hquotient
  generalize (scaled x.parts.1 1 x.parts.2).1 / (scaled x.parts.1 1 x.parts.2).2 = quotient at hquotient
  split
  · next hsign =>
    rw [if_pos hsign] at h
    have hneg : i ≤ 0 := Int.not_lt.1 fun hpos => by
      have := Int.mul_pos hpos hunit
      omega
    obtain ⟨n, rfl⟩ := Int.exists_eq_neg_ofNat hneg
    rw [hquotient n (by exact_mod_cast Int.neg_inj.1 (h.trans (Int.neg_mul _ _)))]
  · next hsign =>
    rw [if_neg hsign] at h
    have hpos : 0 ≤ i := Int.not_lt.1 fun hneg => by
      have := Int.mul_neg_of_neg_of_pos hneg hunit
      omega
    obtain ⟨n, rfl⟩ := Int.eq_ofNat_of_zero_le hpos
    rw [hquotient n (by exact_mod_cast h)]

end Binary64

theorem Word.clamp_toInt (i : Int64) : clamp i.toInt = i := by
  have hlow := i.le_toInt
  have hhigh := i.toInt_lt
  rw [← Int64.toInt_inj, toInt_clamp]
  unfold least greatest
  omega

/-! ## Comparing a cell with a key -/

namespace Sql

variable {a : Operand} {p : Param}

/-- A cell is equal to a value if both are known and level as they are compared. -/
theorem Operand.compare_eq_iff : a.compare .eq p = .yes ↔ (a.comparand a.cell).isNull = false ∧
    (a.comparand p.cell).isNull = false ∧
    Cell.compareKnown (a.collation.getD .binary) (a.comparand a.cell) (a.comparand p.cell) = .eq := by
  rw [compare, Cell.compare?]
  generalize Cell.compareKnown _ _ _ = o
  cases (a.comparand a.cell).isNull <;> cases (a.comparand p.cell).isNull <;>
    cases o <;> simp [Truth.ofBool?, Truth.ofBool, Comparison.admits]

theorem Cell.compareKnown_self (collation : Collation) (cell : Cell) :
    compareKnown collation cell cell = .eq :=
  (compares_compareKnown collation cell cell).eq_eq.2 rfl

/-- What is stored in a column of numbers is compared as it is. -/
theorem Cell.toNumber_of_store {affinity : Affinity} (hnumeric : affinity.isNumeric) {cell : Cell}
    (h : affinity.store cell = cell) : cell.toNumber = cell := by
  have hinteger : ∀ (x : Binary64) (s : String), (Cell.real x).toInteger ≠ .text s := by
    intro x s
    rw [toInteger]
    split
    · split <;> exact Cell.noConfusion
    · exact Cell.noConfusion
  cases cell with
  | text s =>
    rw [toNumber]
    cases hread : Numeral.read? s with
    | none => rfl
    | some number =>
      cases affinity with
      | integer =>
        rw [Affinity.store, toNumber, hread] at h
        cases number with
        | integer i => cases h
        | real x => exact absurd h (hinteger x s)
      | real =>
        rw [Affinity.store, toNumber, hread] at h
        cases number <;> cases h
      | _ => cases hnumeric
  | _ => rfl

theorem Operand.comparand_of_isNumeric {affinity : Affinity} (haffinity : a.affinity = some affinity)
    (hnumeric : affinity.isNumeric) (cell : Cell) : a.comparand cell = cell.toNumber := by
  rw [comparand, haffinity]
  cases affinity with
  | integer => rfl
  | real => rfl
  | _ => cases hnumeric

theorem order_eq_eq_iff {i j : Int} : order i j = .eq ↔ i = j :=
  (compares_order (fun _ _ => Iff.rfl) Function.injective_id i j).eq_eq

/-- A cell in a column of integers that is equal to an integer is read as that one. -/
theorem Operand.asInteger?_of_compare {i : Int64} (haffinity : a.affinity = some .integer)
    (hstored : Affinity.integer.store a.cell = a.cell) (hp : p.cell = .integer i) (h : a.compare .eq p = .yes) :
    a.cell.asInteger? = some i := by
  obtain ⟨hknown, -, hlevel⟩ := compare_eq_iff.1 h
  have hkey : (Cell.integer i).toNumber = .integer i := rfl
  rw [comparand_of_isNumeric haffinity rfl, Cell.toNumber_of_store rfl hstored] at hknown hlevel
  rw [comparand_of_isNumeric haffinity rfl, hp, hkey] at hlevel
  generalize a.cell = cell at hknown hlevel
  cases cell with
  | null => cases hknown
  | integer j => exact congrArg some (Int64.toInt_inj.1 (order_eq_eq_iff.1 hlevel))
  | real x =>
    rw [Cell.asInteger?, Binary64.truncate_of_rank (order_eq_eq_iff.1 hlevel), Word.clamp_toInt]
  | text s => cases hlevel
  | blob bytes => cases hlevel

/-- A cell in a column of doubles that is equal to a double is one. -/
theorem Operand.exists_real_of_compare {x : Binary64} (haffinity : a.affinity = some .real)
    (hstored : Affinity.real.store a.cell = a.cell) (h : a.compare .eq (.real x) = .yes) :
    ∃ y, a.cell = .real y := by
  obtain ⟨hknown, -, hlevel⟩ := compare_eq_iff.1 h
  have hkey : (Cell.real x).toNumber = .real x := rfl
  have hnumber := Cell.toNumber_of_store rfl hstored
  rw [comparand_of_isNumeric haffinity rfl, hnumber] at hknown hlevel
  rw [comparand_of_isNumeric haffinity rfl, Param.cell, hkey] at hlevel
  rw [Affinity.store, hnumber] at hstored
  generalize a.cell = cell at hknown hlevel hstored
  cases cell with
  | null => cases hknown
  | integer j => cases hstored
  | real y => exact ⟨y, rfl⟩
  | text s => cases hlevel
  | blob bytes => cases hlevel

/-- A cell in a column of texts that is equal to a text is one. -/
theorem Operand.exists_text_of_compare {s : String} (haffinity : a.affinity = some .text)
    (hstored : Affinity.text.store a.cell = a.cell) (h : a.compare .eq (.text s) = .yes) :
    ∃ t, a.cell = .text t := by
  obtain ⟨hknown, -, hlevel⟩ := compare_eq_iff.1 h
  have hcomparand : ∀ cell, a.comparand cell = cell.toText := by
    intro cell
    rw [comparand, haffinity]
    rfl
  have hkey : (Cell.text s).toText = .text s := rfl
  rw [Affinity.store] at hstored
  rw [hcomparand, hstored] at hknown hlevel
  rw [hcomparand, Param.cell, hkey] at hlevel
  generalize a.cell = cell at hknown hlevel hstored
  cases cell with
  | null => cases hknown
  | integer j => cases hstored
  | real y => cases hstored
  | text t => exact ⟨t, rfl⟩
  | blob bytes => cases hlevel

/-- A cell that a column keeps is equal to itself as a value. -/
theorem Operand.compare_self (hstored : a.comparand a.cell = a.cell) (hp : p.cell = a.cell)
    (hknown : a.cell.isNull = false) : a.compare .eq p = .yes := by
  rw [compare_eq_iff, hp, hstored]
  exact ⟨hknown, hknown, Cell.compareKnown_self _ _⟩

/-- A text in a column of texts that is equal to one text is equal to itself. -/
theorem Operand.compare_text {s t : String} (haffinity : a.affinity = some .text)
    (hstored : Affinity.text.store a.cell = a.cell) (hs : a.cell.asText? = some s)
    (h : a.compare .eq (.text t) = .yes) : a.compare .eq (.text s) = .yes := by
  obtain ⟨u, hu⟩ := exists_text_of_compare haffinity hstored h
  rw [hu] at hs
  obtain rfl := Option.some.inj hs
  refine compare_self ?_ hu.symm (by rw [hu]; rfl)
  rw [comparand, haffinity, hu]
  rfl

end Sql

/-! ## Keys of one column -/

namespace Kind

/-- A cell is read as a value that is bound so. -/
def Reads (kind : Kind) (cell : Cell) (p : Param) : Prop :=
  match kind with
  | .integer => ∃ i, cell.asInteger? = some i ∧ p = .integer i
  | .boolean => ∃ b, cell.asInteger?.map (· != 0) = some b ∧ p = .bool b
  | .real => ∃ x, cell.asReal? = some x ∧ p = .real x
  | .text => ∃ s, cell.asText? = some s ∧ p = .text s
  | .timestamp => ∃ s, cell.asText? = some s ∧ p = .text s

theorem reads_of_ofJson? {kind : Kind} {cell : Cell} {p : Param} (hnull : (kind.decode cell).isNull = false)
    (hp : Param.ofJson? (kind.decode cell) = some p) : kind.Reads cell p := by
  have hreal : ∀ x, (Json.ofBinary64 x).isNull = false → Param.ofJson? (Json.ofBinary64 x) = some (.real x) := by
    intro x hx
    rw [Json.ofBinary64] at hx ⊢
    split at hx
    · next hfinite =>
      rw [if_pos hfinite]
      rfl
    · cases hx
  cases kind <;> rw [decode] at hnull hp <;> rw [Reads]
  case integer =>
    cases hcell : cell.asInteger? <;> rw [hcell] at hnull hp
    · cases hnull
    · exact ⟨_, rfl, (Option.some.inj hp).symm⟩
  case boolean =>
    cases hcell : cell.asInteger? <;> rw [hcell] at hnull hp
    · cases hnull
    · exact ⟨_, rfl, (Option.some.inj hp).symm⟩
  case real =>
    cases hcell : cell.asReal? with
    | none =>
      rw [hcell] at hnull
      cases hnull
    | some x =>
      rw [hcell] at hnull hp
      exact ⟨x, rfl, (Option.some.inj ((hreal x hnull).symm.trans hp)).symm⟩
  all_goals
    cases hcell : cell.asText? <;> rw [hcell] at hnull hp
    · cases hnull
    · exact ⟨_, rfl, (Option.some.inj hp).symm⟩

variable {upper lower : Kind} {a : Operand} {cell other : Cell} {p q : Param}

theorem exists_text {s : String} (h : upper.Reads cell (.text s)) (hother : upper.Reads other q) :
    ∃ t, q = .text t := by
  cases upper <;> obtain ⟨_, -, hkind⟩ := h <;> cases hkind <;> exact hother.imp fun _ => And.right

/-- A cell that is equal to one key and read as another one of the same column is equal to that one too. -/
theorem compare_eq_yes (haffinity : a.affinity = some lower.affinity) (hstored : lower.affinity.store a.cell = a.cell)
    (hread : lower.decode a.cell = upper.decode cell) (hnull : (upper.decode cell).isNull = false)
    (hp : Param.ofJson? (upper.decode cell) = some p) (hnull' : (upper.decode other).isNull = false)
    (hq : Param.ofJson? (upper.decode other) = some q) (h : a.compare .eq q = .yes) : a.compare .eq p = .yes := by
  have hupper := reads_of_ofJson? hnull hp
  have hother := reads_of_ofJson? hnull' hq
  have hlower : lower.Reads a.cell p := reads_of_ofJson? (hread ▸ hnull) (hread ▸ hp)
  -- The keys are of one column, so the one that the cell is equal to is bound as the one that it is read as.
  cases lower with
  | integer =>
    obtain ⟨i, hi, rfl⟩ := hlower
    obtain ⟨j, rfl⟩ : ∃ j, q = .integer j := by
      cases upper <;> obtain ⟨_, -, hkind⟩ := hupper <;> cases hkind
      exact hother.imp fun _ => And.right
    have hj := Operand.asInteger?_of_compare haffinity hstored rfl h
    rwa [Option.some.inj (hi.symm.trans hj)]
  | boolean =>
    obtain ⟨b, hb, rfl⟩ := hlower
    obtain ⟨c, rfl⟩ : ∃ c, q = .bool c := by
      cases upper <;> obtain ⟨_, -, hkind⟩ := hupper <;> cases hkind
      exact hother.imp fun _ => And.right
    have hj := Operand.asInteger?_of_compare haffinity hstored rfl h
    have hbc : b = c := by
      rw [hj, Option.map_some, Option.some.injEq] at hb
      rw [← hb]
      cases c <;> rfl
    rwa [hbc]
  | real =>
    obtain ⟨x, hx, rfl⟩ := hlower
    obtain ⟨y, rfl⟩ : ∃ y, q = .real y := by
      cases upper <;> obtain ⟨_, -, hkind⟩ := hupper <;> cases hkind
      exact hother.imp fun _ => And.right
    obtain ⟨z, hz⟩ := Operand.exists_real_of_compare haffinity hstored h
    rw [hz] at hx
    obtain rfl := Option.some.inj hx
    refine Operand.compare_self ?_ hz.symm (by rw [hz]; rfl)
    rw [Operand.comparand_of_isNumeric haffinity rfl, hz]
    rfl
  | text =>
    obtain ⟨s, hs, rfl⟩ := hlower
    obtain ⟨t, rfl⟩ := exists_text hupper hother
    exact Operand.compare_text haffinity hstored hs h
  | timestamp =>
    obtain ⟨s, hs, rfl⟩ := hlower
    obtain ⟨t, rfl⟩ := exists_text hupper hother
    exact Operand.compare_text haffinity hstored hs h

end Kind

end RecordQuery
