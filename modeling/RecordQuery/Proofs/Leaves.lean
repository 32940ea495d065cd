import RecordQuery.Json.Printer
import RecordQuery.Proofs.Decimal.Layout
import RecordQuery.Proofs.Records
import RecordQuery.Store.Row
/-!
# Leaves and their texts

What a column holds is read as a leaf (`Kind.isLeaf_decode`), and leaves are told apart by their texts
(`Json.eq_of_compact_eq`): by the first character, and within one sort of leaf by the rest. A leaf that is not null
has no text in common with what is nested either (`Json.compact_ne_of_isLeaf`).
-/

namespace RecordQuery

namespace Json

/-! ## Quoted texts -/

/-- The characters that are escaped by one letter. -/
def escapes : List (Char × Char) :=
  [('"', '"'), ('\\', '\\'), ('\x08', 'b'), ('\x0c', 'f'), ('\n', 'n'), ('\r', 'r'), ('\t', 't')]

/-- A character is escaped by a letter or by its number, or stands for itself. -/
theorem escape_cases (c : Char) : (∃ letter, (c, letter) ∈ escapes ∧ escape c = ['\\', letter]) ∨
    (c.toNat < 0x20 ∧ escape c =
      ['\\', 'u', '0', '0', Nat.digitChar (c.toNat / 16), Nat.digitChar (c.toNat % 16)]) ∨
    (c ≠ '\\' ∧ escape c = [c]) := by
  unfold escape
  split
  case h_8 =>
    next hbackslash _ _ _ _ _ =>
    split
    · next h => exact .inr (.inl ⟨h, rfl⟩)
    · exact .inr (.inr ⟨hbackslash, rfl⟩)
  all_goals exact .inl ⟨_, by decide, rfl⟩

/-- No escape begins another one. -/
theorem eq_of_escape_append {c d : Char} {cs ds : List Char} (h : escape c ++ cs = escape d ++ ds) :
    c = d ∧ cs = ds := by
  have hletter : ∀ e ∈ escapes, e.2 ≠ 'u' := by decide
  have hescapes : ∀ e ∈ escapes, ∀ f ∈ escapes, e.2 = f.2 → e.1 = f.1 := by decide
  have hdigit : ∀ m < 16, ∀ n < 16, Nat.digitChar m = Nat.digitChar n → m = n := by decide
  obtain ⟨x, hx, hc⟩ | ⟨hlow, hc⟩ | ⟨hbackslash, hc⟩ := escape_cases c <;>
    obtain ⟨y, hy, hd⟩ | ⟨hlow', hd⟩ | ⟨hbackslash', hd⟩ := escape_cases d <;>
    rw [hc, hd] at h <;> simp only [List.cons_append, List.nil_append, List.cons.injEq, true_and] at h
  · exact ⟨hescapes _ hx _ hy h.1, h.2⟩
  · exact absurd h.1 (hletter _ hx)
  · exact absurd h.1.symm hbackslash'
  · exact absurd h.1.symm (hletter _ hy)
  · obtain ⟨hhigh, hrest, hall⟩ := h
    have hhigh := hdigit _ (by omega) _ (by omega) hhigh
    have hrest := hdigit _ (by omega) _ (by omega) hrest
    exact ⟨Char.toNat_inj.1 (by omega), hall⟩
  · exact absurd h.1.symm hbackslash'
  · exact absurd h.1 hbackslash
  · exact absurd h.1 hbackslash
  · exact h

theorem eq_of_flatMap_escape {cs ds : List Char} (h : cs.flatMap escape = ds.flatMap escape) : cs = ds := by
  have hne : ∀ c, escape c ≠ [] := by
    intro c
    obtain ⟨x, -, hc⟩ | ⟨-, hc⟩ | ⟨-, hc⟩ := escape_cases c <;> simp [hc]
  induction cs generalizing ds with
  | nil =>
    cases ds with
    | nil => rfl
    | cons d ds => exact absurd h.symm (by simp [hne])
  | cons c cs ih =>
    cases ds with
    | nil => exact absurd h (by simp [hne])
    | cons d ds =>
      rw [List.flatMap_cons, List.flatMap_cons] at h
      obtain ⟨rfl, hrest⟩ := eq_of_escape_append h
      rw [ih hrest]

/-- Texts are told apart in quotes. -/
theorem eq_of_quoted {s t : String} (h : quoted s = quoted t) : s = t := by
  have hlist : s.toList.flatMap escape = t.toList.flatMap escape := by
    simpa [quoted] using congrArg String.toList h
  exact String.toList_inj.1 (eq_of_flatMap_escape hlist)

/-! ## Leaves -/

/-- A leaf: null, a truth value, an integer, a finite double or a text. -/
def IsLeaf : Json → Prop
  | .null => True
  | .bool _ => True
  | .number (.integer _) => True
  | .number (.large _) => False
  | .number (.real x) => x.isFinite
  | .string _ => True
  | .array _ => False
  | .object _ => False

/-- The character that opens a value's text, where a zero stands for all that open a number. -/
def opening : Json → Char
  | .null => 'n'
  | .bool true => 't'
  | .bool false => 'f'
  | .number _ => '0'
  | .string _ => '"'
  | .array _ => '['
  | .object _ => '\x7b'

/-- A character, where a zero stands for all that open a number. -/
def opener (c : Char) : Char := if c = '-' || c.isDigit then '0' else c

theorem opener_number {c : Char} (h : c = '-' ∨ c.isDigit) : opener c = '0' := if_pos (by simpa using h)

theorem toString_int_ne_nil (i : Int) : (toString i).toList ≠ [] := by
  cases i with
  | ofNat n =>
    have htext : (toString (Int.ofNat n)).toList = Nat.toDigits 10 n := Nat.toList_repr
    rw [htext]
    exact Nat.toDigits_ne_nil
  | negSucc n =>
    have htext : toString (Int.negSucc n) = "-" ++ (n + 1).repr := rfl
    simp [htext]

theorem opener_toString_int (i : Int) : ∃ c rest, (toString i).toList = c :: rest ∧ opener c = '0' := by
  obtain ⟨c, rest, heq⟩ := List.exists_cons_of_ne_nil (toString_int_ne_nil i)
  exact ⟨c, rest, heq, opener_number (Text.mem_toString_int (heq ▸ List.mem_cons_self))⟩

theorem compact_real {x : Binary64} (h : x.isFinite) :
    (Json.number (.real x)).compact = Layout.json.write (Decimal.shortest .even) x := by
  rw [compact, Number.compact, if_pos h]

/-- The text of a leaf, or of what is nested, opens as it should. -/
theorem exists_opening {json : Json} (h : json.IsLeaf ∨ ∀ n, json ≠ .number n) :
    ∃ c rest, json.compact.toList = c :: rest ∧ opener c = json.opening := by
  cases json with
  | null => exact ⟨'n', _, rfl, rfl⟩
  | bool b => cases b <;> exact ⟨_, _, rfl, rfl⟩
  | number n =>
    have hleaf := h.resolve_right fun h => h n rfl
    cases n with
    | integer i => exact opener_toString_int i.toInt
    | large n => exact absurd hleaf id
    | real x =>
      obtain ⟨⟨c, rest, heq, hc⟩, -⟩ := Layout.read?_decimal .json (Decimal.shortest .even x)
      rw [compact_real hleaf, Layout.write, String.toList_ofList, heq]
      split
      · exact ⟨'-', c :: rest, rfl, opener_number (.inl rfl)⟩
      · exact ⟨c, rest, rfl, opener_number (.inr hc)⟩
  | string s =>
    refine ⟨'"', s.toList.flatMap escape ++ ['"'], ?_, rfl⟩
    rw [compact, quoted]
    simp
  | array items =>
    refine ⟨'[', (",".intercalate (compactItems items)).toList ++ [']'], ?_, rfl⟩
    rw [compact]
    simp
  | object members =>
    refine ⟨'\x7b', (",".intercalate (compactMembers members)).toList ++ ['\x7d'], ?_, rfl⟩
    rw [compact]
    simp

/-- The text of a double has a point or an exponent, and that of an integer has none. -/
theorem compact_integer_ne_real (i : Int64) {x : Binary64} (hx : x.isFinite) :
    (Json.number (.integer i)).compact ≠ (Json.number (.real x)).compact := by
  rw [compact_real hx]
  intro h
  obtain ⟨c, hc, hmark⟩ := Layout.json.exists_mark rfl (Decimal.shortest .even x)
  have hmem : c ∈ (toString i.toInt).toList := by
    have htext : toString i.toInt = Layout.json.write (Decimal.shortest .even) x := h
    rw [htext, Layout.write, String.toList_ofList]
    exact List.mem_append_right _ hc
  rcases Text.mem_toString_int hmem with rfl | hdigit
  · exact absurd hmark (by decide)
  · rcases hmark with rfl | rfl <;> exact absurd hdigit (by decide)

theorem opening_eq_of_compact_eq {a b : Json} (ha : a.IsLeaf ∨ ∀ n, a ≠ .number n)
    (hb : b.IsLeaf ∨ ∀ n, b ≠ .number n) (h : a.compact = b.compact) : a.opening = b.opening := by
  obtain ⟨c, rest, hc, hopening⟩ := exists_opening ha
  obtain ⟨d, rest', hd, hopening'⟩ := exists_opening hb
  rw [h, hd] at hc
  rw [← hopening, ← hopening', (List.cons.inj hc).1]

theorem eq_of_compact_number {m n : Number} (hm : (Json.number m).IsLeaf) (hn : (Json.number n).IsLeaf)
    (h : (Json.number m).compact = (Json.number n).compact) : m = n := by
  cases m with
  | large m => exact absurd hm id
  | integer i =>
    cases n with
    | large n => exact absurd hn id
    | integer j => exact congrArg Number.integer (compact_ofInt64_inj.1 h)
    | real y => exact absurd h (compact_integer_ne_real i hn)
  | real x =>
    cases n with
    | large n => exact absurd hn id
    | integer j => exact absurd h.symm (compact_integer_ne_real j hm)
    | real y =>
      rw [compact_real hm, compact_real hn] at h
      exact congrArg Number.real (Binary64.eq_of_write rfl hm hn h)

/-- Leaves are told apart by their texts. -/
theorem eq_of_compact_eq {a b : Json} (ha : a.IsLeaf) (hb : b.IsLeaf) (h : a.compact = b.compact) : a = b := by
  have hopening := opening_eq_of_compact_eq (.inl ha) (.inl hb) h
  rcases a with _ | (_ | _) | m | s | items | members <;>
    rcases b with _ | (_ | _) | n | t | items' | members' <;>
    first
    | rfl
    | (simp [opening] at hopening; done)
    | skip
  · exact congrArg number (eq_of_compact_number ha hb h)
  · exact congrArg string (eq_of_quoted h)
  · exact absurd ha id
  · exact absurd ha id

end Json

/-- What a column holds is read as a leaf. -/
theorem Kind.isLeaf_decode (kind : Kind) (cell : Sql.Cell) : (kind.decode cell).IsLeaf := by
  cases kind with
  | integer => unfold decode; cases cell.asInteger? <;> exact trivial
  | boolean => unfold decode; cases cell.asInteger? <;> exact trivial
  | real =>
    unfold decode
    cases cell.asReal? with
    | none => exact trivial
    | some x =>
      simp only [Option.elim, Json.ofBinary64]
      split
      · next h => exact h
      · exact trivial
  | text => unfold decode; cases cell.asText? <;> exact trivial
  | timestamp => unfold decode; cases cell.asText? <;> exact trivial

end RecordQuery
