import RecordQuery.Proofs.Where.Written
import RecordQuery.Sql.Write
/-!
# Places in the text of a statement

`placesIn` finds the places of bound values in a text as a database does that knows nothing of how the text
was made: question marks with the digits behind them, outside double quotes. Names are written between
quotes that they cannot end, so nothing but the bound values of a text has a place in it, and the places are
numbered from left to right.

* `isSilent_quote`: a quoted name has no place, whatever characters it has;
* `placesIn_render`: the places in the text of tokens are those of the values that the tokens bind.
-/

namespace RecordQuery.Sql

/-! ## The places in a text -/

/-- The places of bound values in a text, which begins within double quotes or outside. -/
def placesIn (isQuoted : Bool) : List Char → List String
  | [] => []
  | c :: cs =>
    if c = '"' then placesIn (!isQuoted) cs
    else if c = '?' ∧ isQuoted = false then
      String.ofList (c :: cs.takeWhile Char.isDigit) :: placesIn isQuoted cs
    else placesIn isQuoted cs

/-- A text without places, whose quotes are closed. -/
def IsSilent (s : String) : Prop :=
  ∀ rest, placesIn false (s.toList ++ rest) = placesIn false rest

/-- The places of numbers from one on. -/
def placesFrom (n : Nat) (values : List Param) : List String :=
  (List.range' n values.length).map place

theorem isSilent_append {s t : String} (hs : IsSilent s) (ht : IsSilent t) : IsSilent (s ++ t) := by
  intro rest
  rw [String.toList_append, List.append_assoc, hs, ht]

theorem isSilent_empty : IsSilent "" := fun _ => rfl

theorem isSilent_ite {p : Prop} [Decidable p] {s t : String} (hs : IsSilent s) (ht : IsSilent t) :
    IsSilent (if p then s else t) := by
  split
  · exact hs
  · exact ht

/-- Characters that are neither quotes nor question marks are passed over. -/
theorem placesIn_append {cs : List Char} (h : ∀ c ∈ cs, c ≠ '"' ∧ c ≠ '?') (isQuoted : Bool)
    (rest : List Char) : placesIn isQuoted (cs ++ rest) = placesIn isQuoted rest := by
  induction cs with
  | nil => rfl
  | cons c cs ih =>
    obtain ⟨⟨hq, hm⟩, hcs⟩ := List.forall_mem_cons.1 h
    simp [placesIn, hq, hm, ih hcs]

theorem isSilent_of_forall {s : String} (h : ∀ c ∈ s.toList, c ≠ '"' ∧ c ≠ '?') : IsSilent s :=
  placesIn_append h false

/-- A text that is known is looked through. -/
theorem isSilent_of_all {s : String} (h : (s.toList.all fun c => c ≠ '"' ∧ c ≠ '?') = true) : IsSilent s :=
  isSilent_of_forall (by simpa using h)

/-- A quoted name has no place, whatever it is: what stands in it is within the quotes. -/
theorem isSilent_quote (name : String) : IsSilent (quote name) := by
  have hin : ∀ cs rest : List Char, placesIn true (cs.flatMap (fun c => if c = '"' then ['"', '"'] else [c]) ++
      '"' :: rest) = placesIn false rest := by
    intro cs rest
    induction cs with
    | nil => simp [placesIn]
    | cons c cs ih =>
      by_cases hc : c = '"'
      · simpa [placesIn, hc] using ih
      · simpa [placesIn, hc] using ih
  intro rest
  simpa [quote, placesIn] using hin name.toList rest

theorem isSilent_intercalate {separator : String} (hs : IsSilent separator) {parts : List String}
    (h : ∀ part ∈ parts, IsSilent part) : IsSilent (separator.intercalate parts) := by
  induction parts with
  | nil => exact isSilent_empty
  | cons part parts ih =>
    obtain ⟨hp, hps⟩ := List.forall_mem_cons.1 h
    cases parts with
    | nil => simpa using hp
    | cons other parts =>
      rw [String.intercalate_cons_cons]
      exact isSilent_append (isSilent_append hp hs) (ih hps)

theorem ne_of_isDigit {c : Char} (h : c.isDigit) : c ≠ '"' ∧ c ≠ '?' := by
  constructor <;> rintro rfl <;> exact absurd h (by decide)

/-- A number is written with digits and a sign. -/
theorem isSilent_toString (i : Int) : IsSilent (toString i) := by
  refine isSilent_of_forall fun c hc => ?_
  rcases Text.mem_toString_int hc with rfl | hd
  · decide
  · exact ne_of_isDigit hd

/-! ## The text of tokens -/

namespace Token

theorem Ends.append {cs ds : List Char} (hc : Ends cs) (hd : Ends ds) : Ends (cs ++ ds) := by
  cases hc with
  | nil => exact hd
  | blank cs => exact .blank _
  | closing cs => exact .closing _
  | comma cs => exact .comma _

/-- A keyword, a number or an operator has no place. -/
theorem isSilent_word {s : String} (h : (word s).isPlain) : IsSilent s := by
  simp only [isPlain, Bool.or_eq_true, Bool.and_eq_true, List.contains_iff_mem, operators] at h
  rcases h with ho | ⟨-, ha⟩
  · simp only [List.mem_cons, List.not_mem_nil, or_false] at ho
    rcases ho with rfl | rfl | rfl | rfl | rfl | rfl <;> exact isSilent_of_all (by decide)
  · exact isSilent_of_forall fun c hc =>
      ⟨ne_of_isAlphanum (List.all_eq_true.1 ha c hc) rfl, ne_of_isAlphanum (List.all_eq_true.1 ha c hc) rfl⟩

/-- A bound value is written as the place of its number, which ends where no digit follows. -/
theorem placesIn_place (n : Nat) {rest : List Char} (hr : Ends rest) :
    placesIn false ((place n).toList ++ rest) = place n :: placesIn false rest := by
  have hd : ∀ c ∈ n.repr.toList, c.isDigit := fun c hc => Text.isDigit_of_mem_repr hc
  obtain ⟨htake, -⟩ := takeWhile_append_ends hd hr rfl rfl rfl
  have hplace : (place n).toList = '?' :: n.repr.toList := by simp [place]
  have hskip : placesIn false (n.repr.toList ++ rest) = placesIn false rest :=
    placesIn_append (fun c hc => ne_of_isDigit (hd c hc)) false rest
  rw [hplace, List.cons_append, placesIn, if_neg (by decide), if_pos (by decide), htake, hskip, ← hplace,
    String.ofList_toList]

/-- The places in the text of a token. -/
theorem placesIn_text (n : Nat) {t : Token} (ht : t.isPlain) {rest : List Char} (hr : t = .opening ∨ Ends rest) :
    placesIn false ((t.text n).toList ++ rest) = placesFrom n t.param?.toList ++ placesIn false rest := by
  cases t with
  | word s => exact isSilent_word ht rest
  | name s => exact isSilent_quote s rest
  | opening => exact isSilent_of_all (s := "(") (by decide) rest
  | closing => exact isSilent_of_all (s := ")") (by decide) rest
  | comma => exact isSilent_of_all (s := ",") (by decide) rest
  | param p => exact placesIn_place n (by simpa using hr)

theorem placesFrom_append (n : Nat) (ps qs : List Param) :
    placesFrom n (ps ++ qs) = placesFrom n ps ++ placesFrom (n + ps.length) qs := by
  rw [placesFrom, placesFrom, placesFrom, List.length_append, ← List.map_append, List.range'_append_1]

/-- The places in the text of tokens are numbered from left to right. -/
theorem placesIn_render : ∀ (ts : List Token) (n : Nat) {rest : List Char}, (∀ t ∈ ts, t.isPlain) → Ends rest →
    placesIn false ((render n ts).toList ++ rest) = placesFrom n (params ts) ++ placesIn false rest
  | [], _, _, _, _ => rfl
  | [t], n, rest, hp, hr => by
    rw [params_cons, params, List.filterMap_nil, List.append_nil]
    exact placesIn_text n (hp t List.mem_cons_self) (.inr hr)
  | t :: u :: ts, n, rest, hp, hr => by
    obtain ⟨ht, hts⟩ := List.forall_mem_cons.1 hp
    have hends : t = .opening ∨ Ends (((if t.touches u then "" else " ") ++
        render (n + t.param?.toList.length) (u :: ts)).toList ++ rest) :=
      (ends_render _ t u ts).imp_right (Ends.append · hr)
    have hblank : IsSilent (if t.touches u then "" else " ") :=
      isSilent_ite isSilent_empty (isSilent_of_all (by decide))
    rw [render_cons, String.toList_append, List.append_assoc, placesIn_text n ht hends,
      String.toList_append, List.append_assoc, hblank, placesIn_render (u :: ts) _ hts hr,
      params_cons t, placesFrom_append, List.append_assoc]

end Token

/-! ## The text of a statement -/

namespace Select

theorem isSilent_rootColumn (name : String) : IsSilent (rootColumn name) :=
  isSilent_append (isSilent_of_all (by decide)) (isSilent_quote name)

theorem isSilent_sortTerm (term : SortTerm) : IsSilent term.text := by
  cases term with
  | column name => exact isSilent_rootColumn name
  | related number table key field localKey mark =>
    have halias : IsSilent ("s" ++ toString number) :=
      isSilent_append (isSilent_of_all (by decide)) (isSilent_toString number)
    -- The words between the names are looked through one by one.
    have hword : ∀ {t : String} (s : String), (s.toList.all fun c => c ≠ '"' ∧ c ≠ '?') = true →
        IsSilent t → IsSilent (t ++ s) := fun s hs ht => isSilent_append ht (isSilent_of_all hs)
    refine hword ")" (by decide) (isSilent_append ?_ ?hmark)
    case hmark =>
      cases mark with
      | none => exact isSilent_empty
      | some mark =>
        refine isSilent_append (isSilent_append (isSilent_append (isSilent_append ?_ halias) ?_)
          (isSilent_quote mark)) ?_ <;> exact isSilent_of_all (by decide)
    refine isSilent_append (hword " = " (by decide) ?_) (isSilent_rootColumn localKey)
    refine isSilent_append (hword "." (by decide) (isSilent_append ?_ halias)) (isSilent_quote key)
    refine hword " WHERE " (by decide) (isSilent_append (hword " AS " (by decide) ?_) halias)
    refine isSilent_append (hword " FROM " (by decide) ?_) (isSilent_quote table)
    refine isSilent_append (hword "." (by decide) ?_) (isSilent_quote field)
    exact isSilent_append (isSilent_of_all (by decide)) halias

/-- What stands before the conditions of a statement. -/
theorem isSilent_columns (columns : List String) : IsSilent (", ".intercalate (columns.map rootColumn)) := by
  refine isSilent_intercalate (isSilent_of_all (by decide)) fun part hpart => ?_
  obtain ⟨column, -, rfl⟩ := List.mem_map.1 hpart
  exact isSilent_rootColumn column

theorem isPlain_whereTokens (q : Select) : ∀ t ∈ q.whereTokens, t.isPlain := by
  cases h : q.conditions with
  | nil => simp [whereTokens, h]
  | cons c cs =>
    rw [whereTokens, h]
    exact List.forall_mem_cons.2
      ⟨Clause.isPlain_word _ (by simp), Clause.isPlain_tokens (.all (c :: cs))⟩

/-- The conditions of a statement have a place for each value, whatever ends them. -/
theorem placesIn_fromText (q : Select) {rest : List Char} (hr : Token.Ends rest) :
    placesIn false (q.fromText.toList ++ rest) = placesFrom 1 q.params ++ placesIn false rest := by
  have hfront : IsSilent (" FROM " ++ quote q.table ++ " AS " ++ rootName) := by
    refine isSilent_append (isSilent_append (isSilent_append ?_ (isSilent_quote q.table)) ?_) ?_ <;>
      exact isSilent_of_all (by decide)
  have hwhere := Token.placesIn_render q.whereTokens 1 (isPlain_whereTokens q) hr
  rw [fromText, String.toList_append, List.append_assoc, hfront, params]
  cases h : q.whereTokens with
  | nil => rfl
  | cons t ts =>
    have hblank : IsSilent " " := isSilent_of_all (by decide)
    rw [h] at hwhere
    simp only [List.isEmpty_cons, Bool.false_eq_true, if_false, String.toList_append, List.append_assoc, whereText, h]
    rw [hblank, hwhere]

/-- A text that ends what stands before it and has no place. -/
def IsTail (s : String) : Prop := Token.Ends s.toList ∧ IsSilent s

theorem isTail_empty : IsTail "" := ⟨.nil, isSilent_empty⟩

theorem isTail_append {s t : String} (hs : IsTail s) (ht : IsTail t) : IsTail (s ++ t) :=
  ⟨by rw [String.toList_append]; exact hs.1.append ht.1, isSilent_append hs.2 ht.2⟩

/-- A clause that begins with a blank. -/
theorem isTail_clause {s t : String} {cs : List Char} (hs : s.toList = ' ' :: cs)
    (h : (s.toList.all fun c => c ≠ '"' ∧ c ≠ '?') = true) (ht : IsSilent t) : IsTail (s ++ t) :=
  ⟨by rw [String.toList_append, hs]; exact .blank _, isSilent_append (isSilent_of_all h) ht⟩

theorem isSilent_order (order : List (SortTerm × Direction)) :
    IsSilent (", ".intercalate (order.map fun (term, d) => term.text ++ " " ++ d.keyword)) := by
  refine isSilent_intercalate (isSilent_of_all (by decide)) fun part hpart => ?_
  obtain ⟨⟨term, d⟩, -, rfl⟩ := List.mem_map.1 hpart
  refine isSilent_append (isSilent_append (isSilent_sortTerm term) (isSilent_of_all (by decide))) ?_
  cases d <;> exact isSilent_of_all (by decide)

/-- The places in a statement are those of its conditions, whatever stands before and behind them. -/
theorem placesIn_from {front s t u : String} (hfront : IsSilent front) (q : Select) (hs : IsTail s)
    (ht : IsTail t) (hu : IsTail u) :
    placesIn false (front ++ q.fromText ++ s ++ t ++ u).toList = placesFrom 1 q.params := by
  obtain ⟨hends, hsilent⟩ := isTail_append (isTail_append hs ht) hu
  have htail := hsilent []
  rw [List.append_nil] at htail
  have hassoc : front ++ q.fromText ++ s ++ t ++ u = front ++ (q.fromText ++ (s ++ t ++ u)) := by
    simp only [String.append_assoc]
  rw [hassoc, String.toList_append, hfront, String.toList_append, placesIn_fromText q hends, htail, placesIn,
    List.append_nil]

/-- The statement for columns has the places of its values, in their order. -/
theorem placesIn_text (q : Select) (columns : List String) :
    placesIn false (q.text columns).toList = placesFrom 1 q.params := by
  have hfront : IsSilent ("SELECT " ++ ", ".intercalate (columns.map rootColumn)) :=
    isSilent_append (isSilent_of_all (by decide)) (isSilent_columns columns)
  refine placesIn_from hfront q ?_ ?_ ?_
  · split
    · exact isTail_empty
    · exact isTail_clause rfl (by decide) (isSilent_order q.order)
  · split
    · exact isTail_clause rfl (by decide) (isSilent_toString _)
    · exact isTail_empty
  · split
    · split
      · exact isTail_clause rfl (by decide) (isSilent_toString _)
      · exact isTail_empty
    · exact isTail_empty

/-- So has the statement that counts the rows. -/
theorem placesIn_countText (q : Select) : placesIn false q.countText.toList = placesFrom 1 q.params := by
  have hfront : IsSilent "SELECT COUNT(*)" := isSilent_of_all (by decide)
  simpa [countText] using placesIn_from hfront q isTail_empty isTail_empty isTail_empty

end Select

end RecordQuery.Sql
