import RecordQuery.Proofs.Integers
import RecordQuery.Sql.Lexeme
import RecordQuery.Sql.Select
import RecordQuery.Text.Digits
/-!
# Reading the text of a condition

What `Token.render` writes is read back. `Token.take?` takes one token off the front of a text as SQL has
it: a quoted name, a place of a bound value, a bracket, a comma, a word or an operator. A place is read as
the value that is bound to its number, so the values are put into the text on the way.

* `take?_text`: what stands at the front of a text is taken off it, if what follows cannot go on with it;
* `readAll?_render`: the same for all tokens, whose places are numbered on from those before them;
* `read?_render`: a text is read as the tokens that it was written from.
-/

namespace RecordQuery.Sql

namespace Token

/-! ## Reading -/

/-- The value that is bound to the place of a number; places are counted from one. -/
def bound? (values : List Param) (digits : List Char) : Option Param :=
  match Text.digitsValue digits with
  | 0 => none
  | n + 1 => values[n]?

/-- Takes one token off the front of a text that does not begin with a blank. -/
def take? (values : List Param) : List Char → Option (Token × List Char)
  | [] => none
  | c :: cs =>
    if c = '"' then
      (Lexeme.takeQuoted? '"' cs).map fun (s, rest) => (.name (String.ofList s), rest)
    else if c = '?' then
      (bound? values (cs.takeWhile Char.isDigit)).map fun p => (.param p, cs.dropWhile Char.isDigit)
    else if c = '(' then some (.opening, cs)
    else if c = ')' then some (.closing, cs)
    else if c = ',' then some (.comma, cs)
    else if Lexeme.isNamePart c then
      some (.word (String.ofList ((c :: cs).takeWhile Lexeme.isNamePart)),
        (c :: cs).dropWhile Lexeme.isNamePart)
    else
      match Lexeme.takeMark? (c :: cs) with
      | some (.mark m, rest) => some (.word m, rest)
      | _ => none

/-- The tokens of a text; `n` bounds their number. -/
def readAll? (values : List Param) : Nat → List Char → Option (List Token)
  | 0, _ => none
  | n + 1, cs =>
    match Lexeme.skip cs.length cs with
    | [] => some []
    | c :: cs => do
      let (t, rest) ← take? values (c :: cs)
      let ts ← readAll? values n rest
      some (t :: ts)

/-- The tokens of a text under bound values. -/
def read? (values : List Param) (text : String) : Option (List Token) :=
  readAll? values (text.toList.length + 1) text.toList

/-! ## Tokens that can be told apart in a text -/

/-- The operators that conditions are written with. -/
def operators : List String := ["=", "<>", ">", ">=", "<", "<="]

/-- Whether a token is no word but a keyword, a number or an operator. -/
def isPlain : Token → Bool
  | .word s => operators.contains s || (!s.toList.isEmpty && s.toList.all Char.isAlphanum)
  | _ => true

/-- What may follow a token in a text. -/
inductive Ends : List Char → Prop
  | nil : Ends []
  | blank (cs : List Char) : Ends (' ' :: cs)
  | closing (cs : List Char) : Ends (')' :: cs)
  | comma (cs : List Char) : Ends (',' :: cs)

theorem isNamePart_of_isAlphanum {c : Char} (h : c.isAlphanum) : Lexeme.isNamePart c := by
  simp only [Char.isAlphanum, Bool.or_eq_true] at h
  rcases h with h | h <;> simp [Lexeme.isNamePart, Lexeme.isNameStart, h]

/-- A character that no token of its own begins with is none of those that do. -/
theorem ne_of_isAlphanum {c d : Char} (h : c.isAlphanum) (hd : d.isAlphanum = false) : c ≠ d := by
  rintro rfl
  rw [hd] at h
  exact Bool.false_ne_true h

/-- A run of characters ends where none of its kind follows. -/
theorem takeWhile_append_ends {p : Char → Bool} {cs rest : List Char} (hp : ∀ c ∈ cs, p c)
    (hr : Ends rest) (hb : p ' ' = false) (hc : p ')' = false) (hm : p ',' = false) :
    (cs ++ rest).takeWhile p = cs ∧ (cs ++ rest).dropWhile p = rest := by
  rw [List.takeWhile_append_of_pos hp, List.dropWhile_append_of_pos hp]
  cases hr <;> simp [*]

/-- Of a quoted name all is taken up to the quote that closes it. -/
theorem takeQuoted?_name (cs rest : List Char) (hr : Ends rest) :
    Lexeme.takeQuoted? '"' (cs.flatMap (fun c => if c = '"' then ['"', '"'] else [c]) ++
      '"' :: rest) = some (cs, rest) := by
  induction cs with
  | nil => cases hr <;> simp [Lexeme.takeQuoted?]
  | cons c cs ih =>
    by_cases hc : c = '"'
    · subst hc
      simp [Lexeme.takeQuoted?, ih]
    · obtain ⟨d, ds, hd⟩ : ∃ d ds, cs.flatMap (fun c => if c = '"' then ['"', '"'] else [c]) ++
          '"' :: rest = d :: ds := List.exists_cons_of_ne_nil (by simp)
      simp only [List.flatMap_cons, hc, if_false, List.cons_append, List.nil_append]
      rw [hd] at ih ⊢
      simp [Lexeme.takeQuoted?, hc, ih]

/-- The number of a place finds the value that stands behind those before it. -/
theorem bound?_toDigits (before after : List Param) (p : Param) :
    bound? (before ++ p :: after) (Nat.toDigits 10 (before.length + 1)) = some p := by
  simp [bound?, Text.digitsValue_toDigits]

/-- An operator is taken off as a whole. -/
theorem takeMark?_operator {s : String} (hs : s ∈ operators) {rest : List Char} (hr : Ends rest) :
    Lexeme.takeMark? (s.toList ++ rest) = some (.mark s, rest) := by
  simp only [operators, List.mem_cons, List.not_mem_nil, or_false] at hs
  rcases hs with rfl | rfl | rfl | rfl | rfl | rfl <;> cases hr <;> rfl

/-- What stands at the front of a text is taken off it, a place with the value that is bound to it. -/
theorem take?_text (before after : List Param) {t : Token} (ht : t.isPlain) {rest : List Char}
    (hr : t = .opening ∨ Ends rest) :
    take? (before ++ (t.param?.toList ++ after)) ((t.text (before.length + 1)).toList ++ rest) =
      some (t, rest) := by
  cases t with
  | opening => simp [text, take?]
  | closing => simp [text, take?]
  | comma => simp [text, take?]
  | name s =>
    have hr : Ends rest := by simpa using hr
    simp [text, quote, take?, takeQuoted?_name s.toList rest hr]
  | param p =>
    have hr : Ends rest := by simpa using hr
    have hd : ∀ c ∈ Nat.toDigits 10 (before.length + 1), c.isDigit := fun c hc =>
      Nat.isDigit_of_mem_toDigits (by decide) (by decide) hc
    obtain ⟨h₁, h₂⟩ := takeWhile_append_ends hd hr rfl rfl rfl
    simp [text, take?, param?, h₁, h₂, bound?_toDigits]
  | word s =>
    have hr : Ends rest := by simpa using hr
    simp only [isPlain, Bool.or_eq_true, Bool.and_eq_true, List.contains_iff_mem] at ht
    rcases ht with ho | ⟨hne, ha⟩
    · have hm := takeMark?_operator ho hr
      simp only [operators, List.mem_cons, List.not_mem_nil, or_false] at ho
      have he : Lexeme.isNamePart '=' = false := rfl
      have hl : Lexeme.isNamePart '<' = false := rfl
      have hg : Lexeme.isNamePart '>' = false := rfl
      rcases ho with rfl | rfl | rfl | rfl | rfl | rfl <;> simp_all [text, take?]
    · have hp : ∀ c ∈ s.toList, Lexeme.isNamePart c := fun c hc =>
        isNamePart_of_isAlphanum (List.all_eq_true.1 ha c hc)
      obtain ⟨h₁, h₂⟩ := takeWhile_append_ends hp hr rfl rfl rfl
      obtain ⟨c, cs, hs⟩ : ∃ c cs, s.toList = c :: cs := List.exists_cons_of_ne_nil (by simpa using hne)
      have hc : c.isAlphanum := List.all_eq_true.1 ha c (by simp [hs])
      have hof : String.ofList (c :: cs) = s := by rw [← hs, String.ofList_toList]
      rw [hs] at hp h₁ h₂
      simp only [text, hs, List.cons_append] at h₁ h₂ ⊢
      simp only [take?, ne_of_isAlphanum hc (rfl : '"'.isAlphanum = false),
        ne_of_isAlphanum hc (rfl : '?'.isAlphanum = false),
        ne_of_isAlphanum hc (rfl : '('.isAlphanum = false),
        ne_of_isAlphanum hc (rfl : ')'.isAlphanum = false),
        ne_of_isAlphanum hc (rfl : ','.isAlphanum = false), if_false,
        isNamePart_of_isAlphanum hc, if_true, h₁, h₂, hof]

/-! ## Blanks between tokens -/

/-- Whether a character is neither a blank nor the beginning of a comment. -/
def isStart (c : Char) : Bool :=
  !(Lexeme.isSpace c || c = '\x0b' || c = '-' || c = '/' || c = '\ufeff')

theorem skip_start (n : Nat) {c : Char} (hc : isStart c) (cs : List Char) :
    Lexeme.skip n (c :: cs) = c :: cs := by
  simp only [isStart, Bool.not_eq_true', Bool.or_eq_false_iff, decide_eq_false_iff_not] at hc
  cases n with
  | zero => rfl
  | succ n => simp_all [Lexeme.skip]

/-- A token begins with a character that is no blank. -/
theorem text_eq_cons (n : Nat) {t : Token} (ht : t.isPlain) :
    ∃ c cs, (t.text n).toList = c :: cs ∧ isStart c := by
  cases t with
  | opening => simp [text, isStart, Lexeme.isSpace]
  | closing => simp [text, isStart, Lexeme.isSpace]
  | comma => simp [text, isStart, Lexeme.isSpace]
  | name s => simp [text, quote, isStart, Lexeme.isSpace]
  | param p => simp [text, isStart, Lexeme.isSpace]
  | word s =>
    simp only [isPlain, Bool.or_eq_true, Bool.and_eq_true, List.contains_iff_mem] at ht
    rcases ht with ho | ⟨hne, ha⟩
    · simp only [operators, List.mem_cons, List.not_mem_nil, or_false] at ho
      rcases ho with rfl | rfl | rfl | rfl | rfl | rfl <;>
        simp [text, isStart, Lexeme.isSpace]
    · obtain ⟨c, cs, hs⟩ : ∃ c cs, s.toList = c :: cs := List.exists_cons_of_ne_nil (by simpa using hne)
      have hc : c.isAlphanum := List.all_eq_true.1 ha c (by simp [hs])
      refine ⟨c, cs, hs, ?_⟩
      have hb : ∀ d, d.isAlphanum = false → c ≠ d := fun d hd => ne_of_isAlphanum hc hd
      simp [isStart, Lexeme.isSpace, hb ' ' rfl, hb '\t' rfl, hb '\n' rfl, hb '\r' rfl, hb '\x0c' rfl,
        hb '\x0b' rfl, hb '-' rfl, hb '/' rfl, hb '\ufeff' rfl]

/-- A blank before a token is passed over. -/
theorem skip_blank (n : Nat) {c : Char} (hc : isStart c) (cs : List Char) :
    Lexeme.skip (n + 1) (' ' :: c :: cs) = c :: cs := by
  have hn : Lexeme.isSpace c = false ∧ c ≠ '\x0b' := by
    simp only [isStart, Bool.not_eq_true', Bool.or_eq_false_iff, decide_eq_false_iff_not] at hc
    simp_all
  have hb : Lexeme.isSpace ' ' = true := rfl
  simp [Lexeme.skip, hb, hn.1, hn.2, skip_start n hc]

/-! ## All tokens of a text -/

theorem params_cons (t : Token) (ts : List Token) :
    params (t :: ts) = t.param?.toList ++ params ts := by
  cases h : t.param? <;> simp [params, h]

/-- The text of tokens is that of the first one, a blank where one is needed, and that of the others. -/
theorem render_cons (n : Nat) (t u : Token) (ts : List Token) :
    render n (t :: u :: ts) = t.text n ++ ((if t.touches u then "" else " ") ++
      render (n + t.param?.toList.length) (u :: ts)) := by
  cases h : t.param? <;> simp [render, h, String.append_assoc]

/-- The text of tokens begins with the text of the first one. -/
theorem render_eq_append (n : Nat) (t : Token) (ts : List Token) :
    ∃ more, render n (t :: ts) = t.text n ++ more := by
  cases ts with
  | nil => exact ⟨"", by simp [render]⟩
  | cons u ts => exact ⟨_, render_cons n t u ts⟩

theorem eq_of_touches {t u : Token} (h : t.touches u) : t = .opening ∨ u = .closing ∨ u = .comma := by
  cases t <;> cases u <;> simp_all [touches]

/-- What follows a token in a text is taken for no part of it. -/
theorem ends_render (n : Nat) (t u : Token) (ts : List Token) :
    t = .opening ∨
      Ends ((if t.touches u then "" else " ") ++ render n (u :: ts)).toList := by
  obtain ⟨more, hm⟩ := render_eq_append n u ts
  cases ht : t.touches u with
  | false => exact .inr (by simpa using .blank _)
  | true =>
    rcases eq_of_touches ht with h | rfl | rfl
    · exact .inl h
    · exact .inr (by simpa [hm, text] using .closing _)
    · exact .inr (by simpa [hm, text] using .comma _)

/-- A text with or without a blank in front of it is read as the tokens that it was written from, where the
values of its places come after those before them. -/
theorem readAll?_render (after : List Param) {blank : String} (hblank : blank = "" ∨ blank = " ") :
    ∀ (ts : List Token) (before : List Param) (n : Nat), (∀ t ∈ ts, t.isPlain) → ts.length < n →
      readAll? (before ++ (params ts ++ after)) n
        (blank ++ render (before.length + 1) ts).toList = some ts
  | _, _, 0, _, hn => absurd hn (Nat.not_lt_zero _)
  | [], before, n + 1, _, _ => by
    rcases hblank with rfl | rfl <;> simp [readAll?, render, Lexeme.skip, Lexeme.isSpace]
  | t :: ts, before, n + 1, hp, hn => by
    have ht : t.isPlain := hp t List.mem_cons_self
    obtain ⟨c, cs, hc, hs⟩ := text_eq_cons (before.length + 1) ht
    -- The text that is left behind the first token, and what is read of it.
    obtain ⟨rest, hr, hends, hread⟩ : ∃ rest : String,
        render (before.length + 1) (t :: ts) = t.text (before.length + 1) ++ rest ∧
        (t = .opening ∨ Ends rest.toList) ∧
        readAll? (before ++ (params (t :: ts) ++ after)) n rest.toList = some ts := by
      cases ts with
      | nil =>
        refine ⟨"", by simp [render], .inr .nil, ?_⟩
        cases n with
        | zero => simp at hn
        | succ n => simp [readAll?, Lexeme.skip]
      | cons u ts =>
        refine ⟨_, render_cons _ t u ts, ends_render _ t u ts, ?_⟩
        have hb : (if t.touches u then "" else " ") = "" ∨ (if t.touches u then "" else " ") = " " := by
          cases t.touches u <;> simp
        have h := readAll?_render after hb (u :: ts) (before ++ t.param?.toList) n
          (fun v hv => hp v (List.mem_cons_of_mem t hv)) (Nat.lt_of_succ_lt_succ hn)
        rw [List.length_append, Nat.add_right_comm] at h
        rwa [params_cons, List.append_assoc, ← List.append_assoc before]
    have hskip : Lexeme.skip (blank ++ render (before.length + 1) (t :: ts)).toList.length
        (blank ++ render (before.length + 1) (t :: ts)).toList = c :: (cs ++ rest.toList) := by
      rw [hr]
      rcases hblank with rfl | rfl
      · simp only [String.empty_append, String.toList_append, hc, List.cons_append]
        exact skip_start _ hs _
      · simp only [String.toList_append, hc]
        exact skip_blank _ hs _
    have htake := take?_text before (params ts ++ after) ht hends
    rw [hc, ← List.append_assoc t.param?.toList, ← params_cons] at htake
    simp only [readAll?, hskip]
    rw [← List.cons_append, htake]
    simp [hread]

/-- No token is written as nothing. -/
theorem length_le_render {ts : List Token} (h : ∀ t ∈ ts, t.isPlain) (n : Nat) :
    ts.length ≤ (render n ts).toList.length := by
  induction ts generalizing n with
  | nil => simp
  | cons t ts ih =>
    obtain ⟨c, cs, hc, -⟩ := text_eq_cons n (h t List.mem_cons_self)
    cases ts with
    | nil => simp [render, hc]
    | cons u ts =>
      have hts := ih (fun v hv => h v (List.mem_cons_of_mem t hv)) (n + t.param?.toList.length)
      simp only [render_cons, String.toList_append, hc, List.length_append, List.length_cons] at hts ⊢
      omega

/-- A text is read as the tokens that it was written from, its places as the values that they bind. -/
theorem read?_render {ts : List Token} (h : ∀ t ∈ ts, t.isPlain) :
    read? (params ts) (render 1 ts) = some ts := by
  have hn : ts.length < (render 1 ts).toList.length + 1 :=
    Nat.lt_succ_of_le (length_le_render h 1)
  simpa [read?] using readAll?_render [] (.inl rfl) ts [] _ h hn

/-- A name with a quote, and a place with two digits behind eleven values. -/
example : read? (List.replicate 11 .null ++ [.integer 7])
      (render 12 [.name "a\"b", .word "IN", .opening, .param (.integer 7), .closing]) =
    some [.name "a\"b", .word "IN", .opening, .param (.integer 7), .closing] := by
  cbv

end Token

end RecordQuery.Sql
