import RecordQuery.Proofs.Where.Clause
import Std.Data.String.ToNat
/-!
# Conditions are read as they were meant

A condition is written with brackets only where a list has several parts (`Condition.tokens`). What is
written is read by the strength of the operators, and the clause that is read has the truth of the
condition.

* `read?_tokens`: the tokens of a condition are read as its clause, if nothing goes on behind them;
* `isPlain_tokens`: they can be told apart in a text;
* `eval_ofCondition`: the clause of a condition has its truth;
* `exists_ofText?`: all of it, on the text of a statement's WHERE clause.
-/

namespace RecordQuery.Sql

open Text (Wildcard)

namespace Clause

/-! ## Reading what conditions are written as -/

/-- What may follow a clause: the end of the text or of the brackets around it. -/
def Stops (ts : List Token) : Prop := ts = [] ∨ ∃ rest, ts = .closing :: rest

theorem stops_nil : Stops [] := .inl rfl

theorem stops_closing (ts : List Token) : Stops (.closing :: ts) := .inr ⟨ts, rfl⟩

/-- Nothing goes on behind a clause that stops. -/
theorem readTail?_stops {ts : List Token} (h : Stops ts) (n level : Nat) (c : Clause) :
    readTail? (n + 1) level c ts = some (c, ts) := by
  rcases h with rfl | ⟨rest, rfl⟩ <;> rfl

/-- A connective that binds less tight does not go on. -/
theorem readTail?_looser {k : Connective} {level : Nat} (h : k.level < level) (n : Nat) (c : Clause)
    (ts : List Token) :
    readTail? (n + 1) level c (.word k.word :: ts) = some (c, .word k.word :: ts) := by
  cases k <;> simp_all [readTail?, Connective.word, Connective.ofWord?]

/-- A connective goes on at the lowest level. -/
theorem readTail?_connective (k : Connective) (n : Nat) (c : Clause) (ts : List Token) :
    readTail? (n + 1) Connective.or.level c (.word k.word :: ts) = (do
      let (d, rest) ← read? n (k.level + 1) ts
      readTail? n Connective.or.level (.join k c d) rest) := by
  cases k <;> simp [readTail?, Connective.word, Connective.ofWord?, Connective.level]

/-- A clause in brackets is an operand, whatever follows. -/
theorem readOperand?_bracketed {n : Nat} {c : Clause} {ts : List Token} (rest : List Token)
    (h : read? n Connective.or.level (ts ++ .closing :: rest) = some (c, .closing :: rest)) :
    readOperand? (n + 1) (Token.bracketed ts ++ rest) = some (c, rest) := by
  simp [Token.bracketed, readOperand?, h, takeClosing?]

/-- Bound values between commas are read up to the closing bracket. -/
theorem readValues?_separated (v : Param) (vs : List Param) (rest : List Token) :
    readValues? (Token.separated .comma ((v :: vs).map fun v => [.param v]) ++ .closing :: rest) =
      some (v :: vs, rest) := by
  induction vs generalizing v with
  | nil => rfl
  | cons u us ih => simpa [Token.separated, readValues?] using ih u

theorem ofOperator?_operator (c : Comparison) : Comparison.ofOperator? c.operator = some c := by
  cases c <;> decide

/-- An operand that nothing goes on behind is a clause. -/
theorem read?_of_operand {n level : Nat} {c : Clause} {ts rest : List Token} (hs : Stops rest)
    (h : readOperand? (n + 1) ts = some (c, rest)) : read? (n + 2) level ts = some (c, rest) := by
  simp [read?, h, readTail?_stops hs]

/-- What is said of a column is a clause, if nothing goes on behind it. -/
theorem read?_of_predicate {n level : Nat} {c : Clause} {column : String} {ts rest : List Token}
    (hs : Stops rest) (h : readPredicate? n column ts = some (c, rest)) :
    read? (n + 2) level (.name column :: ts) = some (c, rest) :=
  read?_of_operand hs (by simpa [readOperand?] using h)

/-- Two literal numbers that are compared are a clause. -/
theorem read?_literals {n level : Nat} (s t : String) (hs : s ≠ "NOT") {a b : Nat}
    (ha : s.toNat? = some a) (hb : t.toNat? = some b) {rest : List Token} (hr : Stops rest) :
    read? (n + 2) level (.word s :: .word "=" :: .word t :: rest) = some (.literals a b, rest) :=
  read?_of_operand hr (by simp [readOperand?, hs, ha, hb])

/-- A list with a separator is its first part and the others, each behind the separator. -/
theorem separated_cons (separator : Token) (ts : List Token) (tss : List (List Token)) :
    Token.separated separator (ts :: tss) = ts ++ tss.flatMap (separator :: ·) := by
  induction tss generalizing ts with
  | nil => simp [Token.separated]
  | cons us tss ih => simp [Token.separated, ih us]

theorem length_bracketed (ts : List Token) : (Token.bracketed ts).length = ts.length + 2 := by
  simp [Token.bracketed]

theorem toNat?_one : "1".toNat? = some 1 := Nat.toNat?_repr 1

theorem toNat?_zero : "0".toNat? = some 0 := Nat.toNat?_repr 0

/-- What stands for no parts under a connective is read as such. -/
theorem read?_noTokens (k : Connective) {n : Nat} {rest : List Token} (hs : Stops rest)
    (hn : 3 * k.noTokens.length ≤ n) :
    read? n Connective.or.level (k.noTokens ++ rest) = some (unit k, rest) := by
  cases k with
  | or =>
    obtain ⟨m, rfl⟩ := Nat.exists_eq_add_of_le' hn
    exact read?_literals "1" "0" (by decide) toNat?_one toNat?_zero hs
  | and =>
    obtain ⟨m, rfl⟩ := Nat.exists_eq_add_of_le' hn
    exact read?_literals "1" "1" (by decide) toNat?_one toNat?_one hs

mutual

/-- What a condition is written as is read as its clause, if nothing goes on behind it. -/
theorem read?_tokens : ∀ (condition : Condition) {n : Nat} {rest : List Token}, Stops rest →
    3 * condition.tokens.length ≤ n →
    read? n Connective.or.level (condition.tokens ++ rest) = some (ofCondition condition, rest)
  | .isNull column, n, rest, hs, hn => by
    obtain ⟨m, rfl⟩ := Nat.exists_eq_add_of_le' hn
    exact read?_of_predicate hs (by simp [readPredicate?, ofCondition])
  | .isNotNull column, n, rest, hs, hn => by
    obtain ⟨m, rfl⟩ := Nat.exists_eq_add_of_le' hn
    exact read?_of_predicate hs (by simp [readPredicate?, ofCondition])
  | .compare column comparison value, n, rest, hs, hn => by
    obtain ⟨m, rfl⟩ := Nat.exists_eq_add_of_le' hn
    have h := ofOperator?_operator comparison
    refine read?_of_predicate hs ?_
    cases comparison <;> simp [readPredicate?, Comparison.operator, ofCondition] at h ⊢ <;> simp [h]
  | .between column low high, n, rest, hs, hn => by
    obtain ⟨m, rfl⟩ := Nat.exists_eq_add_of_le' hn
    exact read?_of_predicate hs (by simp [readPredicate?, ofCondition])
  | .matching column pattern, n, rest, hs, hn => by
    obtain ⟨m, rfl⟩ := Nat.exists_eq_add_of_le' hn
    exact read?_of_predicate hs (by simp [readPredicate?, ofCondition])
  | .oneOf _ [], _, _, hs, hn => read?_noTokens .or hs hn
  | .oneOf column (v :: vs), n, rest, hs, hn => by
    simp only [Condition.tokens, List.length_cons] at hn
    obtain ⟨m, rfl⟩ := Nat.exists_eq_add_of_le' (show 3 ≤ n by omega)
    refine read?_of_predicate hs ?_
    have h := readValues?_separated v vs rest
    rw [List.map_cons, separated_cons] at h
    simp only [List.cons_append, List.nil_append] at h
    simp [readPredicate?, Token.bracketed, separated_cons, h, ofCondition]
  | .among column key table [], n, rest, hs, hn => by
    obtain ⟨m, rfl⟩ := Nat.exists_eq_add_of_le' hn
    exact read?_of_predicate hs
      (by simp [readPredicate?, Condition.listTokens, Token.bracketed, ofCondition])
  | .among column key table (d :: ds), n, rest, hs, hn => by
    -- The conditions of the nested query are written as their conjunction is.
    have hin : ∀ {m : Nat}, 3 * (Condition.joined "AND" Condition.trueTokens
        (Condition.listTokens (d :: ds))).length ≤ m →
        read? m Connective.or.level (Condition.joined "AND" Condition.trueTokens
          (Condition.listTokens (d :: ds)) ++ .closing :: rest) =
            some (chain .and (ofConditions (d :: ds)), .closing :: rest) := fun hm =>
      read?_joined .and (d :: ds) (stops_closing rest) hm
    simp only [Condition.tokens, Condition.listTokens, Token.bracketed, List.length_cons,
      List.length_append] at hn hin
    obtain ⟨m, rfl⟩ := Nat.exists_eq_add_of_le' (show 3 ≤ n by omega)
    refine read?_of_predicate hs ?_
    simp [readPredicate?, Condition.listTokens, Token.bracketed, ofCondition, takeClosing?,
      hin (m := m) (by omega)]
  | .all parts, _, _, hs, hn => read?_joined .and parts hs hn
  | .any parts, _, _, hs, hn => read?_joined .or parts hs hn
  | .not inner, n, rest, hs, hn => by
    simp only [Condition.tokens, Token.bracketed, List.length_cons, List.length_append] at hn
    obtain ⟨m, rfl⟩ := Nat.exists_eq_add_of_le' (show 5 ≤ n by omega)
    have hin := read?_tokens inner (n := m + 1) (stops_closing rest) (by omega)
    have hop := readOperand?_bracketed rest hin
    have hread : read? (m + 3) negationLevel (Token.bracketed inner.tokens ++ rest) =
        some (ofCondition inner, rest) := read?_of_operand hs hop
    refine read?_of_operand (n := m + 3) hs ?_
    simp only [Condition.tokens, List.cons_append, readOperand?, hread, ofCondition]
    rfl

/-- Parts under one connective are read as their clauses under it. -/
theorem read?_joined (k : Connective) :
    ∀ (parts : List Condition) {n : Nat} {rest : List Token}, Stops rest →
      3 * (Condition.joined k.word k.noTokens (Condition.listTokens parts)).length ≤ n →
      read? n Connective.or.level
        (Condition.joined k.word k.noTokens (Condition.listTokens parts) ++ rest) =
          some (chain k (ofConditions parts), rest)
  | [], _, _, hs, hn => read?_noTokens k hs hn
  | [part], _, _, hs, hn => read?_tokens part hs hn
  | part :: other :: parts, n, rest, hs, hn => by
    have hj : Condition.joined k.word k.noTokens (Condition.listTokens (part :: other :: parts)) =
        Token.bracketed part.tokens ++ (Condition.listTokens (other :: parts)).flatMap
          fun ts => .word k.word :: Token.bracketed ts := by
      simp [Condition.joined, Condition.listTokens, separated_cons, List.flatMap_map]
    rw [hj] at hn ⊢
    rw [List.length_append, length_bracketed] at hn
    obtain ⟨m, rfl⟩ := Nat.exists_eq_add_of_le' (show 3 ≤ n by omega)
    have hp := readOperand?_bracketed _ (read?_tokens part (n := m + 1)
      (stops_closing ((Condition.listTokens (other :: parts)).flatMap
        (fun ts => .word k.word :: Token.bracketed ts) ++ rest)) (by omega))
    have ht := readTail?_parts k (other :: parts) (n := m + 2) (ofCondition part) hs (by omega)
    rw [List.append_assoc]
    simp only [read?, hp, Option.bind_eq_bind, Option.bind_some, ht]
    rfl

/-- Further parts are read behind a clause. -/
theorem readTail?_parts (k : Connective) :
    ∀ (parts : List Condition) {n : Nat} (c : Clause) {rest : List Token}, Stops rest →
      3 * ((Condition.listTokens parts).flatMap fun ts =>
        Token.word k.word :: Token.bracketed ts).length + 1 ≤ n →
      readTail? n Connective.or.level c
        (((Condition.listTokens parts).flatMap fun ts => .word k.word :: Token.bracketed ts) ++ rest) =
          some ((ofConditions parts).foldl (.join k) c, rest)
  | [], n, c, rest, hs, hn => by
    obtain ⟨m, rfl⟩ := Nat.exists_eq_add_of_le' hn
    exact readTail?_stops hs m _ c
  | part :: parts, n, c, rest, hs, hn => by
    simp only [Condition.listTokens, List.flatMap_cons, List.length_append, List.length_cons,
      length_bracketed] at hn
    obtain ⟨m, rfl⟩ := Nat.exists_eq_add_of_le' (show 4 ≤ n by omega)
    have hp := readOperand?_bracketed _ (read?_tokens part (n := m + 1)
      (stops_closing ((Condition.listTokens parts).flatMap
        (fun ts => .word k.word :: Token.bracketed ts) ++ rest)) (by omega))
    -- The part ends where the next connective stands, which binds less tight than its operands.
    have hend : readTail? (m + 2) (k.level + 1) (ofCondition part)
        ((Condition.listTokens parts).flatMap (fun ts => .word k.word :: Token.bracketed ts) ++ rest) =
          some (ofCondition part,
            (Condition.listTokens parts).flatMap (fun ts => .word k.word :: Token.bracketed ts) ++ rest) := by
      cases parts with
      | nil => exact readTail?_stops hs _ _ _
      | cons other parts => exact readTail?_looser (Nat.lt_succ_self _) _ _ _
    have ht := readTail?_parts k parts (n := m + 3) (.join k c (ofCondition part)) hs (by omega)
    simp only [Condition.listTokens, List.flatMap_cons, List.cons_append, List.append_assoc]
    rw [readTail?_connective]
    simp only [read?, hp, Option.bind_eq_bind, Option.bind_some, hend, ht]
    rfl

end

/-! ## The tokens of conditions can be told apart -/

@[simp] theorem isPlain_name (s : String) : (Token.name s).isPlain = true := rfl

@[simp] theorem isPlain_param (p : Param) : (Token.param p).isPlain = true := rfl

theorem isPlain_word : ∀ s ∈ ["1", "0", "IS", "NOT", "NULL", "=", "<>", ">", ">=", "<", "<=", "BETWEEN",
    "AND", "OR", "IN", "REGEXP", "SELECT", "FROM", "WHERE"], (Token.word s).isPlain = true := by
  decide

theorem isPlain_bracketed {ts : List Token} (h : ∀ t ∈ ts, t.isPlain) :
    ∀ t ∈ Token.bracketed ts, t.isPlain := by
  intro t ht
  simp only [Token.bracketed, List.cons_append, List.mem_cons, List.mem_append, List.not_mem_nil,
    or_false] at ht
  rcases ht with rfl | ht | rfl
  · rfl
  · exact h t ht
  · rfl

theorem isPlain_separated {separator : Token} (hs : separator.isPlain) {tss : List (List Token)}
    (h : ∀ ts ∈ tss, ∀ t ∈ ts, t.isPlain) : ∀ t ∈ Token.separated separator tss, t.isPlain := by
  cases tss with
  | nil => simp [Token.separated]
  | cons ts tss =>
    intro t ht
    simp only [separated_cons, List.mem_append, List.mem_flatMap, List.mem_cons] at ht
    rcases ht with ht | ⟨us, hus, rfl | ht⟩
    · exact h ts List.mem_cons_self t ht
    · exact hs
    · exact h us (List.mem_cons_of_mem ts hus) t ht

theorem isPlain_joined (k : Connective) {tss : List (List Token)}
    (h : ∀ ts ∈ tss, ∀ t ∈ ts, t.isPlain) :
    ∀ t ∈ Condition.joined k.word k.noTokens tss, t.isPlain := by
  rcases tss with _ | ⟨ts, _ | ⟨us, tss⟩⟩
  · cases k <;> decide
  · exact h ts List.mem_cons_self
  · refine isPlain_separated (by cases k <;> decide) fun vs hv => ?_
    obtain ⟨ws, hw, rfl⟩ := List.mem_map.1 hv
    exact isPlain_bracketed (h ws hw)

mutual

/-- A condition is written with keywords, operators and literal numbers only, names and values apart. -/
theorem isPlain_tokens : ∀ (condition : Condition), ∀ t ∈ condition.tokens, t.isPlain
  | .isNull _ => by simp [Condition.tokens, isPlain_word]
  | .isNotNull _ => by simp [Condition.tokens, isPlain_word]
  | .compare _ c _ => by cases c <;> simp [Condition.tokens, Comparison.operator, isPlain_word]
  | .between _ _ _ => by simp [Condition.tokens, isPlain_word]
  | .matching _ _ => by simp [Condition.tokens, isPlain_word]
  | .oneOf _ [] => by simp [Condition.tokens, Condition.falseTokens, isPlain_word]
  | .oneOf _ (v :: vs) => by
    have hv : ∀ t ∈ Token.separated .comma ((v :: vs).map fun v => [.param v]), t.isPlain :=
      isPlain_separated rfl (by simp)
    simp only [Condition.tokens, List.mem_cons, forall_eq_or_imp]
    exact ⟨rfl, isPlain_word _ (by simp), isPlain_bracketed hv⟩
  | .among column key table conditions => by
    have hj : ∀ t ∈ Condition.joined "AND" Condition.trueTokens (Condition.listTokens conditions),
        t.isPlain := isPlain_joined .and (isPlain_listTokens conditions)
    have hin : ∀ t ∈ (match Condition.listTokens conditions with
        | [] => []
        | parts => Token.word "WHERE" :: Condition.joined "AND" Condition.trueTokens parts),
        t.isPlain := by
      split
      · simp
      · simpa [isPlain_word] using hj
    have hb := @isPlain_bracketed (.word "SELECT" :: .name key :: .word "FROM" :: .name table :: _)
      (by simpa [isPlain_word] using hin)
    simp only [Condition.tokens, List.mem_cons, forall_eq_or_imp]
    exact ⟨rfl, isPlain_word _ (by simp), hb⟩
  | .all parts => isPlain_joined .and (isPlain_listTokens parts)
  | .any parts => isPlain_joined .or (isPlain_listTokens parts)
  | .not inner => by
    simp only [Condition.tokens, List.mem_cons, forall_eq_or_imp]
    exact ⟨isPlain_word _ (by simp), isPlain_bracketed (isPlain_tokens inner)⟩

theorem isPlain_listTokens : ∀ (conditions : List Condition),
    ∀ ts ∈ Condition.listTokens conditions, ∀ t ∈ ts, t.isPlain
  | [] => by simp [Condition.listTokens]
  | condition :: conditions => by
    simp only [Condition.listTokens, List.mem_cons, forall_eq_or_imp]
    exact ⟨isPlain_tokens condition, isPlain_listTokens conditions⟩

end

/-! ## The clause has the truth of the condition -/

theorem fold_cons_cons (k : Connective) (t u : Truth) (ts : List Truth) :
    k.fold (k.apply t u :: ts) = k.fold (t :: u :: ts) := by
  cases k with
  | or => exact Truth.or_assoc t u _
  | and => exact Truth.and_assoc t u _

theorem eval_chain (k : Connective) (rows : String → List Scope) (scopes : List Scope)
    (cs : List Clause) : (chain k cs).eval rows scopes = k.fold (cs.map (eval rows scopes)) := by
  cases cs with
  | nil => cases k <;> rfl
  | cons c cs =>
    show (cs.foldl (.join k) c).eval rows scopes = _
    induction cs generalizing c with
    | nil => cases k <;> simp [Connective.fold, Truth.any, Truth.all]
    | cons d cs ih =>
      rw [List.foldl_cons, ih (.join k c d), List.map_cons, List.map_cons, List.map_cons, eval]
      exact fold_cons_cons k _ _ _

theorem filterMap_ite {α β : Type} (p : α → Bool) (f : α → β) (xs : List α) :
    xs.filterMap (fun x => if p x then some (f x) else none) = (xs.filter p).map f := by
  induction xs with
  | nil => rfl
  | cons x xs ih => cases h : p x <;> simp [h, ih]

theorem regexp_expression (a : Operand) (pattern : String) :
    a.regexp (.text (Wildcard.expression (Wildcard.read pattern))) = a.matched pattern := by
  simp only [Operand.regexp, Operand.matched]
  cases a.cell <;> simp [Wildcard.ofExpression?_expression, Truth.ofBool?]

mutual

/-- The clause that a condition is written as has its truth. -/
theorem eval_ofCondition (rows : String → List Scope) (scopes : List Scope) :
    ∀ condition : Condition, (ofCondition condition).eval rows scopes = condition.eval rows scopes
  | .isNull _ => rfl
  | .isNotNull _ => rfl
  | .compare .. => rfl
  | .between .. => rfl
  | .matching column pattern => regexp_expression _ pattern
  | .oneOf _ [] => rfl
  | .oneOf _ (_ :: _) => rfl
  | .among column key table [] => by
    simp [ofCondition, eval, Condition.eval, Condition.evalAll, Truth.holds]
  | .among column key table (d :: ds) => by
    have h : ∀ row, (chain .and (ofConditions (d :: ds))).eval rows (row :: scopes) =
        Condition.evalAll rows (row :: scopes) (d :: ds) := fun row => by
      rw [eval_chain]
      exact all_ofConditions rows (row :: scopes) (d :: ds)
    simp only [ofCondition, eval, Condition.eval, filterMap_ite, h]
  | .all parts => by
    rw [ofCondition, eval_chain, Condition.eval]
    exact all_ofConditions rows scopes parts
  | .any parts => by
    rw [ofCondition, eval_chain, Condition.eval]
    exact any_ofConditions rows scopes parts
  | .not inner => by rw [ofCondition, eval, Condition.eval, eval_ofCondition rows scopes inner]

theorem all_ofConditions (rows : String → List Scope) (scopes : List Scope) :
    ∀ conditions : List Condition,
      Truth.all ((ofConditions conditions).map (eval rows scopes)) =
        Condition.evalAll rows scopes conditions
  | [] => rfl
  | condition :: conditions => by
    rw [ofConditions, List.map_cons, Truth.all, Condition.evalAll,
      eval_ofCondition rows scopes condition, all_ofConditions rows scopes conditions]

theorem any_ofConditions (rows : String → List Scope) (scopes : List Scope) :
    ∀ conditions : List Condition,
      Truth.any ((ofConditions conditions).map (eval rows scopes)) =
        Condition.evalAny rows scopes conditions
  | [] => rfl
  | condition :: conditions => by
    rw [ofConditions, List.map_cons, Truth.any, Condition.evalAny,
      eval_ofCondition rows scopes condition, any_ofConditions rows scopes conditions]

end

/-! ## The text of a WHERE clause -/

/-- The tokens of a condition belong to its clause. -/
theorem ofTokens?_tokens (condition : Condition) :
    ofTokens? condition.tokens = some (ofCondition condition) := by
  have h := read?_tokens condition stops_nil (Nat.le_refl _)
  rw [List.append_nil] at h
  rw [ofTokens?, h]

/-- The WHERE clause of a statement is read from its text, and has the truth of all its conditions. -/
theorem exists_ofText? (q : Select) :
    ∃ clause, ofText? q.params q.whereText = some clause ∧
      ∀ rows scopes, clause.eval rows scopes = Condition.evalAll rows scopes q.conditions := by
  cases hq : q.conditions with
  | nil =>
    refine ⟨.literals 1 1, ?_, fun _ _ => rfl⟩
    have h := @Token.read?_render [] (by simp)
    simp [Select.params, Select.whereText, Select.whereTokens, hq, ofText?, h]
  | cons condition conditions =>
    refine ⟨ofCondition (.all (condition :: conditions)), ?_, fun rows scopes => ?_⟩
    · have h := @Token.read?_render (.word "WHERE" :: (Condition.all (condition :: conditions)).tokens)
        (by simpa [isPlain_word] using isPlain_tokens (.all (condition :: conditions)))
      simp [Select.params, Select.whereText, Select.whereTokens, hq, ofText?, h, ofTokens?_tokens]
    · rw [eval_ofCondition, Condition.eval]

end Clause

end RecordQuery.Sql
