/-!
# Cutting texts at a character

`split` cuts at every occurrence of a character and always gives at least one piece, `join` puts the
pieces together again (`join_split`); `cut?` and `cutLast?` cut once, at the first and at the last
occurrence (`eq_of_cut?`).
-/

namespace RecordQuery.Text

/-- The pieces between the occurrences of `sep`; there is one more piece than occurrences. -/
def split (sep : Char) : List Char → List (List Char)
  | [] => [[]]
  | c :: cs =>
    if c = sep then [] :: split sep cs
    else match split sep cs with
      | [] => [[c]]
      | piece :: pieces => (c :: piece) :: pieces

/-- The pieces with `sep` between neighbours. -/
def join (sep : Char) : List (List Char) → List Char
  | [] => []
  | [piece] => piece
  | piece :: pieces => piece ++ sep :: join sep pieces

/-- The text before and after the first `sep`, if there is one. -/
def cut? (sep : Char) : List Char → Option (List Char × List Char)
  | [] => none
  | c :: cs =>
    if c = sep then some ([], cs)
    else (cut? sep cs).map fun (before, after) => (c :: before, after)

/-- The text before and after the last `sep`, if there is one. -/
def cutLast? (sep : Char) (cs : List Char) : Option (List Char × List Char) :=
  (cut? sep cs.reverse).map fun (after, before) => (before.reverse, after.reverse)

/-- `split` on strings. -/
def pieces (sep : Char) (s : String) : List String :=
  (split sep s.toList).map String.ofList

theorem eq_of_cut? {sep : Char} {cs before after : List Char}
    (h : cut? sep cs = some (before, after)) : cs = before ++ sep :: after := by
  induction cs generalizing before with
  | nil => simp [cut?] at h
  | cons c cs ih =>
    unfold cut? at h
    split at h
    next hc =>
      simp only [Option.some.injEq, Prod.mk.injEq] at h
      obtain ⟨rfl, rfl⟩ := h
      rw [hc]
      rfl
    next =>
      obtain ⟨⟨b, a⟩, hb, he⟩ := Option.map_eq_some_iff.1 h
      simp only [Prod.mk.injEq] at he
      obtain ⟨rfl, rfl⟩ := he
      rw [ih hb]
      rfl

theorem length_of_cut? {sep : Char} {cs before after : List Char}
    (h : cut? sep cs = some (before, after)) : after.length < cs.length := by
  rw [eq_of_cut? h]
  simp only [List.length_append, List.length_cons]
  omega

theorem split_ne_nil (sep : Char) : ∀ cs, split sep cs ≠ []
  | [] => by simp [split]
  | c :: cs => by
    unfold split
    split
    · simp
    · split <;> simp

theorem join_cons_of_ne_nil {sep : Char} {piece : List Char} {pieces : List (List Char)}
    (h : pieces ≠ []) : join sep (piece :: pieces) = piece ++ sep :: join sep pieces := by
  cases pieces with
  | nil => exact absurd rfl h
  | cons => rfl

/-- Splitting loses nothing. -/
theorem join_split (sep : Char) : ∀ cs, join sep (split sep cs) = cs
  | [] => rfl
  | c :: cs => by
    unfold split
    split
    next h => rw [join_cons_of_ne_nil (split_ne_nil sep cs), join_split sep cs, h]; rfl
    next =>
      have ih := join_split sep cs
      split
      next h => exact absurd h (split_ne_nil sep cs)
      next piece pieces h =>
        rw [h] at ih
        cases pieces with
        | nil => simpa [join] using ih
        | cons => simpa [join] using ih

end RecordQuery.Text
