import Mathlib.Data.List.Forall2
import RecordQuery.Form.Brackets
import RecordQuery.Proofs.Form.Encoding
import RecordQuery.Proofs.Integers
import RecordQuery.Proofs.Paths
/-!
# Numbered values in brackets

A `Form.Numbered` is a value of texts, objects and lists whose items have numbers. Its parameters
(`Numbered.parameters`) are one for each text, in document order, whose name goes from key to key and from number to
number in brackets. `Numbered.read_encode_spelling` reads the parameters of an object back: the same object, its keys
in their order and the items of its lists without their numbers.

The proof goes over the paths that the names spell (`Numbered.leaves`): the leaves below a new key or a new number,
placed one after the other, make the tree of what is below (`Tree.putAll_under_key`, `Tree.putAll_under_index`).
-/

namespace RecordQuery

namespace Text

variable {sep : Char} {cs before after : List Char}

theorem cut?_append (h : cut? sep cs = some (before, after)) (ds : List Char) :
    cut? sep (cs ++ ds) = some (before, after ++ ds) := by
  induction cs generalizing before with
  | nil => simp [cut?] at h
  | cons c cs ih =>
    rw [cut?] at h
    rw [List.cons_append, cut?]
    split at h
    · next hc =>
      obtain ⟨rfl, rfl⟩ : [] = before ∧ cs = after := by simpa using h
      rw [if_pos hc]
    · next hc =>
      obtain ⟨⟨first, rest⟩, hcut, heq⟩ := Option.map_eq_some_iff.1 h
      obtain ⟨rfl, rfl⟩ : c :: first = before ∧ rest = after := by simpa using heq
      rw [if_neg hc, ih hcut]
      rfl

theorem not_mem_of_cut?_eq_none (h : cut? sep cs = none) : sep ∉ cs := by
  induction cs with
  | nil => simp
  | cons c cs ih =>
    rw [cut?] at h
    split at h
    · cases h
    · next hc => simp [Ne.symm hc, ih (Option.map_eq_none_iff.1 h)]

end Text

/-- A name with one more pair of brackets. -/
def Json.bracketed (name text : String) : String := name ++ "[" ++ text ++ "]"

/-- Whether a key can stand in brackets: it is not empty, has no closing bracket and spells no number. -/
def Json.IsSpelled.Key (key : String) : Prop :=
  key ≠ "" ∧ ']' ∉ key.toList ∧ Text.Integer.index? key.toList = none

namespace Form

/-- Whether a key can stand in front of brackets: it is not empty, has no opening bracket and spells no number. -/
def IsName (key : String) : Prop :=
  key ≠ "" ∧ '[' ∉ key.toList ∧ Text.Integer.index? key.toList = none

/-! ## Names -/

variable {name : String} {path : List Segment}

/-- What is in brackets comes after what was in brackets before. -/
theorem brackets?_append {cs ds : List Char} {texts more : List (List Char)} (h : brackets? cs = some texts)
    (hds : brackets? ds = some more) : brackets? (cs ++ ds) = some (texts ++ more) := by
  induction cs using brackets?.induct generalizing texts with
  | case1 =>
    rw [brackets?, Option.some.injEq] at h
    rw [← h]
    exact hds
  | case2 cs hcut =>
    rw [brackets?, if_pos rfl] at h
    split at h
    · cases h
    · next hsome => simp [hcut] at hsome
  | case3 cs text rest hcut ih =>
    rw [brackets?, if_pos rfl] at h
    split at h
    · cases h
    next text' rest' hsome =>
      obtain ⟨rfl, rfl⟩ : text = text' ∧ rest = rest' := by simpa [hcut] using hsome
      obtain ⟨others, hothers, rfl⟩ := Option.map_eq_some_iff.1 h
      have hfirst : Text.cut? ']' (cs ++ ds) = some (text, rest ++ ds) := Text.cut?_append hcut ds
      rw [List.cons_append, brackets?, if_pos rfl]
      split
      · next hnone => simp [hfirst] at hnone
      next text' rest' hsome' =>
        obtain ⟨rfl, rfl⟩ : text = text' ∧ rest ++ ds = rest' := by simpa [hfirst] using hsome'
        rw [ih hothers]
        rfl
  | case4 c cs hc =>
    rw [brackets?, if_neg hc] at h
    cases h

theorem brackets?_singleton {text : List Char} (h : ']' ∉ text) : brackets? ('[' :: text ++ [']']) = some [text] := by
  have hcut : Text.cut? ']' (text ++ [']']) = some (text, []) := Text.cut?_append_cons h []
  rw [List.cons_append, brackets?, if_pos rfl]
  split
  · next hnone => simp [hcut] at hnone
  next text' rest' hsome =>
    obtain ⟨rfl, rfl⟩ : text = text' ∧ [] = rest' := by simpa [hcut] using hsome
    rw [brackets?]
    rfl

/-- A name with one more pair of brackets spells a path with one more segment. -/
theorem path?_bracketed {text : String} (h : path? name = some path) (htext : ']' ∉ text.toList) :
    path? (Json.bracketed name text) = some (path ++ [Segment.ofText text.toList]) := by
  have hlist : (Json.bracketed name text).toList = name.toList ++ ('[' :: text.toList ++ [']']) := by
    simp [Json.bracketed]
  have hlast := brackets?_singleton htext
  rw [path?] at h ⊢
  rw [hlist]
  cases hcut : Text.cut? '[' name.toList with
  | none =>
    have hfirst : Text.cut? '[' (name.toList ++ ('[' :: text.toList ++ [']'])) =
        some (name.toList, text.toList ++ [']']) :=
      Text.cut?_append_cons (Text.not_mem_of_cut?_eq_none hcut) _
    rw [hcut] at h
    obtain rfl : [Segment.ofText name.toList] = path := by simpa using h
    rw [hfirst]
    simp only [← List.cons_append, hlast]
    rfl
  | some parts =>
    obtain ⟨head, rest⟩ := parts
    rw [hcut] at h
    rw [Text.cut?_append hcut]
    simp only [Option.map_eq_some_iff] at h
    obtain ⟨_, ⟨texts, htexts, rfl⟩, rfl⟩ := h
    have hall := brackets?_append htexts hlast
    simp only [List.cons_append] at hall ⊢
    simp only [hall, Option.map_some, List.map_cons, List.map_append, List.map_nil, List.cons_append]

theorem Segment.ofText_key {key : String} (hne : key ≠ "") (hindex : Text.Integer.index? key.toList = none) :
    Segment.ofText key.toList = .key key := by
  rw [Segment.ofText, if_neg (by simpa using hne), hindex]
  simp

theorem Segment.ofText_index {n : Nat} (h : n < 2 ^ 64) : Segment.ofText (toString n).toList = .index n := by
  have hindex : Text.Integer.index? (toString n).toList = some n := Text.Integer.index?_repr h
  rw [Segment.ofText, if_neg (by simp), hindex]

/-- No bracket closes within a number. -/
theorem not_mem_toString (n : Nat) : ']' ∉ (toString n).toList := fun h =>
  absurd (Text.isDigit_of_mem_repr h) (by decide)

/-- The path below a path, with the text at its end. -/
def After (path : List Segment) (parameter : String × String) (leaf : List Segment × String) : Prop :=
  parameter.1 ≠ "" ∧ path? parameter.1 = some (path ++ leaf.1) ∧ parameter.2 = leaf.2

/-- A path below a segment, with the text at its end. -/
def under (segment : Segment) (leaf : List Segment × String) : List Segment × String :=
  (segment :: leaf.1, leaf.2)

theorem after_under {segment : Segment} {parameter : String × String} {leaf : List Segment × String}
    (h : After (path ++ [segment]) parameter leaf) : After path parameter (under segment leaf) := by
  obtain ⟨hne, hpath, htext⟩ := h
  exact ⟨hne, by simpa [under] using hpath, htext⟩

theorem bracketed_ne (name text : String) : Json.bracketed name text ≠ "" := by
  intro h
  have hlength := congrArg String.toList h
  simp [Json.bracketed] at hlength

/-- A name without brackets is a path of one key. -/
theorem path?_of_name {key : String} (h : IsName key) : path? key = some [.key key] := by
  obtain ⟨hne, hopen, hindex⟩ := h
  rw [path?, Text.cut?_of_not_mem hopen]
  simp [Segment.ofText_key hne hindex]

/-! ## Trees -/

namespace Tree

variable {t u : Tree} {key : String} {entries : List (String × Tree)} {n : Nat} {indexed : List (Nat × Tree)}

theorem put_key (value name : String) (rest : List Segment) (t : Tree) : put value (.key name :: rest) t =
    t.entries?.bind fun entries => (alterKey (put value rest) name entries).map .map := rfl

theorem put_index (value : String) (n : Nat) (rest : List Segment) (t : Tree) : put value (.index n :: rest) t =
    t.items?.bind fun items => (alterIndex (put value rest) n items.1).map (.list · items.2) := rfl

theorem put_append (value : String) (rest : List Segment) (t : Tree) : put value (.append :: rest) t =
    t.items?.bind fun items => (put value rest .empty).map fun u => .list items.1 (items.2 ++ [u]) := rfl

theorem entries?_map (entries : List (String × Tree)) : (map entries).entries? = some entries := rfl

theorem items?_list (indexed : List (Nat × Tree)) (appended : List Tree) :
    (list indexed appended).items? = some (indexed, appended) := rfl

/-- Places texts along their paths, one after the other. -/
def putAll (ls : List (List Segment × String)) (t : Tree) : Option Tree :=
  ls.foldlM (fun t l => t.put l.2 l.1) t

theorem putAll_cons (l : List Segment × String) (ls : List (List Segment × String)) (t : Tree) :
    putAll (l :: ls) t = (t.put l.2 l.1).bind (putAll ls) := rfl

theorem putAll_append (ls ms : List (List Segment × String)) (t : Tree) :
    putAll (ls ++ ms) t = (putAll ls t).bind (putAll ms) := by
  rw [putAll, List.foldlM_append]
  rfl

/-- The entry of a key that is there last. -/
theorem alterKey_concat (f : Tree → Option Tree) (h : key ∉ entries.map Prod.fst) (t : Tree) :
    alterKey f key (entries ++ [(key, t)]) = (f t).map fun t => entries ++ [(key, t)] := by
  induction entries with
  | nil => simp [alterKey]
  | cons e entries ih =>
    obtain ⟨k, u⟩ := e
    simp only [List.map_cons, List.mem_cons, not_or] at h
    rw [List.cons_append, alterKey, if_neg (Ne.symm h.1), ih h.2, Option.map_map]
    rfl

/-- A new key gets the last entry. -/
theorem alterKey_of_not_mem (f : Tree → Option Tree) (h : key ∉ entries.map Prod.fst) :
    alterKey f key entries = (f .empty).map fun t => entries ++ [(key, t)] := by
  induction entries with
  | nil => rfl
  | cons e entries ih =>
    obtain ⟨k, u⟩ := e
    simp only [List.map_cons, List.mem_cons, not_or] at h
    rw [alterKey, if_neg (Ne.symm h.1), ih h.2, Option.map_map]
    rfl

theorem alterIndex_concat (f : Tree → Option Tree) (h : ∀ e ∈ indexed, e.1 < n) (t : Tree) :
    alterIndex f n (indexed ++ [(n, t)]) = (f t).map fun t => indexed ++ [(n, t)] := by
  induction indexed with
  | nil => simp [alterIndex]
  | cons e indexed ih =>
    obtain ⟨m, u⟩ := e
    obtain ⟨hm, hrest⟩ := List.forall_mem_cons.1 h
    rw [List.cons_append, alterIndex, if_neg (Nat.lt_asymm hm), if_neg (Nat.ne_of_gt hm), ih hrest, Option.map_map]
    rfl

/-- A number that is greater than all others gets the last item. -/
theorem alterIndex_of_lt (f : Tree → Option Tree) (h : ∀ e ∈ indexed, e.1 < n) :
    alterIndex f n indexed = (f .empty).map fun t => indexed ++ [(n, t)] := by
  induction indexed with
  | nil => rfl
  | cons e indexed ih =>
    obtain ⟨m, u⟩ := e
    obtain ⟨hm, hrest⟩ := List.forall_mem_cons.1 h
    rw [alterIndex, if_neg (Nat.lt_asymm hm), if_neg (Nat.ne_of_gt hm), ih hrest, Option.map_map]
    rfl

/-- What is placed below a key that is there last. -/
theorem putAll_under_last_key (h : key ∉ entries.map Prod.fst) (ls : List (List Segment × String)) (t : Tree) :
    putAll (ls.map (under (.key key))) (.map (entries ++ [(key, t)])) =
      (putAll ls t).map fun t => .map (entries ++ [(key, t)]) := by
  induction ls generalizing t with
  | nil => rfl
  | cons l ls ih =>
    have hput : put l.2 (.key key :: l.1) (.map (entries ++ [(key, t)])) =
        (put l.2 l.1 t).map fun t => .map (entries ++ [(key, t)]) := by
      rw [put_key, entries?_map, Option.bind_some, alterKey_concat _ h, Option.map_map]
      rfl
    rw [List.map_cons, putAll_cons, putAll_cons, under, hput]
    cases put l.2 l.1 t with
    | none => rfl
    | some u => exact ih u

/-- What is placed below a new key. -/
theorem putAll_under_key (h : key ∉ entries.map Prod.fst) (ht : t.entries? = some entries)
    {ls : List (List Segment × String)} (hls : ls ≠ []) :
    putAll (ls.map (under (.key key))) t = (putAll ls .empty).map fun u => .map (entries ++ [(key, u)]) := by
  obtain ⟨l, ls, rfl⟩ := List.exists_cons_of_ne_nil hls
  have hput : put l.2 (.key key :: l.1) t = (put l.2 l.1 .empty).map fun u => .map (entries ++ [(key, u)]) := by
    rw [put_key, ht, Option.bind_some, alterKey_of_not_mem _ h, Option.map_map]
    rfl
  rw [List.map_cons, putAll_cons, putAll_cons, under, hput]
  cases put l.2 l.1 .empty with
  | none => rfl
  | some u => exact putAll_under_last_key h ls u

theorem putAll_under_last_index (h : ∀ e ∈ indexed, e.1 < n) (ls : List (List Segment × String)) (t : Tree) :
    putAll (ls.map (under (.index n))) (.list (indexed ++ [(n, t)]) []) =
      (putAll ls t).map fun t => .list (indexed ++ [(n, t)]) [] := by
  induction ls generalizing t with
  | nil => rfl
  | cons l ls ih =>
    have hput : put l.2 (.index n :: l.1) (.list (indexed ++ [(n, t)]) []) =
        (put l.2 l.1 t).map fun t => .list (indexed ++ [(n, t)]) [] := by
      rw [put_index, items?_list, Option.bind_some, alterIndex_concat _ h, Option.map_map]
      rfl
    rw [List.map_cons, putAll_cons, putAll_cons, under, hput]
    cases put l.2 l.1 t with
    | none => rfl
    | some u => exact ih u

/-- What is placed below a number that is greater than all others. -/
theorem putAll_under_index (h : ∀ e ∈ indexed, e.1 < n) (ht : t.items? = some (indexed, []))
    {ls : List (List Segment × String)} (hls : ls ≠ []) :
    putAll (ls.map (under (.index n))) t = (putAll ls .empty).map fun u => .list (indexed ++ [(n, u)]) [] := by
  obtain ⟨l, ls, rfl⟩ := List.exists_cons_of_ne_nil hls
  have hput : put l.2 (.index n :: l.1) t = (put l.2 l.1 .empty).map fun u => .list (indexed ++ [(n, u)]) [] := by
    rw [put_index, ht, Option.bind_some, alterIndex_of_lt _ h, Option.map_map]
    rfl
  rw [List.map_cons, putAll_cons, putAll_cons, under, hput]
  cases put l.2 l.1 .empty with
  | none => rfl
  | some u => exact putAll_under_last_index h ls u

end Tree

/-- Parameters are placed where their names say. -/
theorem foldlM_place {ps : List (String × String)} {ls : List (List Segment × String)}
    (h : List.Forall₂ (After []) ps ls) {t u : Tree} (hput : t.putAll ls = some u) :
    ps.foldlM place t = .ok u := by
  induction h generalizing t with
  | nil =>
    obtain rfl := Option.some.inj hput
    rfl
  | @cons parameter leaf _ _ hfirst _ ih =>
    obtain ⟨hne, hpath, htext⟩ := hfirst
    rw [Tree.putAll_cons] at hput
    obtain ⟨next, hnext, hrest⟩ := Option.bind_eq_some_iff.1 hput
    rw [List.nil_append] at hpath
    have hplace : place t parameter = .ok next := by
      simp [place, hne, hpath, htext, hnext]
    rw [List.foldlM_cons, hplace]
    exact ih hrest

/-! ## Numbered values -/

/-- A value of texts whose list items have numbers. -/
inductive Numbered where
  | text (s : String)
  | object (members : List (String × Numbered))
  | list (items : List (Nat × Numbered))

namespace Numbered

mutual

/-- The value without the numbers. -/
def json : Numbered → Json
  | .text s => .string s
  | .object members => .object (jsonMembers members)
  | .list items => .array (jsonItems items)

def jsonMembers : List (String × Numbered) → Members
  | [] => []
  | (key, value) :: members => (key, value.json) :: jsonMembers members

def jsonItems : List (Nat × Numbered) → List Json
  | [] => []
  | (_, item) :: items => item.json :: jsonItems items

end

mutual

/-- The parameters that spell a value under a name. -/
def parameters (name : String) : Numbered → List (String × String)
  | .text s => [(name, s)]
  | .object members => memberParameters name members
  | .list items => itemParameters name items

/-- The parameters of an object's members. -/
def memberParameters (name : String) : List (String × Numbered) → List (String × String)
  | [] => []
  | (key, value) :: members => parameters (Json.bracketed name key) value ++ memberParameters name members

/-- The parameters of a list's items. -/
def itemParameters (name : String) : List (Nat × Numbered) → List (String × String)
  | [] => []
  | (n, item) :: items => parameters (Json.bracketed name (toString n)) item ++ itemParameters name items

end

/-- The parameters that spell the members of an object, each under its own key. -/
def spelling (members : List (String × Numbered)) : List (String × String) :=
  members.flatMap fun m => m.2.parameters m.1

mutual

/-- Whether brackets can spell a value: its objects and lists are not empty, its keys are told apart and can stand in
brackets, and the numbers of a list ascend and are ones that a machine can count to. -/
def IsSpelled : Numbered → Prop
  | .text _ => True
  | .object members => members ≠ [] ∧ (members.map Prod.fst).Nodup ∧ AreSpelledMembers members
  | .list items => items ≠ [] ∧ (items.map Prod.fst).Pairwise (· < ·) ∧ AreSpelledItems items

def AreSpelledMembers : List (String × Numbered) → Prop
  | [] => True
  | (key, value) :: members => Json.IsSpelled.Key key ∧ value.IsSpelled ∧ AreSpelledMembers members

def AreSpelledItems : List (Nat × Numbered) → Prop
  | [] => True
  | (n, item) :: items => n < 2 ^ 64 ∧ item.IsSpelled ∧ AreSpelledItems items

end

theorem isSpelled_of_mem {members : List (String × Numbered)} (h : AreSpelledMembers members) :
    ∀ m ∈ members, m.2.IsSpelled := by
  induction members with
  | nil => simp
  | cons m members ih =>
    obtain ⟨-, hvalue, hmembers⟩ := h
    exact List.forall_mem_cons.2 ⟨hvalue, ih hmembers⟩

/-- Whether parameters can spell an object: its keys are told apart and can stand in front of brackets, and brackets
can spell what is below them. -/
structure IsDocument (members : List (String × Numbered)) : Prop where
  names : ∀ m ∈ members, IsName m.1
  keys : (members.map Prod.fst).Nodup
  spelled : ∀ m ∈ members, m.2.IsSpelled

/-! ### Their paths -/

mutual

/-- The texts of a value with the paths to them. -/
def leaves : Numbered → List (List Segment × String)
  | .text s => [([], s)]
  | .object members => memberLeaves members
  | .list items => itemLeaves items

def memberLeaves : List (String × Numbered) → List (List Segment × String)
  | [] => []
  | (key, value) :: members => value.leaves.map (under (.key key)) ++ memberLeaves members

def itemLeaves : List (Nat × Numbered) → List (List Segment × String)
  | [] => []
  | (n, item) :: items => item.leaves.map (under (.index n)) ++ itemLeaves items

end

mutual

theorem leaves_ne_nil : ∀ {value : Numbered}, value.IsSpelled → value.leaves ≠ []
  | .text _, _ => by simp [leaves]
  | .object members, h => by
    rw [IsSpelled] at h
    exact memberLeaves_ne_nil h.1 h.2.2
  | .list items, h => by
    rw [IsSpelled] at h
    exact itemLeaves_ne_nil h.1 h.2.2

theorem memberLeaves_ne_nil : ∀ {members : List (String × Numbered)}, members ≠ [] → AreSpelledMembers members →
    memberLeaves members ≠ []
  | [], hne, _ => absurd rfl hne
  | (key, value) :: members, _, h => by
    rw [AreSpelledMembers] at h
    simp [memberLeaves, leaves_ne_nil h.2.1]

theorem itemLeaves_ne_nil : ∀ {items : List (Nat × Numbered)}, items ≠ [] → AreSpelledItems items →
    itemLeaves items ≠ []
  | [], hne, _ => absurd rfl hne
  | (n, item) :: items, _, h => by
    rw [AreSpelledItems] at h
    simp [itemLeaves, leaves_ne_nil h.2.1]

end

mutual

/-- The names of the parameters spell the paths to the leaves. -/
theorem forall₂_parameters : ∀ {value : Numbered} {name : String} {path : List Segment}, value.IsSpelled → name ≠ "" →
    path? name = some path → List.Forall₂ (After path) (value.parameters name) value.leaves
  | .text _, _, _, _, hne, hpath => .cons ⟨hne, by simpa using hpath, rfl⟩ .nil
  | .object members, _, _, h, hne, hpath => by
    rw [IsSpelled] at h
    exact forall₂_memberParameters h.2.2 hne hpath
  | .list items, _, _, h, hne, hpath => by
    rw [IsSpelled] at h
    exact forall₂_itemParameters h.2.2 hne hpath

theorem forall₂_memberParameters : ∀ {members : List (String × Numbered)} {name : String} {path : List Segment},
    AreSpelledMembers members → name ≠ "" → path? name = some path →
    List.Forall₂ (After path) (memberParameters name members) (memberLeaves members)
  | [], _, _, _, _, _ => .nil
  | (key, value) :: members, name, path, h, hne, hpath => by
    obtain ⟨hkey, hvalue, hmembers⟩ := h
    have hbelow := path?_bracketed hpath hkey.2.1
    rw [Segment.ofText_key hkey.1 hkey.2.2] at hbelow
    rw [memberParameters, memberLeaves]
    refine List.rel_append ?_ (forall₂_memberParameters hmembers hne hpath)
    rw [List.forall₂_map_right_iff]
    exact (forall₂_parameters hvalue (bracketed_ne name key) hbelow).imp fun _ _ => after_under

theorem forall₂_itemParameters : ∀ {items : List (Nat × Numbered)} {name : String} {path : List Segment},
    AreSpelledItems items → name ≠ "" → path? name = some path →
    List.Forall₂ (After path) (itemParameters name items) (itemLeaves items)
  | [], _, _, _, _, _ => .nil
  | (n, item) :: items, name, path, h, hne, hpath => by
    obtain ⟨hn, hitem, hitems⟩ := h
    have hbelow := path?_bracketed hpath (not_mem_toString n)
    rw [Segment.ofText_index hn] at hbelow
    rw [itemParameters, itemLeaves]
    refine List.rel_append ?_ (forall₂_itemParameters hitems hne hpath)
    rw [List.forall₂_map_right_iff]
    exact (forall₂_parameters hitem (bracketed_ne name _) hbelow).imp fun _ _ => after_under

end

/-- The names of an object's parameters spell the paths to its leaves. -/
theorem forall₂_spelling {members : List (String × Numbered)} (h : IsDocument members) :
    List.Forall₂ (After []) (spelling members) (memberLeaves members) := by
  obtain ⟨hnames, -, hspelled⟩ := h
  induction members with
  | nil => exact .nil
  | cons m members ih =>
    obtain ⟨key, value⟩ := m
    obtain ⟨hname, hnames⟩ := List.forall_mem_cons.1 hnames
    obtain ⟨hvalue, hspelled⟩ := List.forall_mem_cons.1 hspelled
    rw [spelling, List.flatMap_cons, memberLeaves]
    refine List.rel_append ?_ (ih hnames hspelled)
    rw [List.forall₂_map_right_iff]
    exact (forall₂_parameters hvalue hname.1 (path?_of_name hname)).imp fun _ _ => after_under

/-! ### Their trees -/

mutual

/-- The tree of a value. -/
def tree : Numbered → Tree
  | .text s => .text s
  | .object members => .map (treeMembers members)
  | .list items => .list (treeItems items) []

def treeMembers : List (String × Numbered) → List (String × Tree)
  | [] => []
  | (key, value) :: members => (key, value.tree) :: treeMembers members

def treeItems : List (Nat × Numbered) → List (Nat × Tree)
  | [] => []
  | (n, item) :: items => (n, item.tree) :: treeItems items

end

mutual

theorem toJson_tree : ∀ value : Numbered, value.tree.toJson = value.json
  | .text _ => rfl
  | .object members => by rw [tree, Tree.toJson, json, toJson_treeMembers]
  | .list items => by rw [tree, Tree.toJson, json, toJson_treeItems, Tree.toJsonItems, List.append_nil]

theorem toJson_treeMembers : ∀ members : List (String × Numbered),
    Tree.toJsonEntries (treeMembers members) = jsonMembers members
  | [] => rfl
  | (key, value) :: members => by
    rw [treeMembers, Tree.toJsonEntries, jsonMembers, toJson_tree, toJson_treeMembers]

theorem toJson_treeItems : ∀ items : List (Nat × Numbered), Tree.toJsonIndexed (treeItems items) = jsonItems items
  | [] => rfl
  | (n, item) :: items => by rw [treeItems, Tree.toJsonIndexed, jsonItems, toJson_tree, toJson_treeItems]

end

mutual

/-- The leaves of a value make its tree. -/
theorem putAll_leaves : ∀ {value : Numbered}, value.IsSpelled → Tree.putAll value.leaves .empty = some value.tree
  | .text _, _ => rfl
  | .object members, h => by
    rw [IsSpelled] at h
    exact putAll_memberLeaves [] (isSpelled_of_mem h.2.2) (by simpa using h.2.1) rfl (.inl h.1)
  | .list items, h => by
    rw [IsSpelled] at h
    exact putAll_itemLeaves [] h.2.2 h.2.1 rfl (.inl h.1)

/-- The leaves of new members, or of none if there is a map already. -/
theorem putAll_memberLeaves : ∀ {members : List (String × Numbered)} (entries : List (String × Tree)) {t : Tree},
    (∀ m ∈ members, m.2.IsSpelled) → (entries.map Prod.fst ++ members.map Prod.fst).Nodup →
    t.entries? = some entries → (members ≠ [] ∨ t = .map entries) →
    Tree.putAll (memberLeaves members) t = some (.map (entries ++ treeMembers members))
  | [], entries, t, _, _, _, hend => by
    obtain rfl := hend.resolve_left (by simp)
    rw [treeMembers, List.append_nil]
    rfl
  | (key, value) :: members, entries, t, h, hkeys, ht, _ => by
    obtain ⟨hvalue, hmembers⟩ := List.forall_mem_cons.1 h
    rw [List.map_cons] at hkeys
    have hnew : key ∉ entries.map Prod.fst := fun hmem =>
      (List.nodup_append.1 hkeys).2.2 key hmem key List.mem_cons_self rfl
    have hrest : ((entries ++ [(key, value.tree)]).map Prod.fst ++ members.map Prod.fst).Nodup := by simpa using hkeys
    rw [memberLeaves, Tree.putAll_append, Tree.putAll_under_key hnew ht (leaves_ne_nil hvalue), putAll_leaves hvalue]
    refine (putAll_memberLeaves _ hmembers hrest rfl (.inr rfl)).trans ?_
    rw [treeMembers, List.append_assoc]
    rfl

theorem putAll_itemLeaves : ∀ {items : List (Nat × Numbered)} (indexed : List (Nat × Tree)) {t : Tree},
    AreSpelledItems items → (indexed.map Prod.fst ++ items.map Prod.fst).Pairwise (· < ·) →
    t.items? = some (indexed, []) → (items ≠ [] ∨ t = .list indexed []) →
    Tree.putAll (itemLeaves items) t = some (.list (indexed ++ treeItems items) [])
  | [], indexed, t, _, _, _, hend => by
    obtain rfl := hend.resolve_left (by simp)
    rw [treeItems, List.append_nil]
    rfl
  | (n, item) :: items, indexed, t, h, hless, ht, _ => by
    obtain ⟨-, hitem, hitems⟩ := h
    rw [List.map_cons] at hless
    have hnew : ∀ e ∈ indexed, e.1 < n := fun e he =>
      (List.pairwise_append.1 hless).2.2 e.1 (List.mem_map_of_mem he) n List.mem_cons_self
    have hrest : ((indexed ++ [(n, item.tree)]).map Prod.fst ++ items.map Prod.fst).Pairwise (· < ·) := by
      simpa using hless
    rw [itemLeaves, Tree.putAll_append, Tree.putAll_under_index hnew ht (leaves_ne_nil hitem), putAll_leaves hitem]
    refine (putAll_itemLeaves _ hitems hrest rfl (.inr rfl)).trans ?_
    rw [treeItems, List.append_assoc]
    rfl

end

/-- The leaves of an object make its tree. -/
theorem putAll_of_isDocument {members : List (String × Numbered)} (h : IsDocument members) :
    (Tree.map []).putAll (memberLeaves members) = some (.map (treeMembers members)) :=
  putAll_memberLeaves [] h.spelled (by simpa using h.keys) rfl (.inr rfl)

/-- An object is read back from its parameters. -/
theorem read_encode_spelling {members : List (String × Numbered)} (h : IsDocument members) :
    read (encode (spelling members)) = .ok (jsonMembers members) := by
  rw [read, pairs_encode, foldlM_place (forall₂_spelling h) (putAll_of_isDocument h)]
  exact congrArg Except.ok (toJson_treeMembers members)

end Numbered

end Form

end RecordQuery
