import Mathlib.Data.List.Pairwise
import Mathlib.Data.List.Perm.Basic
import Mathlib.Data.List.Sort
import Mathlib.Data.String.Basic
import RecordQuery.Proofs.Form.Numbering
/-!
# Parameters in any order

`Form.Numbered.read_encode_of_perm` reads the parameters of an object in any order: the items of its lists are in the
order of their numbers, and only its keys can be in another order than they were.

A tree whose keys are sorted (`Tree.sorted`) does not tell in which order they came. Placing a value and sorting is
placing it among sorted keys (`Tree.map_sorted_put`), and there two values can change places whose paths part
(`Tree.putSorted_comm`). The paths to the leaves of a value part from each other (`Numbered.pairwise_leaves`).
-/

namespace RecordQuery

/-- Puts an entry in front of the first whose key is not less. -/
def insertEntry {α β : Type} [LinearOrder α] (a : α) (x : β) (es : List (α × β)) : List (α × β) :=
  es.orderedInsert (fun e e' => e.1 ≤ e'.1) (a, x)

namespace Json

mutual

/-- The value with the keys of its objects in ascending order. -/
def sorted : Json → Json
  | .object members => .object (sortedMembers members)
  | .array items => .array (sortedItems items)
  | json => json

def sortedMembers : List (String × Json) → List (String × Json)
  | [] => []
  | (key, value) :: members => insertEntry key value.sorted (sortedMembers members)

def sortedItems : List Json → List Json
  | [] => []
  | item :: items => item.sorted :: sortedItems items

end

theorem sortedItems_append (items more : List Json) :
    sortedItems (items ++ more) = sortedItems items ++ sortedItems more := by
  induction items with
  | nil => rfl
  | cons item items ih => rw [List.cons_append, sortedItems, ih, sortedItems, List.cons_append]

end Json

namespace Form

/-! ## Trees with sorted keys -/

namespace Tree

mutual

/-- The tree with the keys of its maps in ascending order. -/
def sorted : Tree → Tree
  | .map entries => .map (sortedEntries entries)
  | .list indexed appended => .list (sortedIndexed indexed) (sortedItems appended)
  | t => t

def sortedEntries : List (String × Tree) → List (String × Tree)
  | [] => []
  | (key, t) :: entries => insertEntry key t.sorted (sortedEntries entries)

def sortedIndexed : List (Nat × Tree) → List (Nat × Tree)
  | [] => []
  | (n, t) :: items => (n, t.sorted) :: sortedIndexed items

def sortedItems : List Tree → List Tree
  | [] => []
  | t :: items => t.sorted :: sortedItems items

end

theorem sorted_empty : sorted .empty = .empty := rfl

theorem toJsonEntries_insertEntry (key : String) (t : Tree) (entries : List (String × Tree)) :
    toJsonEntries (insertEntry key t entries) = insertEntry key t.toJson (toJsonEntries entries) := by
  induction entries with
  | nil => rfl
  | cons e entries ih =>
    obtain ⟨k, u⟩ := e
    simp only [insertEntry] at ih
    by_cases h : key ≤ k
    · simp only [insertEntry, List.orderedInsert_cons, toJsonEntries, if_pos h]
    · simp only [insertEntry, List.orderedInsert_cons, toJsonEntries, if_neg h, ih]

mutual

/-- The JSON of a tree with sorted keys is sorted. -/
theorem toJson_sorted : ∀ t : Tree, t.sorted.toJson = t.toJson.sorted
  | .empty => rfl
  | .text _ => rfl
  | .map entries => by rw [sorted, toJson, toJson, Json.sorted, toJson_sortedEntries]
  | .list indexed appended => by
    rw [sorted, toJson, toJson, Json.sorted, Json.sortedItems_append, toJson_sortedIndexed, toJson_sortedItems]

theorem toJson_sortedEntries : ∀ entries : List (String × Tree),
    toJsonEntries (sortedEntries entries) = Json.sortedMembers (toJsonEntries entries)
  | [] => rfl
  | (key, t) :: entries => by
    rw [sortedEntries, toJsonEntries_insertEntry, toJson_sorted, toJson_sortedEntries, toJsonEntries,
      Json.sortedMembers]

theorem toJson_sortedIndexed : ∀ items : List (Nat × Tree),
    toJsonIndexed (sortedIndexed items) = Json.sortedItems (toJsonIndexed items)
  | [] => rfl
  | (n, t) :: items => by
    rw [sortedIndexed, toJsonIndexed, toJson_sorted, toJson_sortedIndexed, toJsonIndexed, Json.sortedItems]

theorem toJson_sortedItems : ∀ items : List Tree, toJsonItems (sortedItems items) = Json.sortedItems (toJsonItems items)
  | [] => rfl
  | t :: items => by
    rw [sortedItems, toJsonItems, toJson_sorted, toJson_sortedItems, toJsonItems, Json.sortedItems]

end

/-! ## Entries among sorted keys -/

section entries

variable {α : Type} [LinearOrder α] {a b : α} {t u : Tree} {es : List (α × Tree)}

/-- What is under a key among ascending ones, or the empty tree. -/
def entryAt (a : α) : List (α × Tree) → Tree
  | [] => .empty
  | (b, t) :: es => if a < b then .empty else if a = b then t else entryAt a es

/-- Puts a tree under a key among ascending ones. -/
def setAt (a : α) (t : Tree) : List (α × Tree) → List (α × Tree)
  | [] => [(a, t)]
  | (b, u) :: es =>
    if a < b then (a, t) :: (b, u) :: es
    else if a = b then (b, t) :: es
    else (b, u) :: setAt a t es

theorem entryAt_setAt (a : α) (t : Tree) (es : List (α × Tree)) : entryAt a (setAt a t es) = t := by
  induction es with
  | nil => simp [setAt, entryAt]
  | cons e es ih => grind [setAt, entryAt]

theorem setAt_setAt (a : α) (t u : Tree) (es : List (α × Tree)) : setAt a t (setAt a u es) = setAt a t es := by
  induction es with
  | nil => simp [setAt]
  | cons e es ih => grind [setAt]

/-- What is put under one key is not seen under another. -/
theorem entryAt_setAt_of_ne (h : a ≠ b) (t : Tree) (es : List (α × Tree)) :
    entryAt a (setAt b t es) = entryAt a es := by
  induction es with
  | nil => simp [setAt, entryAt, h]
  | cons e es ih => grind [setAt, entryAt]

/-- Two keys can be put in either order. -/
theorem setAt_comm (h : a ≠ b) (t u : Tree) (es : List (α × Tree)) :
    setAt a t (setAt b u es) = setAt b u (setAt a t es) := by
  induction es with
  | nil => grind [setAt]
  | cons e es ih => grind [setAt]

/-! The key of an entry that was inserted is found first, whether or not the entries ascend. -/

theorem entryAt_insertEntry (a : α) (t : Tree) (es : List (α × Tree)) : entryAt a (insertEntry a t es) = t := by
  induction es with
  | nil => simp [insertEntry, entryAt]
  | cons e es ih => grind [insertEntry, entryAt]

theorem setAt_insertEntry (a : α) (t u : Tree) (es : List (α × Tree)) :
    setAt a u (insertEntry a t es) = insertEntry a u es := by
  induction es with
  | nil => simp [insertEntry, setAt]
  | cons e es ih => grind [insertEntry, setAt]

theorem entryAt_insertEntry_of_ne (h : a ≠ b) (t : Tree) (es : List (α × Tree)) :
    entryAt a (insertEntry b t es) = entryAt a es := by
  induction es with
  | nil => simp [insertEntry, entryAt, h]
  | cons e es ih => grind [insertEntry, entryAt]

theorem setAt_insertEntry_of_ne (h : a ≠ b) (t u : Tree) (es : List (α × Tree)) :
    setAt a u (insertEntry b t es) = insertEntry b t (setAt a u es) := by
  induction es with
  | nil => grind [insertEntry, setAt]
  | cons e es ih => grind [insertEntry, setAt]

end entries

section put

variable {f g : Tree → Option Tree}

/-- Changing the entry of a key, then sorting. -/
theorem map_sorted_alterKey (h : ∀ t, (f t).map sorted = g t.sorted) (key : String) (entries : List (String × Tree)) :
    (alterKey f key entries).map sortedEntries =
      (g (entryAt key (sortedEntries entries))).map (setAt key · (sortedEntries entries)) := by
  induction entries with
  | nil =>
    rw [alterKey, Option.map_map, sortedEntries, entryAt, ← sorted_empty, ← h, Option.map_map]
    rfl
  | cons e entries ih =>
    obtain ⟨k, t⟩ := e
    rw [alterKey, sortedEntries]
    split
    · next hk =>
      rw [hk, entryAt_insertEntry, ← h, Option.map_map, Option.map_map]
      exact congrArg (Option.map · _) (funext fun u => (setAt_insertEntry key t.sorted u.sorted _).symm)
    · next hk =>
      -- The entry in front has another key: it is inserted after the change as it was before.
      rw [entryAt_insertEntry_of_ne (Ne.symm hk), Option.map_map]
      have hrest := congrArg (Option.map (insertEntry k t.sorted)) ih
      rw [Option.map_map, Option.map_map] at hrest
      refine hrest.trans (congrArg (Option.map · _) (funext fun u => ?_))
      exact (setAt_insertEntry_of_ne (Ne.symm hk) t.sorted u _).symm

/-- Changing the item of a number, then sorting. -/
theorem map_sorted_alterIndex (h : ∀ t, (f t).map sorted = g t.sorted) (n : Nat) (items : List (Nat × Tree)) :
    (alterIndex f n items).map sortedIndexed =
      (g (entryAt n (sortedIndexed items))).map (setAt n · (sortedIndexed items)) := by
  induction items with
  | nil =>
    rw [alterIndex, Option.map_map, sortedIndexed, entryAt, ← sorted_empty, ← h, Option.map_map]
    rfl
  | cons e items ih =>
    obtain ⟨m, t⟩ := e
    rw [alterIndex, sortedIndexed, entryAt]
    split_ifs with hlt heq
    · rw [← sorted_empty, ← h, Option.map_map, Option.map_map]
      refine congrArg (Option.map · _) (funext fun u => ?_)
      simp [sortedIndexed, setAt, hlt]
    · rw [← h, Option.map_map, Option.map_map]
      refine congrArg (Option.map · _) (funext fun u => ?_)
      simp [sortedIndexed, setAt, heq]
    · have hrest := congrArg (Option.map ((m, t.sorted) :: ·)) ih
      rw [Option.map_map, Option.map_map] at hrest
      rw [Option.map_map]
      refine hrest.trans (congrArg (Option.map · _) (funext fun u => ?_))
      simp [setAt, hlt, heq]

/-- Places a value along a path in a tree with sorted keys. -/
def putSorted (value : String) : List Segment → Tree → Option Tree
  | [], t => putHere value t
  | .key name :: rest, t => t.entries?.bind fun entries =>
    (putSorted value rest (entryAt name entries)).map fun u => .map (setAt name u entries)
  | .index n :: rest, t => t.items?.bind fun items =>
    (putSorted value rest (entryAt n items.1)).map fun u => .list (setAt n u items.1) items.2
  | .append :: rest, t => t.items?.bind fun items =>
    (putSorted value rest .empty).map fun u => .list items.1 (items.2 ++ [u])

theorem entries?_sorted (t : Tree) : t.sorted.entries? = t.entries?.map sortedEntries := by
  cases t <;> rfl

theorem items?_sorted (t : Tree) : t.sorted.items? = t.items?.map fun i => (sortedIndexed i.1, sortedItems i.2) := by
  cases t <;> rfl

theorem sortedItems_concat (items : List Tree) (t : Tree) :
    sortedItems (items ++ [t]) = sortedItems items ++ [t.sorted] := by
  induction items with
  | nil => rfl
  | cons item items ih => rw [List.cons_append, sortedItems, ih, sortedItems, List.cons_append]

/-- Placing a value, then sorting. -/
theorem map_sorted_put (value : String) (path : List Segment) (t : Tree) :
    (put value path t).map sorted = putSorted value path t.sorted := by
  induction path generalizing t with
  | nil =>
    cases t with
    | list indexed appended =>
      exact congrArg (fun items => some (Tree.list _ items)) (sortedItems_concat appended (.text value))
    | _ => rfl
  | cons segment rest ih =>
    cases segment with
    | key name =>
      rw [put_key, putSorted, entries?_sorted, Option.map_bind, Option.bind_map]
      refine congrArg (Option.bind _) (funext fun entries => ?_)
      have halter := congrArg (Option.map Tree.map) (map_sorted_alterKey ih name entries)
      simpa only [Option.map_map, Function.comp_def, sorted] using halter
    | index n =>
      rw [put_index, putSorted, items?_sorted, Option.map_bind, Option.bind_map]
      refine congrArg (Option.bind _) (funext fun items => ?_)
      have halter := congrArg (Option.map (Tree.list · (sortedItems items.2))) (map_sorted_alterIndex ih n items.1)
      simpa only [Option.map_map, Function.comp_def, sorted] using halter
    | append =>
      rw [put_append, putSorted, items?_sorted, Option.map_bind, Option.bind_map]
      refine congrArg (Option.bind _) (funext fun items => ?_)
      have hchild := congrArg (Option.map fun u => Tree.list (sortedIndexed items.1) (sortedItems items.2 ++ [u]))
        (ih .empty)
      simpa only [Option.map_map, Function.comp_def, sorted, sortedItems_concat] using hchild

end put

/-! ## Paths that part -/

/-- Whether two paths go the same way by keys and numbers and then part. -/
inductive Parted : List Segment → List Segment → Prop
  | keys {a b : String} (p q : List Segment) (h : a ≠ b) : Parted (.key a :: p) (.key b :: q)
  | indices {m n : Nat} (p q : List Segment) (h : m ≠ n) : Parted (.index m :: p) (.index n :: q)
  | key (a : String) {p q : List Segment} (h : Parted p q) : Parted (.key a :: p) (.key a :: q)
  | index (n : Nat) {p q : List Segment} (h : Parted p q) : Parted (.index n :: p) (.index n :: q)

theorem Parted.symm {p q : List Segment} (h : Parted p q) : Parted q p := by
  induction h with
  | keys p q h => exact .keys q p h.symm
  | indices p q h => exact .indices q p h.symm
  | key a _ ih => exact .key a ih
  | index n _ ih => exact .index n ih

/-- Whether the paths of two leaves part. -/
def Apart (l m : List Segment × String) : Prop := Parted l.1 m.1

instance : Std.Symm Apart := ⟨fun _ _ => Parted.symm⟩

/-- Placing values under two keys is changing two entries. -/
theorem putSorted_key_bind (v w : String) (a b : String) (p q : List Segment) (t : Tree) :
    (putSorted v (.key a :: p) t).bind (putSorted w (.key b :: q)) =
      t.entries?.bind fun entries => (putSorted v p (entryAt a entries)).bind fun u =>
        (putSorted w q (entryAt b (setAt a u entries))).map fun u' => .map (setAt b u' (setAt a u entries)) := by
  cases h : t.entries? with
  | none => simp [putSorted, h]
  | some entries => simp [putSorted, h, entries?_map, Option.bind_map, Function.comp_def]

theorem putSorted_index_bind (v w : String) (m n : Nat) (p q : List Segment) (t : Tree) :
    (putSorted v (.index m :: p) t).bind (putSorted w (.index n :: q)) =
      t.items?.bind fun items => (putSorted v p (entryAt m items.1)).bind fun u =>
        (putSorted w q (entryAt n (setAt m u items.1))).map fun u' =>
          .list (setAt n u' (setAt m u items.1)) items.2 := by
  cases h : t.items? with
  | none => simp [putSorted, h]
  | some items => simp [putSorted, h, items?_list, Option.bind_map, Function.comp_def]

/-- Among sorted keys, values can change places whose paths part. -/
theorem putSorted_comm {p q : List Segment} (h : Parted p q) (v w : String) (t : Tree) :
    (putSorted v p t).bind (putSorted w q) = (putSorted w q t).bind (putSorted v p) := by
  induction h generalizing t with
  | keys p q h =>
    simp only [putSorted_key_bind, entryAt_setAt_of_ne h, entryAt_setAt_of_ne h.symm]
    refine congrArg (Option.bind _) (funext fun entries => ?_)
    cases putSorted v p (entryAt _ entries) <;> cases putSorted w q (entryAt _ entries) <;> simp [setAt_comm h]
  | indices p q h =>
    simp only [putSorted_index_bind, entryAt_setAt_of_ne h, entryAt_setAt_of_ne h.symm]
    refine congrArg (Option.bind _) (funext fun items => ?_)
    cases putSorted v p (entryAt _ items.1) <;> cases putSorted w q (entryAt _ items.1) <;> simp [setAt_comm h]
  | key a h ih =>
    simp only [putSorted_key_bind, entryAt_setAt, setAt_setAt]
    refine congrArg (Option.bind _) (funext fun entries => ?_)
    have hbelow := congrArg (Option.map fun u => Tree.map (setAt a u entries)) (ih (entryAt a entries))
    simpa only [Option.map_bind, Function.comp_def] using hbelow
  | index n h ih =>
    simp only [putSorted_index_bind, entryAt_setAt, setAt_setAt]
    refine congrArg (Option.bind _) (funext fun items => ?_)
    have hbelow := congrArg (Option.map fun u => Tree.list (setAt n u items.1) items.2) (ih (entryAt n items.1))
    simpa only [Option.map_bind, Function.comp_def] using hbelow

/-- Placing values one after the other, then sorting. -/
theorem map_sorted_putAll (ls : List (List Segment × String)) (t : Option Tree) :
    (t.bind (putAll ls)).map sorted = ls.foldl (fun t l => t.bind (putSorted l.2 l.1)) (t.map sorted) := by
  induction ls generalizing t with
  | nil => cases t <;> rfl
  | cons l ls ih =>
    have hfirst : (t.bind (put l.2 l.1)).map sorted = (t.map sorted).bind (putSorted l.2 l.1) := by
      simp only [Option.map_bind, Option.bind_map, Function.comp_def, map_sorted_put]
    rw [List.foldl_cons, ← hfirst, ← ih, Option.bind_assoc]
    rfl

/-- The order of values whose paths part is not seen in the tree with sorted keys. -/
theorem map_sorted_putAll_of_perm {ls ms : List (List Segment × String)} (h : ls.Perm ms)
    (hparted : ls.Pairwise Apart) (t : Tree) :
    (t.putAll ls).map sorted = (t.putAll ms).map sorted := by
  have hls := map_sorted_putAll ls (some t)
  have hms := map_sorted_putAll ms (some t)
  rw [Option.bind_some] at hls hms
  rw [hls, hms]
  -- A permutation is made of swaps of two leaves, which part unless they are the same.
  refine h.foldl_eq' (fun l hl m hm u => ?_) _
  by_cases heq : l = m
  · rw [heq]
  simp only [Option.bind_assoc, putSorted_comm (hparted.forall hl hm heq)]

end Tree

/-! ## Parameters read back -/

namespace Numbered

open Form.Tree (Apart)

theorem memberLeaves_eq (members : List (String × Numbered)) :
    memberLeaves members = members.flatMap fun m => m.2.leaves.map (under (.key m.1)) := by
  induction members with
  | nil => rfl
  | cons m members ih => rw [memberLeaves, ih, List.flatMap_cons]

theorem itemLeaves_eq (items : List (Nat × Numbered)) :
    itemLeaves items = items.flatMap fun i => i.2.leaves.map (under (.index i.1)) := by
  induction items with
  | nil => rfl
  | cons i items ih => rw [itemLeaves, ih, List.flatMap_cons]

/-- Leaves below keys that are told apart part from each other if the leaves below each key do. -/
theorem pairwise_memberLeaves {members : List (String × Numbered)} (hkeys : (members.map Prod.fst).Nodup)
    (h : ∀ m ∈ members, m.2.leaves.Pairwise Apart) : (memberLeaves members).Pairwise Apart := by
  rw [memberLeaves_eq, List.pairwise_flatMap]
  refine ⟨fun m hm => List.pairwise_map.2 ((h m hm).imp fun hpart => .key m.1 hpart), ?_⟩
  refine (List.pairwise_map.1 hkeys).imp fun {m m'} hne l hl l' hl' => ?_
  obtain ⟨k, -, rfl⟩ := List.mem_map.1 hl
  obtain ⟨k', -, rfl⟩ := List.mem_map.1 hl'
  exact .keys k.1 k'.1 hne

theorem pairwise_itemLeaves {items : List (Nat × Numbered)} (hnumbers : (items.map Prod.fst).Pairwise (· < ·))
    (h : ∀ i ∈ items, i.2.leaves.Pairwise Apart) : (itemLeaves items).Pairwise Apart := by
  rw [itemLeaves_eq, List.pairwise_flatMap]
  refine ⟨fun i hi => List.pairwise_map.2 ((h i hi).imp fun hpart => .index i.1 hpart), ?_⟩
  refine (List.pairwise_map.1 hnumbers).imp fun {i i'} hlt l hl l' hl' => ?_
  obtain ⟨k, -, rfl⟩ := List.mem_map.1 hl
  obtain ⟨k', -, rfl⟩ := List.mem_map.1 hl'
  exact .indices k.1 k'.1 (Nat.ne_of_lt hlt)

mutual

/-- The paths to the leaves of a value part from each other. -/
theorem pairwise_leaves : ∀ {value : Numbered}, value.IsSpelled → value.leaves.Pairwise Apart
  | .text _, _ => List.pairwise_singleton _ _
  | .object members, h => by
    rw [IsSpelled] at h
    exact pairwise_memberLeaves h.2.1 (pairwise_leaves_of_members h.2.2)
  | .list items, h => by
    rw [IsSpelled] at h
    exact pairwise_itemLeaves h.2.1 (pairwise_leaves_of_items h.2.2)

theorem pairwise_leaves_of_members : ∀ {members : List (String × Numbered)}, AreSpelledMembers members →
    ∀ m ∈ members, m.2.leaves.Pairwise Apart
  | [], _ => by simp
  | (_, _) :: _, ⟨_, hvalue, hmembers⟩ =>
    List.forall_mem_cons.2 ⟨pairwise_leaves hvalue, pairwise_leaves_of_members hmembers⟩

theorem pairwise_leaves_of_items : ∀ {items : List (Nat × Numbered)}, AreSpelledItems items →
    ∀ i ∈ items, i.2.leaves.Pairwise Apart
  | [], _ => by simp
  | (_, _) :: _, ⟨_, hitem, hitems⟩ =>
    List.forall_mem_cons.2 ⟨pairwise_leaves hitem, pairwise_leaves_of_items hitems⟩

end

/-- The parameters of an object in any order are placed in a tree that differs from its own in the order of keys. -/
theorem foldlM_place_of_perm {members : List (String × Numbered)} {ps : List (String × String)} (h : IsDocument members)
    (hperm : ps.Perm (spelling members)) : ∃ entries, ps.foldlM place (.map []) = .ok (.map entries) ∧
      (Tree.map entries).sorted = (Tree.map (treeMembers members)).sorted := by
  -- The leaves are in another order, too, and each parameter still spells the path to its own.
  obtain ⟨ls, hls, hleaves⟩ := List.perm_comp_forall₂ hperm (forall₂_spelling h)
  have hparted : (memberLeaves members).Pairwise Apart :=
    pairwise_memberLeaves h.keys fun m hm => pairwise_leaves (h.spelled m hm)
  have hsorted := Tree.map_sorted_putAll_of_perm hleaves.symm hparted (.map [])
  rw [putAll_of_isDocument h] at hsorted
  obtain ⟨u, hu, hsame⟩ := Option.map_eq_some_iff.1 hsorted.symm
  cases u with
  | map entries => exact ⟨entries, foldlM_place hls hu, hsame⟩
  | _ => simp [Tree.sorted] at hsame

/-- The parameters of an object in any order give the object, with its keys in some order and the items of its lists
in the order of their numbers; in their own order they give the keys in theirs. -/
theorem read_encode_of_perm {members : List (String × Numbered)} {ps : List (String × String)} (h : IsDocument members)
    (hperm : ps.Perm (spelling members)) :
    ∃ result, read (encode ps) = .ok result ∧
      (Json.object result).sorted = (Json.object (jsonMembers members)).sorted ∧
      (ps = spelling members → result = jsonMembers members) := by
  obtain ⟨entries, hplaced, hsorted⟩ := foldlM_place_of_perm h hperm
  have hread : read (encode ps) = .ok (Tree.toJsonEntries entries) := by rw [read, pairs_encode, hplaced]; rfl
  refine ⟨_, hread, ?_, fun heq => ?_⟩
  · calc (Tree.map entries).toJson.sorted
      _ = (Tree.map entries).sorted.toJson := (Tree.toJson_sorted _).symm
      _ = (Tree.map (treeMembers members)).sorted.toJson := by rw [hsorted]
      _ = (Tree.map (treeMembers members)).toJson.sorted := Tree.toJson_sorted _
      _ = (Json.object (jsonMembers members)).sorted := by rw [Tree.toJson, toJson_treeMembers]
  · rw [heq, read_encode_spelling h] at hread
    exact (Except.ok.inj hread).symm

/-- A choice of colours, with a gap in their numbers, and of sizes. -/
def choice : List (String × Numbered) :=
  [("colour", .list [(2, .text "red"), (10, .text "blue")]), ("size", .object [("from", .text "1"), ("to", .text "4")])]

theorem read_encode_of_perm_choice : IsDocument choice ∧
    [("size[to]", "4"), ("colour[10]", "blue"), ("colour[2]", "red"), ("size[from]", "1")].Perm (spelling choice) ∧
    ∃ result, read "size%5Bto%5D=4&colour%5B10%5D=blue&colour%5B2%5D=red&size%5Bfrom%5D=1" = .ok result ∧
      (Json.object result).sorted = (Json.object (jsonMembers choice)).sorted := by
  have hdocument : IsDocument choice := by
    refine ⟨?_, by decide, ?_⟩
    · simp only [choice, IsName]
      decide
    · simp [choice, IsSpelled, AreSpelledMembers, AreSpelledItems, Json.IsSpelled.Key]
      decide
  have hperm : [("size[to]", "4"), ("colour[10]", "blue"), ("colour[2]", "red"), ("size[from]", "1")].Perm
      (spelling choice) := by decide +kernel
  obtain ⟨result, hread, hsorted, -⟩ := read_encode_of_perm hdocument hperm
  exact ⟨hdocument, hperm, result, hread, hsorted⟩

end Numbered

end Form

end RecordQuery
