import RecordQuery.Proofs.Form.Arrival
import RecordQuery.Proofs.Outcome
/-!
# Which parameters conflict

`Form.accepted_in_any_order_iff` says which query strings are accepted, and for which ones the order of the parameters
matters. What a parameter does at a place along its path (`Use`) is to leave a text, to go on to an entry of a map, or
to go on to an item of a list. Entries go with entries alone. Texts and items make a list together, unless the first
parameter to come leaves a text and the second goes on to an item.

One parameter takes the node at each place along its path one step further and leaves all other nodes as they are
(`Tree.shapeAt_put`), and it is placed if every such step can be made (`Tree.isSome_put`). Hence parameters are placed
one after the other if the run at every place succeeds (`Tree.isSome_putAll_iff`). Places below an appended item are
left out: each appended item is a new one, and nothing conflicts with it.
-/

namespace RecordQuery.Form

/-! ## What a parameter does at a place -/

/-- What a parameter does at a place along its path. -/
inductive Use where
  | text
  | entry
  | item
  deriving DecidableEq

/-- What a path does at its start. -/
def Use.of : List Segment → Use
  | [] => .text
  | .key _ :: _ => .entry
  | .index _ :: _ => .item
  | .append :: _ => .item

/-- What a path does at a place, if it leads there. -/
def Use.at? : List Segment → List Segment → Option Use
  | [], path => some (.of path)
  | _ :: _, [] => none
  | step :: place, segment :: path => if step = segment then at? place path else none

/-- What paths do at a place, one after the other. -/
def uses (place : List Segment) (paths : List (List Segment)) : List Use := paths.filterMap (Use.at? place)

theorem Use.at?_eq_some_iff {place path : List Segment} {use : Use} :
    at? place path = some use ↔ ∃ rest, path = place ++ rest ∧ of rest = use := by
  induction place generalizing path with
  | nil => simp [at?]
  | cons step place ih =>
    cases path with
    | nil => simp [at?]
    | cons segment path =>
      by_cases h : step = segment
      · simp [at?, h, ih]
      · simp [at?, h, Ne.symm h]

/-- A path leaves a text only where it ends. -/
theorem Use.of_eq_text_iff {path : List Segment} : of path = .text ↔ path = [] := by
  cases path with
  | nil => simp [of]
  | cons segment rest => cases segment <;> simp [of]

theorem mem_uses_iff {place : List Segment} {paths : List (List Segment)} {use : Use} :
    use ∈ uses place paths ↔ ∃ path ∈ paths, Use.at? place path = some use := List.mem_filterMap

theorem uses_cons (place path : List Segment) (paths : List (List Segment)) :
    uses place (path :: paths) = (Use.at? place path).toList ++ uses place paths := by
  cases h : Use.at? place path <;> simp [uses, h]

/-- Whether entries are among entries alone. -/
def Unmixed (us : List Use) : Prop := .entry ∈ us → .text ∉ us ∧ .item ∉ us

/-- What a node is. -/
inductive Shape where
  | empty
  | text
  | map
  | list

namespace Shape

/-- What a node is after one more use, if it can be used so. -/
def next : Shape → Use → Option Shape
  | .empty, .text => some .text
  | .empty, .entry => some .map
  | .empty, .item => some .list
  | .text, .text => some .list
  | .list, .text => some .list
  | .list, .item => some .list
  | .map, .entry => some .map
  | _, _ => none

/-- What a node is after several uses. -/
def run (shape : Shape) (us : List Use) : Option Shape := us.foldlM next shape

theorem run_cons (shape : Shape) (u : Use) (us : List Use) :
    shape.run (u :: us) = (shape.next u).bind (·.run us) := rfl

theorem isSome_run_map_iff {us : List Use} : (map.run us).isSome ↔ .text ∉ us ∧ .item ∉ us := by
  induction us with
  | nil => simp [run]
  | cons u us ih => cases u <;> simp [run_cons, next, ih]

theorem isSome_run_list_iff {us : List Use} : (list.run us).isSome ↔ .entry ∉ us := by
  induction us with
  | nil => simp [run]
  | cons u us ih => cases u <;> simp [run_cons, next, ih]

/-- A text becomes a list by one more text and not by an item. -/
theorem isSome_run_text_iff {us : List Use} : (text.run us).isSome ↔ .entry ∉ us ∧ ¬ [.item] <+: us := by
  cases us with
  | nil => simp [run]
  | cons u us => cases u <;> simp [run_cons, next, isSome_run_list_iff]

/-- A node is made by entries alone, or by texts and items that do not begin with a text and then an item. -/
theorem isSome_run_empty_iff {us : List Use} :
    (empty.run us).isSome ↔ Unmixed us ∧ ¬ [.text, .item] <+: us := by
  cases us with
  | nil => simp [run, Unmixed]
  | cons u us =>
    cases u with
    | text => simp [run_cons, next, isSome_run_text_iff, Unmixed]
    | entry => simp [run_cons, next, isSome_run_map_iff, Unmixed]
    | item => simp [run_cons, next, isSome_run_list_iff, Unmixed]

/-- What a node is after a parameter that may lead elsewhere. -/
def after (shape : Shape) : Option Use → Option Shape
  | none => some shape
  | some use => shape.next use

theorem run_uses_cons (shape : Shape) (place path : List Segment) (paths : List (List Segment)) :
    shape.run (uses place (path :: paths)) = (shape.after (Use.at? place path)).bind (·.run (uses place paths)) := by
  rw [uses_cons]
  cases Use.at? place path <;> rfl

end Shape

/-! ## One parameter -/

namespace Tree

/-- What the root of a tree is. -/
def shape : Tree → Shape
  | .empty => .empty
  | .text _ => .text
  | .map _ => .map
  | .list _ _ => .list

/-- What is at a place in a tree with sorted keys. -/
def nodeAt : List Segment → Tree → Tree
  | [], t => t
  | .key name :: place, t => nodeAt place (entryAt name (t.entries?.getD []))
  | .index n :: place, t => nodeAt place (entryAt n (t.items?.getD ([], [])).1)
  | .append :: _, _ => .empty

/-- What the node at a place is. -/
def shapeAt (place : List Segment) (t : Tree) : Shape := (nodeAt place t.sorted).shape

theorem nodeAt_empty (place : List Segment) : nodeAt place .empty = .empty := by
  induction place with
  | nil => rfl
  | cons step place ih => cases step <;> simp [nodeAt, entries?, items?, entryAt, ih]

section put

variable {value : String} {place path : List Segment} {t u : Tree} {entries : List (String × Tree)}
  {items : List (Nat × Tree) × List Tree}

/-! What has entries takes one more, and no item is in it; and the other way round. -/

theorem next_of_entries? (h : t.entries? = some entries) : t.shape.next .entry = some .map := by
  cases t <;> cases h <;> rfl

theorem next_of_items? (h : t.items? = some items) : t.shape.next .item = some .list := by
  cases t <;> cases h <;> rfl

theorem exists_entries? (h : (t.shape.next .entry).isSome) : ∃ entries, t.entries? = some entries := by
  cases t with
  | empty | map _ => exact ⟨_, rfl⟩
  | text _ | list _ _ => cases h

theorem exists_items? (h : (t.shape.next .item).isSome) : ∃ items, t.items? = some items := by
  cases t with
  | empty | list _ _ => exact ⟨_, rfl⟩
  | text _ | map _ => cases h

theorem nodeAt_index (h : t.entries? = some entries) (n : Nat) (place : List Segment) :
    nodeAt (.index n :: place) t = .empty := by
  cases t with
  | empty | map _ => exact nodeAt_empty place
  | text _ | list _ _ => cases h

theorem nodeAt_key (h : t.items? = some items) (name : String) (place : List Segment) :
    nodeAt (.key name :: place) t = .empty := by
  cases t with
  | empty | list _ _ => exact nodeAt_empty place
  | text _ | map _ => cases h

/-- Where a path ends, the node goes one step further, and what is below it stays. -/
theorem shape_nodeAt_putHere (h : putHere value t = some u) :
    (nodeAt place t).shape.after (Use.at? place []) = some (nodeAt place u).shape := by
  cases place with
  | nil => cases t <;> cases h <;> rfl
  | cons step place => cases step <;> cases t <;> cases h <;> rfl

/-- Placing a value takes the node at each place along the path one step further and leaves the other nodes as they
are. -/
theorem shape_nodeAt_putSorted (h : putSorted value path t = some u) (hplace : .append ∉ place) :
    (nodeAt place t).shape.after (Use.at? place path) = some (nodeAt place u).shape := by
  induction path generalizing place t u with
  | nil => exact shape_nodeAt_putHere h
  | cons segment rest ih =>
    cases segment with
    | key name =>
      obtain ⟨entries, hentries, h⟩ := Option.bind_eq_some_iff.1 h
      obtain ⟨child, hchild, rfl⟩ := Option.map_eq_some_iff.1 h
      cases place with
      | nil => exact next_of_entries? hentries
      | cons step place =>
        cases step with
        | key other =>
          simp only [nodeAt, hentries, entries?_map, Option.getD_some]
          by_cases hname : other = name
          · simpa [Use.at?, hname, entryAt_setAt] using ih hchild fun hmem => hplace (.tail _ hmem)
          · simp [Use.at?, hname, entryAt_setAt_of_ne hname, Shape.after]
        | index n =>
          rw [nodeAt_index hentries, nodeAt_index (entries?_map _)]
          rfl
        | append => simp at hplace
    | index n =>
      obtain ⟨items, hitems, h⟩ := Option.bind_eq_some_iff.1 h
      obtain ⟨child, hchild, rfl⟩ := Option.map_eq_some_iff.1 h
      cases place with
      | nil => exact next_of_items? hitems
      | cons step place =>
        cases step with
        | key name =>
          rw [nodeAt_key hitems, nodeAt_key (items?_list _ _)]
          rfl
        | index m =>
          simp only [nodeAt, hitems, items?_list, Option.getD_some]
          by_cases hnumber : m = n
          · simpa [Use.at?, hnumber, entryAt_setAt] using ih hchild fun hmem => hplace (.tail _ hmem)
          · simp [Use.at?, hnumber, entryAt_setAt_of_ne hnumber, Shape.after]
        | append => simp at hplace
    | append =>
      -- What has a place in a list is where it was: the appended item has none.
      obtain ⟨items, hitems, h⟩ := Option.bind_eq_some_iff.1 h
      obtain ⟨child, -, rfl⟩ := Option.map_eq_some_iff.1 h
      cases place with
      | nil => exact next_of_items? hitems
      | cons step place =>
        cases step with
        | key name =>
          rw [nodeAt_key hitems, nodeAt_key (items?_list _ _)]
          rfl
        | index m => simp [Use.at?, nodeAt, hitems, items?_list, Shape.after]
        | append => simp at hplace

/-- A value is placed if the node at each place along the path can go one step further. -/
theorem isSome_putSorted
    (h : ∀ place, .append ∉ place → ((nodeAt place t).shape.after (Use.at? place path)).isSome) :
    (putSorted value path t).isSome := by
  induction path generalizing t with
  | nil =>
    have hend := h [] (by simp)
    cases t with
    | map entries => cases hend
    | _ => rfl
  | cons segment rest ih =>
    have hstart := h [] (by simp)
    cases segment with
    | key name =>
      obtain ⟨entries, hentries⟩ := exists_entries? (t := t) hstart
      have hchild : (putSorted value rest (entryAt name entries)).isSome := by
        refine ih fun place hplace => ?_
        simpa [nodeAt, hentries, Use.at?] using h (.key name :: place) (by simpa using hplace)
      simpa [putSorted, hentries] using hchild
    | index n =>
      obtain ⟨items, hitems⟩ := exists_items? (t := t) hstart
      have hchild : (putSorted value rest (entryAt n items.1)).isSome := by
        refine ih fun place hplace => ?_
        simpa [nodeAt, hitems, Use.at?] using h (.index n :: place) (by simpa using hplace)
      simpa [putSorted, hitems] using hchild
    | append =>
      obtain ⟨items, hitems⟩ := exists_items? (t := t) hstart
      -- The appended item is a new node, and a new node can be used in any way.
      have hchild : (putSorted value rest .empty).isSome := by
        refine ih fun place _ => ?_
        rw [nodeAt_empty]
        rcases Use.at? place rest with _ | _ | _ | _ <;> rfl
      simpa [putSorted, hitems] using hchild

theorem shapeAt_put (h : put value path t = some u) (hplace : .append ∉ place) :
    (shapeAt place t).after (Use.at? place path) = some (shapeAt place u) :=
  shape_nodeAt_putSorted (by rw [← map_sorted_put, h, Option.map_some]) hplace

theorem isSome_put (h : ∀ place, .append ∉ place → ((shapeAt place t).after (Use.at? place path)).isSome) :
    (put value path t).isSome := by
  rw [← Option.isSome_map (f := sorted), map_sorted_put]
  exact isSome_putSorted h

end put

/-! ## One parameter after the other -/

/-- Values are placed one after the other exactly if the node at every place can be used so. -/
theorem isSome_putAll_iff {ls : List (List Segment × String)} {t : Tree} :
    (t.putAll ls).isSome ↔
      ∀ place, .append ∉ place → ((shapeAt place t).run (uses place (ls.map Prod.fst))).isSome := by
  induction ls generalizing t with
  | nil => simp [putAll, uses, Shape.run]
  | cons l ls ih =>
    simp only [putAll_cons, List.map_cons, Shape.run_uses_cons]
    constructor
    · intro h place hplace
      obtain ⟨u, hput⟩ := Option.isSome_iff_exists.1 (Option.isSome_of_isSome_bind h)
      rw [hput, Option.bind_some] at h
      rw [shapeAt_put hput hplace]
      exact ih.1 h place hplace
    · intro h
      have hput : (put l.2 l.1 t).isSome := isSome_put fun place hplace => Option.isSome_of_isSome_bind (h place hplace)
      obtain ⟨u, hput⟩ := Option.isSome_iff_exists.1 hput
      rw [hput, Option.bind_some]
      refine ih.2 fun place hplace => ?_
      simpa only [shapeAt_put hput hplace, Option.bind_some] using h place hplace

/-- Nothing is below the root at the start. -/
theorem shapeAt_root_cons (step : Segment) (place : List Segment) : shapeAt (step :: place) (.map []) = .empty := by
  cases step with
  | key _ | index _ => exact congrArg shape (nodeAt_empty place)
  | append => rfl

/-- Values are placed below the root, if the root has entries alone, no place has entries and others, and none has
first a text and then an item. -/
theorem isSome_putAll_root_iff {ls : List (List Segment × String)} :
    ((Tree.map []).putAll ls).isSome ↔
      (.text ∉ uses [] (ls.map Prod.fst) ∧ .item ∉ uses [] (ls.map Prod.fst)) ∧
      ∀ place, .append ∉ place →
        Unmixed (uses place (ls.map Prod.fst)) ∧ ¬ [.text, .item] <+: uses place (ls.map Prod.fst) := by
  rw [isSome_putAll_iff]
  constructor
  · intro h
    have hroot : .text ∉ uses [] (ls.map Prod.fst) ∧ .item ∉ uses [] (ls.map Prod.fst) :=
      Shape.isSome_run_map_iff.1 (h [] (by simp))
    refine ⟨hroot, fun place hplace => ?_⟩
    cases place with
    | nil => exact ⟨fun _ => hroot, fun hfirst => hroot.1 (hfirst.subset (by simp))⟩
    | cons step place =>
      have hrun := h (step :: place) hplace
      rw [shapeAt_root_cons] at hrun
      exact Shape.isSome_run_empty_iff.1 hrun
  · rintro ⟨hroot, h⟩ place hplace
    cases place with
    | nil => exact Shape.isSome_run_map_iff.2 hroot
    | cons step place =>
      rw [shapeAt_root_cons]
      exact Shape.isSome_run_empty_iff.2 (h (step :: place) hplace)

end Tree

/-! ## Query strings -/

/-- The path that the name of a parameter spells, with its value. A parameter without a name has none. -/
def leaf? (p : String × String) : Option (List Segment × String) :=
  if p.1.isEmpty then none else (path? p.1).map (·, p.2)

/-- The paths that the names of parameters spell, in order. -/
def paths (ps : List (String × String)) : List (List Segment) := (ps.filterMap leaf?).map Prod.fst

/-- Whether no two parameters conflict by what they do at a place, whichever comes first. -/
structure Agreeing (ps : List (String × String)) : Prop where
  /-- Every name spells a path. -/
  spelled : ∀ p ∈ ps, p.1 ≠ "" → (path? p.1).isSome
  /-- The root has entries alone. -/
  root : .text ∉ uses [] (paths ps) ∧ .item ∉ uses [] (paths ps)
  /-- A place with an entry has entries alone. -/
  entries : ∀ place, .append ∉ place → Unmixed (uses place (paths ps))

/-- Whether both texts and items come to a place. -/
def Meet (place : List Segment) (ps : List (String × String)) : Prop :=
  .text ∈ uses place (paths ps) ∧ .item ∈ uses place (paths ps)

/-- Parameters are placed if their names spell paths along which their values can be placed. -/
theorem exists_foldlM_place_iff {ps : List (String × String)} {t : Tree} :
    (∃ u, ps.foldlM place t = .ok u) ↔
      (∀ p ∈ ps, p.1 ≠ "" → (path? p.1).isSome) ∧ (t.putAll (ps.filterMap leaf?)).isSome := by
  induction ps generalizing t with
  | nil => simp [Tree.putAll, pure, Except.pure]
  | cons p ps ih =>
    obtain ⟨name, value⟩ := p
    rw [List.foldlM_cons, List.forall_mem_cons]
    by_cases hname : name = ""
    · have hplace : place t (name, value) = .ok t := by simp [place, hname]
      have hleaf : leaf? (name, value) = none := by simp [leaf?, hname]
      rw [hplace, List.filterMap_cons_none hleaf]
      exact (ih (t := t)).trans (by simp [hname])
    cases hpath : path? name with
    | none =>
      have hplace : place t (name, value) = .error (.parameterName name) := by simp [place, hname, hpath]
      simp [hplace, hname, bind, Except.bind]
    | some path =>
      have hleaf : leaf? (name, value) = some (path, value) := by simp [leaf?, hname, hpath]
      rw [List.filterMap_cons_some hleaf, Tree.putAll_cons]
      cases hput : t.put value path with
      | none =>
        have hplace : place t (name, value) = .error (.parameterConflict name) := by
          simp [place, hname, hpath, hput]
        simp [hplace, bind, Except.bind]
      | some u =>
        have hplace : place t (name, value) = .ok u := by simp [place, hname, hpath, hput]
        rw [hplace]
        exact (ih (t := u)).trans (by simp)

/-- The parameters of a query string, in order. -/
def received (query : String) : List (String × String) := pairs (withoutMark query.toList)

/-- Whether a query string is accepted. -/
def Accepted (query : String) : Prop := ∃ members, read query = .ok members

/-- A query string is accepted if its parameters agree and no place has first a text and then an item. -/
theorem accepted_iff {query : String} :
    Accepted query ↔ Agreeing (received query) ∧
      ∀ place, .append ∉ place → ¬ [.text, .item] <+: uses place (paths (received query)) := by
  have hread : Accepted query ↔ ∃ t, (received query).foldlM place (.map []) = .ok t := by
    constructor
    · rintro ⟨members, h⟩
      obtain ⟨t, ht, -⟩ := Outcome.bind_eq_ok_iff.1 h
      exact ⟨t, ht⟩
    · rintro ⟨t, ht⟩
      have ht : (pairs (withoutMark query.toList)).foldlM place (.map []) = .ok t := ht
      cases t <;> simp [Accepted, read, ht, bind, Except.bind]
  rw [hread, exists_foldlM_place_iff, Tree.isSome_putAll_root_iff]
  constructor
  · rintro ⟨hspelled, hroot, hplaces⟩
    exact ⟨⟨hspelled, hroot, fun place hplace => (hplaces place hplace).1⟩,
      fun place hplace => (hplaces place hplace).2⟩
  · rintro ⟨⟨hspelled, hroot, hentries⟩, hfirst⟩
    exact ⟨hspelled, hroot, fun place hplace => ⟨hentries place hplace, hfirst place hplace⟩⟩

/-! ## In any order -/

section orders

variable {ps qs : List (String × String)}

theorem mem_uses_paths_of_perm (h : ps.Perm qs) (place : List Segment) (use : Use) :
    use ∈ uses place (paths ps) ↔ use ∈ uses place (paths qs) :=
  (((h.filterMap leaf?).map Prod.fst).filterMap _).mem_iff

theorem Agreeing.of_perm (h : ps.Perm qs) (hps : Agreeing ps) : Agreeing qs where
  spelled p hp := hps.spelled p (h.mem_iff.2 hp)
  root := by simpa only [mem_uses_paths_of_perm h] using hps.root
  entries place hplace := by
    simpa only [Unmixed, mem_uses_paths_of_perm h] using hps.entries place hplace

/-- Parameters in which no longer path comes after a shorter one have at no place first a text and then an item. -/
theorem not_text_item_of_pairwise {place : List Segment} {paths : List (List Segment)}
    (h : paths.Pairwise fun path later => later.length ≤ path.length) : ¬ [.text, .item] <+: uses place paths := by
  intro hfirst
  have huses : (uses place paths).Pairwise fun use later => ¬ (use = .text ∧ later = .item) := by
    refine List.Pairwise.filterMap _ (fun path later hle use huse use' huse' => ?_) h
    rintro ⟨rfl, rfl⟩
    obtain ⟨rest, rfl, hrest⟩ := Use.at?_eq_some_iff.1 huse
    obtain ⟨rest', rfl, hrest'⟩ := Use.at?_eq_some_iff.1 huse'
    obtain rfl := Use.of_eq_text_iff.1 hrest
    obtain rfl : rest' = [] := by simpa using hle
    cases hrest'
  have htwo := huses.sublist hfirst.sublist
  simp at htwo

/-- How many steps the path of a parameter has. -/
def depth (p : String × String) : Nat := ((path? p.1).getD []).length

theorem length_of_leaf? {p : String × String} {l : List Segment × String} (h : leaf? p = some l) :
    l.1.length = depth p := by
  obtain ⟨name, value⟩ := p
  rw [leaf?] at h
  split at h
  · cases h
  · obtain ⟨path, hpath, rfl⟩ := Option.map_eq_some_iff.1 h
    rw [depth, hpath, Option.getD_some]

/-- Parameters have an order in which no place has first a text and then an item: longer paths come first. -/
theorem exists_perm_not_text_item (ps : List (String × String)) :
    ∃ qs, qs.Perm ps ∧ ∀ place, ¬ [.text, .item] <+: uses place (paths qs) := by
  refine ⟨ps.mergeSort fun p later => decide (depth later ≤ depth p), List.mergeSort_perm _ _, fun place => ?_⟩
  have hsorted : (ps.mergeSort fun p later => decide (depth later ≤ depth p)).Pairwise
      fun p later => decide (depth later ≤ depth p) = true := by
    refine List.pairwise_mergeSort (fun p q r => ?_) (fun p q => ?_) ps
    · simp only [decide_eq_true_eq]
      omega
    · simp only [Bool.or_eq_true, decide_eq_true_eq]
      omega
  refine not_text_item_of_pairwise (List.pairwise_map.2 (hsorted.filterMap _ fun p later hle l hl l' hl' => ?_))
  rw [length_of_leaf? hl, length_of_leaf? hl']
  exact of_decide_eq_true hle

theorem uses_paths_cons {p : String × String} {l : List Segment × String} (h : leaf? p = some l)
    (place : List Segment) : uses place (paths (p :: ps)) = (Use.at? place l.1).toList ++ uses place (paths ps) := by
  rw [paths, List.filterMap_cons_some h, List.map_cons, uses_cons, paths]

/-- What is done at a place is done by one of the parameters. -/
theorem exists_of_mem_uses {place : List Segment} {use : Use} (h : use ∈ uses place (paths ps)) :
    ∃ p ∈ ps, ∃ l, leaf? p = some l ∧ Use.at? place l.1 = some use := by
  obtain ⟨path, hpath, huse⟩ := mem_uses_iff.1 h
  obtain ⟨l, hl, rfl⟩ := List.mem_map.1 hpath
  obtain ⟨p, hp, hleaf⟩ := List.mem_filterMap.1 hl
  exact ⟨p, hp, l, hleaf, huse⟩

/-- Where texts and items meet, parameters have an order in which a text comes first and then an item. -/
theorem exists_perm_text_item {place : List Segment} (h : Meet place ps) :
    ∃ qs, qs.Perm ps ∧ [.text, .item] <+: uses place (paths qs) := by
  obtain ⟨p, hp, l, hl, htext⟩ := exists_of_mem_uses h.1
  obtain ⟨q, hq, m, hm, hitem⟩ := exists_of_mem_uses h.2
  have hne : q ≠ p := by
    rintro rfl
    obtain rfl := Option.some.inj (hl.symm.trans hm)
    cases htext.symm.trans hitem
  have hrest : q ∈ ps.erase p := (List.mem_erase_of_ne hne).2 hq
  refine ⟨p :: q :: (ps.erase p).erase q, ?_, ?_⟩
  · exact ((List.perm_cons_erase hp).trans ((List.perm_cons_erase hrest).cons p)).symm
  · rw [uses_paths_cons hl, uses_paths_cons hm, htext, hitem]
    exact List.prefix_append _ _

end orders

theorem received_encode (ps : List (String × String)) : received (encode ps) = ps := pairs_encode ps

/-- A query string is accepted exactly if its parameters agree and no place has first a text and then an item. The
order of the parameters does not matter exactly if they disagree in every order or texts and items nowhere meet. -/
theorem accepted_in_any_order_iff (query : String) :
    (Accepted query ↔ Agreeing (received query) ∧
      ∀ place, .append ∉ place → ¬ [.text, .item] <+: uses place (paths (received query))) ∧
    ((∀ other, (received other).Perm (received query) → (Accepted other ↔ Accepted query)) ↔
      ¬ Agreeing (received query) ∨ ∀ place, .append ∉ place → ¬ Meet place (received query)) := by
  refine ⟨accepted_iff, fun h => ?_, ?_⟩
  · by_contra hmeets
    push Not at hmeets
    obtain ⟨hagree, place, hplace, hmeet⟩ := hmeets
    obtain ⟨ps, hps, haccepted⟩ := exists_perm_not_text_item (received query)
    obtain ⟨qs, hqs, hrefused⟩ := exists_perm_text_item hmeet
    rw [← received_encode ps] at hps haccepted
    rw [← received_encode qs] at hqs hrefused
    have hone : Accepted query :=
      (h _ hps).1 (accepted_iff.2 ⟨hagree.of_perm hps.symm, fun place _ => haccepted place⟩)
    exact (accepted_iff.1 ((h _ hqs).2 hone)).2 place hplace hrefused
  · rintro h other hperm
    rw [accepted_iff, accepted_iff]
    rcases h with hdisagree | hmeet
    · exact iff_of_false (fun hother => hdisagree (hother.1.of_perm hperm)) fun hquery => hdisagree hquery.1
    -- Where texts and items do not meet, neither order begins with both.
    have hnever (ps : List (String × String)) (hps : ps.Perm (received query)) (place : List Segment)
        (hplace : .append ∉ place) : ¬ [.text, .item] <+: uses place (paths ps) := fun hfirst =>
      hmeet place hplace ⟨(mem_uses_paths_of_perm hps place .text).1 (hfirst.subset (by simp)),
        (mem_uses_paths_of_perm hps place .item).1 (hfirst.subset (by simp))⟩
    exact ⟨fun hother => ⟨hother.1.of_perm hperm, hnever _ (.refl _)⟩,
      fun hquery => ⟨hquery.1.of_perm hperm.symm, hnever _ hperm⟩⟩

/-- The same two parameters are refused in one order and accepted in the other. -/
theorem accepted_in_one_order : (received "a=1&a[]=2").Perm (received "a[]=2&a=1") ∧
    (∀ p ∈ received "a=1&a[]=2", p.1 ≠ "" ∧ (path? p.1).isSome) ∧
    ¬ Accepted "a=1&a[]=2" ∧ Accepted "a[]=2&a=1" := by
  refine ⟨by decide +kernel, by decide +kernel, ?_, Outcome.exists_of_isOk (by decide +kernel)⟩
  rintro ⟨members, h⟩
  have hrefused : (read "a=1&a[]=2").isOk = false := by decide +kernel
  rw [h] at hrefused
  cases hrefused

end RecordQuery.Form
