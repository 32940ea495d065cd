import RecordQuery.Proofs.Schemas
import RecordQuery.Query.Projection
import RecordQuery.Store.Loading
/-!
# Walking along paths

A dotted path stands for its names. `Path.names_intercalate` and `Path.intercalate_names` say that texts
and lists of names without points are the same thing; the last name comes off at the last point
(`Path.of_names_eq_concat`). `Schema.reach?` is the schema that names lead to. Where no relation of the root
has an empty name, a path that leads somewhere ends with a relation of the records above it
(`Schema.exists_above?`).
-/

namespace RecordQuery

namespace Text

variable {sep : Char} {cs ds : List Char}

theorem split_of_not_mem (h : sep ∉ cs) : split sep cs = [cs] := by
  induction cs with
  | nil => rfl
  | cons c cs ih =>
    simp only [List.mem_cons, not_or] at h
    rw [split, if_neg (Ne.symm h.1), ih h.2]

theorem split_append_cons (sep : Char) (cs ds : List Char) :
    split sep (cs ++ sep :: ds) = split sep cs ++ split sep ds := by
  induction cs with
  | nil => simp [split]
  | cons c cs ih =>
    rw [List.cons_append, split, split]
    split
    · rw [ih, List.cons_append]
    · rw [ih]
      cases hs : split sep cs with
      | nil => exact absurd hs (split_ne_nil sep cs)
      | cons piece pieces => rfl

theorem not_mem_of_mem_split {piece : List Char} (h : piece ∈ split sep cs) : sep ∉ piece := by
  induction cs generalizing piece with
  | nil =>
    obtain rfl : piece = [] := by simpa [split] using h
    exact List.not_mem_nil
  | cons c cs ih =>
    rw [split] at h
    split at h
    · rcases List.mem_cons.1 h with rfl | h
      · exact List.not_mem_nil
      · exact ih h
    · next hc =>
      cases hs : split sep cs with
      | nil => exact absurd hs (split_ne_nil sep cs)
      | cons first others =>
        rw [hs] at ih h
        rcases List.mem_cons.1 h with rfl | h
        · have hf := ih List.mem_cons_self
          simp [Ne.symm hc, hf]
        · exact ih (List.mem_cons_of_mem _ h)

theorem cut?_of_not_mem (h : sep ∉ cs) : cut? sep cs = none := by
  induction cs with
  | nil => rfl
  | cons c cs ih =>
    simp only [List.mem_cons, not_or] at h
    rw [cut?, if_neg (Ne.symm h.1), ih h.2]
    rfl

theorem cut?_append_cons (h : sep ∉ cs) (ds : List Char) :
    cut? sep (cs ++ sep :: ds) = some (cs, ds) := by
  induction cs with
  | nil => simp [cut?]
  | cons c cs ih =>
    simp only [List.mem_cons, not_or] at h
    rw [List.cons_append, cut?, if_neg (Ne.symm h.1), ih h.2]
    rfl

theorem cutLast?_of_not_mem (h : sep ∉ cs) : cutLast? sep cs = none := by
  rw [cutLast?, cut?_of_not_mem (by simpa using h)]
  rfl

theorem cutLast?_append_cons (h : sep ∉ ds) (cs : List Char) :
    cutLast? sep (cs ++ sep :: ds) = some (cs, ds) := by
  have hr : (cs ++ sep :: ds).reverse = ds.reverse ++ sep :: cs.reverse := by simp
  rw [cutLast?, hr, cut?_append_cons (by simpa using h)]
  simp

/-! ## Pieces of strings -/

theorem pieces_of_not_mem {text : String} (h : sep ∉ text.toList) : pieces sep text = [text] := by
  simp [pieces, split_of_not_mem h]

theorem pieces_append (sep : Char) (text other : String) :
    pieces sep (text ++ String.singleton sep ++ other) = pieces sep text ++ pieces sep other := by
  have h : (text ++ String.singleton sep ++ other).toList = text.toList ++ sep :: other.toList := by simp
  rw [pieces, h, split_append_cons, List.map_append]
  rfl

/-- Texts without a character that are put together with it are the pieces between its occurrences. -/
theorem pieces_intercalate {texts : List String} (hne : texts ≠ []) (h : ∀ text ∈ texts, sep ∉ text.toList) :
    pieces sep ((String.singleton sep).intercalate texts) = texts := by
  induction texts with
  | nil => exact absurd rfl hne
  | cons text texts ih =>
    have hfirst := pieces_of_not_mem (h text List.mem_cons_self)
    cases texts with
    | nil => simpa using hfirst
    | cons other texts =>
      rw [String.intercalate_cons_cons, pieces_append, hfirst,
        ih (by simp) fun t ht => h t (List.mem_cons_of_mem _ ht)]
      rfl

end Text

namespace Path

variable {path name : String} {ns : List String}

theorem isName_iff : isName path ↔ '.' ∉ path.toList := by simp [isName]

theorem names_ne_nil (path : String) : names path ≠ [] := by
  simpa [names, Text.pieces] using Text.split_ne_nil '.' path.toList

theorem names_of_isName (h : isName path) : names path = [path] := Text.pieces_of_not_mem (isName_iff.1 h)

theorem names_append (path other : String) :
    names (path ++ "." ++ other) = names path ++ names other :=
  Text.pieces_append '.' path other

/-- No name has a point in it. -/
theorem isName_of_mem_names (h : name ∈ names path) : isName name := by
  obtain ⟨piece, hp, rfl⟩ := List.mem_map.1 h
  simpa [isName_iff] using Text.not_mem_of_mem_split hp

/-- Names that are put together are the names of the path. -/
theorem names_intercalate (hn : ns ≠ []) (h : ∀ name ∈ ns, isName name) :
    names (".".intercalate ns) = ns :=
  Text.pieces_intercalate hn fun name hname => isName_iff.1 (h name hname)

theorem intercalate_split (cs : List Char) :
    ".".intercalate ((Text.split '.' cs).map String.ofList) = String.ofList cs := by
  induction cs with
  | nil => simp [Text.split]
  | cons c cs ih =>
    rw [Text.split]
    cases hs : Text.split '.' cs with
    | nil => exact absurd hs (Text.split_ne_nil '.' cs)
    | cons piece pieces =>
      rw [hs, List.map_cons] at ih
      split
      · next hc =>
        rw [List.map_cons, List.map_cons, String.intercalate_cons_cons, ih, hc]
        apply String.toList_injective
        simp
      · have hp : String.ofList (c :: piece) = String.ofList [c] ++ String.ofList piece := by
          apply String.toList_injective
          simp
        rw [List.map_cons, hp, String.intercalate_cons_append, ih]
        apply String.toList_injective
        simp

/-- The names of a path, put together, are the path. -/
theorem intercalate_names (path : String) : ".".intercalate (names path) = path := by
  simpa [names, Text.pieces] using intercalate_split path.toList

theorem parent_of_isName (h : isName path) : parent path = "" := by
  simp [parent, Text.cutLast?_of_not_mem (isName_iff.1 h)]

theorem last_of_isName (h : isName path) : last path = path := by
  simp [last, Text.cutLast?_of_not_mem (isName_iff.1 h)]

theorem cutLast?_append (path : String) (h : isName name) :
    Text.cutLast? '.' (path ++ "." ++ name).toList = some (path.toList, name.toList) := by
  have hl : (path ++ "." ++ name).toList = path.toList ++ '.' :: name.toList := by simp
  rw [hl, Text.cutLast?_append_cons (isName_iff.1 h)]

theorem parent_append (path : String) (h : isName name) : parent (path ++ "." ++ name) = path := by
  rw [parent, cutLast?_append path h]
  simp

theorem last_append (path : String) (h : isName name) : last (path ++ "." ++ name) = name := by
  rw [last, cutLast?_append path h]
  simp

/-- The last name of several comes off. -/
theorem of_names_eq_concat (h : names path = ns ++ [name]) (hn : ns ≠ []) :
    parent path = ".".intercalate ns ∧ last path = name := by
  have hmem : name ∈ names path := by simp [h]
  have hname := isName_of_mem_names hmem
  have hp : path = ".".intercalate ns ++ "." ++ name := by
    rw [← intercalate_names path, h, String.intercalate_append_of_ne_nil hn (by simp)]
    simp
  rw [hp]
  exact ⟨parent_append _ hname, last_append _ hname⟩

theorem of_names_eq_singleton (h : names path = [name]) :
    path = name ∧ parent path = "" ∧ last path = name := by
  have hmem : name ∈ names path := by simp [h]
  have hname := isName_of_mem_names hmem
  obtain rfl : path = name := by rw [← intercalate_names path, h]; simp
  exact ⟨rfl, parent_of_isName hname, last_of_isName hname⟩

/-- The names that lead from the root to a path. -/
def walked (path : String) : List String := if path.isEmpty then [] else names path

theorem walked_of_ne (h : path ≠ "") : walked path = names path := by
  rw [walked, if_neg (by simpa using h)]

/-- A path whose names go on from those of another one lies directly below it. -/
theorem of_names_eq_walked (h : names path = walked other ++ [name]) :
    parent path = other ∧ last path = name := by
  by_cases ho : other = ""
  · subst ho
    obtain ⟨rfl, hparent, hlast⟩ := of_names_eq_singleton h
    exact ⟨hparent, hlast⟩
  · rw [walked_of_ne ho] at h
    obtain ⟨hparent, hlast⟩ := of_names_eq_concat h (names_ne_nil other)
    exact ⟨hparent.trans (intercalate_names other), hlast⟩

/-! ## Lists of paths -/

theorem mem_addNew {paths : List String} {other : String} :
    other ∈ addNew paths path ↔ other ∈ paths ∨ other = path := by
  rw [addNew]
  split
  next h =>
    constructor
    · exact .inl
    · rintro (ho | rfl)
      · exact ho
      · simpa using h
  · simp

theorem mem_foldl_addNew {names more : List String} {name : String} :
    name ∈ more.foldl addNew names ↔ name ∈ names ∨ name ∈ more := by
  induction more generalizing names with
  | nil => simp
  | cons n more ih => rw [List.foldl_cons, ih, mem_addNew, List.mem_cons, or_assoc]

end Path

namespace Schema

variable {ι : Type} {catalog : Catalog ι} {root s target : Schema ι} {ns ms : List String} {name : String}

/-- Every relation of a graph has a name that is not empty. -/
def IsNamed (catalog : Catalog ι) (root : Schema ι) : Prop :=
  ∀ s, IsIn catalog root s → ∀ r ∈ s.relations, r.name ≠ ""

/-- The schema that names of relations lead to. -/
def reach? (catalog : Catalog ι) (s : Schema ι) : List String → Option (Schema ι)
  | [] => some s
  | name :: names => (s.relation? name).bind fun r => reach? catalog (catalog r.target) names

theorem reach?_append (s : Schema ι) (ns ms : List String) :
    s.reach? catalog (ns ++ ms) = (s.reach? catalog ns).bind fun t => t.reach? catalog ms := by
  induction ns generalizing s with
  | nil => rfl
  | cons name ns ih =>
    rw [List.cons_append, reach?, reach?]
    cases s.relation? name with
    | none => rfl
    | some r => exact ih (catalog r.target)

theorem reach?_eq_walk? (s : Schema ι) (ns : List String) :
    s.reach? catalog ns = (s.walk? catalog ns).map fun rs =>
      match rs.getLast? with
      | some r => catalog r.target
      | none => s := by
  induction ns generalizing s with
  | nil => rfl
  | cons name ns ih =>
    rw [reach?, walk?]
    cases s.relation? name with
    | none => rfl
    | some r =>
      simp only [Option.bind_eq_bind, Option.bind_some, ih]
      cases h : walk? catalog (catalog r.target) ns with
      | none => rfl
      | some rs => cases rs <;> simp [List.getLast?_cons]

/-- The schema at the end of a path is the one that its names lead to. -/
theorem schemaAt?_eq_reach? (s : Schema ι) (path : String) :
    s.schemaAt? catalog path = s.reach? catalog (Path.names path) := by
  rw [reach?_eq_walk?]
  rfl

theorem isIn_of_reach? (hs : IsIn catalog root s) (h : s.reach? catalog ns = some target) :
    IsIn catalog root target := by
  induction ns generalizing s with
  | nil =>
    obtain rfl : s = target := by simpa [reach?] using h
    exact hs
  | cons name ns ih =>
    rw [reach?, Option.bind_eq_some_iff] at h
    obtain ⟨r, -, h⟩ := h
    exact ih (isIn_catalog r.target) h

/-- The schema of the records at a path, which is that of the root at the empty path. -/
def above? (catalog : Catalog ι) (s : Schema ι) (path : String) : Option (Schema ι) :=
  if path.isEmpty then some s else s.schemaAt? catalog path

theorem isIn_of_above? {path : String} (h : root.above? catalog path = some target) :
    IsIn catalog root target := by
  rw [above?] at h
  split at h
  · obtain rfl : root = target := by simpa using h
    exact isIn_root
  · rw [schemaAt?_eq_reach?] at h
    exact isIn_of_reach? isIn_root h

theorem above?_eq_reach? (s : Schema ι) (path : String) :
    s.above? catalog path = s.reach? catalog (Path.walked path) := by
  rw [above?, Path.walked]
  split
  · rfl
  · exact schemaAt?_eq_reach? s path

/-- The names of a path that leads somewhere are those of the path above and one more. Only an empty first
name could make the path above look like that of the root. -/
theorem names_eq_walked (hnamed : ∀ r ∈ root.relations, r.name ≠ "") {path : String}
    (h : root.schemaAt? catalog path = some target) :
    Path.names path = Path.walked (Path.parent path) ++ [Path.last path] := by
  obtain ⟨ns, name, hns⟩ : ∃ ns name, Path.names path = ns ++ [name] :=
    ⟨_, _, (List.dropLast_concat_getLast (Path.names_ne_nil path)).symm⟩
  cases ns with
  | nil =>
    obtain ⟨-, hparent, hlast⟩ := Path.of_names_eq_singleton hns
    rw [hparent, hlast, hns]
    rfl
  | cons first others =>
    obtain ⟨hparent, hlast⟩ := Path.of_names_eq_concat hns (by simp)
    have hnames : Path.names (Path.parent path) = first :: others := by
      rw [hparent]
      refine Path.names_intercalate (by simp) fun n hn => ?_
      have hmem : n ∈ Path.names path := by rw [hns]; exact List.mem_append_left _ hn
      exact Path.isName_of_mem_names hmem
    have hne : Path.parent path ≠ "" := by
      intro hempty
      have hfirst : first = "" := by
        have : Path.names "" = [""] := Path.names_of_isName (by decide)
        rw [hempty, this] at hnames
        exact (List.cons.inj hnames).1.symm
      rw [schemaAt?_eq_reach?, hns, List.cons_append, reach?, Option.bind_eq_some_iff] at h
      obtain ⟨r, hr, -⟩ := h
      obtain ⟨hmem, hname⟩ := relation?_eq_some hr
      exact hnamed r hmem (hname.trans hfirst)
    rw [Path.walked_of_ne hne, hnames, hlast, hns]

/-- A path that leads somewhere ends with a relation of the records above. -/
theorem exists_above? (hnamed : ∀ r ∈ root.relations, r.name ≠ "") {path : String}
    (h : root.schemaAt? catalog path = some target) :
    ∃ owner r, root.above? catalog (Path.parent path) = some owner ∧
      owner.relation? (Path.last path) = some r ∧ catalog r.target = target := by
  have hnames := names_eq_walked hnamed h
  rw [schemaAt?_eq_reach?, hnames, reach?_append, ← above?_eq_reach?, Option.bind_eq_some_iff] at h
  obtain ⟨owner, howner, h⟩ := h
  rw [reach?, Option.bind_eq_some_iff] at h
  obtain ⟨r, hr, h⟩ := h
  exact ⟨owner, r, howner, hr, Option.some.inj h⟩

end Schema

namespace Loading

variable {ι : Type} {catalog : Catalog ι} {root owner : Schema ι} {path : String} {r : Relation ι}

/-- The columns that are fetched besides are those that are needed and not selected. -/
theorem mem_internalColumns_iff {selected needed : List String} {name : String} :
    name ∈ internalColumns selected needed ↔ name ∈ needed ∧ name ∉ selected := by
  simp [internalColumns, Path.mem_foldl_addNew]

/-- The columns that are needed for the levels below are those that their relations join by. -/
theorem mem_neededKeys_iff {s : Schema ι} {p : Projection} {name : String} :
    name ∈ neededKeys catalog s p path ↔ ∃ entry ∈ p.relations, Path.parent entry.path = path ∧
      ∃ r, s.relation? (Path.last entry.path) = some r ∧ (s.joinKeys catalog r).1 = name := by
  simp [neededKeys, Path.mem_foldl_addNew]

/-- The link of a relation, under a path. -/
def Link.ofRelation (catalog : Catalog ι) (owner : Schema ι) (path : String) (r : Relation ι) : Link ι :=
  ⟨path, catalog r.target, (owner.joinKeys catalog r).1, (owner.joinKeys catalog r).2, r.isMany⟩

/-- A path is linked by the relation of its last name to the records above. -/
theorem Link.at?_eq_some_iff {link : Link ι} : Link.at? catalog root path = some link ↔
    ∃ owner r, root.above? catalog (Path.parent path) = some owner ∧
      owner.relation? (Path.last path) = some r ∧ Link.ofRelation catalog owner path r = link := by
  have h : Link.at? catalog root path = (root.above? catalog (Path.parent path)).bind fun owner =>
      (owner.relation? (Path.last path)).map (Link.ofRelation catalog owner path) := by
    simp only [Link.at?, Schema.above?]
    split <;> simp only [Option.bind_eq_bind] <;> congr 1 <;> funext owner <;>
      cases owner.relation? (Path.last path) <;> rfl
  simp [h, Option.bind_eq_some_iff, Option.map_eq_some_iff]

end Loading

end RecordQuery
