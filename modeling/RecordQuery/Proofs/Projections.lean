import RecordQuery.Proofs.Loading.Closure
import RecordQuery.Proofs.Shop
/-!
# What a projection selects

A path lies within another one if it is that path or goes on from it behind a point, which is to say that
the names of the other one begin its names (`Path.isWithin_iff_names`). Paths that are left out take with them
all that lies within them (`Exclusions.covers_of_isWithin`), and the closure of paths holds what they lie
within (`Projection.mem_closure_iff`), the shorter ones first (`Path.IsClosed.mem_before`). From these,
`Projection.exists_isExact` says which columns and which relations a request selects.
-/

namespace RecordQuery

open Outcome

namespace Path

variable {path other third name : String} {ns ms : List String}

/-- A path is another one or goes on from it. -/
def IsWithin (path other : String) : Prop := path = other ∨ ∃ rest, path = other ++ "." ++ rest

theorem eq_of_names_eq (h : names path = names other) : path = other := by
  rw [← intercalate_names path, h, intercalate_names]

/-- A path lies within another one if it has the names of that one first. -/
theorem isWithin_iff_names : IsWithin path other ↔ names other <+: names path := by
  constructor
  · rintro (rfl | ⟨rest, rfl⟩)
    · exact List.prefix_rfl
    · rw [names_append]
      exact List.prefix_append _ _
  · rintro ⟨ms, hms⟩
    by_cases hne : ms = []
    · rw [hne, List.append_nil] at hms
      exact .inl (eq_of_names_eq hms.symm)
    · refine .inr ⟨".".intercalate ms, ?_⟩
      rw [← intercalate_names path, ← hms, String.intercalate_append_of_ne_nil (names_ne_nil other) hne,
        intercalate_names]

theorem IsWithin.trans (h : IsWithin path other) (ho : IsWithin other third) : IsWithin path third := by
  rw [isWithin_iff_names] at *
  exact ho.trans h

/-- A path begins with the same name as those that it lies within. -/
theorem IsWithin.head?_names_eq (h : IsWithin path other) : (names path).head? = (names other).head? := by
  obtain ⟨ms, hms⟩ := isWithin_iff_names.1 h
  rw [← hms, List.head?_append, List.head?_eq_some_head (names_ne_nil other), Option.some_or]

theorem eq_empty_of_isWithin (h : IsWithin "" other) : other = "" := by
  rcases h with h | ⟨rest, h⟩
  · exact h.symm
  · have := congrArg String.toList h
    simp at this

/-- A path that goes on from another one has the last name more than one within that. -/
theorem IsWithin.parent (h : IsWithin path other) (hne : path ≠ other) : IsWithin (parent path) other := by
  rw [isWithin_iff_names] at *
  obtain ⟨ms, hms⟩ := h
  rcases List.eq_nil_or_concat ms with rfl | ⟨rest, name, rfl⟩
  · rw [List.append_nil] at hms
    exact absurd (eq_of_names_eq hms.symm) hne
  · rw [List.concat_eq_append, ← List.append_assoc] at hms
    have hfirst : names other ++ rest ≠ [] := by simp [names_ne_nil]
    have hnames : ∀ name ∈ names other ++ rest, isName name := fun name hn =>
      isName_of_mem_names (by rw [← hms]; exact List.mem_append_left _ hn)
    rw [(of_names_eq_concat hms.symm hfirst).1, names_intercalate hfirst hnames]
    exact List.prefix_append _ _

/-- In a closed list, what a path goes on from stands before it. -/
theorem IsClosed.mem_before {path : String} {before after : List String}
    (h : IsClosed (before ++ path :: after)) (hwithin : IsWithin path other) (hne : path ≠ other)
    (hother : other ≠ "") : other ∈ before := by
  obtain ⟨-, hparent⟩ := h before path after rfl
  have hup := hwithin.parent hne
  rcases hparent with hroot | hmem
  · exact absurd (eq_empty_of_isWithin (hroot ▸ hup)) hother
  · by_cases heq : parent path = other
    · exact heq ▸ hmem
    · obtain ⟨earlier, later, hbefore⟩ := List.append_of_mem hmem
      have hclosed : IsClosed (earlier ++ parent path :: later) := hbefore ▸ h.of_append
      have hlt : earlier.length < before.length := by simp [hbefore]
      rw [hbefore]
      exact List.mem_append_left _ (hclosed.mem_before hup heq hother)
termination_by before.length

/-! ## The beginnings that exclusions are compared with -/

theorem names_below (h : isName name) : names (below path name) = walked path ++ [name] := by
  rw [below, walked]
  split
  · exact names_of_isName h
  · rw [names_append, names_of_isName h]

theorem below_ne_empty (h : path ≠ "" ∨ name ≠ "") : below path name ≠ "" := by
  rw [below]
  split
  next hempty =>
    have hpath : path = "" := by simpa using hempty
    exact h.resolve_left fun hne => hne hpath
  next hempty =>
    intro heq
    have := congrArg String.toList heq
    simp at this

/-- A path whose names go on from those of another one by the first of a list is one of its extensions. -/
theorem mem_extensions (h : names other = walked path ++ name :: ms) (hbegins : name :: ms <+: ns)
    (hne : path ≠ "" ∨ name ≠ "") : other ∈ extensions path ns := by
  induction ms generalizing path name ns with
  | nil =>
    obtain ⟨rest, rfl⟩ := hbegins
    have hname : isName name := isName_of_mem_names (by rw [h]; simp)
    exact List.mem_cons.2 (.inl (eq_of_names_eq (h.trans (names_below hname).symm)))
  | cons next ms ih =>
    obtain ⟨rest, rfl⟩ := hbegins
    have hname : isName name := isName_of_mem_names (by rw [h]; simp)
    have hnonempty := below_ne_empty hne
    have hbelow : names other = walked (below path name) ++ next :: ms := by
      rw [h, walked_of_ne hnonempty, names_below hname, List.append_assoc, List.singleton_append]
    exact List.mem_cons_of_mem _ (ih hbelow (List.prefix_append _ _) (.inl hnonempty))

/-- The beginnings of a path are what it lies within. -/
theorem mem_beginnings (h : IsWithin path other) (hfirst : (names path).head? ≠ some "") :
    other ∈ beginnings path := by
  have hhead := h.head?_names_eq
  have hbegins := isWithin_iff_names.1 h
  cases hns : names other with
  | nil => exact absurd hns (names_ne_nil other)
  | cons first others =>
    rw [hns] at hhead hbegins
    have hwalked : names other = walked "" ++ first :: others := hns
    refine mem_extensions hwalked hbegins (.inr ?_)
    rintro rfl
    exact hfirst hhead

end Path

namespace Exclusions

variable {e : Exclusions} {path other name entry : String}

/-- The field that an entry names under a path is behind the path and a point. -/
theorem fieldBelow?_eq_some_iff : fieldBelow? path entry = some name ↔
    Path.isName name ∧ entry = path ++ "." ++ name := by
  have hentry : entry = path ++ "." ++ name ↔ path.toList ++ '.' :: name.toList = entry.toList := by
    rw [← String.toList_inj, eq_comm]
    simp
  rw [hentry, Path.isName_iff, fieldBelow?]
  constructor
  · intro h
    split at h
    next field hfield =>
      split at h
      · cases h
      next hpoint =>
        obtain rfl := Option.some.inj h
        have happend := (List.isPrefixOf?_eq_some_iff_append_eq).1 hfield
        rw [String.toList_ofList]
        exact ⟨by simpa using hpoint, happend⟩
    · cases h
  · rintro ⟨hpoint, happend⟩
    rw [(List.isPrefixOf?_eq_some_iff_append_eq).2 happend]
    simp [hpoint]

theorem contains_fieldsUnder : (e.fieldsUnder path).contains name =
    (Path.isName name && e.contains (path ++ "." ++ name)) := by
  rw [Bool.eq_iff_iff]
  simp only [fieldsUnder, contains, List.contains_iff_mem, List.mem_filterMap, fieldBelow?_eq_some_iff,
    Bool.and_eq_true]
  constructor
  · rintro ⟨entry, hentry, hname, rfl⟩
    exact ⟨hname, hentry⟩
  · rintro ⟨hname, hentry⟩
    exact ⟨_, hentry, hname, rfl⟩

theorem contains_rootFields : e.rootFields.contains name = (Path.isName name && e.contains name) := by
  rw [Bool.eq_iff_iff]
  simp [rootFields, contains, and_comm]

/-- A relation is left out with all that lies within it. -/
theorem covers_of_isWithin (he : other ∈ e.paths) (h : Path.IsWithin path other)
    (hfirst : (Path.names path).head? ≠ some "") : e.covers path :=
  List.any_eq_true.2 ⟨other, Path.mem_beginnings h hfirst, by simpa [contains] using he⟩

end Exclusions

namespace RelationNames

variable {ι : Type} {catalog : Catalog ι} {s : Schema ι} {e : Exclusions} {ps paths : List String}

/-- Paths pass if those that are not left out lead along relations; these are left over. -/
theorem checkPaths_eq_ok_iff : checkPaths catalog s e ps = .ok paths ↔
    paths = ps.filter (!e.covers ·) ∧
      ∀ path ∈ ps, e.covers path = false → (s.relations? catalog path).isSome := by
  induction ps generalizing paths with
  | nil => exact ⟨fun h => ⟨(Except.ok.inj h).symm, by simp⟩, fun h => congrArg Except.ok h.1.symm⟩
  | cons path ps ih =>
    rw [checkPaths, List.forall_mem_cons]
    split
    next hcovers => rw [ih, List.filter_cons_of_neg (by simp [hcovers])]; simp [hcovers]
    next hcovers =>
      rw [List.filter_cons_of_pos (by simp [hcovers])]
      split
      next hnone => simp [hcovers, Option.isNone_iff_eq_none.1 hnone]
      next hsome =>
        have hleads : (s.relations? catalog path).isSome := by simpa [Option.isSome_iff_ne_none] using hsome
        rw [map_eq_ok_iff]
        constructor
        · rintro ⟨rest, hrest, rfl⟩
          obtain ⟨rfl, hall⟩ := ih.1 hrest
          exact ⟨rfl, fun _ => hleads, hall⟩
        · rintro ⟨rfl, -, hall⟩
          exact ⟨_, ih.2 ⟨rfl, hall⟩, rfl⟩

theorem resolve_eq_ok {names : Option RelationNames} (h : resolve catalog s names e = .ok paths) :
    ∀ path ∈ paths, e.covers path = false ∧ (s.relations? catalog path).isSome := by
  cases names with
  | none =>
    obtain rfl : [] = paths := by simpa [resolve] using h
    simp
  | some names =>
    obtain ⟨rfl, hall⟩ := checkPaths_eq_ok_iff.1 h
    intro path hpath
    obtain ⟨hmem, hcovers⟩ := List.mem_filter.1 hpath
    have hfalse : e.covers path = false := by simpa using hcovers
    exact ⟨hfalse, hall path hmem hfalse⟩

end RelationNames

namespace Schema

variable {ι : Type} {catalog : Catalog ι} {s : Schema ι} {path other : String}

theorem isSome_schemaAt? : (s.schemaAt? catalog path).isSome = (s.relations? catalog path).isSome := by
  simp [schemaAt?]

/-- What a path that leads somewhere lies within leads somewhere. -/
theorem isSome_schemaAt?_of_isWithin (h : (s.schemaAt? catalog path).isSome)
    (hwithin : Path.IsWithin path other) : (s.schemaAt? catalog other).isSome := by
  obtain ⟨ms, hms⟩ := Path.isWithin_iff_names.1 hwithin
  rw [schemaAt?_eq_reach?, ← hms, reach?_append] at h
  rw [schemaAt?_eq_reach?]
  exact Option.isSome_of_isSome_bind h

/-- The first name of a path that leads somewhere is that of a relation. -/
theorem head?_names_ne (hnamed : ∀ r ∈ s.relations, r.name ≠ "") (h : (s.schemaAt? catalog path).isSome) :
    (Path.names path).head? ≠ some "" := by
  rw [schemaAt?_eq_reach?] at h
  cases hns : Path.names path with
  | nil => simp
  | cons first others =>
    rw [hns, reach?] at h
    obtain ⟨r, hr⟩ := Option.isSome_iff_exists.1 (Option.isSome_of_isSome_bind h)
    obtain ⟨hmem, rfl⟩ := relation?_eq_some hr
    simpa using hnamed r hmem

end Schema

namespace Projection

variable {ι : Type} {catalog : Catalog ι} {s target : Schema ι} {e : Exclusions} {paths ns ms : List String}
  {path : String}

theorem mem_beginnings_iff : ms ∈ beginnings ns ↔ ms ≠ [] ∧ ms <+: ns := by
  induction ns generalizing ms with
  | nil => simp [beginnings]
  | cons name ns ih =>
    rw [beginnings, List.mem_cons, List.mem_map]
    constructor
    · rintro (rfl | ⟨rest, hrest, rfl⟩)
      · exact ⟨by simp, by simp⟩
      · exact ⟨by simp, List.cons_prefix_cons.2 ⟨rfl, (ih.1 hrest).2⟩⟩
    · rintro ⟨hne, hbegins⟩
      cases ms with
      | nil => exact absurd rfl hne
      | cons first rest =>
        obtain ⟨rfl, hrest⟩ := List.cons_prefix_cons.1 hbegins
        by_cases hnil : rest = []
        · exact .inl (by rw [hnil])
        · exact .inr ⟨rest, ih.2 ⟨hnil, hrest⟩, rfl⟩

/-- The closure of paths has what they lie within. -/
theorem mem_closure_iff : path ∈ closure paths ↔ ∃ given ∈ paths, Path.IsWithin given path := by
  simp only [closure, Path.mem_foldl_addNew, List.not_mem_nil, false_or, List.mem_flatMap, List.mem_map,
    mem_beginnings_iff, Path.isWithin_iff_names]
  refine exists_congr fun given => and_congr_right fun _ => ?_
  constructor
  · rintro ⟨ns, ⟨hne, hbegins⟩, rfl⟩
    rwa [Path.names_intercalate hne fun name hn => Path.isName_of_mem_names (hbegins.subset hn)]
  · exact fun hbegins => ⟨_, ⟨Path.names_ne_nil path, hbegins⟩, Path.intercalate_names path⟩

/-- Paths that lead somewhere have entries. -/
theorem exists_entries (h : ∀ path ∈ paths, (s.schemaAt? catalog path).isSome) :
    ∃ es, entries catalog s e paths = .ok es := by
  induction paths with
  | nil => exact ⟨[], rfl⟩
  | cons path paths ih =>
    obtain ⟨hpath, hpaths⟩ := List.forall_mem_cons.1 h
    obtain ⟨target, htarget⟩ := Option.isSome_iff_exists.1 hpath
    obtain ⟨es, hes⟩ := ih hpaths
    exact ⟨_, by rw [entries, htarget]; exact map_eq_ok_iff.2 ⟨es, hes, rfl⟩⟩

/-- A projection selects what paths and exclusions say, and nothing else. -/
structure IsExact (p : Projection) (catalog : Catalog ι) (s : Schema ι) (paths : List String)
    (e : Exclusions) : Prop where
  /-- Of the root all columns but the hidden ones and those that an entry without a point leaves out. -/
  columns : p.columns = s.columnNames.filter fun name =>
    !s.isHidden name && !(Path.isName name && e.contains name)
  /-- The relations are the paths and what they go on from. -/
  mem_iff : ∀ path, path ∈ p.relations.map RelationColumns.path ↔
    path ≠ "" ∧ ∃ given ∈ paths, Path.IsWithin given path
  /-- Each relation is there once. -/
  nodup : (p.relations.map RelationColumns.path).Nodup
  /-- What a relation goes on from stands before it. -/
  ordered : ∀ before path after, p.relations.map RelationColumns.path = before ++ path :: after →
    ∀ other, other ≠ "" → path ≠ other → Path.IsWithin path other → other ∈ before
  /-- Of the records at a path all columns but the hidden ones and those left out under the path. -/
  relationColumns : ∀ entry ∈ p.relations, ∃ target, s.schemaAt? catalog entry.path = some target ∧
    entry.columns = target.columnNames.filter fun name =>
      !target.isHidden name && !(Path.isName name && e.contains (entry.path ++ "." ++ name))
  /-- No relation lies within one that is left out. -/
  apart : ∀ entry ∈ p.relations, ∀ other ∈ e.paths, ¬ Path.IsWithin entry.path other

/-- The relations of a request that can be resolved have a projection, and it is exact. -/
theorem exists_isExact {names : Option RelationNames} {exclude : Option String}
    (hnamed : ∀ r ∈ s.relations, r.name ≠ "")
    (h : RelationNames.resolve catalog s names (Exclusions.read exclude) = .ok paths) :
    ∃ p, ofPaths catalog s paths (Exclusions.read exclude) = .ok p ∧
      p.IsExact catalog s paths (Exclusions.read exclude) := by
  have hpaths := RelationNames.resolve_eq_ok h
  generalize Exclusions.read exclude = e at *
  have hleads : ∀ path ∈ closure paths, (s.schemaAt? catalog path).isSome := by
    intro path hpath
    obtain ⟨given, hgiven, hwithin⟩ := mem_closure_iff.1 hpath
    exact Schema.isSome_schemaAt?_of_isWithin (Schema.isSome_schemaAt? ▸ (hpaths given hgiven).2) hwithin
  obtain ⟨es, hes⟩ := exists_entries (e := e) hleads
  obtain ⟨hmap, hentries⟩ := entries_eq_ok hes
  have hclosed := isClosed_closure paths
  refine ⟨⟨visible s e.rootFields, es⟩, map_eq_ok_iff.2 ⟨es, hes, rfl⟩, ?_⟩
  refine ⟨?_, fun path => ?_, ?_, ?_, ?_, ?_⟩
  · simp only [visible, Exclusions.contains_rootFields]
  · rw [hmap]
    refine ⟨fun hpath => ⟨?_, mem_closure_iff.1 hpath⟩, fun hpath => mem_closure_iff.2 hpath.2⟩
    rintro rfl
    exact Schema.head?_names_ne hnamed (hleads "" hpath) (by rw [Path.names_of_isName (by decide)]; rfl)
  · exact hmap ▸ hclosed.nodup
  · intro before path after heq other hother hne hwithin
    rw [hmap] at heq
    exact (heq ▸ hclosed).mem_before hwithin hne hother
  · intro entry he
    obtain ⟨target, htarget, hcolumns⟩ := hentries entry he
    exact ⟨target, htarget, by simp only [hcolumns, visible, Exclusions.contains_fieldsUnder]⟩
  · intro entry he other hother hwithin
    have hmem : entry.path ∈ closure paths := hmap ▸ List.mem_map_of_mem he
    obtain ⟨given, hgiven, hbegins⟩ := mem_closure_iff.1 hmem
    obtain ⟨hcovers, hrelations⟩ := hpaths given hgiven
    have hfirst := Schema.head?_names_ne hnamed (Schema.isSome_schemaAt? ▸ hrelations)
    have := Exclusions.covers_of_isWithin hother (hbegins.trans hwithin) hfirst
    rw [hcovers] at this
    cases this

/-- The products of the shop with the parents of their categories: a field of the products and one of the
categories are left out, and the products of the creator with the creator. -/
theorem exists_isExact_shop :
    RelationNames.resolve Demo.Shop.catalog Demo.Shop.productSchema
        (some (.delimited "category.parent, creator.products"))
        (Exclusions.read (some "price,category.name,creator")) = .ok ["category.parent"] ∧
    ∃ p, ofPaths Demo.Shop.catalog Demo.Shop.productSchema ["category.parent"]
        (Exclusions.read (some "price,category.name,creator")) = .ok p ∧
      p.IsExact Demo.Shop.catalog Demo.Shop.productSchema ["category.parent"]
        (Exclusions.read (some "price,category.name,creator")) := by
  have h : RelationNames.resolve Demo.Shop.catalog Demo.Shop.productSchema
      (some (.delimited "category.parent, creator.products"))
      (Exclusions.read (some "price,category.name,creator")) = .ok ["category.parent"] := rfl
  exact ⟨h, exists_isExact (Demo.Shop.isNamed .product _ Schema.isIn_root) h⟩

end Projection

end RecordQuery
