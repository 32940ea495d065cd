import Mathlib.Data.List.DropRight
import RecordQuery.Proofs.Projections
/-!
# Lists of relations

The relations of a request are named in a text between commas, in a list, or by the keys of an object
(`RelationNames.Spells`). `RelationNames.resolve_spelled` says that the way of writing does not matter: the list is
refused if an entry that is not left out leads nowhere, and otherwise each entry is there once, trimmed, where it
occurs first.

An entry is left out if it lies within a path that is (`Exclusions.covers_iff`), and entries that were collected stand
in the order of their first occurrence (`Path.pairwise_foldl_addNew`).
-/

namespace RecordQuery

open Outcome

/-! ## Trimmed texts -/

namespace Text

variable {c : Char} {cs : List Char}

theorem mem_of_mem_trim (h : c ∈ trim cs) : c ∈ cs :=
  (List.dropWhile_sublist _).subset ((List.rdropWhile_prefix isBlank _).subset h)

/-- Nothing is left to trim. -/
theorem trim_trim (cs : List Char) : trim (trim cs) = trim cs := by
  have hstart : trimStart (trim cs) = trim cs := by
    refine List.dropWhile_eq_self_iff.2 fun hpos => ?_
    -- What is left begins with the first character that is not blank.
    have hfront : trim cs <+: trimStart cs := List.rdropWhile_prefix isBlank _
    have hpos' := hpos.trans_le hfront.length_le
    rw [hfront.getElem hpos]
    exact List.dropWhile_get_zero_not isBlank cs hpos'
  rw [trim, hstart]
  exact List.rdropWhile_idempotent isBlank (trimStart cs)

theorem trimmed_trimmed (s : String) : trimmed (trimmed s) = trimmed s := by
  rw [trimmed, trimmed, String.toList_ofList, trim_trim]

end Text

namespace Path

variable {path other name : String} {paths more ns : List String}

/-! ## Paths in the order of their first occurrence -/

theorem foldl_addNew_concat (paths more : List String) (path : String) :
    (more ++ [path]).foldl addNew paths = addNew (more.foldl addNew paths) path := by
  rw [List.foldl_append]
  rfl

/-- Paths that are collected stand in the order in which they occur first, and each once. -/
theorem pairwise_foldl_addNew (more : List String) :
    (more.foldl addNew []).Pairwise fun path other => more.idxOf path < more.idxOf other := by
  induction more using List.reverseRecOn with
  | nil => exact List.Pairwise.nil
  | append_singleton more path ih =>
    have hmem : ∀ other ∈ more.foldl addNew [], other ∈ more := fun other h =>
      (mem_foldl_addNew.1 h).resolve_left List.not_mem_nil
    have hkept : (more.foldl addNew []).Pairwise fun other third =>
        (more ++ [path]).idxOf other < (more ++ [path]).idxOf third := by
      refine ih.imp_of_mem fun ho ht hlt => ?_
      rwa [List.idxOf_append_of_mem (hmem _ ho), List.idxOf_append_of_mem (hmem _ ht)]
    rw [foldl_addNew_concat, addNew]
    split
    · exact hkept
    next hnew =>
      have hlast : path ∉ more := by simpa [mem_foldl_addNew] using hnew
      refine List.pairwise_append.2 ⟨hkept, List.pairwise_singleton _ _, fun other ho third ht => ?_⟩
      obtain rfl := List.mem_singleton.1 ht
      rw [List.idxOf_append_of_mem (hmem _ ho), List.idxOf_append_of_notMem hlast]
      exact Nat.lt_add_right _ (List.idxOf_lt_length_of_mem (hmem _ ho))

/-- Paths without repetitions are collected as they are. -/
theorem foldl_addNew_of_nodup (h : (paths ++ more).Nodup) : more.foldl addNew paths = paths ++ more := by
  induction more generalizing paths with
  | nil => simp
  | cons path more ih =>
    have hnew : path ∉ paths := fun hmem => (List.nodup_append.1 h).2.2 path hmem path List.mem_cons_self rfl
    have hadd : addNew paths path = paths ++ [path] := by simp [addNew, hnew]
    rw [List.foldl_cons, hadd, ih (by simpa using h), List.append_assoc, List.singleton_append]

/-! ## Beginnings -/

theorem names_of_mem_extensions (hns : ∀ name ∈ ns, isName name) (hne : path ≠ "" ∨ ns.head? ≠ some "")
    (h : other ∈ extensions path ns) : ∃ ms, ms <+: ns ∧ names other = walked path ++ ms := by
  induction ns generalizing path with
  | nil => simp [extensions] at h
  | cons name ns ih =>
    obtain ⟨hname, hns⟩ := List.forall_mem_cons.1 hns
    have hbelow : below path name ≠ "" := below_ne_empty (hne.imp id fun hhead => by simpa using hhead)
    rcases List.mem_cons.1 h with rfl | h
    · exact ⟨[name], ⟨ns, rfl⟩, names_below hname⟩
    · obtain ⟨ms, hms, heq⟩ := ih hns (.inl hbelow) h
      rw [walked_of_ne hbelow, names_below hname, List.append_assoc, List.singleton_append] at heq
      exact ⟨name :: ms, List.cons_prefix_cons.2 ⟨rfl, hms⟩, heq⟩

/-- The beginnings of a path are the paths that it lies within. -/
theorem mem_beginnings_iff (hfirst : (names path).head? ≠ some "") :
    other ∈ beginnings path ↔ IsWithin path other := by
  refine ⟨fun h => ?_, fun h => mem_beginnings h hfirst⟩
  obtain ⟨ms, hms, heq⟩ := names_of_mem_extensions (fun _ => isName_of_mem_names) (.inr hfirst) h
  rw [isWithin_iff_names, heq]
  exact hms

/-- Only a path that is empty or begins with a point has an empty first name. -/
theorem head?_names_ne (hne : path ≠ "") (hdot : path.toList.head? ≠ some '.') :
    (names path).head? ≠ some "" := by
  rw [names, Text.pieces]
  cases hcs : path.toList with
  | nil => exact absurd (String.toList_inj.1 hcs) hne
  | cons c cs =>
    have hc : c ≠ '.' := by simpa [hcs] using hdot
    rw [Text.split, if_neg hc]
    cases Text.split '.' cs <;> simp

end Path

/-- A path is left out if it lies within one that is. -/
theorem Exclusions.covers_iff {e : Exclusions} {path : String} (hfirst : (Path.names path).head? ≠ some "") :
    e.covers path ↔ ∃ other ∈ e.paths, Path.IsWithin path other := by
  rw [covers, List.any_eq_true]
  simp only [Path.mem_beginnings_iff hfirst, contains, List.contains_iff_mem, and_comm]

/-! ## Lists of relations -/

namespace RelationNames

variable {ι : Type} {catalog : Catalog ι} {s : Schema ι} {e : Exclusions} {xs paths : List String} {json : Json}

/-- The ways to write a list in JSON: between commas, as a list, and as the keys of an object, which has no key
twice. -/
inductive Spells : Json → List String → Prop
  | text (xs : List String) : Spells (.string (",".intercalate xs)) xs
  | list (xs : List String) : Spells (.array (xs.map .string)) xs
  | keys (members : Members) (h : (members.map Prod.fst).Nodup) : Spells (.object members) (members.map Prod.fst)

/-- The relations to load that JSON names. -/
def answer (catalog : Catalog ι) (s : Schema ι) (e : Exclusions) (json : Json) : Checked (List String) := do
  let names ← ofJson json
  resolve catalog s (some names) e

/-- The entries of a list that are not blank, trimmed. -/
def entries (xs : List String) : List String := (xs.map Text.trimmed).filter (· != "")

theorem mem_entries_iff {path : String} : path ∈ entries xs ↔ (∃ x ∈ xs, Text.trimmed x = path) ∧ path ≠ "" := by
  simp [entries]

/-- A list of relations holds the entries that are not left out, in the order in which they occur first. -/
structure IsCanonical (e : Exclusions) (xs paths : List String) : Prop where
  mem_iff : ∀ path, path ∈ paths ↔ path ∈ entries xs ∧ ∀ other ∈ e.paths, ¬ Path.IsWithin path other
  nodup : paths.Nodup
  ordered : paths.Pairwise fun path other => (entries xs).idxOf path < (entries xs).idxOf other

theorem ofItems_strings (xs : List String) : ofItems (xs.map .string) = .ok xs := by
  induction xs with
  | nil => rfl
  | cons x xs ih =>
    rw [List.map_cons, ofItems, ih]
    rfl

/-- Every way of writing a list names its entries. -/
theorem exists_names (h : Spells json xs) (hcomma : ∀ x ∈ xs, ',' ∉ x.toList) :
    ∃ names, ofJson json = .ok names ∧ entries names.raw = entries xs := by
  cases h with
  | text =>
    refine ⟨.delimited _, rfl, ?_⟩
    by_cases hne : xs = []
    · rw [hne]
      decide
    · exact congrArg entries (Text.pieces_intercalate hne hcomma)
  | list => exact ⟨.list xs, by rw [ofJson, ofItems_strings]; rfl, rfl⟩
  | keys members => exact ⟨.keys (members.map Prod.fst), rfl, rfl⟩

theorem answer_eq (h : Spells json xs) (hcomma : ∀ x ∈ xs, ',' ∉ x.toList) :
    answer catalog s e json = checkPaths catalog s e ((entries xs).foldl Path.addNew []) := by
  obtain ⟨names, hnames, hraw⟩ := exists_names h hcomma
  rw [← hraw, answer, hnames]
  rfl

/-- Entries without commas are left as they are, trimmed. -/
theorem of_mem_entries {path : String} (hcomma : ∀ x ∈ xs, ',' ∉ x.toList) (h : path ∈ entries xs) :
    Text.trimmed path = path ∧ path ≠ "" ∧ ',' ∉ path.toList := by
  obtain ⟨⟨x, hx, rfl⟩, hne⟩ := mem_entries_iff.1 h
  refine ⟨Text.trimmed_trimmed x, hne, fun hmem => hcomma x hx (Text.mem_of_mem_trim ?_)⟩
  rwa [Text.trimmed, String.toList_ofList] at hmem

theorem entries_eq_self (h : ∀ path ∈ paths, Text.trimmed path = path ∧ path ≠ "") : entries paths = paths := by
  have hmap : paths.map Text.trimmed = paths.map id := List.map_congr_left fun path hpath => (h path hpath).1
  rw [entries, hmap, List.map_id, List.filter_eq_self]
  exact fun path hpath => by simpa using (h path hpath).2

/-- The entries that are left over when those that are left out are passed over. -/
theorem isCanonical_filter (hfirst : ∀ path ∈ entries xs, (Path.names path).head? ≠ some "") :
    IsCanonical e xs (((entries xs).foldl Path.addNew []).filter (!e.covers ·)) where
  mem_iff path := by
    rw [List.mem_filter, Path.mem_foldl_addNew]
    simp only [List.not_mem_nil, false_or, Bool.not_eq_true']
    refine and_congr_right fun hpath => ?_
    rw [← Bool.not_eq_true, Exclusions.covers_iff (hfirst path hpath)]
    simp
  nodup := ((Path.pairwise_foldl_addNew _).imp fun hlt heq => by simp [heq] at hlt).filter _
  ordered := (Path.pairwise_foldl_addNew _).filter _

/-- A list of relations gives the same answer however it is written. It is refused exactly if an entry that does not
lie within a path that is left out leads along no relations. Otherwise the answer has the entries that do not, each
once and in the order in which they occur first, and it is its own answer. -/
theorem resolve_spelled (exclude : Option String) (hcomma : ∀ x ∈ xs, ',' ∉ x.toList)
    (hdot : ∀ x ∈ xs, (Text.trimmed x).toList.head? ≠ some '.') :
    let e := Exclusions.read exclude
    ∃ found : Checked (List String), (∀ json, Spells json xs → answer catalog s e json = found) ∧
      ((∃ error, found = .error error) ↔ ∃ path ∈ entries xs,
        (∀ other ∈ e.paths, ¬ Path.IsWithin path other) ∧ s.relations? catalog path = none) ∧
      ∀ paths, found = .ok paths →
        IsCanonical e xs paths ∧ ∀ json, Spells json paths → answer catalog s e json = .ok paths := by
  intro e
  have hfirst : ∀ path ∈ entries xs, (Path.names path).head? ≠ some "" := by
    intro path hpath
    obtain ⟨⟨x, hx, rfl⟩, hne⟩ := mem_entries_iff.1 hpath
    exact Path.head?_names_ne hne (hdot x hx)
  refine ⟨checkPaths catalog s e ((entries xs).foldl Path.addNew []), fun json h => answer_eq h hcomma, ?_, ?_⟩
  · -- The list is refused exactly if not every entry that is looked at leads along relations.
    have hok : (∃ paths, checkPaths catalog s e ((entries xs).foldl Path.addNew []) = .ok paths) ↔
        ∀ path ∈ entries xs, e.covers path = false → (s.relations? catalog path).isSome := by
      simp [checkPaths_eq_ok_iff, Path.mem_foldl_addNew]
    rw [exists_eq_error_iff, hok]
    push Not
    refine exists_congr fun path => and_congr_right fun hpath => ?_
    rw [← Bool.not_eq_true, Exclusions.covers_iff (hfirst path hpath)]
    simp
  · intro paths hpaths
    obtain ⟨heq, hleads⟩ := checkPaths_eq_ok_iff.1 hpaths
    have hcanonical : IsCanonical e xs paths := heq ▸ isCanonical_filter hfirst
    have hkept : ∀ path ∈ paths, path ∈ entries xs := fun path hpath => ((hcanonical.mem_iff path).1 hpath).1
    refine ⟨hcanonical, fun json hjson => ?_⟩
    have hentries : entries paths = paths := entries_eq_self fun path hpath =>
      let ⟨htrimmed, hne, _⟩ := of_mem_entries hcomma (hkept path hpath)
      ⟨htrimmed, hne⟩
    rw [answer_eq hjson fun path hpath => (of_mem_entries hcomma (hkept path hpath)).2.2, hentries,
      Path.foldl_addNew_of_nodup (by simpa using hcanonical.nodup), List.nil_append, checkPaths_eq_ok_iff]
    rw [heq, List.filter_filter]
    simp only [Bool.and_self, List.mem_filter, true_and]
    exact fun path hpath => hleads path hpath.1

/-- Relations of a product, some of them blank, repeated or below one that is left out, where they may lead nowhere. -/
theorem resolve_spelled_shop :
    let s := Demo.Shop.productSchema
    let xs := [" category.parent", "creator.nothing", "", "category ", "category.parent", "creator"]
    let e := Exclusions.read (some "creator, category.id")
    (∀ x ∈ xs, ',' ∉ x.toList) ∧ (∀ x ∈ xs, (Text.trimmed x).toList.head? ≠ some '.') ∧
    ∃ found : Checked (List String), (∀ json, Spells json xs → answer Demo.Shop.catalog s e json = found) ∧
      ((∃ error, found = .error error) ↔ ∃ path ∈ entries xs,
        (∀ other ∈ e.paths, ¬ Path.IsWithin path other) ∧ s.relations? Demo.Shop.catalog path = none) ∧
      ∀ paths, found = .ok paths → IsCanonical e xs paths ∧
        ∀ json, Spells json paths → answer Demo.Shop.catalog s e json = .ok paths := by
  intro s xs e
  have hcomma : ∀ x ∈ xs, ',' ∉ x.toList := by decide
  have hdot : ∀ x ∈ xs, (Text.trimmed x).toList.head? ≠ some '.' := by decide
  exact ⟨hcomma, hdot, resolve_spelled _ hcomma hdot⟩

end RelationNames

end RecordQuery
