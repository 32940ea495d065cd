import RecordQuery.Proofs.Loading.Closure
import RecordQuery.Proofs.Loading.Joins
/-!
# Levels of records

`Loading.Stands` says what is fetched of the records at a path: the selected columns, and those that
joining needs besides. After all levels are loaded there are rows for every path, so that the records at
a path are those of its rows, and the rows at a path that a relation joins to a row above it are all that
there are (`Loading.loadLevels_eq_ok`).
-/

namespace RecordQuery

open Outcome Sql

variable {ι : Type} {catalog : Catalog ι} {root s : Schema ι} {db : Database} {p : Projection}
  {path name : String} {columns internal : List String}

/-- What is known of the paths of a projection: each is there once and after the one above it, leads
somewhere, and columns there are selected. -/
structure Projection.IsSelection (p : Projection) (catalog : Catalog ι) (root : Schema ι) : Prop where
  closed : Path.IsClosed (p.relations.map RelationColumns.path)
  columns : ∀ name ∈ p.columns, root.hasColumn name
  leads : ∀ entry ∈ p.relations, ∃ target, root.schemaAt? catalog entry.path = some target ∧
    ∀ name ∈ entry.columns, target.hasColumn name

/-- The projection of a request is a selection. -/
theorem Query.isSelection_ofRequest {limits : PageLimits} {request : Request}
    {identity : Option (String × Scalar)} {q : Query}
    (h : ofRequest catalog root limits request identity = .ok q) :
    q.projection.IsSelection catalog root := by
  obtain ⟨-, -, -, -, hcolumns, hentries⟩ := ofRequest_eq_ok h
  obtain ⟨hpaths, hleads⟩ := Projection.entries_eq_ok hentries
  refine ⟨hpaths ▸ Projection.isClosed_closure q.relations, fun name hn => ?_, fun entry he => ?_⟩
  · rw [hcolumns] at hn
    exact (Projection.mem_visible_iff.1 hn).1
  · obtain ⟨target, htarget, heq⟩ := hleads entry he
    exact ⟨target, htarget, fun name hn => (Projection.mem_visible_iff.1 (heq ▸ hn)).1⟩

namespace Loading

/-- The columns that are fetched of the root's rows. -/
def rootNames (catalog : Catalog ι) (root : Schema ι) (p : Projection) : List String :=
  p.columns ++ internalColumns p.columns (neededKeys catalog root p "")

/-- The schema of the records at a path, the columns that are selected of them, and the columns that are
fetched besides. -/
inductive Stands (catalog : Catalog ι) (root : Schema ι) (p : Projection) :
    String → Schema ι → List String → List String → Prop
  | root : Stands catalog root p "" root p.columns (internalColumns p.columns (neededKeys catalog root p ""))
  | below {entry : RelationColumns} {owner : Schema ι} {r : Relation ι} (hentry : entry ∈ p.relations)
      (howner : root.above? catalog (Path.parent entry.path) = some owner)
      (hr : owner.relation? (Path.last entry.path) = some r) :
      Stands catalog root p entry.path (catalog r.target) entry.columns
        ((Link.ofRelation catalog owner entry.path r).internal catalog p entry)

namespace Stands

/-- The columns that the levels below are joined by are fetched. -/
theorem mem_of_mem_neededKeys (h : Stands catalog root p path s columns internal)
    (hn : name ∈ neededKeys catalog s p path) : name ∈ columns ++ internal := by
  rw [List.mem_append]
  by_cases hc : name ∈ columns
  · exact .inl hc
  · cases h with
    | root => exact .inr (mem_internalColumns_iff.2 ⟨hn, hc⟩)
    | below => exact .inr (mem_internalColumns_iff.2 ⟨List.mem_cons_of_mem _ hn, hc⟩)

theorem not_mem_columns (h : Stands catalog root p path s columns internal) (hn : name ∈ internal) :
    name ∉ columns := by
  cases h with
  | root => exact (mem_internalColumns_iff.1 hn).2
  | below => exact (mem_internalColumns_iff.1 hn).2

end Stands

section

variable (hsound : Schema.IsSound catalog root) (hnamed : Schema.IsNamed catalog root)
  (hp : p.IsSelection catalog root)

include hnamed hp

/-- A path of a projection is not that of the root. -/
theorem path_ne {entry : RelationColumns} (he : entry ∈ p.relations) : entry.path ≠ "" := by
  obtain ⟨target, htarget, -⟩ := hp.leads entry he
  intro hempty
  obtain ⟨owner, r, howner, hr, -⟩ := Schema.exists_above? (hnamed root Schema.isIn_root) htarget
  obtain ⟨hmem, hname⟩ := Schema.relation?_eq_some hr
  refine hnamed owner (Schema.isIn_of_above? howner) r hmem ?_
  rw [hname, hempty]
  exact Path.last_of_isName (by decide)

theorem not_mem_paths : "" ∉ p.relations.map RelationColumns.path := by
  intro h
  obtain ⟨entry, he, hpath⟩ := List.mem_map.1 h
  exact path_ne hnamed hp he hpath

/-- A projection has one entry for a path. -/
theorem eq_of_path_eq {entry other : RelationColumns} (he : entry ∈ p.relations) (ho : other ∈ p.relations)
    (hpath : entry.path = other.path) : entry = other := by
  have hnodup : (p.relations.map RelationColumns.path).Nodup :=
    (hp.closed.pairwise (not_mem_paths hnamed hp)).imp And.left
  exact List.inj_on_of_nodup_map hnodup he ho hpath

/-- The schema of a level is that which its path leads to. -/
theorem Stands.above?_eq (h : Stands catalog root p path s columns internal) :
    root.above? catalog path = some s := by
  cases h with
  | root => rfl
  | @below entry owner r hentry howner hr =>
    obtain ⟨target, htarget, -⟩ := hp.leads entry hentry
    obtain ⟨owner', r', howner', hr', rfl⟩ := Schema.exists_above? (hnamed root Schema.isIn_root) htarget
    obtain rfl : owner = owner' := Option.some.inj (howner.symm.trans howner')
    obtain rfl : r = r' := Option.some.inj (hr.symm.trans hr')
    rw [Schema.above?, if_neg (by simpa using path_ne hnamed hp hentry), htarget]

/-- Records stand at the path of the root and at each path of a projection. -/
theorem exists_stands (hpath : path = "" ∨ path ∈ p.relations.map RelationColumns.path) :
    ∃ s columns internal, Stands catalog root p path s columns internal := by
  rcases hpath with rfl | hpath
  · exact ⟨_, _, _, .root⟩
  · obtain ⟨entry, he, rfl⟩ := List.mem_map.1 hpath
    obtain ⟨target, htarget, -⟩ := hp.leads entry he
    obtain ⟨owner, r, howner, hr, -⟩ := Schema.exists_above? (hnamed root Schema.isIn_root) htarget
    exact ⟨_, _, _, .below he howner hr⟩

theorem Stands.isIn (h : Stands catalog root p path s columns internal) : Schema.IsIn catalog root s :=
  Schema.isIn_of_above? (h.above?_eq hnamed hp)

include hsound

/-- The columns that are fetched are there. -/
theorem Stands.hasColumn (h : Stands catalog root p path s columns internal)
    (hn : name ∈ columns ++ internal) : s.hasColumn name := by
  have hneeded : ∀ name ∈ neededKeys catalog s p path, s.hasColumn name := by
    intro name hn
    obtain ⟨_, _, _, r, hr, rfl⟩ := mem_neededKeys_iff.1 hn
    exact Schema.hasColumn_joinKeys_fst (hsound s (h.isIn hnamed hp)) (Schema.relation?_eq_some hr).1
  have hs := h.above?_eq hnamed hp
  rcases List.mem_append.1 hn with hsel | hint
  · cases h with
    | root => exact hp.columns name hsel
    | @below entry owner r hentry howner hr =>
      obtain ⟨target, htarget, hcolumns⟩ := hp.leads entry hentry
      rw [Schema.above?, if_neg (by simpa using path_ne hnamed hp hentry), htarget] at hs
      exact Option.some.inj hs ▸ hcolumns name hsel
  · cases h with
    | root => exact hneeded name (mem_internalColumns_iff.1 hint).1
    | @below entry owner r hentry howner hr =>
      rcases List.mem_cons.1 (mem_internalColumns_iff.1 hint).1 with rfl | hkey
      · exact Schema.hasColumn_joinKeys_snd (hsound owner (Schema.isIn_of_above? howner))
          (Schema.relation?_eq_some hr).1 (hsound _ (Schema.isIn_catalog r.target))
      · exact hneeded name hkey

end

/-! ## Loading the levels -/

variable {rowsAt : String → List Scope} {rootRows : List Scope} {levels : List (Level ι)}
  {entry : RelationColumns} {entries : List RelationColumns}

/-- A level holds the records of the rows at its path, and those of these rows that the relation there
joins to a row above are all that it joins to that row. -/
def Level.Joins (db : Database) (catalog : Catalog ι) (root : Schema ι) (p : Projection)
    (rowsAt : String → List Scope) (entry : RelationColumns) (level : Level ι) : Prop :=
  ∃ owner r, root.above? catalog (Path.parent entry.path) = some owner ∧
    owner.relation? (Path.last entry.path) = some r ∧
    level.link = Link.ofRelation catalog owner entry.path r ∧
    level.internal = (Link.ofRelation catalog owner entry.path r).internal catalog p entry ∧
    level.records = (rowsAt entry.path).map
      (Record.ofRow (catalog r.target) (entry.columns ++ level.internal)) ∧
    rowsAt entry.path ⊆ db.scopes (catalog r.target).table ∧
    ∀ row ∈ rowsAt (Path.parent entry.path), ∀ i,
      Database.cellOf row (owner.joinKeys catalog r).1 = .integer i →
        (rowsAt entry.path).filter
            (fun other => Database.cellOf other (owner.joinKeys catalog r).2 == .integer i) =
          db.related catalog owner r row

theorem Level.Joins.path_eq {level : Level ι} (h : level.Joins db catalog root p rowsAt entry) :
    level.link.path = entry.path := by
  obtain ⟨_, _, _, _, hlink, -⟩ := h
  exact congrArg Link.path hlink

/-- Levels that were loaded for entries, in their order. -/
structure AreLoaded (db : Database) (catalog : Catalog ι) (root : Schema ι) (p : Projection)
    (rowsAt : String → List Scope) (entries : List RelationColumns) (levels : List (Level ι)) : Prop where
  rows : rowsAt "" ⊆ db.scopes root.table
  paths : levels.map (fun level => level.link.path) = entries.map RelationColumns.path
  joins : ∀ level ∈ levels, ∃ entry ∈ entries, level.Joins db catalog root p rowsAt entry

/-- The records at a path that was loaded are those of its rows. -/
theorem AreLoaded.recordsAt_eq (h : AreLoaded db catalog root p rowsAt entries levels)
    (hnamed : Schema.IsNamed catalog root) (hp : p.IsSelection catalog root)
    (hentries : entries ⊆ p.relations) (hs : Stands catalog root p path s columns internal)
    (hpath : path = "" ∨ path ∈ entries.map RelationColumns.path) :
    recordsAt ((rowsAt "").map (Record.ofRow root (rootNames catalog root p))) levels path =
        (rowsAt path).map (Record.ofRow s (columns ++ internal)) ∧
      rowsAt path ⊆ db.scopes s.table := by
  cases hs with
  | root => exact ⟨rfl, h.rows⟩
  | @below entry owner r hentry howner hr =>
    have hne := path_ne hnamed hp hentry
    have hsome : (levels.find? fun level => level.link.path == entry.path).isSome := by
      rw [List.find?_isSome]
      have hmem := hpath.resolve_left hne
      rw [← h.paths] at hmem
      obtain ⟨level, hl, heq⟩ := List.mem_map.1 hmem
      exact ⟨level, hl, beq_iff_eq.2 heq⟩
    obtain ⟨level, hfind⟩ := Option.isSome_iff_exists.1 hsome
    obtain ⟨other, hother, owner', r', howner', hr', hlink, hinternal, hrecords, hrows, -⟩ :=
      h.joins level (List.mem_of_find?_eq_some hfind)
    have hsame : other = entry := by
      refine eq_of_path_eq hnamed hp (hentries hother) hentry ?_
      have hfound := List.find?_some (p := fun level : Level ι => level.link.path == entry.path) hfind
      rw [hlink] at hfound
      exact beq_iff_eq.1 hfound
    subst hsame
    obtain rfl : owner = owner' := Option.some.inj (howner.symm.trans howner')
    obtain rfl : r = r' := Option.some.inj (hr.symm.trans hr')
    rw [recordsAt, if_neg (by simpa using hne), hfind, Option.map_some, Option.getD_some, hrecords, hinternal]
    exact ⟨rfl, hrows⟩

/-- A level at a new path, to which nothing that is loaded belongs, is one more that is loaded. -/
theorem AreLoaded.concat (h : AreLoaded db catalog root p rowsAt entries levels) (hne : entry.path ≠ "")
    (hother : ∀ e ∈ entries, e.path ≠ entry.path ∧ Path.parent e.path ≠ entry.path) {level : Level ι}
    {rows : List Scope}
    (hlevel : level.Joins db catalog root p (Function.update rowsAt entry.path rows) entry) :
    AreLoaded db catalog root p (Function.update rowsAt entry.path rows) (entries ++ [entry]) (levels ++ [level]) where
  rows := by
    rw [Function.update_of_ne hne.symm]
    exact h.rows
  paths := by
    rw [List.map_append, List.map_append, h.paths, List.map_singleton, List.map_singleton, hlevel.path_eq]
  joins := by
    intro other ho
    rcases List.mem_append.1 ho with ho | ho
    · obtain ⟨e, he, hjoins⟩ := h.joins other ho
      obtain ⟨hpath, habove⟩ := hother e he
      refine ⟨e, List.mem_append_left _ he, ?_⟩
      rw [Level.Joins, Function.update_of_ne hpath, Function.update_of_ne habove]
      exact hjoins
    · obtain rfl := List.mem_singleton.1 ho
      exact ⟨entry, List.mem_append_right _ List.mem_cons_self, hlevel⟩

/-- One more level is loaded. -/
theorem AreLoaded.loadLevel {more : List (Level ι)}
    (h : AreLoaded db catalog root p rowsAt entries levels)
    (hsound : Schema.IsSound catalog root) (hnamed : Schema.IsNamed catalog root)
    (hp : p.IsSelection catalog root) (hjoin : db.IsJoinable catalog root)
    (hentries : entries ++ [entry] ⊆ p.relations)
    (hclosed : Path.IsClosed ((entries ++ [entry]).map RelationColumns.path))
    (hload : Loading.loadLevel db catalog root p
      ((rowsAt "").map (Record.ofRow root (rootNames catalog root p))) levels entry = .ok more) :
    ∃ rows, AreLoaded db catalog root p (Function.update rowsAt entry.path rows) (entries ++ [entry]) more := by
  have hentry : entry ∈ p.relations := hentries (List.mem_append_right entries List.mem_cons_self)
  have hbefore : entries ⊆ p.relations := fun e he => hentries (List.mem_append_left _ he)
  have hne := path_ne hnamed hp hentry
  rw [List.map_append, List.map_singleton] at hclosed
  obtain ⟨-, -, hparent⟩ := Path.isClosed_of_concat hclosed
  -- What is loaded before does not speak of the rows at the new path.
  have hother : ∀ e ∈ entries, e.path ≠ entry.path ∧ Path.parent e.path ≠ entry.path := by
    have hempty : "" ∉ entries.map RelationColumns.path ++ [entry.path] := by
      intro hmem
      refine not_mem_paths hnamed hp (List.map_subset _ hentries ?_)
      rwa [List.map_append]
    have hpairwise := (List.pairwise_append.1 (hclosed.pairwise hempty)).2.2
    exact fun e he => hpairwise e.path (List.mem_map_of_mem he) entry.path (List.mem_singleton_self _)
  have hself : Path.parent entry.path ≠ entry.path :=
    hp.closed.parent_ne (not_mem_paths hnamed hp) (List.mem_map_of_mem hentry)
  rw [Loading.loadLevel] at hload
  cases hlink : Link.at? catalog root entry.path with
  | none => simp [hlink] at hload
  | some link =>
    rw [hlink] at hload
    obtain ⟨owner, r, howner, hr, rfl⟩ := Link.at?_eq_some_iff.1 hlink
    obtain ⟨lower, hfollow, rfl⟩ := map_eq_ok_iff.1 hload
    have hupper : Path.parent entry.path = "" ∨
        Path.parent entry.path ∈ p.relations.map RelationColumns.path :=
      hparent.imp id fun hmem => List.map_subset _ hbefore hmem
    obtain ⟨s, columns, internal, hstands⟩ := exists_stands hnamed hp hupper
    obtain rfl : s = owner := Option.some.inj ((hstands.above?_eq hnamed hp).symm.trans howner)
    obtain ⟨hrecords, hrows⟩ := h.recordsAt_eq hnamed hp hbefore hstands hparent
    have hkey := hstands.mem_of_mem_neededKeys (mem_neededKeys_iff.2 ⟨entry, hentry, rfl, r, hr, rfl⟩)
    rw [hrecords] at hfollow
    obtain ⟨rows, rfl, hsubset, hjoined⟩ := Link.follow_eq_ok hsound hjoin (hstands.isIn hnamed hp)
      (Schema.relation?_eq_some hr).1 hkey hrows hfollow
    refine ⟨rows, h.concat hne hother ⟨s, r, howner, hr, rfl, rfl, ?_⟩⟩
    rw [Function.update_self, Function.update_of_ne hself]
    exact ⟨rfl, hsubset, hjoined⟩

/-- After loading there are rows for every path of the projection. -/
theorem loadLevels_eq_ok (hsound : Schema.IsSound catalog root) (hnamed : Schema.IsNamed catalog root)
    (hp : p.IsSelection catalog root) (hjoin : db.IsJoinable catalog root)
    (hrows : rootRows ⊆ db.scopes root.table)
    (h : loadLevels db catalog root p (rootRows.map (Record.ofRow root (rootNames catalog root p))) =
      .ok levels) :
    ∃ rowsAt, rowsAt "" = rootRows ∧ AreLoaded db catalog root p rowsAt p.relations levels := by
  rw [loadLevels] at h
  suffices hprefix : ∀ entries after, p.relations = entries ++ after → ∀ levels, entries.foldlM
      (loadLevel db catalog root p (rootRows.map (Record.ofRow root (rootNames catalog root p)))) [] =
        .ok levels →
      ∃ rowsAt, rowsAt "" = rootRows ∧ AreLoaded db catalog root p rowsAt entries levels from
    hprefix p.relations [] (List.append_nil _).symm levels h
  clear h
  intro entries
  induction entries using List.reverseRecOn with
  | nil =>
    intro after _ levels hload
    obtain rfl := Except.ok.inj hload
    exact ⟨fun _ => rootRows, rfl, hrows, rfl, by simp⟩
  | append_singleton entries entry ih =>
    intro after heq levels hload
    rw [List.foldlM_append, bind_eq_ok_iff] at hload
    obtain ⟨before, hbefore, hload⟩ := hload
    rw [List.foldlM_cons, bind_eq_ok_iff] at hload
    obtain ⟨_, hload, hdone⟩ := hload
    obtain rfl := Except.ok.inj hdone
    obtain ⟨rowsAt, rfl, hloaded⟩ := ih (entry :: after) (by simpa using heq) before hbefore
    have hsubset : entries ++ [entry] ⊆ p.relations := heq ▸ List.subset_append_left _ after
    have hclosed : Path.IsClosed ((entries ++ [entry]).map RelationColumns.path) := by
      have hall := hp.closed
      rw [heq, List.map_append] at hall
      exact hall.of_append
    obtain ⟨rows, hmore⟩ := hloaded.loadLevel hsound hnamed hp hjoin hsubset hclosed hload
    refine ⟨_, Function.update_of_ne ?_ _ _, hmore⟩
    exact (path_ne hnamed hp (hsubset (List.mem_append_right _ List.mem_cons_self))).symm

end Loading

end RecordQuery
