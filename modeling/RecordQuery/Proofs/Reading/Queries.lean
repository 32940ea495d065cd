import RecordQuery.Proofs.Paths
import RecordQuery.Proofs.Reading.Rows
import RecordQuery.Proofs.Requests
import RecordQuery.Store.InDatabase
/-!
# Queries on databases that look alike

A query is within a view (`Query.IsWithin`) if its predicate, its sort keys and the columns that it fetches
are. Its statements then read no more than the view, those for related records included, so that the query
gives the same records of two databases that look alike (`View.Alike.find_eq`, `View.Alike.countOf_eq`).
-/

namespace RecordQuery

open Outcome Sql

variable {ι : Type} {catalog : Catalog ι} {root s : Schema ι}

/-- A query that reads no more than a view. -/
structure Query.IsWithin (v : View catalog root) (s : Schema ι) (q : Query) : Prop where
  predicate : q.predicate.IsWithin v s
  sort : ∀ key ∈ q.sort, ∀ number term, SortTerm.ofPath catalog s number key.1 = .ok term →
    v.SortsBy s term
  columns : ∀ name ∈ q.projection.columns, v.sees s name
  relations : ∀ entry ∈ q.projection.relations, ∀ link, Loading.Link.at? catalog s entry.path = some link →
    ∀ name ∈ entry.columns, link.target.hasColumn name → v.sees link.target name

/-! ## Queries of requests -/

/-- A sort key that passes the check reads no more than a view of all visible columns. -/
theorem SortKeys.sortsBy_of_isSortable {v : View catalog root}
    (hsees : ∀ s, Schema.IsIn catalog root s → ∀ name, Access.visible.admits s name → v.sees s name)
    (hs : Schema.IsIn catalog root s) {path : String} (h : isSortable catalog s path) {number : Nat}
    {term : SortTerm} (hterm : SortTerm.ofPath catalog s number path = .ok term) : v.SortsBy s term := by
  rw [isSortable] at h
  rw [SortTerm.ofPath] at hterm
  split at h
  · next hfirst =>
    rw [hfirst] at hterm
    obtain ⟨-, -, hterm⟩ := bind_eq_ok_iff.1 hterm
    obtain rfl := Except.ok.inj hterm
    exact hsees s hs path h
  · next relation column hfirst =>
    cases hr : s.relation? relation with
    | none => simp [hr] at h
    | some r =>
      simp only [hr, Bool.and_eq_true] at h
      cases hj : r.join with
      | hasMany foreignKey => simp [hfirst, hr, hj] at hterm
      | belongsTo localKey =>
        simp only [hfirst, hr, hj] at hterm
        obtain ⟨-, -, hterm⟩ := bind_eq_ok_iff.1 hterm
        obtain rfl := Except.ok.inj hterm
        have htarget : Schema.IsIn catalog root (catalog r.target) := Schema.isIn_catalog r.target
        have hlocal : v.sees s localKey := by
          simpa [Schema.joinKeys, hj] using v.joinHere hs (Schema.relation?_eq_some hr).1
        exact ⟨hlocal, _, htarget, rfl, v.key htarget, hsees _ htarget column h.2, rfl⟩

/-- The query of a request is within a view of all visible columns. Of a path, the columns are those of the
schema that it leads to, if no relation has an empty name. -/
theorem Query.isWithin_ofRequest {v : View catalog root}
    (hsees : ∀ s, Schema.IsIn catalog root s → ∀ name, Access.visible.admits s name → v.sees s name)
    (hpaths : Schema.IsNamed catalog root ∨
      ∀ s, Schema.IsIn catalog root s → ∀ name, s.hasColumn name → v.sees s name)
    {limits : PageLimits} {request : Request} {identity : Option (String × Scalar)}
    (hidentity : ∀ i ∈ identity, v.sees root i.1) {q : Query}
    (h : Query.ofRequest catalog root limits request identity = .ok q) : q.IsWithin v root := by
  obtain ⟨p, hcheck, hpredicate, hsort, hcolumns, hentries⟩ := Query.ofRequest_eq_ok h
  have hs : Schema.IsIn catalog root root := Schema.isIn_root
  have hvisible : ∀ {s : Schema ι} {name : String} {without : List String}, Schema.IsIn catalog root s →
      name ∈ Projection.visible s without → v.sees s name := by
    intro s name without hs hn
    obtain ⟨hc, hh, -⟩ := Projection.mem_visible_iff.1 hn
    exact hsees s hs name (Access.admits_iff.2 ⟨hc, .inr hh⟩)
  refine ⟨?_, ?_, ?_, ?_⟩
  · rw [hpredicate]
    have hp := Predicate.isWithin_of_check hsees hs hcheck
    cases identity with
    | none => exact hp
    | some i => exact Predicate.isWithin_andEq hp (hidentity i rfl) i.2
  · intro key hk number term hterm
    exact SortKeys.sortsBy_of_isSortable hsees hs (SortKeys.isSortable_of_check hsort key hk) hterm
  · rw [hcolumns]
    exact fun name hn => hvisible hs hn
  · intro entry he link hlink name hn hc
    obtain ⟨owner, r, howner, hr, rfl⟩ := Loading.Link.at?_eq_some_iff.1 hlink
    have htarget : Schema.IsIn catalog root (catalog r.target) := Schema.isIn_catalog r.target
    rcases hpaths with hnamed | hall
    · obtain ⟨target, hat, hvis⟩ := (Projection.entries_eq_ok hentries).2 entry he
      obtain ⟨owner', r', howner', hr', rfl⟩ := Schema.exists_above? (hnamed root Schema.isIn_root) hat
      obtain rfl := Option.some.inj (howner.symm.trans howner')
      obtain rfl := Option.some.inj (hr.symm.trans hr')
      rw [hvis] at hn
      exact hvisible htarget hn
    · exact hall _ htarget name hc

/-- The view of all columns. -/
def View.whole (hsound : Schema.IsSound catalog root) : View catalog root where
  sees s name := s.hasColumn name
  hasColumn := id
  key hs := Schema.hasColumn_key (hsound _ hs)
  mark _ hm := Schema.hasColumn_mark hm
  joinHere hs hr := Schema.hasColumn_joinKeys_fst (hsound _ hs) hr
  joinThere hs hr := Schema.hasColumn_joinKeys_snd (hsound _ hs) hr (hsound _ (Schema.isIn_catalog _))

theorem Query.isWithin_whole (hsound : Schema.IsSound catalog root) {limits : PageLimits}
    {request : Request} {identity : Option (String × Scalar)}
    (hidentity : ∀ i ∈ identity, root.hasColumn i.1) {q : Query}
    (h : Query.ofRequest catalog root limits request identity = .ok q) :
    q.IsWithin (View.whole hsound) root :=
  isWithin_ofRequest (fun _ _ _ ha => (Access.admits_iff.1 ha).1) (.inr fun _ _ _ => id) hidentity h

namespace View

variable {v : View catalog root} {p : Predicate} {select select' : Select}

/-! ## Statements -/

theorem asks_live (hs : Schema.IsIn catalog root s) : v.Asks s (Select.live s) where
  table := rfl
  conditions := Condition.areWithin_unmarked hs
  live := List.prefix_rfl
  order := by simp [Select.live]

/-- A further condition within the view. -/
theorem Asks.and {q : Select} (h : v.Asks s q) {c : Condition} (hc : Condition.IsWithin v s c) :
    v.Asks s { q with conditions := q.conditions ++ [c] } where
  table := h.table
  conditions := Condition.areWithin_append.2 ⟨h.conditions, hc, trivial⟩
  live := h.live.trans (List.prefix_append _ _)
  order := h.order

theorem Asks.filter (h : v.Asks s select) (hp : p.IsWithin v s)
    (hf : select.filter catalog s p = .ok select') : v.Asks s select' := by
  rcases Select.filter_eq_ok_iff.1 hf with ⟨-, rfl⟩ | ⟨-, c, hc, rfl⟩
  · exact h
  · exact h.and (hp c hc)

theorem Asks.filterIn (h : v.Asks s select) {column : String} {values : List Param}
    (hn : v.sees s column) (hf : select.filterIn s column values = .ok select') : v.Asks s select' := by
  obtain ⟨-, -, hf⟩ := bind_eq_ok_iff.1 hf
  obtain rfl := Except.ok.inj hf
  exact h.and hn

theorem Asks.sortKey (h : v.Asks s select) {key : String × Direction}
    (hk : ∀ number term, SortTerm.ofPath catalog s number key.1 = .ok term → v.SortsBy s term)
    (hf : select.sortKey catalog s key = .ok select') : v.Asks s select' := by
  obtain ⟨term, hterm, rfl⟩ := map_eq_ok_iff.1 hf
  refine ⟨h.table, h.conditions, h.live, fun t ht => ?_⟩
  rcases List.mem_append.1 ht with ht | ht
  · exact h.order t ht
  · obtain rfl := List.mem_singleton.1 ht
    exact hk _ term hterm

theorem Asks.sort (h : v.Asks s select) {keys : SortKeys}
    (hk : ∀ key ∈ keys, ∀ number term, SortTerm.ofPath catalog s number key.1 = .ok term →
      v.SortsBy s term)
    (hf : select.sort catalog s keys = .ok select') : v.Asks s select' := by
  induction keys generalizing select with
  | nil =>
    obtain rfl := Except.ok.inj hf
    exact h
  | cons key keys ih =>
    rw [List.forall_mem_cons] at hk
    rw [Select.sort, List.foldlM_cons] at hf
    obtain ⟨next, hnext, hf⟩ := bind_eq_ok_iff.1 hf
    exact ih (h.sortKey hk.1 hnext) hk.2 hf

theorem Asks.sortByKey (hs : Schema.IsIn catalog root s) (h : v.Asks s select) :
    v.Asks s (select.sortByKey s) := by
  rw [Select.sortByKey]
  split
  · refine ⟨h.table, h.conditions, h.live, fun t ht => ?_⟩
    obtain rfl := List.mem_singleton.1 ht
    exact v.key hs
  · exact h

theorem Asks.atMost (h : v.Asks s select) (limit : Int64) : v.Asks s (select.atMost limit) :=
  ⟨h.table, h.conditions, h.live, h.order⟩

theorem Asks.onPage (h : v.Asks s select) (page : Option Page) : v.Asks s (select.onPage page) := by
  cases page with
  | none => exact h
  | some page => exact ⟨h.table, h.conditions, h.live, h.order⟩

/-- The statement of a query within a view reads no more than the view. -/
theorem asks_statement (hs : Schema.IsIn catalog root s) {q : Query} (hq : q.IsWithin v s) {single : Bool}
    (h : Database.statement catalog s q single = .ok select) : v.Asks s select := by
  obtain ⟨filtered, hf, h⟩ := bind_eq_ok_iff.1 h
  obtain ⟨sorted, hsort, h⟩ := bind_eq_ok_iff.1 h
  have hask := ((asks_live hs).filter hq.predicate hf).sort hq.sort hsort
  obtain rfl := Except.ok.inj h
  split
  · exact hask.atMost 1
  · split
    · exact (hask.sortByKey hs).onPage q.page
    · exact hask

/-! ## The columns that joining needs -/

/-- The columns that the levels below need are read. -/
theorem sees_of_mem_neededKeys (hs : Schema.IsIn catalog root s) {p : Projection} {path name : String}
    (h : name ∈ Loading.neededKeys catalog s p path) : v.sees s name := by
  obtain ⟨_, _, _, r, hr, rfl⟩ := Loading.mem_neededKeys_iff.1 h
  exact v.joinHere hs (Schema.relation?_eq_some hr).1

namespace Alike

variable {db db' : Database} (h : v.Alike db db')

include h

/-! ## Records -/

/-- A statement gives the same records, unless it asks for a column that is missing. -/
theorem fetch_eq (hs : Schema.IsIn catalog root s) (hq : v.Asks s select) {columns : List String}
    (hc : ∀ name ∈ columns, s.hasColumn name → v.sees s name) :
    Loading.fetch db s select columns = Loading.fetch db' s select columns := by
  rw [Loading.fetch, Loading.fetch]
  refine bind_congr fun u hu => ?_
  have hsees : ∀ name ∈ columns, v.sees s name := fun name hn =>
    hc name hn (Condition.requireColumn_eq_ok_iff.1 (forM_eq_ok_iff.1 (mapError_eq_ok_iff.1 hu) name hn))
  rw [h.select_eq hs hq hsees]

/-- The records of a link are the same. -/
theorem follow_eq {p : Projection} {owner : Schema ι} {r : Relation ι} {entry : RelationColumns}
    (howner : Schema.IsIn catalog root owner) (hr : r ∈ owner.relations)
    (hc : ∀ name ∈ entry.columns, (catalog r.target).hasColumn name → v.sees (catalog r.target) name)
    (path : String) (upper : List Record) :
    (Loading.Link.ofRelation catalog owner path r).follow db catalog p entry upper =
      (Loading.Link.ofRelation catalog owner path r).follow db' catalog p entry upper := by
  have hlower : v.sees (catalog r.target) (owner.joinKeys catalog r).2 := v.joinThere howner hr
  have htarget : Schema.IsIn catalog root (catalog r.target) := Schema.isIn_catalog r.target
  rw [Loading.Link.follow, Loading.Link.follow]
  split
  · rfl
  · refine bind_congr fun select hselect => ?_
    have hask := ((asks_live htarget).filterIn hlower (mapError_eq_ok_iff.1 hselect)).sortByKey htarget
    refine h.fetch_eq htarget hask fun name hn hcolumn => ?_
    rcases List.mem_append.1 hn with hn | hn
    · exact hc name hn hcolumn
    · rcases List.mem_cons.1 (Loading.mem_internalColumns_iff.1 hn).1 with rfl | hn
      · exact hlower
      · exact sees_of_mem_neededKeys htarget hn

/-- One more level is loaded the same way. -/
theorem loadLevel_eq {p : Projection} {entry : RelationColumns}
    (hentry : ∀ link, Loading.Link.at? catalog root entry.path = some link →
      ∀ name ∈ entry.columns, link.target.hasColumn name → v.sees link.target name)
    (records : List Record) (levels : List (Loading.Level ι)) :
    Loading.loadLevel db catalog root p records levels entry =
      Loading.loadLevel db' catalog root p records levels entry := by
  cases hlink : Loading.Link.at? catalog root entry.path with
  | none => simp only [Loading.loadLevel, hlink]
  | some link =>
    obtain ⟨owner, r, howner, hr, rfl⟩ := Loading.Link.at?_eq_some_iff.1 hlink
    have hmem := (Schema.relation?_eq_some hr).1
    simp only [Loading.loadLevel, hlink]
    rw [h.follow_eq (Schema.isIn_of_above? howner) hmem (hentry _ hlink)]

/-- Related records are loaded the same way. -/
theorem load_eq {p : Projection}
    (hp : ∀ entry ∈ p.relations, ∀ link, Loading.Link.at? catalog root entry.path = some link →
      ∀ name ∈ entry.columns, link.target.hasColumn name → v.sees link.target name)
    (records : List Record) :
    Loading.load db catalog root p records = Loading.load db' catalog root p records := by
  have hlevels : Loading.loadLevels db catalog root p records =
      Loading.loadLevels db' catalog root p records :=
    foldlM_congr (fun levels entry he => h.loadLevel_eq (hp entry he) records levels) []
  rw [Loading.load, Loading.load, hlevels]

/-- A query gives the same records. -/
theorem find_eq {q : Query} (hq : q.IsWithin v root) (single : Bool) :
    db.find catalog root q single = db'.find catalog root q single := by
  have hs : Schema.IsIn catalog root root := Schema.isIn_root
  have hsees : ∀ name ∈ q.projection.columns ++ Loading.internalColumns q.projection.columns
      (Loading.neededKeys catalog root q.projection ""), root.hasColumn name → v.sees root name := by
    intro name hn _
    rcases List.mem_append.1 hn with hn | hn
    · exact hq.columns name hn
    · exact sees_of_mem_neededKeys hs (Loading.mem_internalColumns_iff.1 hn).1
  rw [Database.find, Database.find]
  refine bind_congr fun select hselect => ?_
  dsimp only
  rw [h.fetch_eq hs (asks_statement hs hq (mapError_eq_ok_iff.1 hselect)) hsees]
  refine bind_congr fun records _ => ?_
  rw [h.load_eq hq.relations]

/-- A query counts the same number of records. -/
theorem countOf_eq {q : Query} (hq : q.IsWithin v root) :
    db.countOf catalog root q = db'.countOf catalog root q := by
  have hs : Schema.IsIn catalog root root := Schema.isIn_root
  rw [Database.countOf, Database.countOf]
  refine bind_congr fun select hselect => ?_
  rw [h.count_eq hs ((asks_live hs).filter hq.predicate (mapError_eq_ok_iff.1 hselect))]

end Alike

end View

end RecordQuery
