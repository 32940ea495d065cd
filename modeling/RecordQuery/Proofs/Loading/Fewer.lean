import RecordQuery.Proofs.Loading.Keys
import RecordQuery.Proofs.Loading.Loaded
/-!
# Following a link from fewer records

`Database.IsKept` is what databases are like: tables fit their schemas, rows lie in the order of their keys, and cells
are as their columns store them. Of the rows that a link leads to from records, those that it leads to from some of
these records are a part, in the same order, among them all that are joined to these (`Link.follow_of_subset`).
-/

namespace RecordQuery

open Outcome Sql
open Database (Row Table)

variable {ι : Type} {catalog : Catalog ι} {root s : Schema ι} {db : Database} {t : Table} {name : String}

/-- Tables that fit their schemas, in the order of their keys, with cells as their columns store them. -/
structure Database.IsKept (db : Database) (catalog : Catalog ι) (root : Schema ι) : Prop where
  fits : ∀ s, Schema.IsIn catalog root s → ∀ t, db.table? s.table = some t → t.Fits s
  ordered : ∀ s, Schema.IsIn catalog root s → ∀ t, db.table? s.table = some t → t.IsOrdered
  stored : ∀ s, Schema.IsIn catalog root s → ∀ name c, s.column? name = some c → ∀ row ∈ db.scopes s.table,
    c.kind.affinity.store (cellOf row name) = cellOf row name

theorem Database.IsKept.covers (h : db.IsKept catalog root) : db.Covers catalog root :=
  fun s hs t ht => (h.fits s hs t ht).covers

/-- The name of a column means a field of its affinity. -/
theorem Database.IsKept.affinity_resolve (h : db.IsKept catalog root) (hs : Schema.IsIn catalog root s) {c : Column}
    (hc : s.column? name = some c) {row : Scope} (hrow : row ∈ db.scopes s.table) :
    (Scope.resolve [row] name).affinity = some c.kind.affinity := by
  cases ht : db.table? s.table with
  | none => simp [Database.scopes, ht] at hrow
  | some t =>
    rw [Database.scopes_eq_map ht] at hrow
    obtain ⟨r, -, rfl⟩ := List.mem_map.1 hrow
    obtain ⟨f, hf, haffinity, -⟩ := h.fits s hs t ht name c hc
    simp [Scope.resolve, Table.scope, hf, haffinity]

namespace Loading

/-! ## Distinct values -/

section

variable {records fewer : List Record} {column : String}

/-- Every value that the records hold in a column is a leaf. -/
def AreLeaves (records : List Record) (column : String) : Prop :=
  ∀ record ∈ records, ∀ value, Members.get? record column = some value → value.IsLeaf

theorem areLeaves_ofRow (s : Schema ι) (names : List String) (rows : List Scope) (column : String) :
    AreLeaves (rows.map (Record.ofRow s names)) column := by
  intro record hrecord value hvalue
  obtain ⟨row, -, rfl⟩ := List.mem_map.1 hrecord
  rw [Record.get?_ofRow] at hvalue
  split at hvalue
  · exact Option.some.inj hvalue ▸ Kind.isLeaf_decode _ _
  · cases hvalue

theorem AreLeaves.of_subset (h : AreLeaves records column) (hsub : fewer ⊆ records) : AreLeaves fewer column :=
  fun record hrecord => h record (hsub hrecord)

/-- Leaves are told apart, so each that is not null is among the distinct values. -/
theorem mem_distinctValues_iff (h : AreLeaves records column) {value : Json} :
    value ∈ distinctValues records column ↔
      value.isNull = false ∧ ∃ record ∈ records, Members.get? record column = some value := by
  refine ⟨of_mem_distinctValues, fun ⟨hnull, record, hrecord, hvalue⟩ => ?_⟩
  obtain ⟨other, hother, htext⟩ := exists_distinctValues hrecord hvalue hnull
  obtain ⟨-, record', hrecord', hvalue'⟩ := of_mem_distinctValues hother
  rwa [← Json.eq_of_compact_eq (h record' hrecord' other hvalue') (h record hrecord value hvalue) htext]

theorem nodup_distinctValues (records : List Record) (column : String) : (distinctValues records column).Nodup := by
  have hstep : ∀ (values : List Json) (value : Json), values.Nodup → (addDistinct values value).Nodup := by
    intro values value h
    rw [addDistinct]
    split
    · exact h
    · next hnew =>
      simp only [Bool.or_eq_true, not_or, List.any_eq_true, not_exists, not_and] at hnew
      rw [← List.concat_eq_append]
      exact h.concat fun hmem => hnew.2 value hmem (beq_self_eq_true _)
  have hfold : ∀ more values : List Json, values.Nodup → (more.foldl addDistinct values).Nodup := by
    intro more
    induction more with
    | nil => exact fun _ h => h
    | cons value more ih => exact fun values h => ih _ (hstep values value h)
  exact hfold _ [] List.nodup_nil

theorem mem_keysOf_iff (h : AreLeaves records column) {key : Param} : key ∈ keysOf records column ↔
    ∃ record ∈ records, ∃ value, Members.get? record column = some value ∧ value.isNull = false ∧
      Param.ofJson? value = some key := by
  simp only [keysOf, List.mem_filterMap, mem_distinctValues_iff h]
  constructor
  · rintro ⟨value, ⟨hnull, record, hrecord, hvalue⟩, hkey⟩
    exact ⟨record, hrecord, value, hvalue, hnull, hkey⟩
  · rintro ⟨record, hrecord, value, hvalue, hnull, hkey⟩
    exact ⟨value, ⟨hnull, record, hrecord, hvalue⟩, hkey⟩

/-- For fewer records no more keys are looked for. -/
theorem keysOf_of_subset (h : AreLeaves records column) (hsub : fewer ⊆ records) :
    keysOf fewer column ⊆ keysOf records column ∧ (keysOf fewer column).length ≤ (keysOf records column).length := by
  have hvalues : distinctValues fewer column ⊆ distinctValues records column := by
    intro value hvalue
    obtain ⟨hnull, record, hrecord, hget⟩ := (mem_distinctValues_iff (h.of_subset hsub)).1 hvalue
    exact (mem_distinctValues_iff h).2 ⟨hnull, record, hsub hrecord, hget⟩
  refine ⟨List.filterMap_subset _ hvalues, ?_⟩
  obtain ⟨values, hperm, hsublist⟩ := List.subperm_of_subset (nodup_distinctValues fewer column) hvalues
  exact ((hperm.filterMap Param.ofJson?).length_eq.symm.le).trans (hsublist.filterMap Param.ofJson?).length_le

end

/-! ## Looking for keys -/

/-- A list of values binds these and nothing else. -/
theorem params_oneOf (name : String) (keys : List Param) :
    Token.params (Condition.oneOf name keys).tokens = keys := by
  have hseparated : ∀ keys : List Param,
      Token.params (Token.separated .comma (keys.map fun key => [Token.param key])) = keys := by
    intro keys
    induction keys with
    | nil => rfl
    | cons key keys ih =>
      cases keys with
      | nil => rfl
      | cons other keys =>
        have hcons : Token.separated .comma ((key :: other :: keys).map fun key => [Token.param key]) =
            .param key :: .comma :: Token.separated .comma ((other :: keys).map fun key => [Token.param key]) := rfl
        rw [hcons]
        exact congrArg (key :: ·) ih
  cases keys with
  | nil => rfl
  | cons key keys =>
    have htokens : (Condition.oneOf name (key :: keys)).tokens = .name name :: .word "IN" :: .opening ::
        (Token.separated .comma ((key :: keys).map fun key => [Token.param key]) ++ [.closing]) := rfl
    have hparams := hseparated (key :: keys)
    rw [Token.params] at hparams ⊢
    rw [htokens, List.filterMap_cons_none rfl, List.filterMap_cons_none rfl, List.filterMap_cons_none rfl,
      List.filterMap_append, hparams]
    exact List.append_nil _

theorem depth_lookUp (s : Schema ι) (name : String) (keys : List Param) : (lookUp s name keys).depth ≤ maxDepth := by
  have hdepth : (Condition.oneOf name keys).depth ≤ 3 := by
    rw [Condition.depth.eq_def]
    split <;> simp_all
  rw [Select.depth, lookUp, Condition.unmarked]
  cases s.deletionMark? with
  | none =>
    simp only [Option.toList_none, List.map_nil, List.nil_append, Condition.depths, Condition.chainDepth,
      List.foldl_nil, Condition.maxLoad, Condition.load, maxDepth]
    omega
  | some mark =>
    simp only [Option.toList_some, List.map_cons, List.map_nil, List.cons_append, List.nil_append, Condition.depths,
      Condition.chainDepth, List.foldl_cons, List.foldl_nil, Condition.maxLoad, maxDepth, Condition.depth,
      Condition.load]
    omega

theorem params_lookUp (s : Schema ι) (name : String) (keys : List Param) : (lookUp s name keys).params = keys := by
  have hparams := params_oneOf name keys
  rw [Select.params, Select.whereTokens, lookUp, Condition.unmarked]
  cases s.deletionMark? with
  | none => exact hparams
  | some mark =>
    have htokens : (Condition.all [.isNull mark, .oneOf name keys]).tokens = .opening :: .name mark :: .word "IS" ::
        .word "NULL" :: .closing :: .word "AND" :: .opening ::
          ((Condition.oneOf name keys).tokens ++ [.closing]) := rfl
    have hall : Token.params (.word "WHERE" :: (Condition.all [.isNull mark, .oneOf name keys]).tokens) =
        Token.params ((Condition.oneOf name keys).tokens ++ [.closing]) := by
      rw [htokens]
      rfl
    refine hall.trans ?_
    rw [Token.params] at hparams ⊢
    rw [List.filterMap_append, hparams]
    exact List.append_nil _

/-- Whatever nests so little is within the limits if it binds few values. -/
theorem isWithinLimits_lookUp {keys few : List Param} (h : (lookUp s name keys).isWithinLimits)
    (hlength : few.length ≤ keys.length) : (lookUp s name few).isWithinLimits := by
  simp only [Select.isWithinLimits, Bool.and_eq_true, decide_eq_true_eq, params_lookUp] at h ⊢
  exact ⟨depth_lookUp s name few, hlength.trans h.2⟩

theorem requireTables_lookUp (s : Schema ι) (name : String) (keys : List Param) :
    db.requireTables (lookUp s name keys).conditions = .ok () := by
  rw [Database.requireTables, lookUp, Condition.unmarked]
  cases s.deletionMark? <;> rfl

/-! ## Following a link -/

variable {p : Projection} {entry : RelationColumns} {link : Link ι} {upper lower fewer : List Record}

/-- A value of a row's column is read from its cell. -/
theorem exists_cell_of_get?_ofRow {names : List String} {row : Scope} {value : Json}
    (h : Members.get? (Record.ofRow s names row) name = some value) :
    value = (Record.kindOf s name).decode (Database.cellOf row name) := by
  rw [Record.get?_ofRow] at h
  split at h
  · exact (Option.some.inj h).symm
  · cases h

theorem exists_ofJson?_of_isLeaf {value : Json} (h : value.IsLeaf) : ∃ key, Param.ofJson? value = some key := by
  cases value with
  | null => exact ⟨_, rfl⟩
  | bool b => exact ⟨_, rfl⟩
  | number n =>
    rw [Param.ofJson?]
    cases n.int64? <;> exact ⟨_, rfl⟩
  | string s => exact ⟨_, rfl⟩
  | array items => exact absurd h id
  | object members => exact absurd h id

/-- A row that is found for the keys of records is found for those of fewer of them, if it joins one of these. -/
theorem isFound_of_meets {u : Schema ι} {upperNames names : List String} {upperRows : List Scope}
    (hupper : upper = upperRows.map (Record.ofRow u upperNames)) (hsub : fewer ⊆ upper)
    {c : Column} (hc : s.column? name = some c) {row : Scope}
    (haffinity : (Scope.resolve [row] name).affinity = some c.kind.affinity)
    (hstored : c.kind.affinity.store (Database.cellOf row name) = Database.cellOf row name) {column : String}
    (hfound : isFound (keysOf upper column) name row) {record : Record} (hrecord : record ∈ fewer)
    (hmeets : meets (record.get? column) (Members.get? (Record.ofRow s names row) name)) :
    isFound (keysOf fewer column) name row := by
  have hleaves : AreLeaves upper column := hupper ▸ areLeaves_ofRow u upperNames upperRows column
  -- The key above and the key below are the same leaf.
  obtain ⟨key, hkey⟩ : ∃ key, record.get? column = some key := by
    cases hget : record.get? column with
    | none => rw [hget] at hmeets; cases hmeets
    | some key => exact ⟨key, rfl⟩
  obtain ⟨value, hvalue⟩ : ∃ value, Members.get? (Record.ofRow s names row) name = some value := by
    cases hget : Members.get? (Record.ofRow s names row) name with
    | none => rw [hget, hkey] at hmeets; cases hmeets
    | some value => exact ⟨value, rfl⟩
  rw [hkey, hvalue, meets, Bool.and_eq_true, Bool.not_eq_true', beq_iff_eq] at hmeets
  obtain ⟨hnull, htext⟩ := hmeets
  have hread : value = c.kind.decode (Scope.resolve [row] name).cell := by
    rw [exists_cell_of_get?_ofRow hvalue, Record.kindOf, hc]
    rfl
  have hsame : key = value := Json.eq_of_compact_eq (hleaves record (hsub hrecord) key hkey)
    (hread ▸ Kind.isLeaf_decode _ _) htext
  have hreads : ∀ record ∈ upper, ∀ value, Members.get? record column = some value →
      ∃ cell, value = (Record.kindOf u column).decode cell := by
    intro record hrecord value hvalue
    rw [hupper] at hrecord
    obtain ⟨upperRow, -, rfl⟩ := List.mem_map.1 hrecord
    exact ⟨_, exists_cell_of_get?_ofRow hvalue⟩
  obtain ⟨cell, hcell⟩ := hreads record (hsub hrecord) key hkey
  obtain ⟨other, hother, hequal⟩ := isFound_iff.1 hfound
  obtain ⟨record', hrecord', value', hvalue', hnull', hparam'⟩ := (mem_keysOf_iff hleaves).1 hother
  obtain ⟨cell', rfl⟩ := hreads record' hrecord' value' hvalue'
  obtain ⟨param, hparam⟩ := exists_ofJson?_of_isLeaf (hleaves record (hsub hrecord) key hkey)
  refine isFound_iff.2 ⟨param, (mem_keysOf_iff (hleaves.of_subset hsub)).2
    ⟨record, hrecord, key, hkey, hnull, hparam⟩, ?_⟩
  rw [hcell] at hnull hparam
  exact Kind.compare_eq_yes haffinity hstored (hread.symm.trans (hsame.symm.trans hcell)) hnull hparam hnull' hparam'
    hequal

/-- Where keys can be looked for, so can any of them, and no more of them: the rows that are found are those of the
live ones with one of these. -/
theorem Link.exists_look (hsound : Schema.IsSound catalog root) (hkept : db.IsKept catalog root)
    (htarget : Schema.IsIn catalog root link.target) {keys : List Param} (hne : ¬ keys.isEmpty)
    (h : link.look db catalog p entry keys = .ok lower) :
    ∃ t, db.table? link.target.table = some t ∧ ∀ few ⊆ keys, few.length ≤ keys.length →
      link.look db catalog p entry few =
        .ok (((t.live link.target).filter fun r => isFound few link.lowerKey (t.scope r)).map fun r =>
          Record.ofRow link.target (link.names catalog p entry) (t.scope r)) := by
  rw [look, if_neg hne] at h
  obtain ⟨⟨⟩, hcolumn, hfetch⟩ := bind_eq_ok_iff.1 h
  have hname := Condition.requireColumn_eq_ok_iff.1 (mapError_eq_ok_iff.1 hcolumn)
  obtain ⟨hlimits, -, horder⟩ := of_fetch_eq_ok hfetch
  obtain ⟨t, ht, -, -⟩ := fetch_eq_ok hfetch
  have hfits := hkept.fits _ htarget t ht
  have hchosen : ∀ keys names, db.chosen (lookUp link.target link.lowerKey keys) names t =
      (t.live link.target).filter fun r => isFound keys link.lowerKey (t.scope r) :=
    chosen_lookUp hfits (hfits.isKey (hsound _ htarget)) (hkept.ordered _ htarget t ht) hname
  have hunique : ∀ t', db.table? link.target.table = some t' → t = t' := fun t' ht' =>
    Option.some.inj (ht.symm.trans ht')
  refine ⟨t, ht, fun few hsub hlength => ?_⟩
  rw [look]
  split
  · next hempty =>
    have hnone : ((t.live link.target).filter fun r => isFound few link.lowerKey (t.scope r)) = [] := by
      rw [List.isEmpty_iff.1 hempty]
      exact List.filter_eq_nil_iff.2 fun _ _ => Bool.false_ne_true
    rw [hnone]
    rfl
  · have hsubset : db.chosen (lookUp link.target link.lowerKey few) (link.names catalog p entry) t ⊆
        db.chosen (lookUp link.target link.lowerKey keys) (link.names catalog p entry) t := by
      rw [hchosen, hchosen]
      exact fun r hr => List.mem_filter.2 ⟨(List.mem_filter.1 hr).1, isFound_mono hsub (List.mem_filter.1 hr).2⟩
    have htable : (lookUp link.target link.lowerKey few).table = (lookUp link.target link.lowerKey keys).table := rfl
    obtain ⟨t', ht', hfetch'⟩ := fetch_of_fetch hfetch htable (isWithinLimits_lookUp hlimits hlength)
      (requireTables_lookUp _ _ _) horder fun t' ht' => hunique t' ht' ▸ hsubset
    obtain rfl := hunique t' ht'
    rw [hchosen] at hfetch'
    exact bind_eq_ok_iff.2 ⟨(), hcolumn, hfetch'⟩

/-- Where keys can be looked for, so can fewer of them: of the rows found, those with one of these. -/
theorem Link.look_of_subset (hsound : Schema.IsSound catalog root) (hkept : db.IsKept catalog root)
    (htarget : Schema.IsIn catalog root link.target) {keys few : List Param} (hsub : few ⊆ keys)
    (hlength : few.length ≤ keys.length) (h : link.look db catalog p entry keys = .ok lower) :
    ∃ rows : List Scope,
      lower = rows.map (Record.ofRow link.target (link.names catalog p entry)) ∧
      link.look db catalog p entry few = .ok ((rows.filter (isFound few link.lowerKey)).map
        (Record.ofRow link.target (link.names catalog p entry))) ∧
      rows ⊆ db.scopes link.target.table ∧ ∀ row ∈ rows, isFound keys link.lowerKey row := by
  by_cases hempty : keys.isEmpty
  · rw [List.isEmpty_iff.1 hempty] at h hsub
    obtain rfl := List.subset_nil.1 hsub
    obtain rfl := Except.ok.inj h
    exact ⟨[], rfl, rfl, List.nil_subset _, fun _ hrow => absurd hrow List.not_mem_nil⟩
  · obtain ⟨t, ht, hlook⟩ := exists_look hsound hkept htarget hempty h
    obtain rfl := Except.ok.inj (h.symm.trans (hlook keys (List.Subset.refl _) le_rfl))
    refine ⟨((t.live link.target).filter fun r => isFound keys link.lowerKey (t.scope r)).map t.scope, ?_, ?_, ?_, ?_⟩
    · rw [List.map_map]
      rfl
    · have hrows : (((t.live link.target).filter fun r => isFound keys link.lowerKey (t.scope r)).map t.scope).filter
          (isFound few link.lowerKey) =
          ((t.live link.target).filter fun r => isFound few link.lowerKey (t.scope r)).map t.scope := by
        rw [List.filter_map, List.filter_filter]
        refine congrArg _ (List.filter_congr fun r _ => ?_)
        rw [Function.comp_apply, Bool.and_eq_left_iff_imp]
        exact isFound_mono hsub
      rw [hlook few hsub hlength, hrows, List.map_map]
      rfl
    · rw [Database.scopes_eq_map ht]
      exact List.map_subset _ fun r hr => (List.mem_filter.1 (List.mem_filter.1 hr).1).1
    · intro row hrow
      obtain ⟨r, hr, rfl⟩ := List.mem_map.1 hrow
      exact (List.mem_filter.1 hr).2

/-- Of the rows that a link leads to from records, those that it leads to from fewer of them, in the same order: among
these are all that are joined to the fewer ones. -/
theorem Link.follow_of_subset (hsound : Schema.IsSound catalog root) (hkept : db.IsKept catalog root)
    (htarget : Schema.IsIn catalog root link.target) (hlower : link.target.hasColumn link.lowerKey)
    {u : Schema ι} {upperNames : List String} {upperRows : List Scope}
    (hupper : upper = upperRows.map (Record.ofRow u upperNames)) (hsub : fewer ⊆ upper)
    (h : link.follow db catalog p entry upper = .ok lower) :
    ∃ (rows : List Scope) (keep : Scope → Bool),
      lower = rows.map (Record.ofRow link.target (link.names catalog p entry)) ∧
      link.follow db catalog p entry fewer =
        .ok ((rows.filter keep).map (Record.ofRow link.target (link.names catalog p entry))) ∧
      ∀ row ∈ rows, ∀ record ∈ fewer, meets (record.get? link.upperKey)
        (Members.get? (Record.ofRow link.target (link.names catalog p entry) row) link.lowerKey) → keep row := by
  have hleaves : AreLeaves upper link.upperKey := hupper ▸ areLeaves_ofRow u upperNames upperRows link.upperKey
  obtain ⟨hkeys, hlength⟩ := keysOf_of_subset hleaves hsub
  rw [follow_eq_look] at h ⊢
  obtain ⟨rows, hlowerRows, hlook, hrows, hfound⟩ := look_of_subset hsound hkept htarget hkeys hlength h
  refine ⟨rows, _, hlowerRows, hlook, fun row hrow record hrecord hmeets => ?_⟩
  obtain ⟨c, hc⟩ := Option.isSome_iff_exists.1 hlower
  exact isFound_of_meets hupper hsub hc (hkept.affinity_resolve htarget hc (hrows hrow))
    (hkept.stored _ htarget _ c hc row (hrows hrow)) (hfound row hrow) hrecord hmeets

end Loading

end RecordQuery
