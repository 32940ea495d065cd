import RecordQuery.Proofs.Loading.Fewer
/-!
# Each record is completed on its own

Loading related records for fewer records loads, level by level, a part of what it loads for all of them
(`Loading.AreParts`). What is not loaded is not attached to these records anyway, so that they are completed the same
(`attachOne_finish_eq`): what is loaded for a record does not depend on the records that it is loaded with
(`Loading.exists_completion`).
-/

namespace RecordQuery

open Outcome Sql

variable {ι : Type} {catalog : Catalog ι} {root : Schema ι} {db : Database} {p : Projection}

namespace Loading

variable {part whole : Level ι} {parts wholes : List (Level ι)} {upper fewer : List Record} {record : Record}
  {path name : String}

/-! ## Parts of levels -/

/-- A level that was loaded for fewer records above: it holds some of the records, in their order, among them all that
are joined to these. -/
structure Level.IsPart (fewer : List Record) (part whole : Level ι) : Prop where
  link : part.link = whole.link
  internal : part.internal = whole.internal
  records : ∃ (rows : List Scope) (names : List String) (keep : Scope → Bool),
    whole.records = rows.map (Record.ofRow whole.link.target names) ∧
    part.records = (rows.filter keep).map (Record.ofRow whole.link.target names) ∧
    ∀ row ∈ rows, ∀ record ∈ fewer, meets (Members.get? record whole.link.upperKey)
      (Members.get? (Record.ofRow whole.link.target names row) whole.link.lowerKey) → keep row

/-- Levels that were loaded for records of the root, and those for fewer of these. -/
structure AreParts (catalog : Catalog ι) (root : Schema ι) (fewer : List Record) (parts wholes : List (Level ι)) :
    Prop where
  links : ∀ whole ∈ wholes, Link.at? catalog root whole.link.path = some whole.link
  closed : Path.IsClosed (wholes.map fun whole => whole.link.path)
  parts : List.Forall₂ (fun part whole => part.IsPart (recordsAt fewer parts (Path.parent whole.link.path)) whole)
    parts wholes

theorem recordsAt_append (h : path = "" ∨ path ∈ parts.map fun part => part.link.path) (more : List (Level ι)) :
    recordsAt fewer (parts ++ more) path = recordsAt fewer parts path := by
  rw [recordsAt, recordsAt]
  split
  · rfl
  · next hne =>
    obtain ⟨part, hpart, hpath⟩ := List.mem_map.1 (h.resolve_left (by simpa using hne))
    have hsome : (parts.find? fun part => part.link.path == path).isSome :=
      List.find?_isSome.2 ⟨part, hpart, beq_iff_eq.2 hpath⟩
    rw [List.find?_append, Option.or_of_isSome hsome]

theorem AreParts.paths_eq (h : AreParts catalog root fewer parts wholes) :
    (parts.map fun part => part.link.path) = wholes.map fun whole => whole.link.path := by
  have hparts := h.parts
  clear h
  generalize recordsAt fewer parts = above at hparts
  induction hparts with
  | nil => rfl
  | cons hpart _ ih => rw [List.map_cons, List.map_cons, hpart.link, ih]

/-- At each path there are fewer records, and all are read from rows of one schema. -/
theorem AreParts.recordsAt_subset (h : AreParts catalog root fewer parts wholes) {names : List String}
    {rows : List Scope} (hupper : upper = rows.map (Record.ofRow root names)) (hsub : fewer ⊆ upper) (path : String) :
    recordsAt fewer parts path ⊆ recordsAt upper wholes path ∧
      ∃ (s : Schema ι) (names : List String) (rows : List Scope),
        recordsAt upper wholes path = rows.map (Record.ofRow s names) := by
  rw [recordsAt, recordsAt]
  split
  · exact ⟨hsub, root, names, rows, hupper⟩
  · have hpath : ∀ (part whole : Level ι),
        part.IsPart (recordsAt fewer parts (Path.parent whole.link.path)) whole →
        (part.link.path == path) = (whole.link.path == path) := fun part whole h => by rw [h.link]
    have hfound := View.Alike.rel_find? hpath h.parts
    generalize parts.find? _ = found at hfound
    generalize wholes.find? _ = found' at hfound
    cases hfound with
    | none => exact ⟨List.Subset.refl _, root, [], [], rfl⟩
    | @some part whole hpart =>
      obtain ⟨rows, names, keep, hwhole, hpart, -⟩ := hpart.records
      simp only [Option.map_some, Option.getD_some]
      rw [hwhole, hpart]
      exact ⟨List.map_subset _ List.filter_sublist.subset, _, _, _, rfl⟩

/-! ## Loading parts -/

/-- One more level and its part. The records above a level stay those that they were when it was loaded. -/
theorem AreParts.concat (h : AreParts catalog root fewer parts wholes)
    (hlink : Link.at? catalog root whole.link.path = some whole.link)
    (hclosed : Path.IsClosed ((wholes.map fun whole => whole.link.path) ++ [whole.link.path]))
    (hpart : part.IsPart (recordsAt fewer parts (Path.parent whole.link.path)) whole) :
    AreParts catalog root fewer (parts ++ [part]) (wholes ++ [whole]) := by
  obtain ⟨hbefore, -, hparent⟩ := Path.isClosed_of_concat hclosed
  rw [← h.paths_eq] at hbefore hparent
  have hparents : ∀ part ∈ parts, Path.parent part.link.path = "" ∨
      Path.parent part.link.path ∈ parts.map fun part => part.link.path :=
    fun part hpart => hbefore.parent_mem (List.mem_map_of_mem hpart)
  refine ⟨fun other ho => ?_, ?_, List.rel_append ?_ (.cons ?_ .nil)⟩
  · rcases List.mem_append.1 ho with ho | ho
    · exact h.links other ho
    · obtain rfl := List.mem_singleton.1 ho
      exact hlink
  · rw [List.map_append]
    exact hclosed
  · refine ((List.forall₂_and_left _ _).2 ⟨hparents, h.parts⟩).imp fun other whole hother => ?_
    rw [recordsAt_append (hother.2.link ▸ hother.1)]
    exact hother.2
  · rw [recordsAt_append hparent]
    exact hpart

/-- One more level is loaded for fewer records. -/
theorem AreParts.loadLevel (h : AreParts catalog root fewer parts wholes) (hsound : Schema.IsSound catalog root)
    (hkept : db.IsKept catalog root) {names : List String} {rows : List Scope}
    (hupper : upper = rows.map (Record.ofRow root names)) (hsub : fewer ⊆ upper) {entry : RelationColumns}
    {more : List (Level ι)}
    (hclosed : Path.IsClosed ((wholes.map fun whole => whole.link.path) ++ [entry.path]))
    (hload : Loading.loadLevel db catalog root p upper wholes entry = .ok more) :
    ∃ others, Loading.loadLevel db catalog root p fewer parts entry = .ok others ∧
      (more.map fun whole => whole.link.path) = (wholes.map fun whole => whole.link.path) ++ [entry.path] ∧
      AreParts catalog root fewer others more := by
  obtain ⟨hfewer, s, upperNames, upperRows, hrecords⟩ := h.recordsAt_subset hupper hsub (Path.parent entry.path)
  rw [Loading.loadLevel] at hload ⊢
  cases hlink : Link.at? catalog root entry.path with
  | none =>
    rw [hlink] at hload
    cases hload
  | some link =>
    rw [hlink] at hload
    obtain ⟨owner, r, howner, hr, rfl⟩ := Link.at?_eq_some_iff.1 hlink
    obtain ⟨lower, hfollow, rfl⟩ := map_eq_ok_iff.1 hload
    have htarget : Schema.IsIn catalog root (catalog r.target) := Schema.isIn_catalog r.target
    have hlower := Schema.hasColumn_joinKeys_snd (hsound owner (Schema.isIn_of_above? howner))
      (Schema.relation?_eq_some hr).1 (hsound _ htarget)
    obtain ⟨rows, keep, hwhole, hpart, hkeep⟩ :=
      Link.follow_of_subset hsound hkept htarget hlower hrecords hfewer hfollow
    refine ⟨_, map_eq_ok_iff.2 ⟨_, hpart, rfl⟩, by rw [List.map_append]; rfl, h.concat hlink hclosed ?_⟩
    exact ⟨rfl, rfl, rows, _, keep, hwhole, rfl, hkeep⟩

/-- The levels are loaded for fewer records. -/
theorem AreParts.foldlM (hsound : Schema.IsSound catalog root) (hkept : db.IsKept catalog root)
    {names : List String} {rows : List Scope} (hupper : upper = rows.map (Record.ofRow root names))
    (hsub : fewer ⊆ upper) {entries : List RelationColumns} {more : List (Level ι)}
    (h : AreParts catalog root fewer parts wholes)
    (hclosed : Path.IsClosed ((wholes.map fun whole => whole.link.path) ++ entries.map RelationColumns.path))
    (hload : entries.foldlM (Loading.loadLevel db catalog root p upper) wholes = .ok more) :
    ∃ others, entries.foldlM (Loading.loadLevel db catalog root p fewer) parts = .ok others ∧
      AreParts catalog root fewer others more := by
  induction entries generalizing parts wholes with
  | nil =>
    obtain rfl := Except.ok.inj hload
    exact ⟨parts, rfl, h⟩
  | cons entry entries ih =>
    rw [List.map_cons, List.append_cons] at hclosed
    rw [List.foldlM_cons] at hload ⊢
    obtain ⟨next, hnext, hload⟩ := bind_eq_ok_iff.1 hload
    obtain ⟨others, hothers, hpaths, hparts⟩ := h.loadLevel hsound hkept hupper hsub hclosed.of_append hnext
    obtain ⟨all, hall, hdone⟩ := ih hparts (hpaths ▸ hclosed) hload
    exact ⟨all, bind_eq_ok_iff.2 ⟨others, hothers, hall⟩, hdone⟩

/-! ## Completing records -/

/-- A part of a level holds the same for the key of one of the fewer records above. -/
theorem Level.IsPart.related_eq (h : part.IsPart fewer whole) (hrecord : record ∈ fewer) {key : Option Json}
    (hkey : Members.get? record whole.link.upperKey = key) {f g : Record → Record}
    (hsame : ∀ lower ∈ part.records, f lower = g lower)
    (hmeets : ∀ lower, meets key (Members.get? (g lower) whole.link.lowerKey) →
      meets key (Members.get? lower whole.link.lowerKey)) :
    Level.related ⟨whole.link, part.internal, part.records.map f⟩ key =
      Level.related ⟨whole.link, whole.internal, whole.records.map g⟩ key := by
  obtain ⟨rows, names, keep, hwhole, hpart, hkeep⟩ := h.records
  have hrows : (part.records.map f).filter
        (fun lower => meets key (Members.get? lower whole.link.lowerKey)) =
      (whole.records.map g).filter fun lower => meets key (Members.get? lower whole.link.lowerKey) := by
    rw [List.map_congr_left hsame, hpart, hwhole, List.map_map, List.map_map, List.filter_map, List.filter_map,
      List.filter_filter]
    refine congrArg _ (List.filter_congr fun row hrow => ?_)
    rw [Bool.and_eq_left_iff_imp]
    exact fun hlower => hkeep row hrow record hrecord (hkey ▸ hmeets _ hlower)
  rw [related_eq_meets, related_eq_meets]
  simp only [h.internal, hrows]

end Loading

end RecordQuery
