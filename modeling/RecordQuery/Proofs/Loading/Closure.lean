import Mathlib.Data.List.Induction
import RecordQuery.Proofs.Requests
/-!
# The paths of a projection

The beginnings of all paths that are asked for stand in a list in which each path is there once and after
the one above it (`Path.IsClosed`, `Projection.isClosed_closure`).
-/

namespace RecordQuery

namespace Path

variable {path other : String} {paths ns before : List String}

/-- In a list of paths each path is new where it stands and has the path above it before it. -/
def IsClosed (paths : List String) : Prop :=
  ∀ before path after, paths = before ++ path :: after →
    path ∉ before ∧ (parent path = "" ∨ parent path ∈ before)

theorem isClosed_nil : IsClosed [] := by
  intro before path after h
  simp at h

/-- A path may be added once the one above it is there. -/
theorem IsClosed.addNew (h : IsClosed paths) (hpath : parent path = "" ∨ parent path ∈ paths) :
    IsClosed (addNew paths path) := by
  rw [Path.addNew]
  split
  · exact h
  next hnew =>
    intro before other after heq
    rcases List.eq_nil_or_concat after with rfl | ⟨rest, last, rfl⟩
    · obtain ⟨rfl, rfl⟩ : paths = before ∧ path = other := by simpa using heq
      exact ⟨by simpa using hnew, hpath⟩
    · have heq' : paths ++ [path] = (before ++ other :: rest) ++ [last] := by simpa using heq
      exact h before other rest (List.append_inj_left' heq' rfl)

theorem IsClosed.of_append {after : List String} (h : IsClosed (paths ++ after)) : IsClosed paths :=
  fun before other rest heq => h before other (rest ++ after) (by simp [heq])

theorem isClosed_of_concat (h : IsClosed (paths ++ [path])) :
    IsClosed paths ∧ path ∉ paths ∧ (parent path = "" ∨ parent path ∈ paths) := by
  exact ⟨h.of_append, h paths path [] rfl⟩

theorem IsClosed.parent_mem (h : IsClosed paths) (hpath : path ∈ paths) :
    parent path = "" ∨ parent path ∈ paths := by
  obtain ⟨before, after, rfl⟩ := List.append_of_mem hpath
  exact (h before path after rfl).2.imp id fun hparent => List.mem_append_left _ hparent

/-- Each path stands once. -/
theorem IsClosed.nodup (h : IsClosed paths) : paths.Nodup := by
  induction paths using List.reverseRecOn with
  | nil => exact List.nodup_nil
  | append_singleton paths path ih =>
    obtain ⟨hpaths, hnew, -⟩ := isClosed_of_concat h
    exact List.pairwise_append.2 ⟨ih hpaths, List.pairwise_singleton _ _, fun other ho last hlast heq =>
      hnew ((heq.trans (List.mem_singleton.1 hlast)) ▸ ho)⟩

/-- No path stands before the one above it, or twice. -/
theorem IsClosed.pairwise (h : IsClosed paths) (hne : "" ∉ paths) :
    paths.Pairwise fun path other => path ≠ other ∧ parent path ≠ other := by
  induction paths using List.reverseRecOn with
  | nil => exact .nil
  | append_singleton paths path ih =>
    obtain ⟨hpaths, hnew, -⟩ := isClosed_of_concat h
    rw [List.mem_append, not_or] at hne
    have hpair := ih hpaths hne.1
    refine List.pairwise_append.2 ⟨hpair, List.pairwise_singleton _ _, fun other ho last hlast => ?_⟩
    obtain rfl := List.mem_singleton.1 hlast
    refine ⟨fun heq => hnew (heq ▸ ho), fun heq => ?_⟩
    -- The path above one that stands before would have to stand before it.
    obtain ⟨before, after, rfl⟩ := List.append_of_mem ho
    rcases (hpaths before other after rfl).2 with hparent | hparent
    · exact hne.2 (List.mem_singleton.2 (hparent.symm.trans heq))
    · exact hnew (heq ▸ List.mem_append_left _ hparent)

theorem IsClosed.parent_ne (h : IsClosed paths) (hne : "" ∉ paths) (hpath : path ∈ paths) :
    parent path ≠ path := by
  obtain ⟨before, after, rfl⟩ := List.append_of_mem hpath
  obtain ⟨hnew, hparent⟩ := h before path after rfl
  intro heq
  rcases hparent with hparent | hparent
  · exact hne (by rw [← hparent, heq]; exact hpath)
  · exact hnew (heq ▸ hparent)

/-- The names of a path come one by one under the path that is there. -/
theorem IsClosed.foldl_beginnings (h : IsClosed paths) (hnames : ∀ name ∈ before ++ ns, isName name)
    (hbefore : before = [] ∨ ".".intercalate before ∈ paths) :
    IsClosed (((Projection.beginnings ns).map fun names => ".".intercalate (before ++ names)).foldl
      Path.addNew paths) := by
  induction ns generalizing before paths with
  | nil => exact h
  | cons name ns ih =>
    have hall : ∀ n ∈ before ++ [name], isName n := by
      simp only [List.mem_append, List.mem_cons, List.not_mem_nil, or_false] at hnames ⊢
      exact fun n hn => hnames n (hn.imp id .inl)
    have hpath : Path.names (".".intercalate (before ++ [name])) = before ++ [name] :=
      names_intercalate (by simp) hall
    have hparent : parent (".".intercalate (before ++ [name])) = "" ∨
        parent (".".intercalate (before ++ [name])) ∈ paths := by
      rcases hbefore with rfl | hmem
      · exact .inl (of_names_eq_singleton hpath).2.1
      · by_cases hne : before = []
        · subst hne
          exact .inl (of_names_eq_singleton hpath).2.1
        · rw [(of_names_eq_concat hpath hne).1]
          exact .inr hmem
    rw [Projection.beginnings, List.map_cons, List.foldl_cons, List.map_map]
    have hrest := @ih (Path.addNew paths _) (before ++ [name]) (h.addNew hparent) (by simpa using hnames)
      (.inr (mem_addNew.2 (.inr rfl)))
    simpa [Function.comp_def] using hrest

end Path

namespace Projection

/-- The closure of paths has each once, after the one above it. -/
theorem isClosed_closure (paths : List String) : Path.IsClosed (closure paths) := by
  have hfold : ∀ (paths closed : List String), Path.IsClosed closed →
      Path.IsClosed ((paths.flatMap fun path =>
        (beginnings (Path.names path)).map (".".intercalate ·)).foldl Path.addNew closed) := by
    intro paths
    induction paths with
    | nil => exact fun _ h => h
    | cons path paths ih =>
      intro closed h
      rw [List.flatMap_cons, List.foldl_append]
      exact ih _ (h.foldl_beginnings (fun n hn => Path.isName_of_mem_names hn) (.inl rfl))
  exact hfold paths [] Path.isClosed_nil

end Projection

end RecordQuery
