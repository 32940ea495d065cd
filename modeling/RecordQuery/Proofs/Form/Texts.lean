import Mathlib.Data.List.Nodup
import RecordQuery.Form.Brackets
import RecordQuery.Proofs.Outcome
/-!
# Every parameter is kept

`Form.texts_of_read` finds every value of a query string that has a name once in what is read from it, and nothing
else: all leaves are texts, and no object holds a key twice.

Placing a value adds one text to a tree (`Tree.gains_put`), whatever the tree is and wherever the path goes, so that
no value takes the place of another.
-/

namespace RecordQuery

namespace Json

mutual

/-- The texts at the leaves of a value. -/
def texts : Json → List String
  | .string s => [s]
  | .array items => itemTexts items
  | .object members => memberTexts members
  | _ => []

def itemTexts : List Json → List String
  | [] => []
  | item :: items => item.texts ++ itemTexts items

def memberTexts : List (String × Json) → List String
  | [] => []
  | (_, value) :: members => value.texts ++ memberTexts members

end

mutual

/-- Whether all leaves of a value are texts and no object holds a key twice. -/
def IsTextual : Json → Prop
  | .string _ => True
  | .array items => AreTextualItems items
  | .object members => (members.map Prod.fst).Nodup ∧ AreTextualMembers members
  | _ => False

def AreTextualItems : List Json → Prop
  | [] => True
  | item :: items => item.IsTextual ∧ AreTextualItems items

def AreTextualMembers : List (String × Json) → Prop
  | [] => True
  | (_, value) :: members => value.IsTextual ∧ AreTextualMembers members

end

variable {items more : List Json} {members others : List (String × Json)}

theorem itemTexts_append : itemTexts (items ++ more) = itemTexts items ++ itemTexts more := by
  induction items with
  | nil => rfl
  | cons item items ih => rw [List.cons_append, itemTexts, ih, itemTexts, List.append_assoc]

theorem areTextualItems_append : AreTextualItems (items ++ more) ↔ AreTextualItems items ∧ AreTextualItems more := by
  induction items with
  | nil => simp [AreTextualItems]
  | cons item items ih => rw [List.cons_append, AreTextualItems, ih, AreTextualItems, and_assoc]

end Json

open Json Outcome

namespace Form

namespace Tree

variable {v key : String} {n : Nat} {t u : Tree} {f : Tree → Option Tree}

/-- Whether a tree is `t` with one more text at its leaves. -/
def Gains (v : String) (t u : Tree) : Prop := u.toJson.IsTextual ∧ u.toJson.texts.Perm (v :: t.toJson.texts)

/-- Whether nothing or only texts were placed. -/
def IsFilled (t : Tree) : Prop := t = .empty ∨ t.toJson.IsTextual

/-- Whether every change that a function makes to what was placed adds one text. -/
def Adds (v : String) (f : Tree → Option Tree) : Prop := ∀ ⦃t u⦄, t.IsFilled → f t = some u → Gains v t u

theorem keys_alterKey {entries changed : List (String × Tree)} (h : alterKey f key entries = some changed) :
    changed.map Prod.fst = entries.map Prod.fst ∨
      key ∉ entries.map Prod.fst ∧ changed.map Prod.fst = entries.map Prod.fst ++ [key] := by
  induction entries generalizing changed with
  | nil =>
    obtain ⟨u, -, rfl⟩ := Option.map_eq_some_iff.1 h
    exact .inr ⟨List.not_mem_nil, rfl⟩
  | cons e entries ih =>
    obtain ⟨k, t⟩ := e
    rw [alterKey] at h
    split at h
    · obtain ⟨u, -, rfl⟩ := Option.map_eq_some_iff.1 h
      exact .inl rfl
    · next hk =>
      obtain ⟨rest, hrest, rfl⟩ := Option.map_eq_some_iff.1 h
      rcases ih hrest with hsame | ⟨hnew, hlast⟩
      · exact .inl (congrArg (k :: ·) hsame)
      · exact .inr ⟨by simpa [Ne.symm hk] using hnew, congrArg (k :: ·) hlast⟩

theorem nodup_alterKey {entries changed : List (String × Tree)} (h : alterKey f key entries = some changed)
    (hkeys : (entries.map Prod.fst).Nodup) : (changed.map Prod.fst).Nodup := by
  rcases keys_alterKey h with hsame | ⟨hnew, hlast⟩
  · rwa [hsame]
  · rw [hlast]
    exact List.nodup_append_comm.1 (List.nodup_cons.2 ⟨hnew, hkeys⟩)

theorem keys_toJsonEntries (entries : List (String × Tree)) :
    (toJsonEntries entries).map Prod.fst = entries.map Prod.fst := by
  induction entries with
  | nil => rfl
  | cons e entries ih => rw [toJsonEntries, List.map_cons, List.map_cons, ih]

/-- Changing an entry adds one text to all entries. -/
theorem gains_alterKey (hf : Adds v f) {entries changed : List (String × Tree)}
    (hentries : AreTextualMembers (toJsonEntries entries)) (h : alterKey f key entries = some changed) :
    AreTextualMembers (toJsonEntries changed) ∧
      (memberTexts (toJsonEntries changed)).Perm (v :: memberTexts (toJsonEntries entries)) := by
  induction entries generalizing changed with
  | nil =>
    obtain ⟨u, hu, rfl⟩ := Option.map_eq_some_iff.1 h
    obtain ⟨htextual, htexts⟩ := hf (.inl rfl) hu
    exact ⟨⟨htextual, True.intro⟩, htexts.append_right []⟩
  | cons e entries ih =>
    obtain ⟨k, t⟩ := e
    obtain ⟨ht, hentries⟩ := hentries
    rw [alterKey] at h
    split at h
    · obtain ⟨u, hu, rfl⟩ := Option.map_eq_some_iff.1 h
      obtain ⟨htextual, htexts⟩ := hf (.inr ht) hu
      exact ⟨⟨htextual, hentries⟩, htexts.append_right _⟩
    · obtain ⟨rest, hrest, rfl⟩ := Option.map_eq_some_iff.1 h
      obtain ⟨htextual, htexts⟩ := ih hentries hrest
      exact ⟨⟨ht, htextual⟩, (htexts.append_left t.toJson.texts).trans List.perm_middle⟩

/-- Changing a numbered item adds one text to all of them. -/
theorem gains_alterIndex (hf : Adds v f) {items changed : List (Nat × Tree)}
    (hitems : AreTextualItems (toJsonIndexed items)) (h : alterIndex f n items = some changed) :
    AreTextualItems (toJsonIndexed changed) ∧
      (itemTexts (toJsonIndexed changed)).Perm (v :: itemTexts (toJsonIndexed items)) := by
  induction items generalizing changed with
  | nil =>
    obtain ⟨u, hu, rfl⟩ := Option.map_eq_some_iff.1 h
    obtain ⟨htextual, htexts⟩ := hf (.inl rfl) hu
    exact ⟨⟨htextual, True.intro⟩, htexts.append_right []⟩
  | cons e items ih =>
    obtain ⟨m, t⟩ := e
    obtain ⟨ht, hrest⟩ := id hitems
    rw [alterIndex] at h
    split_ifs at h
    -- The number is new and stands before the first item, it is that of the first item, or it is behind it.
    · obtain ⟨u, hu, rfl⟩ := Option.map_eq_some_iff.1 h
      obtain ⟨htextual, htexts⟩ := hf (.inl rfl) hu
      exact ⟨⟨htextual, hitems⟩, htexts.append_right _⟩
    · obtain ⟨u, hu, rfl⟩ := Option.map_eq_some_iff.1 h
      obtain ⟨htextual, htexts⟩ := hf (.inr ht) hu
      exact ⟨⟨htextual, hrest⟩, htexts.append_right _⟩
    · obtain ⟨rest, hchanged, rfl⟩ := Option.map_eq_some_iff.1 h
      obtain ⟨htextual, htexts⟩ := ih hrest hchanged
      exact ⟨⟨ht, htextual⟩, (htexts.append_left t.toJson.texts).trans List.perm_middle⟩

theorem toJsonItems_append (items more : List Tree) :
    toJsonItems (items ++ more) = toJsonItems items ++ toJsonItems more := by
  induction items with
  | nil => rfl
  | cons t items ih => rw [List.cons_append, toJsonItems, ih, toJsonItems, List.cons_append]

/-- One more appended item. -/
theorem gains_append {indexed : List (Nat × Tree)} {appended : List Tree} (h : (list indexed appended).toJson.IsTextual)
    (hu : Gains v .empty u) : Gains v (list indexed appended) (list indexed (appended ++ [u])) := by
  obtain ⟨htextual, htexts⟩ := hu
  simp only [toJson, IsTextual, areTextualItems_append] at h
  simp only [Gains, toJson, toJsonItems_append, toJsonItems, IsTextual, areTextualItems_append, AreTextualItems, texts,
    itemTexts_append, itemTexts, List.append_nil] at htexts ⊢
  refine ⟨⟨h.1, h.2, htextual, True.intro⟩, ?_⟩
  rw [← List.append_assoc]
  exact (htexts.append_left _).trans List.perm_append_comm

/-- A second value makes a list of a text. -/
theorem gains_putHere (ht : t.IsFilled) (h : putHere v t = some u) : Gains v t u := by
  cases t with
  | empty =>
    obtain rfl := Option.some.inj h
    exact ⟨True.intro, .refl _⟩
  | text s =>
    obtain rfl := Option.some.inj h
    exact ⟨⟨True.intro, True.intro, True.intro⟩, .swap _ _ _⟩
  | map entries => cases h
  | list indexed appended =>
    obtain rfl := Option.some.inj h
    exact gains_append (ht.resolve_left (by simp)) ⟨True.intro, .refl _⟩

/-- A tree that is a map or may become one tells what its entries tell. -/
theorem of_entries? (ht : t.IsFilled) {entries : List (String × Tree)} (h : t.entries? = some entries) :
    (entries.map Prod.fst).Nodup ∧ AreTextualMembers (toJsonEntries entries) ∧
      t.toJson.texts = memberTexts (toJsonEntries entries) := by
  cases t with
  | empty =>
    obtain rfl := Option.some.inj h
    exact ⟨List.nodup_nil, True.intro, rfl⟩
  | map es =>
    obtain rfl := Option.some.inj h
    obtain ⟨hkeys, htextual⟩ : (map es).toJson.IsTextual := ht.resolve_left (by simp)
    exact ⟨by rwa [keys_toJsonEntries] at hkeys, htextual, rfl⟩
  | text s => cases h
  | list indexed appended => cases h

/-- A tree that is a list or may become one tells what its items tell. -/
theorem of_items? (ht : t.IsFilled) {indexed : List (Nat × Tree)} {appended : List Tree}
    (h : t.items? = some (indexed, appended)) : (list indexed appended).toJson.IsTextual ∧
      t.toJson.texts = (list indexed appended).toJson.texts := by
  cases t with
  | empty =>
    obtain ⟨rfl, rfl⟩ := Prod.mk.inj (Option.some.inj h)
    exact ⟨True.intro, rfl⟩
  | list ix ap =>
    obtain ⟨rfl, rfl⟩ := Prod.mk.inj (Option.some.inj h)
    exact ⟨ht.resolve_left (by simp), rfl⟩
  | text s => cases h
  | map entries => cases h

/-- Placing a value adds one text to a tree. -/
theorem gains_put (v : String) (path : List Segment) : Adds v (put v path) := by
  induction path with
  | nil => exact fun t u ht h => gains_putHere ht h
  | cons segment rest ih =>
    intro t u ht h
    cases segment with
    | key name =>
      obtain ⟨entries, hentries, h⟩ := Option.bind_eq_some_iff.1 h
      obtain ⟨changed, hchanged, rfl⟩ := Option.map_eq_some_iff.1 h
      obtain ⟨hkeys, htextual, htexts⟩ := of_entries? ht hentries
      obtain ⟨htextual', htexts'⟩ := gains_alterKey ih htextual hchanged
      refine ⟨⟨?_, htextual'⟩, by rwa [htexts]⟩
      rw [keys_toJsonEntries]
      exact nodup_alterKey hchanged hkeys
    | index n =>
      obtain ⟨⟨indexed, appended⟩, hitems, h⟩ := Option.bind_eq_some_iff.1 h
      obtain ⟨changed, hchanged, rfl⟩ := Option.map_eq_some_iff.1 h
      obtain ⟨htextual, htexts⟩ := of_items? ht hitems
      obtain ⟨hindexed, happended⟩ := areTextualItems_append.1 htextual
      obtain ⟨htextual', htexts'⟩ := gains_alterIndex ih hindexed hchanged
      refine ⟨areTextualItems_append.2 ⟨htextual', happended⟩, ?_⟩
      rw [htexts]
      simp only [toJson, texts, itemTexts_append]
      exact htexts'.append_right _
    | append =>
      obtain ⟨⟨indexed, appended⟩, hitems, h⟩ := Option.bind_eq_some_iff.1 h
      obtain ⟨child, hchild, rfl⟩ := Option.map_eq_some_iff.1 h
      obtain ⟨htextual, htexts⟩ := of_items? ht hitems
      rw [Gains, htexts]
      exact gains_append htextual (ih (.inl rfl) hchild)

/-- A map stays a map. -/
theorem exists_map_of_put {path : List Segment} {entries : List (String × Tree)}
    (h : put v path (.map entries) = some u) : ∃ changed, u = .map changed := by
  cases path with
  | nil => cases h
  | cons segment rest =>
    cases segment with
    | key name =>
      have hmap : (alterKey (put v rest) name entries).map .map = some u := h
      obtain ⟨changed, -, rfl⟩ := Option.map_eq_some_iff.1 hmap
      exact ⟨changed, rfl⟩
    | index n => cases h
    | append => cases h

end Tree

/-- The values of the parameters that have a name. -/
def namedValues (ps : List (String × String)) : List String := (ps.filter fun p => p.1 ≠ "").map Prod.snd

/-- One more parameter adds its value, if it has a name. -/
theorem place_eq_ok {entries : List (String × Tree)} {p : String × String} {u : Tree}
    (hentries : (Tree.map entries).toJson.IsTextual) (h : place (.map entries) p = .ok u) :
    ∃ changed, u = .map changed ∧ u.toJson.IsTextual ∧
      u.toJson.texts.Perm (namedValues [p] ++ (Tree.map entries).toJson.texts) := by
  obtain ⟨key, value⟩ := p
  rw [place] at h
  split at h
  · next hkey =>
    obtain rfl := Except.ok.inj h
    obtain rfl : key = "" := by simpa using hkey
    exact ⟨entries, rfl, hentries, .refl _⟩
  next hkey =>
    have hvalue : namedValues [(key, value)] = [value] := by
      have hne : key ≠ "" := by simpa using hkey
      simp [namedValues, hne]
    split at h
    · cases h
    split at h
    · next hput =>
      obtain rfl := Except.ok.inj h
      obtain ⟨changed, rfl⟩ := Tree.exists_map_of_put hput
      obtain ⟨htextual, htexts⟩ := Tree.gains_put value _ (.inr hentries) hput
      rw [hvalue]
      exact ⟨changed, rfl, htextual, htexts⟩
    · cases h

/-- Placing parameters one after the other adds the values of those that have a name. -/
theorem foldlM_place_eq_ok {ps : List (String × String)} {entries : List (String × Tree)} {u : Tree}
    (hentries : (Tree.map entries).toJson.IsTextual) (h : ps.foldlM place (.map entries) = .ok u) :
    ∃ changed, u = .map changed ∧ u.toJson.IsTextual ∧
      u.toJson.texts.Perm (namedValues ps ++ (Tree.map entries).toJson.texts) := by
  induction ps generalizing entries with
  | nil =>
    obtain rfl := Except.ok.inj h
    exact ⟨entries, rfl, hentries, .refl _⟩
  | cons p ps ih =>
    obtain ⟨next, hnext, h⟩ := bind_eq_ok_iff.1 h
    obtain ⟨changed, rfl, htextual, htexts⟩ := place_eq_ok hentries hnext
    obtain ⟨last, rfl, htextual', htexts'⟩ := ih htextual h
    refine ⟨last, rfl, htextual', ?_⟩
    have hsplit : namedValues (p :: ps) = namedValues [p] ++ namedValues ps := by
      simp only [namedValues, ← List.map_append, ← List.filter_append, List.singleton_append]
    rw [hsplit]
    refine htexts'.trans ((htexts.append_left _).trans ?_)
    rw [← List.append_assoc]
    exact List.perm_append_comm.append_right _

/-- What is read from a query string has the values of its parameters with a name at its leaves, each as often as it
was given, and nothing else. No object holds a key twice. -/
theorem texts_of_read {query : String} {members : Members} (h : read query = .ok members) :
    (Json.object members).IsTextual ∧
      (Json.object members).texts.Perm (namedValues (pairs (withoutMark query.toList))) := by
  have hempty : (Tree.map []).toJson.IsTextual := ⟨List.nodup_nil, True.intro⟩
  obtain ⟨t, ht, h⟩ := bind_eq_ok_iff.1 h
  obtain ⟨entries, rfl, htextual, htexts⟩ := foldlM_place_eq_ok hempty ht
  obtain rfl := Except.ok.inj h
  exact ⟨htextual, by simpa [Tree.toJson, Tree.toJsonEntries, texts, memberTexts] using htexts⟩

/-- Tags that are appended and numbered, two of them by one number in two spellings. -/
def tags : String := "?tag[]=red&tag[01]=green&tag[1]=blue&tag[1]=red&=none&size=4&size=5"

theorem texts_of_read_tags : ∃ members, read tags = .ok members ∧ (Json.object members).IsTextual ∧
    (Json.object members).texts.Perm ["red", "green", "blue", "red", "4", "5"] := by
  have hok : (read tags).isOk = true := by decide +kernel
  have hvalues : namedValues (pairs (withoutMark tags.toList)) = ["red", "green", "blue", "red", "4", "5"] := by
    decide +kernel
  cases hread : read tags with
  | error e =>
    rw [hread] at hok
    cases hok
  | ok members =>
    obtain ⟨htextual, htexts⟩ := texts_of_read hread
    rw [hvalues] at htexts
    exact ⟨members, rfl, htextual, htexts⟩

end Form

end RecordQuery
