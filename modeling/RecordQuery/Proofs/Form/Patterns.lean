import RecordQuery.Predicate.OfFilter
import RecordQuery.Proofs.Form.Displays
import RecordQuery.Request.Basic
/-!
# Searches for a text

A field may be asked to hold a text, to start with one or to end with one (`TextOperator`). A query string types the
text by what it spells, so the pattern is made of what the scalar is displayed as; a JSON object tells the text itself.
`Request.patterns_agree_iff` says when the two ask for the same: if the text spells neither a number nor a date, or if
it is one that a scalar is displayed as.
-/

namespace RecordQuery

open Outcome

/-- The operators that look for a text. -/
inductive TextOperator where
  | like
  | startsWith
  | endsWith
  deriving DecidableEq

namespace TextOperator

/-- The key of the operator. -/
def key : TextOperator → String
  | like => "like"
  | startsWith => "startsWith"
  | endsWith => "endsWith"

/-- The pattern that the operator makes of a text. -/
def pattern (s : String) : TextOperator → String
  | like => "%" ++ s ++ "%"
  | startsWith => s ++ "%"
  | endsWith => "%" ++ s

/-- The operator alone, with what it looks for. -/
def operators (x : Scalar) : TextOperator → Operators
  | like => { like := some x }
  | startsWith => { startsWith := some x }
  | endsWith => { endsWith := some x }

variable {s t f : String} {x : Scalar}

theorem isSpelled_key (op : TextOperator) : Json.IsSpelled.Key op.key := by
  cases op <;> exact ⟨by decide, by decide, by decide⟩

/-- The pattern tells the text. -/
theorem pattern_inj (op : TextOperator) : op.pattern s = op.pattern t ↔ s = t := by
  refine ⟨fun h => ?_, congrArg fun s => op.pattern s⟩
  rw [← String.toList_inj] at h ⊢
  cases op <;> simpa [pattern] using h

/-- The filter that asks a field for a text. -/
def filter (op : TextOperator) (f : String) (x : Scalar) : Filter := .fields [(f, .operators (op.operators x))]

theorem ofFilter_filter (op : TextOperator) (f : String) (x : Scalar) :
    Predicate.ofFilter (op.filter f x) = .ok (.all [(f, .test (.like (op.pattern x.display)))] []) := by
  cases op <;> rfl

theorem decode_filter (op : TextOperator) (hfield : f ∉ Filter.compositeKeys) (x : Scalar) :
    Filter.decode (.object [(f, .object [(op.key, .scalar x)])]) = .ok (op.filter f x) := by
  have hkey : Operators.keys.contains op.key = true := by cases op <;> decide
  have hspec : Operators.decode f {} [(op.key, .scalar x)] = .ok (op.operators x) := by cases op <;> rfl
  have hcondition : Filter.decodeCondition f (.object [(op.key, .scalar x)]) = .ok (.operators (op.operators x)) := by
    rw [Filter.decodeCondition, if_pos (by simpa using hkey), hspec]
    rfl
  rw [Filter.decode]
  unfold Filter.decodeObject
  rw [if_neg (by simpa using hfield), hcondition]
  rfl

/-- The object of a search that asks a field for a text. -/
def search (op : TextOperator) (f s : String) : Members := [(f, .object [(op.key, .string s)])]

/-- A search that tells its text in a query string. -/
theorem searchOf_normalize (op : TextOperator) (hfield : f ∉ Filter.compositeKeys) (hs : s ≠ "undefined") :
    Request.searchOf Coercion.normalize (.object (op.search f s)) = .ok (some (op.filter f (Coercion.coerce s))) := by
  have hmembers : Coercion.normalizeMembers [(op.key, .string s)] = [(op.key, .scalar (Coercion.coerce s))] := by
    rw [Coercion.normalizeMembers, if_neg (by simpa [Coercion.isUndefined] using hs)]
    rfl
  have hvalue : Coercion.normalize (.object (op.search f s)) =
      .object [(f, .object [(op.key, .scalar (Coercion.coerce s))])] := by
    rw [Coercion.normalize, search, Coercion.normalizeMembers, if_neg (by simp [Coercion.isUndefined]),
      Coercion.normalize, hmembers]
    rfl
  rw [Request.searchOf, hvalue, decode_filter op hfield]
  rfl

/-- A search that tells its text in JSON. -/
theorem searchOf_ofJson (op : TextOperator) (hfield : f ∉ Filter.compositeKeys) (s : String) :
    Request.searchOf Value.ofJson (.object (op.search f s)) = .ok (some (op.filter f (.text s))) := by
  have hvalue : Value.ofJson (.object (op.search f s)) = .object [(f, .object [(op.key, .scalar (.text s))])] := rfl
  rw [Request.searchOf, hvalue, decode_filter op hfield]
  rfl

/-- The name of the parameter that tells the text. -/
def parameter (op : TextOperator) (f : String) : String := Json.bracketed (Json.bracketed "search" f) op.key

theorem path?_parameter (op : TextOperator) (hkey : Json.IsSpelled.Key f) :
    Form.path? (op.parameter f) = some [.key "search", .key f, .key op.key] := by
  obtain ⟨hne, hclose, hindex⟩ := hkey
  obtain ⟨hne', hclose', hindex'⟩ := op.isSpelled_key
  have hname : Form.path? "search" = some [.key "search"] := Form.path?_of_name ⟨by decide, by decide, by decide⟩
  have hfield := Form.path?_bracketed hname hclose
  have hoperator := Form.path?_bracketed hfield hclose'
  rwa [Form.Segment.ofText_key hne hindex, Form.Segment.ofText_key hne' hindex'] at hoperator

end TextOperator

/-! ## Query strings -/

namespace Form

/-- Whether characters are read as a name: none of them separates parameters, or a name and a value. -/
structure IsWritten (cs : List Char) (name : String) : Prop where
  decode : Form.decode cs = name
  ampersand : '&' ∉ cs
  equals : '=' ∉ cs

variable {cs : List Char} {name f s : String}

theorem isWritten_encodeText (name : String) : IsWritten (encodeText name) name where
  decode := decode_encodeText name
  ampersand h := (ne_of_mem_encodeText h).1 rfl
  equals h := (ne_of_mem_encodeText h).2.1 rfl

theorem percentDecode_of_not_mem {bs : List UInt8} (h : 0x25 ∉ bs) : percentDecode bs = bs := by
  induction bs with
  | nil => rfl
  | cons b bs ih =>
    rw [List.mem_cons, not_or] at h
    rw [percentDecode_cons_of_ne (Ne.symm h.1), ih h.2]

/-- Only a percent sign has its byte: the bytes of the characters beyond ASCII are greater. -/
theorem eq_of_mem_utf8EncodeChar {c : Char} (h : 0x25 ∈ String.utf8EncodeChar c) : c = '%' := by
  have hbyte : ∀ {n}, n < 256 → (0x25 : UInt8) = UInt8.ofNat n → n = 0x25 := fun hn h =>
    ((ofNat_eq_iff hn).1 h.symm).trans rfl
  have hvalid : c.val.toNat < 0x110000 := c.valid.elim (fun h => Nat.lt_trans h (by decide)) And.right
  unfold String.utf8EncodeChar at h
  dsimp only at h
  split at h
  · have hc := hbyte (by omega) (List.mem_singleton.1 h)
    exact Char.ext (UInt32.toNat_inj.1 hc)
  · exfalso
    split at h
    · simp only [List.mem_cons, List.not_mem_nil, or_false] at h
      rcases h with h | h <;> have := hbyte (by omega) h <;> omega
    split at h
    · simp only [List.mem_cons, List.not_mem_nil, or_false] at h
      rcases h with h | h | h <;> have := hbyte (by omega) h <;> omega
    · simp only [List.mem_cons, List.not_mem_nil, or_false] at h
      rcases h with h | h | h | h <;> have := hbyte (by omega) h <;> omega

/-- A name without special characters is written as it is. -/
theorem isWritten_toList (h : name.toList.all fun c => c ∉ ['&', '=', '%', '+']) : IsWritten name.toList name := by
  have hplain : ∀ c ∈ name.toList, c ∉ ['&', '=', '%', '+'] := fun c hc =>
    of_decide_eq_true (List.all_eq_true.1 h c hc)
  have hraw : rawBytes name.toList = name.toList.flatMap String.utf8EncodeChar := by
    refine List.flatMap_congr fun c hc => if_neg ?_
    rintro rfl
    exact hplain _ hc (by decide)
  have hpercent : 0x25 ∉ name.toList.flatMap String.utf8EncodeChar := by
    intro hmem
    obtain ⟨c, hc, hbyte⟩ := List.mem_flatMap.1 hmem
    exact hplain c hc (by rw [eq_of_mem_utf8EncodeChar hbyte]; decide)
  have hdecode : decode name.toList = name := by
    change String.ofList (decodeUtf8 (percentDecode (rawBytes name.toList))) = name
    rw [hraw, percentDecode_of_not_mem hpercent, decodeUtf8_encode, String.ofList_toList]
  exact ⟨hdecode, fun hc => hplain _ hc (by decide), fun hc => hplain _ hc (by decide)⟩

theorem decode_mark (cs : List Char) : (decode ('?' :: cs)).toList = '?' :: (decode cs).toList := by
  change (String.ofList (decodeUtf8 (percentDecode (0x3f :: rawBytes cs)))).toList =
    '?' :: (String.ofList (decodeUtf8 (percentDecode (rawBytes cs)))).toList
  rw [percentDecode_cons_of_ne (by decide), String.toList_ofList, String.toList_ofList]
  exact decodeUtf8_append '?' _

/-- A single parameter is read. -/
theorem pairs_single (h : IsWritten cs name) (hmark : name.toList.head? ≠ some '?') (s : String) :
    pairs (withoutMark (cs ++ '=' :: encodeText s)) = [(name, s)] := by
  have hsplit : '&' ∉ cs ++ '=' :: encodeText s := by
    rw [List.mem_append, List.mem_cons]
    rintro (hc | hc | hc)
    · exact h.ampersand hc
    · cases hc
    · exact (ne_of_mem_encodeText hc).1 rfl
  have hwhole : withoutMark (cs ++ '=' :: encodeText s) = cs ++ '=' :: encodeText s := by
    cases cs with
    | nil => rfl
    | cons c cs =>
      have hc : c ≠ '?' := by
        rintro rfl
        rw [← h.decode, decode_mark] at hmark
        exact hmark rfl
      rw [List.cons_append]
      unfold withoutMark
      split
      · next heq => exact absurd (List.cons.inj heq).1 hc
      · rfl
  have hpair : pair (cs ++ '=' :: encodeText s) = (name, s) := by
    rw [pair, Text.cut?_append_cons h.equals]
    simp only [h.decode, decode_encodeText]
  rw [hwhole, pairs, Text.split_of_not_mem hsplit, List.filter_cons_of_pos (by simp), List.filter_nil,
    List.map_singleton, hpair]

/-- A query string that tells the text of a search. -/
theorem read_search (op : TextOperator) (hkey : Json.IsSpelled.Key f) (h : IsWritten cs (op.parameter f))
    (s : String) : read (String.ofList (cs ++ '=' :: encodeText s)) = .ok [("search", .object (op.search f s))] := by
  have hmark : (op.parameter f).toList.head? ≠ some '?' := by
    simp [TextOperator.parameter, Json.bracketed]
  have hname : (op.parameter f).isEmpty = false := by
    rw [String.isEmpty_eq_false_iff]
    exact bracketed_ne _ _
  have hput : Tree.put s [.key "search", .key f, .key op.key] (.map []) =
      some (.map [("search", .map [(f, .map [(op.key, .text s)])])]) := rfl
  rw [read, String.toList_ofList, pairs_single h hmark]
  simp only [List.foldlM_cons, List.foldlM_nil, place, hname, op.path?_parameter hkey, hput]
  rfl

end Form

/-! ## Requests -/

namespace Request

variable {cs : List Char} {f s : String}

/-- A request that holds a search alone. -/
theorem ofMembers_search {value : Json → Value} {json : Json} {filter : Option Filter}
    (h : searchOf value json = .ok filter) : ofMembers value [("search", json)] = .ok { search := filter } := by
  rw [ofMembers, List.foldlM_cons, add, h]
  rfl

/-- The query string and the object that ask a field for a text, each with the pattern that its filter stands for. -/
theorem exists_filters (op : TextOperator) (hkey : Json.IsSpelled.Key f) (hfield : f ∉ Filter.compositeKeys)
    (hs : s ≠ "undefined") (hname : Form.IsWritten cs (op.parameter f)) :
    ∃ told given, ofQueryString (String.ofList (cs ++ '=' :: Form.encodeText s)) = .ok { search := some told } ∧
      ofJson (.object [("search", .object [(f, .object [(op.key, .string s)])])]) = .ok { search := some given } ∧
      Predicate.ofFilter told = .ok (.all [(f, .test (.like (op.pattern (Coercion.coerce s).display)))] []) ∧
      Predicate.ofFilter given = .ok (.all [(f, .test (.like (op.pattern s)))] []) := by
  refine ⟨op.filter f (Coercion.coerce s), op.filter f (.text s), ?_, ?_, op.ofFilter_filter f _,
    op.ofFilter_filter f _⟩
  · rw [ofQueryString, Form.read_search op hkey hname]
    exact ofMembers_search (op.searchOf_normalize hfield hs)
  · exact ofMembers_search (op.searchOf_ofJson hfield s)

/-- A search for a text asks for what the text is displayed as once it is typed, if it comes as a query string, and for
the text itself, if it comes as an object. The two ask for the same exactly if the text spells neither a number nor a
date, or is one that a scalar is displayed as. -/
theorem patterns_agree_iff (op : TextOperator) (hkey : Json.IsSpelled.Key f) (hfield : f ∉ Filter.compositeKeys)
    (hs : s ≠ "undefined") (hname : Form.IsWritten cs (op.parameter f)) :
    ∃ told given, ofQueryString (String.ofList (cs ++ '=' :: Form.encodeText s)) = .ok { search := some told } ∧
      ofJson (.object [("search", .object [(f, .object [(op.key, .string s)])])]) = .ok { search := some given } ∧
      Predicate.ofFilter told = .ok (.all [(f, .test (.like (op.pattern (Coercion.coerce s).display)))] []) ∧
      Predicate.ofFilter given = .ok (.all [(f, .test (.like (op.pattern s)))] []) ∧
      (Predicate.ofFilter told = Predicate.ofFilter given ↔
        (Coercion.number? s = none ∧ Instant.read? s = none) ∨ Coercion.IsDisplayed s) := by
  obtain ⟨told, given, hquery, hjson, htold, hgiven⟩ := exists_filters op hkey hfield hs hname
  refine ⟨told, given, hquery, hjson, htold, hgiven, ?_⟩
  rw [htold, hgiven, ← Coercion.display_coerce_iff]
  simp [op.pattern_inj]

/-- A search for the products whose name starts with a date. -/
theorem patterns_agree_iff_date :
    Json.IsSpelled.Key "name" ∧ "name" ∉ Filter.compositeKeys ∧ "2024-01-05" ≠ "undefined" ∧
      Form.IsWritten "search%5Bname%5D%5BstartsWith%5D".toList (TextOperator.startsWith.parameter "name") ∧
      ∃ told given,
        ofQueryString "search%5Bname%5D%5BstartsWith%5D=2024-01-05" = .ok { search := some told } ∧
        ofJson (.object [("search", .object [("name", .object [("startsWith", .string "2024-01-05")])])]) =
          .ok { search := some given } ∧
        Predicate.ofFilter told = .ok (.all [("name", .test (.like "2024-01-05T00:00:00.000Z%"))] []) ∧
        Predicate.ofFilter given = .ok (.all [("name", .test (.like "2024-01-05%"))] []) ∧
        (Predicate.ofFilter told = Predicate.ofFilter given ↔
          (Coercion.number? "2024-01-05" = none ∧ Instant.read? "2024-01-05" = none) ∨
            Coercion.IsDisplayed "2024-01-05") := by
  have hkey : Json.IsSpelled.Key "name" := ⟨by decide, by decide, by decide⟩
  have hfield : "name" ∉ Filter.compositeKeys := by decide
  have hs : "2024-01-05" ≠ "undefined" := by decide
  have hcs : Form.encodeText (TextOperator.startsWith.parameter "name") =
      "search%5Bname%5D%5BstartsWith%5D".toList := by decide +kernel
  have hname := Form.isWritten_encodeText (TextOperator.startsWith.parameter "name")
  rw [hcs] at hname
  refine ⟨hkey, hfield, hs, hname, ?_⟩
  have hquery : String.ofList ("search%5Bname%5D%5BstartsWith%5D".toList ++ '=' :: Form.encodeText "2024-01-05") =
      "search%5Bname%5D%5BstartsWith%5D=2024-01-05" := by decide +kernel
  have htyped : (Coercion.coerce "2024-01-05").display = "2024-01-05T00:00:00.000Z" := by decide +kernel
  have h := patterns_agree_iff .startsWith hkey hfield hs hname
  rw [hquery, htyped] at h
  exact h

/-- Zeros in front of an integer are lost in a query string. -/
theorem patterns_differ_zeros :
    Json.IsSpelled.Key "name" ∧ "name" ∉ Filter.compositeKeys ∧ "007" ≠ "undefined" ∧
      ∃ told given, ofQueryString "search[name][like]=007" = .ok { search := some told } ∧
        ofJson (.object [("search", .object [("name", .object [("like", .string "007")])])]) =
          .ok { search := some given } ∧
        Predicate.ofFilter told = .ok (.all [("name", .test (.like "%7%"))] []) ∧
        Predicate.ofFilter given = .ok (.all [("name", .test (.like "%007%"))] []) ∧
        Predicate.ofFilter told ≠ Predicate.ofFilter given := by
  have hkey : Json.IsSpelled.Key "name" := ⟨by decide, by decide, by decide⟩
  have hfield : "name" ∉ Filter.compositeKeys := by decide
  have hs : "007" ≠ "undefined" := by decide
  have hname : Form.IsWritten "search[name][like]".toList (TextOperator.like.parameter "name") :=
    Form.isWritten_toList (by decide)
  have hquery : String.ofList ("search[name][like]".toList ++ '=' :: Form.encodeText "007") =
      "search[name][like]=007" := by decide +kernel
  have htyped : (Coercion.coerce "007").display = "7" := by decide +kernel
  obtain ⟨told, given, hread, hjson, htold, hgiven⟩ := exists_filters .like hkey hfield hs hname
  rw [hquery] at hread
  rw [htyped] at htold
  refine ⟨hkey, hfield, hs, told, given, hread, hjson, htold, hgiven, ?_⟩
  rw [htold, hgiven]
  simp [TextOperator.pattern]

end Request

end RecordQuery
