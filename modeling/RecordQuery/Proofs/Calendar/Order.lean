import Mathlib.Data.String.Basic
import Mathlib.Logic.Function.Iterate
import RecordQuery.Proofs.Calendar.Texts
/-!
# Moments in time

A day comes before another one if going on day by day from the one leads to the other (`Date.Before`), and a moment
comes before those of later days and of later times of the same day (`Instant.Before`). The stored texts of moments
sort in that order, down to the millisecond (`Instant.text_lt_iff`), also byte by byte (`Instant.bytes_text_lt_iff`).

The days are counted by a number that grows from each day to the next and misses no day in between
(`Date.rank_next_le`); the texts are numbers of fixed widths between marks, which compare like the list of the
numbers (`Instant.written_lt_iff`).
-/

namespace RecordQuery

/-! ## Days -/

namespace Date

variable {d e : Date}

/-- A day comes before another one that is reached from it day by day. -/
def Before (d e : Date) : Prop := ∃ n, e = next^[n + 1] d

/-- A number that grows with the days. -/
def rank (d : Date) : Int := (d.year * 13 + d.month) * 32 + d.day

theorem day_lt (d : Date) : d.day < 32 := Nat.lt_of_le_of_lt (d.day_le.trans (monthLength_le _ _)) (by decide)

/-- The number of a day tells its year, its month and its place in the month. -/
theorem rank_lt_iff : d.rank < e.rank ↔
    d.year < e.year ∨ d.year = e.year ∧ (d.month < e.month ∨ d.month = e.month ∧ d.day < e.day) := by
  have hday := d.day_lt
  have hday' := e.day_lt
  have hmonth := d.month_le
  have hmonth' := e.month_le
  have hpos := d.day_pos
  have hpos' := e.day_pos
  have hmonthpos := d.month_pos
  have hmonthpos' := e.month_pos
  unfold rank
  omega

theorem eq_of_fields (hyear : d.year = e.year) (hmonth : d.month = e.month) (hday : d.day = e.day) : d = e := by
  cases d
  cases e
  simp_all

theorem eq_of_rank_eq (h : d.rank = e.rank) : d = e := by
  have hle : ¬ d.rank < e.rank := by omega
  have hge : ¬ e.rank < d.rank := by omega
  rw [rank_lt_iff] at hle hge
  exact eq_of_fields (by omega) (by omega) (by omega)

theorem rank_lt_next (d : Date) : d.rank < d.next.rank := by
  rw [rank_lt_iff, next]
  split
  · dsimp only
    omega
  split
  · dsimp only
    omega
  · dsimp only
    omega

/-- There is no day between a day and the next one. -/
theorem rank_next_le (h : d.rank < e.rank) : d.next.rank ≤ e.rank := by
  have hlast : d.year = e.year → d.month = e.month → e.day ≤ monthLength d.year d.month := fun hy hm =>
    hy ▸ hm ▸ e.day_le
  have hmonth := e.month_le
  have hpos := e.day_pos
  have hmonthpos := e.month_pos
  rw [rank_lt_iff] at h
  rw [← Int.not_lt, rank_lt_iff, next]
  split
  · dsimp only
    omega
  split
  · dsimp only
    omega
  · dsimp only
    omega

theorem rank_lt_iterate (d : Date) (n : Nat) : d.rank < (next^[n + 1] d).rank := by
  induction n with
  | zero => exact rank_lt_next d
  | succ n ih =>
    rw [Function.iterate_succ_apply']
    exact ih.trans (rank_lt_next _)

theorem exists_iterate {d e : Date} (h : d.rank < e.rank) : ∃ n, e = next^[n + 1] d := by
  by_cases heq : d.next = e
  · exact ⟨0, heq.symm⟩
  · have hlt : d.next.rank < e.rank := lt_of_le_of_ne (rank_next_le h) fun hrank => heq (eq_of_rank_eq hrank)
    obtain ⟨n, hn⟩ := exists_iterate hlt
    exact ⟨n + 1, hn⟩
termination_by (e.rank - d.rank).toNat
decreasing_by
  have := rank_lt_next d
  omega

/-- Days come in the order of their years, months and places in the month. -/
theorem before_iff : d.Before e ↔
    d.year < e.year ∨ d.year = e.year ∧ (d.month < e.month ∨ d.month = e.month ∧ d.day < e.day) := by
  rw [← rank_lt_iff]
  constructor
  · rintro ⟨n, rfl⟩
    exact rank_lt_iterate d n
  · exact exists_iterate

instance (d e : Date) : Decidable (d.Before e) := decidable_of_iff _ before_iff.symm

end Date

/-! ## Digits -/

namespace Text

variable {cs ds : List Char}

theorem digitsValue_cons (c : Char) (cs : List Char) :
    digitsValue (c :: cs) = digitValue c * 10 ^ cs.length + digitsValue cs := by
  have hfold : ∀ (cs : List Char) (n : Nat),
      cs.foldl (fun n c => n * 10 + digitValue c) n = n * 10 ^ cs.length + digitsValue cs := by
    intro cs
    induction cs with
    | nil => simp [digitsValue]
    | cons c cs ih =>
      intro n
      rw [digitsValue, List.foldl_cons, List.foldl_cons, ih, ih, List.length_cons]
      ring
  rw [digitsValue, List.foldl_cons, hfold]
  simp

theorem digitValue_lt {c : Char} (h : c.isDigit) : digitValue c < 10 := by
  simp only [Char.isDigit, Bool.and_eq_true, decide_eq_true_eq] at h
  have hn : 0x30 ≤ c.toNat ∧ c.toNat ≤ 0x39 := h
  change c.toNat - 0x30 < 10
  omega

theorem digitsValue_lt (h : ∀ c ∈ cs, c.isDigit) : digitsValue cs < 10 ^ cs.length := by
  induction cs with
  | nil => simp [digitsValue]
  | cons c cs ih =>
    obtain ⟨hc, hcs⟩ := List.forall_mem_cons.1 h
    have hvalue := digitValue_lt hc
    have hrest := ih hcs
    rw [digitsValue_cons, List.length_cons, pow_succ]
    nlinarith

theorem lt_iff_digitValue_lt {c d : Char} (hc : c.isDigit) (hd : d.isDigit) : c < d ↔ digitValue c < digitValue d := by
  simp only [Char.isDigit, Bool.and_eq_true, decide_eq_true_eq] at hc hd
  have hn : 0x30 ≤ c.toNat ∧ c.toNat ≤ 0x39 := hc
  have hm : 0x30 ≤ d.toNat ∧ d.toNat ≤ 0x39 := hd
  change c.toNat < d.toNat ↔ c.toNat - 0x30 < d.toNat - 0x30
  omega

theorem eq_of_digitValue_eq {c d : Char} (hc : c.isDigit) (hd : d.isDigit) (h : digitValue c = digitValue d) :
    c = d := by
  have hle : ¬ c < d := fun hlt => Nat.ne_of_lt ((lt_iff_digitValue_lt hc hd).1 hlt) h
  have hge : ¬ d < c := fun hlt => Nat.ne_of_gt ((lt_iff_digitValue_lt hd hc).1 hlt) h
  exact Char.le_antisymm (Char.not_lt.1 hge) (Char.not_lt.1 hle)

/-- Equally many digits sort by their value. -/
theorem lt_iff_digitsValue_lt (hcs : ∀ c ∈ cs, c.isDigit) (hds : ∀ d ∈ ds, d.isDigit) (h : cs.length = ds.length) :
    cs < ds ↔ digitsValue cs < digitsValue ds := by
  induction cs generalizing ds with
  | nil =>
    obtain rfl : ds = [] := List.length_eq_zero_iff.1 h.symm
    simp
  | cons c cs ih =>
    cases ds with
    | nil => cases h
    | cons d ds =>
      obtain ⟨hc, hcs⟩ := List.forall_mem_cons.1 hcs
      obtain ⟨hd, hds⟩ := List.forall_mem_cons.1 hds
      have hlength : cs.length = ds.length := Nat.succ.inj h
      have hrest := digitsValue_lt hcs
      have hrest' := digitsValue_lt hds
      rw [List.cons_lt_cons_iff, ih hcs hds hlength, lt_iff_digitValue_lt hc hd, digitsValue_cons, digitsValue_cons,
        hlength]
      rw [hlength] at hrest
      -- The rest is worth less than one of the first digit.
      rcases Nat.lt_trichotomy (digitValue c) (digitValue d) with hlt | heq | hgt
      · have := Nat.mul_le_mul_right (10 ^ ds.length) (Nat.succ_le_of_lt hlt)
        rw [Nat.succ_mul] at this
        exact iff_of_true (.inl hlt) (by omega)
      · obtain rfl := eq_of_digitValue_eq hc hd heq
        simp
      · have := Nat.mul_le_mul_right (10 ^ ds.length) (Nat.succ_le_of_lt hgt)
        rw [Nat.succ_mul] at this
        refine iff_of_false ?_ (by omega)
        rintro (hlt | ⟨rfl, -⟩)
        · exact Nat.lt_asymm hlt hgt
        · exact Nat.lt_irrefl _ hgt

end Text

/-! ## Texts of moments -/

namespace Instant

open Text

variable {t u : Instant} {layout : List (Nat × Char)} {ns ms : List Nat}

/-- What is equally long in two texts is compared first. -/
theorem append_lt_append_iff {as bs cs ds : List Char} (h : as.length = bs.length) :
    as ++ cs < bs ++ ds ↔ as < bs ∨ as = bs ∧ cs < ds := by
  induction as generalizing bs with
  | nil =>
    obtain rfl : bs = [] := List.length_eq_zero_iff.1 h.symm
    simp
  | cons a as ih =>
    cases bs with
    | nil => cases h
    | cons b bs =>
      rw [List.cons_append, List.cons_append, List.cons_lt_cons_iff, List.cons_lt_cons_iff, ih (Nat.succ.inj h),
        List.cons.injEq]
      tauto

theorem padded_lt_iff {width m n : Nat} (hwidth : 0 < width) (hm : m < 10 ^ width) (hn : n < 10 ^ width) :
    padded width m < padded width n ↔ m < n := by
  rw [lt_iff_digitsValue_lt (fun _ => isDigit_of_mem_padded) (fun _ => isDigit_of_mem_padded)
    ((length_padded hwidth hm).trans (length_padded hwidth hn).symm), digitsValue_padded, digitsValue_padded]

theorem padded_inj {width m n : Nat} : padded width m = padded width n ↔ m = n := by
  refine ⟨fun h => ?_, fun h => h ▸ rfl⟩
  rw [← digitsValue_padded width m, h, digitsValue_padded]

/-- Numbers in a layout of widths, with a mark behind each. -/
def written : List (Nat × Char) → List Nat → List Char
  | (width, mark) :: layout, n :: ns => padded width n ++ mark :: written layout ns
  | _, _ => []

/-- Whether numbers fit a layout. -/
def Fits (layout : List (Nat × Char)) (ns : List Nat) : Prop :=
  List.Forall₂ (fun field n => 0 < field.1 ∧ n < 10 ^ field.1) layout ns

/-- Numbers of fixed widths sort as they do one by one. -/
theorem written_lt_iff (hns : Fits layout ns) (hms : Fits layout ms) : written layout ns < written layout ms ↔ ns < ms := by
  induction hns generalizing ms with
  | nil =>
    cases hms
    simp [written]
  | @cons field n layout ns hn hns ih =>
    cases hms with
    | @cons _ m _ ms hm hms =>
      obtain ⟨hwidth, hn⟩ := hn
      rw [written, written, append_lt_append_iff ((length_padded hwidth hn).trans (length_padded hwidth hm.2).symm),
        padded_lt_iff hwidth hn hm.2, padded_inj, List.cons_lt_cons_iff, List.cons_lt_cons_iff, ih hms]
      simp

/-- The layout of the stored texts. -/
def textLayout : List (Nat × Char) :=
  [(4, '-'), (2, '-'), (2, 'T'), (2, ':'), (2, ':'), (2, '.'), (3, 'Z')]

/-- The numbers in the stored text of a moment. -/
def fields (t : Instant) : List Nat :=
  [t.date.year.toNat, t.date.month, t.date.day, t.hour, t.minute, t.second, t.nano / 1000000]

/-- Whether the year of a moment has four digits. -/
def HasFourDigits (t : Instant) : Prop := 0 ≤ t.date.year ∧ t.date.year ≤ 9999

theorem toList_text_eq_written (h : t.HasFourDigits) : t.text.toList = written textLayout t.fields := by
  have hyear : yearText t.date.year = padded 4 t.date.year.toNat := by
    rw [yearText, if_pos (by simpa [HasFourDigits] using h)]
  rw [toList_text, hyear, clockText]
  rfl

theorem fits_fields (h : t.HasFourDigits) : Fits textLayout t.fields := by
  obtain ⟨hlow, hhigh⟩ := h
  have hmonth := t.date.month_le
  have hday := t.date.day_lt
  have hhour := t.hour_lt
  have hminute := t.minute_lt
  have hsecond := t.second_le
  have hnano := t.nano_lt
  simp only [Fits, textLayout, fields, List.forall₂_cons, List.Forall₂.nil, and_true]
  omega

/-- The time of day, down to the nanosecond. -/
def clock (t : Instant) : List Nat := [t.hour, t.minute, t.second, t.nano]

/-- A moment comes before those of later days and those of later times of the same day. -/
def Before (t u : Instant) : Prop := t.date.Before u.date ∨ t.date = u.date ∧ t.clock < u.clock

instance (t u : Instant) : Decidable (t.Before u) := inferInstanceAs (Decidable (_ ∨ _))

theorem date_truncated (t : Instant) : t.truncated.date = t.date := rfl

theorem clock_truncated (t : Instant) :
    t.truncated.clock = [t.hour, t.minute, t.second, t.nano / 1000000 * 1000000] := rfl

theorem fields_lt_iff (ht : t.HasFourDigits) (hu : u.HasFourDigits) :
    t.fields < u.fields ↔ t.truncated.Before u.truncated := by
  have hyears : t.date.year.toNat < u.date.year.toNat ↔ t.date.year < u.date.year := by
    have := ht.1
    have := hu.1
    omega
  have hyear : t.date.year.toNat = u.date.year.toNat ↔ t.date.year = u.date.year := by
    have := ht.1
    have := hu.1
    omega
  have hdate : t.date = u.date ↔
      t.date.year = u.date.year ∧ t.date.month = u.date.month ∧ t.date.day = u.date.day :=
    ⟨fun h => h ▸ ⟨rfl, rfl, rfl⟩, fun h => Date.eq_of_fields h.1 h.2.1 h.2.2⟩
  have hclock : t.truncated.clock < u.truncated.clock ↔
      [t.hour, t.minute, t.second, t.nano / 1000000] < [u.hour, u.minute, u.second, u.nano / 1000000] := by
    rw [clock_truncated, clock_truncated]
    generalize t.nano / 1000000 = m
    generalize u.nano / 1000000 = n
    have hnano : m * 1000000 < n * 1000000 ↔ m < n := by omega
    simp only [List.cons_lt_cons_iff, List.lt_irrefl, hnano, and_false, or_false]
  rw [Before, hclock, date_truncated, date_truncated, Date.before_iff, hdate, fields, fields, List.cons_lt_cons_iff,
    List.cons_lt_cons_iff, List.cons_lt_cons_iff, hyears, hyear]
  simp only [and_or_left, or_assoc, and_assoc]

/-- Texts of moments with years of four digits sort by time. -/
theorem text_lt_iff (ht : t.HasFourDigits) (hu : u.HasFourDigits) : t.text < u.text ↔ t.truncated.Before u.truncated := by
  rw [String.lt_iff_toList_lt, toList_text_eq_written ht, toList_text_eq_written hu,
    written_lt_iff (fits_fields ht) (fits_fields hu), fields_lt_iff ht hu]

/-- Texts tell moments apart down to the millisecond. -/
theorem text_eq_iff (ht : t.HasFourDigits) (hu : u.HasFourDigits) : t.text = u.text ↔ t.truncated = u.truncated := by
  constructor
  · intro h
    have hread := read?_text ht.1 ht.2
    rw [h, read?_text hu.1 hu.2] at hread
    exact (Option.some.inj hread).symm
  · intro h
    rw [← text_truncated t, h, text_truncated]

/-! ## Bytes -/

theorem utf8EncodeChar_of_ascii {c : Char} (h : c.toNat < 128) : String.utf8EncodeChar c = [UInt8.ofNat c.toNat] :=
  if_pos (Nat.le_of_lt_succ h)

/-- Texts of ASCII characters sort as their bytes do. -/
theorem utf8_lt_iff {cs ds : List Char} (hcs : ∀ c ∈ cs, c.toNat < 128) (hds : ∀ d ∈ ds, d.toNat < 128) :
    cs.flatMap String.utf8EncodeChar < ds.flatMap String.utf8EncodeChar ↔ cs < ds := by
  induction cs generalizing ds with
  | nil =>
    cases ds with
    | nil => simp
    | cons d ds => simp [utf8EncodeChar_of_ascii (hds d List.mem_cons_self)]
  | cons c cs ih =>
    obtain ⟨hc, hcs⟩ := List.forall_mem_cons.1 hcs
    cases ds with
    | nil => simp
    | cons d ds =>
      obtain ⟨hd, hds⟩ := List.forall_mem_cons.1 hds
      have hbyte : ∀ n < 128, (UInt8.ofNat n).toNat = n := fun n hn => by
        rw [UInt8.toNat_ofNat', Nat.mod_eq_of_lt (hn.trans (by decide))]
      have hlt : UInt8.ofNat c.toNat < UInt8.ofNat d.toNat ↔ c < d := by
        rw [UInt8.lt_iff_toNat_lt, hbyte _ hc, hbyte _ hd]
        rfl
      have heq : UInt8.ofNat c.toNat = UInt8.ofNat d.toNat ↔ c = d := by
        rw [← UInt8.toNat_inj, hbyte _ hc, hbyte _ hd, Char.toNat_inj]
      rw [List.flatMap_cons, List.flatMap_cons, utf8EncodeChar_of_ascii hc, utf8EncodeChar_of_ascii hd,
        List.singleton_append, List.singleton_append, List.cons_lt_cons_iff, List.cons_lt_cons_iff, ih hcs hds, hlt, heq]

theorem mem_written {c : Char} (h : c ∈ written layout ns) : c.isDigit ∨ c ∈ layout.map Prod.snd := by
  induction layout generalizing ns with
  | nil => simp [written] at h
  | cons field layout ih =>
    cases ns with
    | nil => simp [written] at h
    | cons n ns =>
      rcases List.mem_append.1 h with h | h
      · exact .inl (isDigit_of_mem_padded h)
      · rcases List.mem_cons.1 h with rfl | h
        · exact .inr List.mem_cons_self
        · exact (ih h).imp id fun h => List.mem_cons_of_mem _ h

theorem toNat_lt_of_mem_text {c : Char} (ht : t.HasFourDigits) (h : c ∈ t.text.toList) : c.toNat < 128 := by
  rw [toList_text_eq_written ht] at h
  have hmarks : ∀ c ∈ textLayout.map Prod.snd, c.toNat < 128 := by simp [textLayout]
  rcases mem_written h with hdigit | hmark
  · simp only [Char.isDigit, Bool.and_eq_true, decide_eq_true_eq] at hdigit
    have hle : c.toNat ≤ 0x39 := hdigit.2
    omega
  · exact hmarks c hmark

/-- Texts of moments with years of four digits sort by time, byte by byte. -/
theorem bytes_text_lt_iff (ht : t.HasFourDigits) (hu : u.HasFourDigits) :
    t.text.toUTF8.data.toList < u.text.toUTF8.data.toList ↔ t.truncated.Before u.truncated := by
  have hbytes : ∀ s : String, s.toUTF8.data.toList = s.toList.flatMap String.utf8EncodeChar := by
    intro s
    have hlist := String.toByteArray_ofList (l := s.toList)
    rw [String.ofList_toList] at hlist
    rw [String.toUTF8, hlist]
    simp [List.utf8Encode]
  rw [hbytes, hbytes, utf8_lt_iff (fun _ => toNat_lt_of_mem_text ht) (fun _ => toNat_lt_of_mem_text hu),
    ← String.lt_iff_toList_lt, text_lt_iff ht hu]

end Instant

end RecordQuery
