import ChatApi.Proofs.Text.Digits
import ChatApi.Time.Reader

/-!
# Timestamps are read back as they were written

A timestamp is written without blanks, with two digits for each field and with none, three, six or nine digits
of the second. Each part is read up to where the next one begins, so that reading a whole text gives back the
timestamp that it was written for, its offset included (`read_write`).
-/

namespace ChatApi.Timestamp

open Calendar (Date)
open Text (padded digitsValue)

variable {ds k : List Char} {n : Nat}

/-! ### Numbers -/

/-- What no digit begins. -/
def Ends (k : List Char) : Prop := ∀ c ∈ k.head?, c.isDigit = false

theorem ends_cons {c : Char} (h : c.isDigit = false) : Ends (c :: k) := by
  simp [Ends, h]

theorem Ends.take (h : Ends k) (w : Nat) : Ends (k.take w) := by
  intro c hc
  rw [List.head?_take] at hc
  split at hc
  · cases hc
  · exact h c hc

theorem takeWhile_digits (hd : ∀ c ∈ ds, c.isDigit) (hk : Ends k) : (ds ++ k).takeWhile Char.isDigit = ds := by
  rw [List.takeWhile_append_of_pos hd]
  cases k with
  | nil => simp
  | cons c k => simp [hk c rfl]

/-- A number of no more digits than are asked for is read to its end. -/
theorem readNumber_digits {width : Option Nat} (hwidth : ∀ w ∈ width, ds.length ≤ w) (hne : ds ≠ [])
    (hd : ∀ c ∈ ds, c.isDigit) (hk : Ends k) (hsmall : digitsValue ds < 1 <<< 63) :
    readNumber width (ds ++ k) = .ok (digitsValue ds, k) := by
  have hempty : ds.isEmpty = false := by simpa using hne
  have hlimit : ¬ digitsValue ds ≥ 1 <<< 63 := Nat.not_le.2 hsmall
  unfold readNumber
  split
  · rename_i hnil
    exact absurd (List.append_eq_nil_iff.1 hnil).1 hne
  · cases width with
    | none =>
      simp only [takeWhile_digits hd hk, hempty, hlimit, if_false, Bool.false_eq_true, List.drop_left]
    | some w =>
      have htake : ((ds ++ k).take w).takeWhile Char.isDigit = ds := by
        rw [List.take_append, List.take_of_length_le (hwidth w rfl)]
        exact takeWhile_digits hd (hk.take _)
      simp only [htake, hempty, hlimit, if_false, Bool.false_eq_true, List.drop_left]

theorem readNumber_padded {width : Option Nat} {w : Nat} (hw : 0 < w) (hwidth : ∀ v ∈ width, w ≤ v)
    (hn : n < Nat.pow 10 w) (hsmall : n < 1 <<< 63) (hk : Ends k) :
    readNumber width (padded w n ++ k) = .ok (n, k) := by
  have hlength := Text.length_padded hw hn
  have hread : readNumber width (padded w n ++ k) = _ :=
    readNumber_digits (by rwa [hlength]) (Text.padded_ne_nil w n) (fun _ hc => Text.isDigit_of_mem_padded hc) hk
      (by rwa [Text.digitsValue_padded])
  rwa [Text.digitsValue_padded] at hread

/-! ### Fields -/

theorem isBlank_of_isDigit {c : Char} (hc : c.isDigit) : Text.isBlank c = false := by
  have hall : ∀ b ∈ Text.blanks, b.isDigit = false := by simp [Text.blanks]
  rw [Text.isBlank, Bool.eq_false_iff]
  intro hblank
  have hno := hall c (List.contains_iff_mem.1 hblank)
  rw [hc] at hno
  cases hno

theorem skipBlanks_cons {c : Char} (h : Text.isBlank c = false) : skipBlanks (c :: k) = c :: k := by
  simp [skipBlanks, h]

theorem skipBlanks_digits (hne : ds ≠ []) (hd : ∀ c ∈ ds, c.isDigit) : skipBlanks (ds ++ k) = ds ++ k := by
  obtain ⟨c, ds, rfl⟩ := List.exists_cons_of_ne_nil hne
  exact skipBlanks_cons (isBlank_of_isDigit (hd c List.mem_cons_self))

theorem skipBlanks_padded (w n : Nat) : skipBlanks (padded w n ++ k) = padded w n ++ k :=
  skipBlanks_digits (Text.padded_ne_nil w n) fun _ hc => Text.isDigit_of_mem_padded hc

/-- A field of two digits is read as it was written. -/
theorem readField_padded {low high : Nat} (hlow : low ≤ n) (hhigh : n ≤ high) (hn : n < 100) (hk : Ends k) :
    readField low high (padded 2 n ++ k) = .ok (n, k) := by
  have hread : readNumber (some 2) (padded 2 n ++ k) = .ok (n, k) :=
    readNumber_padded (by decide) (by simp) hn (by omega) hk
  simp [readField, skipBlanks_padded, hread, hlow, hhigh, bind, Except.bind, pure, Except.pure]

theorem readMark_cons {c : Char} (h : Text.isBlank c = false) : readMark c (c :: k) = .ok k := by
  simp [readMark, skipBlanks_cons h]

theorem readDayMark_cons : readDayMark ('T' :: k) = .ok k := by
  simp [readDayMark]

/-- Whatever width it has, a year is read up to what follows it. -/
theorem readYear_writeYear {y : Int} (hlow : firstYear ≤ y) (hhigh : y ≤ lastYear) (hk : Ends k) :
    readYear (writeYear y ++ k) = .ok (y, k) := by
  simp only [firstYear, lastYear] at hlow hhigh
  have hrange : Int32.minValue.toInt ≤ y ∧ y ≤ Int32.maxValue.toInt := by
    constructor
    · exact Int.le_trans (by decide) hlow
    · exact Int.le_trans hhigh (by decide)
  rw [writeYear]
  split
  · rename_i hfour
    have hsmall : y.toNat < 10000 := by omega
    have hread : readNumber (some 4) (padded 4 y.toNat ++ k) = .ok (y.toNat, k) :=
      readNumber_padded (by decide) (by simp) hsmall (by omega) hk
    have hsign : ∀ c r, padded 4 y.toNat ++ k = c :: r → c.isDigit := by
      intro c r heq
      obtain ⟨d, ds, hds⟩ := List.exists_cons_of_ne_nil (Text.padded_ne_nil 4 y.toNat)
      rw [hds, List.cons_append] at heq
      cases heq
      exact Text.isDigit_of_mem_padded (hds ▸ List.mem_cons_self)
    rw [readYear, skipBlanks_padded]
    split
    · rename_i heq
      cases hsign _ _ heq
    · rename_i heq
      cases hsign _ _ heq
    · have hy : (y.toNat : Int) = y := by omega
      simp only [hread, hy, bind, Except.bind]
      exact if_pos hrange
  · have hread : readNumber none (padded 4 y.natAbs ++ k) = .ok (y.natAbs, k) := by
      have hdigits : readNumber none (padded 4 y.natAbs ++ k) = _ :=
        readNumber_digits (by simp) (Text.padded_ne_nil 4 y.natAbs) (fun _ hc => Text.isDigit_of_mem_padded hc) hk
          (by rw [Text.digitsValue_padded]; omega)
      rwa [Text.digitsValue_padded] at hdigits
    by_cases hneg : y < 0
    · have hy : -(y.natAbs : Int) = y := by omega
      rw [if_pos hneg, List.cons_append, readYear, skipBlanks_cons (by decide)]
      simp only [hread, hy, bind, Except.bind, pure, Except.pure]
      exact if_pos hrange
    · have hy : (y.natAbs : Int) = y := by omega
      rw [if_neg hneg, List.cons_append, readYear, skipBlanks_cons (by decide)]
      simp only [hread, hy, bind, Except.bind, pure, Except.pure]
      exact if_pos hrange

/-! ### The part of the second and the offset -/

/-- So many digits behind the point count so many nanoseconds each. -/
theorem readFraction_padded {w : Nat} (hw : 0 < w) (hnine : w ≤ 9) (hn : n < Nat.pow 10 w) (hk : Ends k) :
    readFraction ('.' :: padded w n ++ k) = .ok (n * Nat.pow 10 (9 - w), k) := by
  have hsmall : n < 1 <<< 63 :=
    Nat.lt_trans (Nat.lt_of_lt_of_le hn (Nat.pow_le_pow_right (by decide) hnine)) (by decide)
  have hread : readNumber (some 9) (padded w n ++ k) = .ok (n, k) :=
    readNumber_padded hw (by simp [hnine]) hn hsmall hk
  have hlength := Text.length_padded hw hn
  have hstop : k.dropWhile Char.isDigit = k := by
    cases k with
    | nil => rfl
    | cons c k => simp [hk c rfl]
  simp [readFraction, hread, hlength, hstop, bind, Except.bind, pure, Except.pure]

theorem readFraction_writeFraction (hn : n < 1000000000) (hk : Ends k) (hdot : ∀ r, k ≠ '.' :: r) :
    readFraction (writeFraction n ++ k) = .ok (n, k) := by
  rw [writeFraction]
  split
  · rename_i hzero
    rw [List.nil_append, hzero]
    unfold readFraction
    split
    · exact absurd rfl (hdot _)
    · rfl
  split
  · rename_i hmillis
    have hn' : n / 1000000 * 1000000 = n := by omega
    have hsmall : n / 1000000 < 1000 := by omega
    rw [readFraction_padded (w := 3) (by decide) (by decide) hsmall hk]
    simp [hn']
  split
  · rename_i hmicros
    have hn' : n / 1000 * 1000 = n := by omega
    have hsmall : n / 1000 < 1000000 := by omega
    rw [readFraction_padded (w := 6) (by decide) (by decide) hsmall hk]
    simp [hn']
  · rw [readFraction_padded (w := 9) (by decide) (by decide) hn hk]
    simp

/-- Two digits are read as they were written. -/
theorem readTwoDigits_padded (hn : n < 100) : readTwoDigits (padded 2 n ++ k) = .ok (n, k) := by
  have hvalue := Text.digitsValue_padded 2 n
  match hab : padded 2 n, Text.length_padded (by decide) hn with
  | [a, b], _ =>
    have hdigits : ∀ c ∈ padded 2 n, c.isDigit := fun c hc => Text.isDigit_of_mem_padded hc
    have ha : a.isDigit := hdigits a (by simp [hab])
    have hb : b.isDigit := hdigits b (by simp [hab])
    rw [hab] at hvalue
    simp [readTwoDigits, isShort, ha, hb, hvalue]

theorem dropWhile_colon_padded (w n : Nat) :
    (padded w n).dropWhile (fun c => c = ':' || Text.isBlank c) = padded w n := by
  obtain ⟨c, ds, hc⟩ := List.exists_cons_of_ne_nil (Text.padded_ne_nil w n)
  have hdigit : c.isDigit := Text.isDigit_of_mem_padded (hc ▸ List.mem_cons_self)
  have hcolon : c ≠ ':' := by
    rintro rfl
    cases hdigit
  simp [hc, hcolon, isBlank_of_isDigit hdigit]

/-- What stands behind the sign of an offset. -/
theorem readOffset_signed {c : Char} (hc : c = '+' ∨ c = '-') {minutes : Nat} (h : minutes < 1440) :
    readOffset (c :: (padded 2 (minutes / 60) ++ ':' :: padded 2 (minutes % 60))) =
      .ok (if c = '+' then (minutes : Int) else -(minutes : Int), []) := by
  have hhours := readTwoDigits_padded (n := minutes / 60) (k := ':' :: padded 2 (minutes % 60)) (by omega)
  have hminutes := readTwoDigits_padded (n := minutes % 60) (k := []) (by omega)
  have htotal : (minutes : Int) / 60 * 60 + (minutes : Int) % 60 = minutes := by omega
  have hsixty : ¬ 60 ≤ minutes % 60 := by omega
  rw [List.append_nil] at hminutes
  rcases hc with rfl | rfl
  · simp [readOffset, hhours, dropWhile_colon_padded, hminutes, htotal, hsixty, bind, Except.bind, pure, Except.pure]
  · simp [readOffset, hhours, dropWhile_colon_padded, hminutes, htotal, hsixty, bind, Except.bind, pure, Except.pure]

theorem readOffset_writeOffset {offset : Int} (h : offset.natAbs < 1440) :
    readOffset (writeOffset offset) = .ok (offset, []) := by
  rw [writeOffset]
  split
  · rename_i hzero
    rw [hzero]
    rfl
  · by_cases hneg : offset < 0
    · have habs : -(offset.natAbs : Int) = offset := by omega
      rw [if_pos hneg, readOffset_signed (.inr rfl) h, if_neg (by decide), habs]
    · have habs : (offset.natAbs : Int) = offset := by omega
      rw [if_neg hneg, readOffset_signed (.inl rfl) h, if_pos rfl, habs]

/-! ### Whole timestamps -/

theorem daysInMonth_le (year : Int) (month : Nat) : Calendar.daysInMonth year month ≤ 31 := by
  rw [Calendar.daysInMonth]
  split
  · split <;> decide
  · split <;> decide

/-- What begins the offset is neither a digit nor a point. -/
theorem writeOffset_eq_cons (offset : Int) : ∃ c r, writeOffset offset = c :: r ∧
    c.isDigit = false ∧ c ≠ '.' ∧ Text.isBlank c = false := by
  rw [writeOffset]
  split
  · exact ⟨'Z', [], rfl, by decide⟩
  split
  · exact ⟨'-', _, rfl, by decide⟩
  · exact ⟨'+', _, rfl, by decide⟩

/-- The part of the second, where there is one, begins with a point, and the offset with no digit. -/
theorem ends_writeFraction (n : Nat) (hk : Ends k) : Ends (writeFraction n ++ k) := by
  rw [writeFraction]
  split
  · exact hk
  split
  · exact ends_cons rfl
  split
  · exact ends_cons rfl
  · exact ends_cons rfl

theorem readClock_write {t : ClockTime} (h : t.isProper) :
    readClock (writeClock t ++ writeFraction t.nano ++ writeOffset t.offset) = .ok (t, []) := by
  simp only [ClockTime.isProper, Bool.and_eq_true, decide_eq_true_eq] at h
  obtain ⟨⟨⟨⟨⟨⟨⟨hfirst, hlast⟩, hdate⟩, hhour⟩, hminute⟩, hsecond⟩, hnano⟩, hoffset⟩ := h
  simp only [Date.isValid, Bool.and_eq_true, decide_eq_true_eq] at hdate
  obtain ⟨⟨⟨hmonth1, hmonth12⟩, hday1⟩, hday⟩ := hdate
  have hday31 := Nat.le_trans hday (daysInMonth_le _ _)
  obtain ⟨c, r, hzone, hdigit, hdot, hblank⟩ := writeOffset_eq_cons t.offset
  have hzoneEnds : Ends (writeOffset t.offset) := hzone ▸ ends_cons hdigit
  have hfraction := readFraction_writeFraction (k := writeOffset t.offset) hnano hzoneEnds fun r' heq => by
    rw [hzone] at heq
    cases heq
    exact hdot rfl
  have hskip : skipBlanks (writeOffset t.offset) = writeOffset t.offset := hzone ▸ skipBlanks_cons hblank
  have hdash (k : List Char) : Ends ('-' :: k) := ends_cons rfl
  have hcolon (k : List Char) : Ends (':' :: k) := ends_cons rfl
  have hmark (k : List Char) : Ends ('T' :: k) := ends_cons rfl
  have hhours (k : List Char) : readField 0 23 (padded 2 t.hour ++ ':' :: k) = .ok (t.hour, ':' :: k) :=
    readField_padded (Nat.zero_le _) (by omega) (by omega) (hcolon k)
  have hminutes (k : List Char) : readField 0 59 (padded 2 t.minute ++ ':' :: k) = .ok (t.minute, ':' :: k) :=
    readField_padded (Nat.zero_le _) (by omega) (by omega) (hcolon k)
  have hseconds : readField 0 60 (padded 2 t.second ++ _) = _ :=
    readField_padded (Nat.zero_le _) hsecond (by omega) (ends_writeFraction t.nano hzoneEnds)
  simp only [writeClock, List.append_assoc, List.cons_append]
  -- every field is followed by the mark that the next one expects
  simp only [readClock, bind, Except.bind, readYear_writeYear hfirst hlast (hdash _),
    readMark_cons (c := '-') (by decide), readField_padded hmonth1 hmonth12 (by omega) (hdash _),
    readField_padded hday1 hday31 (by omega) (hmark _), readDayMark_cons, hhours, hminutes,
    readMark_cons (c := ':') (by decide), hseconds, hfraction, hskip, readOffset_writeOffset hoffset]
  rfl

/-- A timestamp is read back as it was written. -/
theorem read_write (t : Timestamp) : read (write t) = .ok t := by
  have hclock := readClock_write t.proper
  simp only [read, write, String.toList_ofList, hclock, bind, Except.bind]
  simp [skipBlanks, t.proper, t.reachable]
  rfl

end ChatApi.Timestamp
