import SqlDialect.Calendar
import SqlDialect.Proofs.JsonText

set_option autoImplicit false

namespace SqlDialect.Calendar

open Text (isSpace skipSpace)

def Date.Valid (d : Date) : Prop :=
  Date.ofCivil? d.year d.month d.day = some d

instance (d : Date) : Decidable d.Valid :=
  inferInstanceAs (Decidable (_ = _))

/-- A moment of a day that the calendar has; the second 60 is a leap second. -/
structure Timestamp.Valid (t : Timestamp) : Prop where
  date : t.date.Valid
  hour : t.hour ≤ 23
  minute : t.minute ≤ 59
  second : t.second ≤ 60
  nanosecond : t.nanosecond < 1000000000

theorem isSpace_of_isDigit {c : Char} (h : c.isDigit = true) : isSpace c = false := by
  have range : 48 ≤ c.toNat ∧ c.toNat ≤ 57 := by
    simpa [Char.isDigit, UInt32.le_iff_toNat_le] using h
  simp [isSpace]
  omega

theorem skipSpace_cons {c : Char} (h : isSpace c = false) (cs : List Char) :
    skipSpace (c :: cs) = c :: cs := by
  simp [skipSpace, h]

theorem isDigit_padded {width n : Nat} {c : Char} (h : c ∈ padded width n) : c.isDigit = true := by
  rcases List.mem_append.mp h with h | h
  · rw [List.eq_of_mem_replicate h]
    rfl
  · exact Nat.isDigit_of_mem_toDigits (by decide) (by decide) h

theorem length_padded {width n : Nat} (h : n < Nat.pow 10 width) (hw : 0 < width) :
    (padded width n).length = width := by
  have digits := (Nat.length_toDigits_le_iff (by decide : 1 < 10) hw).mpr h
  simp only [padded, List.length_append, List.length_replicate]
  omega

theorem padded_cons (width n : Nat) : ∃ c cs, padded width n = c :: cs ∧ c.isDigit = true := by
  cases h : padded width n with
  | nil =>
    have none := (List.append_eq_nil_iff.mp h).2
    exact absurd none Nat.toDigits_ne_nil
  | cons c cs => exact ⟨c, cs, rfl, isDigit_padded (h ▸ List.mem_cons_self)⟩

theorem digitsValue_padded (width n : Nat) : digitsValue (padded width n) = n := by
  have zeros (k : Nat) : (List.replicate k '0').foldl (fun n d => n * 10 + (d.toNat - '0'.toNat)) 0 = 0 := by
    induction k with
    | zero => rfl
    | succ k ih => exact ih
  have digits : digitsValue (Nat.toDigits 10 n) = n := Json.digitsValue_toDigits n
  rw [digitsValue] at digits ⊢
  rw [padded, List.foldl_append, zeros, digits]

theorem readDigits_append {ds rest : List Char} (hd : ∀ c ∈ ds, c.isDigit = true) (hn : ds ≠ [])
    (hr : ∀ c ∈ rest.head?, c.isDigit = false) : readDigits (ds ++ rest) = some (ds, rest) := by
  have ends : rest.takeWhile Char.isDigit = [] ∧ rest.dropWhile Char.isDigit = rest := by
    cases rest with
    | nil => exact ⟨rfl, rfl⟩
    | cons c cs => simp [hr c rfl]
  unfold readDigits
  rw [List.takeWhile_append_of_pos hd, List.dropWhile_append_of_pos hd, ends.1, ends.2, List.append_nil]
  cases ds with
  | nil => exact absurd rfl hn
  | cons d ds => rfl

theorem readNumber_padded {width n : Nat} (h : n < Nat.pow 10 width) (hw : 0 < width) (rest : List Char) :
    readNumber width (padded width n ++ rest) = some (n, rest) := by
  obtain ⟨c, cs, digits, digit⟩ := padded_cons width n
  have length := length_padded h hw
  have skip : skipSpace (padded width n ++ rest) = padded width n ++ rest := by
    rw [digits]
    exact skipSpace_cons (isSpace_of_isDigit digit) _
  have read : readDigits (padded width n) = some (padded width n, []) := by
    have := @readDigits_append (padded width n) [] (fun _ => isDigit_padded) (by simp [digits]) nofun
    rwa [List.append_nil] at this
  simp [readNumber, skip, List.take_left' length, read, digitsValue_padded]

theorem readMark_cons {c : Char} (h : isSpace c = false) (rest : List Char) :
    readMark c (c :: rest) = some rest := by
  simp [readMark, skipSpace_cons h]

theorem readYear_digit {c : Char} (h : c.isDigit = true) (cs : List Char) :
    readYear (c :: cs) = (readNumber 4 (c :: cs)).map fun p => ((p.1 : Int), p.2) := by
  unfold readYear
  rw [skipSpace_cons (isSpace_of_isDigit h)]
  split
  next minus =>
    cases minus
    contradiction
  next plus =>
    cases plus
    contradiction
  next => cases readNumber 4 (c :: cs) <;> rfl

theorem readYear_sign {n : Nat} {rest : List Char} (hr : ∀ c ∈ rest.head?, c.isDigit = false) :
    readYear ('-' :: (padded 4 n ++ rest)) = some (-(n : Int), rest) ∧
      readYear ('+' :: (padded 4 n ++ rest)) = some ((n : Int), rest) := by
  obtain ⟨c, cs, digits, -⟩ := padded_cons 4 n
  have figures := readDigits_append (fun _ => isDigit_padded) (by simp [digits] : padded 4 n ≠ []) hr
  have skip (c : Char) (cs : List Char) (h : isSpace c = false) : skipSpace (c :: cs) = c :: cs :=
    skipSpace_cons h cs
  simp [readYear, skip, isSpace, figures, digitsValue_padded]

theorem readYear_yearChars (year : Int) (rest : List Char) :
    readYear (yearChars year ++ '-' :: rest) = some (year, '-' :: rest) := by
  have ends : ∀ c ∈ ('-' :: rest).head?, c.isDigit = false := by simp
  unfold yearChars
  split
  next four =>
    obtain ⟨c, cs, digits, digit⟩ := padded_cons 4 year.natAbs
    have number := readNumber_padded (by omega : year.natAbs < 10000) (by decide : 0 < 4) ('-' :: rest)
    have value : (year.natAbs : Int) = year := by omega
    rw [digits, List.cons_append] at number ⊢
    rw [readYear_digit digit, number, Option.map_some, value]
  next signed =>
    split
    next negative =>
      have value : -(year.natAbs : Int) = year := by omega
      rw [List.cons_append, (readYear_sign ends).1, value]
    next positive =>
      have value : (year.natAbs : Int) = year := by omega
      rw [List.cons_append, (readYear_sign ends).2, value]

theorem Date.Valid.bounds {d : Date} (h : d.Valid) : d.month ≤ 12 ∧ d.day ≤ 31 := by
  simp only [Date.Valid, Date.ofCivil?, Option.ite_none_right_eq_some] at h
  have days : daysIn d.year d.month ≤ 31 := by
    unfold daysIn
    split
    · split <;> decide
    · split <;> decide
  omega

theorem readDate_chars {d : Date} (h : d.Valid) (rest : List Char) :
    readDate (d.chars ++ rest) = some (d, rest) := by
  have month := readNumber_padded (Nat.lt_of_le_of_lt h.bounds.1 (by decide : 12 < Nat.pow 10 2))
    (by decide) ('-' :: (padded 2 d.day ++ rest))
  have day := readNumber_padded (Nat.lt_of_le_of_lt h.bounds.2 (by decide : 31 < Nat.pow 10 2))
    (by decide) rest
  have mark (cs : List Char) : readMark '-' ('-' :: cs) = some cs := readMark_cons rfl cs
  have civil : Date.ofCivil? d.year d.month d.day = some d := h
  simp [readDate, Date.chars, List.append_assoc, readYear_yearChars, mark, month, day, civil]

theorem Date.ofText?_text {d : Date} (h : d.Valid) : Date.ofText? d.text = some d := by
  have read := readDate_chars h []
  rw [List.append_nil] at read
  change (readDate (String.ofList d.chars).toList).bind _ = _
  rw [String.toList_ofList, read]
  rfl

theorem readFraction_padded (width n : Nat) (h : n < Nat.pow 10 width) (hw : 0 < width) (hn : width ≤ 9)
    {rest : List Char} (hr : ∀ c ∈ rest.head?, c.isDigit = false) :
    readFraction ('.' :: (padded width n ++ rest)) = some (n * Nat.pow 10 (9 - width), rest) := by
  obtain ⟨c, cs, digits, -⟩ := padded_cons width n
  have read := readDigits_append (fun _ => isDigit_padded) (by simp [digits] : padded width n ≠ []) hr
  have length := length_padded h hw
  have kept : (padded width n).take 9 = padded width n := List.take_of_length_le (by omega)
  simp [readFraction, read, kept, length, digitsValue_padded, Nat.min_eq_right hn]

/-- The digits left out of a fraction are zeros. -/
theorem readFraction_fractionChars {nanosecond : Nat} (h : nanosecond < 1000000000) :
    readFraction (fractionChars nanosecond ++ ['Z']) = some (nanosecond, ['Z']) := by
  have ends : ∀ c ∈ ['Z'].head?, c.isDigit = false := by simp
  unfold fractionChars
  split
  next zero => rw [zero]; rfl
  split
  next millis =>
    have bound : nanosecond / 1000000 < 1000 := by omega
    have value : nanosecond / 1000000 * 1000000 = nanosecond := by omega
    exact (readFraction_padded 3 _ bound (by decide) (by decide) ends).trans (by rw [value])
  split
  next micros =>
    have bound : nanosecond / 1000 < 1000000 := by omega
    have value : nanosecond / 1000 * 1000 = nanosecond := by omega
    exact (readFraction_padded 6 _ bound (by decide) (by decide) ends).trans (by rw [value])
  next nanos =>
    exact (readFraction_padded 9 _ h (by decide) (by decide) ends).trans (by simp)

theorem readTime_chars {t : Timestamp} (h : t.Valid) :
    readTime t.date (padded 2 t.hour ++ ':' :: (padded 2 t.minute ++ ':' ::
      (padded 2 t.second ++ (fractionChars t.nanosecond ++ ['Z'])))) = some (t, ['Z']) := by
  have width (n : Nat) (hn : n ≤ 60) (rest : List Char) :
      readNumber 2 (padded 2 n ++ rest) = some (n, rest) :=
    readNumber_padded (Nat.lt_of_le_of_lt hn (by decide : 60 < Nat.pow 10 2)) (by decide) rest
  have mark (cs : List Char) : readMark ':' (':' :: cs) = some cs := readMark_cons rfl cs
  have within : t.hour ≤ 23 ∧ t.minute ≤ 59 ∧ t.second ≤ 60 := ⟨h.hour, h.minute, h.second⟩
  simp [readTime, width t.hour (by omega), width t.minute (by omega), width t.second h.second, mark,
    readFraction_fractionChars h.nanosecond, within]

theorem Timestamp.ofOffset?_zero {t : Timestamp} (h : t.Valid) : t.ofOffset? 0 = some t := by
  have hour := h.hour
  have minute := h.minute
  have early : ¬ ((t.hour : Int) * 60 + t.minute - 0 < 0) := by omega
  have late : ¬ ((t.hour : Int) * 60 + t.minute - 0 ≥ minutesPerDay) := by
    unfold minutesPerDay
    omega
  have hours : ((t.hour : Int) * 60 + t.minute - 0).toNat / 60 = t.hour := by omega
  have minutes : ((t.hour : Int) * 60 + t.minute - 0).toNat % 60 = t.minute := by omega
  simp only [Timestamp.ofOffset?, if_neg early, if_neg late, hours, minutes]
  rfl

theorem Timestamp.ofText?_text {t : Timestamp} (h : t.Valid) : Timestamp.ofText? t.text = some t := by
  have date := readDate_chars h.date ('T' :: (padded 2 t.hour ++ ':' :: (padded 2 t.minute ++ ':' ::
    (padded 2 t.second ++ (fractionChars t.nanosecond ++ ['Z'])))))
  have time := readTime_chars h
  have offset : readOffset (skipSpace ['Z']) = some (0, []) := rfl
  have ended : skipSpace [] = [] := rfl
  simp [Timestamp.ofText?, Timestamp.text, Timestamp.localChars, List.append_assoc, date, time, offset,
    ofOffset?_zero h, ended]

end SqlDialect.Calendar
