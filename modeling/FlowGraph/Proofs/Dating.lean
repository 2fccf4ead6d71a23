import FlowGraph.Proofs.Numerals
import FlowGraph.Time.Rfc3339

/-!
# Written timestamps are read back

Every field of a written timestamp is a numeral of a fixed width, or of any width after a sign, and
ends before a character that is no digit. So each reader stops where the writer of its field did, and
the text of a timestamp is that timestamp, to the nanosecond, in any year there is and in a leap second.
-/

namespace FlowGraph

namespace Text

/-- What begins with a numeral has no blanks in front. -/
theorem trimStart_padded (width n : Nat) (rest : List Char) :
    trimStart (padded width n ++ rest) = padded width n ++ rest := by
  obtain ⟨c, cs, shape⟩ := List.exists_cons_of_ne_nil (padded_ne_nil width n)
  have digit := isDigit_of_mem_padded width n c (by simp [shape])
  rw [shape, List.cons_append, trimStart_cons_of_not_blank (isBlank_of_isDigit digit)]

theorem StopsDigits.take {rest : List Char} (stops : StopsDigits rest) (count : Nat) :
    StopsDigits (rest.take count) := by
  intro c first
  apply stops c
  rw [Option.mem_def, List.head?_take] at first
  split at first
  · cases first
  · exact first

end Text

namespace Timestamp

open Text (padded isDigit StopsDigits natural? trimStart)

/-- A numeral that is short enough is read to its end. -/
theorem readDigits_append {ds rest : List Char} {most : Nat} (all : ∀ c ∈ ds, isDigit c = true)
    (some_digit : ds ≠ []) (short : ds.length ≤ most) (stops : StopsDigits rest) :
    readDigits most (ds ++ rest) = some (ds, rest) := by
  have taken : ((ds ++ rest).take most).takeWhile isDigit = ds := by
    rw [List.take_append, List.take_of_length_le short]
    exact Text.takeWhile_isDigit all (stops.take _)
  simp [readDigits, taken, some_digit]

theorem readNumber_padded {most width n : Nat} {rest : List Char} (positive : 0 < width)
    (narrow : width ≤ most) (fits : n < Nat.pow 10 width) (stops : StopsDigits rest) :
    readNumber most (padded width n ++ rest) = some (n, rest) := by
  have short : (padded width n).length ≤ most := by rwa [Text.length_padded positive fits]
  have run := readDigits_append (Text.isDigit_of_mem_padded width n) (Text.padded_ne_nil width n) short
    stops
  simp only [readNumber, Text.trimStart_padded, run, Text.natural?_padded, bind, Option.bind]

theorem readNumber_two {n : Nat} {rest : List Char} (fits : n < 100) (stops : StopsDigits rest) :
    readNumber 2 (padded 2 n ++ rest) = some (n, rest) :=
  readNumber_padded (by decide) (Nat.le_refl 2) fits stops

theorem readMark_cons (mark : Char) (rest : List Char) :
    readMark mark (mark :: rest) = some rest := by
  simp [readMark]

/-! ## Dates -/

theorem readYear_writeYear (year : Int) (rest : List Char) :
    readYear (writeYear year ++ '-' :: rest) = some (year, '-' :: rest) := by
  have stops : StopsDigits ('-' :: rest) := Text.stopsDigits_cons.mpr (by decide)
  unfold writeYear
  split
  case isTrue common =>
    obtain ⟨c, cs, shape⟩ := List.exists_cons_of_ne_nil (Text.padded_ne_nil 4 year.natAbs)
    have digit := Text.isDigit_of_mem_padded 4 year.natAbs c (by simp [shape])
    have unsigned : ¬ (c = '-' ∨ c = '+') := by
      rintro (rfl | rfl)
      · cases digit
      · cases digit
    have few : year.natAbs < 10000 := by omega
    have number : readNumber 4 (padded 4 year.natAbs ++ '-' :: rest) =
        some (year.natAbs, '-' :: rest) :=
      readNumber_padded (by decide) (Nat.le_refl _) few stops
    have same : (year.natAbs : Int) = year := by omega
    rw [readYear, Text.trimStart_padded]
    simp only [shape, List.cons_append] at number ⊢
    rw [if_neg unsigned, number]
    simp [same]
  case isFalse rare =>
    have run : readDigits (padded 4 year.natAbs ++ '-' :: rest).length
        (padded 4 year.natAbs ++ '-' :: rest) = some (padded 4 year.natAbs, '-' :: rest) :=
      readDigits_append (Text.isDigit_of_mem_padded _ _) (Text.padded_ne_nil _ _)
        (by rw [List.length_append]; omega) stops
    split
    case isTrue negative =>
      have same : -(year.natAbs : Int) = year := by omega
      rw [readYear, List.cons_append, Text.trimStart_cons_of_not_blank (by decide)]
      simp only [true_or, if_true, run, Text.natural?_padded, bind, Option.bind, same]
    case isFalse positive =>
      have same : (year.natAbs : Int) = year := by omega
      rw [readYear, List.cons_append, Text.trimStart_cons_of_not_blank (by decide)]
      simp only [or_true, if_true, run, Text.natural?_padded, bind, Option.bind, same]
      rfl

theorem readDate_writeDate (d : Date) {rest : List Char} (stops : StopsDigits rest) :
    readDate (writeDate d ++ rest) = some (d, rest) := by
  have month_lt : d.month < 100 := by have := d.month_mem; omega
  have day_lt : d.day < 100 := by
    have bound : daysInMonth d.year d.month ≤ 31 := by
      unfold daysInMonth
      split
      · split <;> omega
      all_goals omega
    have := d.day_mem
    omega
  have dash (cs : List Char) : StopsDigits ('-' :: cs) := Text.stopsDigits_cons.mpr (by decide)
  have year := readYear_writeYear d.year (padded 2 d.month ++ '-' :: (padded 2 d.day ++ rest))
  have month := readNumber_two month_lt (dash (padded 2 d.day ++ rest))
  have day := readNumber_two day_lt stops
  simp only [readDate, writeDate, List.append_assoc, List.cons_append, year, month, day, bind,
    Option.bind, Text.trimStart_cons_of_not_blank (c := '-') (by decide), readMark_cons,
    Date.make?_self]

/-! ## Times -/

theorem readFraction_point {places n : Nat} (positive : 0 < places) (few : places ≤ 9)
    (fits : n < Nat.pow 10 places) {rest : List Char} (stops : StopsDigits rest) :
    readFraction ('.' :: (padded places n ++ rest)) = some (n * Nat.pow 10 (9 - places), rest) := by
  have short : (padded places n).length ≤ 9 := by rwa [Text.length_padded positive fits]
  have run := readDigits_append (Text.isDigit_of_mem_padded places n) (Text.padded_ne_nil places n) short
    stops
  simp only [readFraction, run, Text.natural?_padded, Text.length_padded positive fits,
    stops.dropWhile_eq, bind, Option.bind]

/-- The fraction is exact in all of its four lengths. -/
theorem readFraction_writeFraction {nano : Nat} (h : nano < 1000000000) :
    readFraction (writeFraction nano ++ ['Z']) = some (nano, ['Z']) := by
  have stops : StopsDigits ['Z'] := Text.stopsDigits_cons.mpr (by decide)
  unfold writeFraction
  split
  case isTrue zero => rw [zero]; rfl
  case isFalse =>
    split
    case isTrue millis =>
      have few : nano / 1000000 < 1000 := by omega
      rw [List.cons_append, readFraction_point (by decide) (by decide) few stops]
      congr 2
      show nano / 1000000 * 1000000 = nano
      omega
    case isFalse =>
      split
      case isTrue micros =>
        have few : nano / 1000 < 1000000 := by omega
        rw [List.cons_append, readFraction_point (by decide) (by decide) few stops]
        congr 2
        show nano / 1000 * 1000 = nano
        omega
      case isFalse =>
        rw [List.cons_append, readFraction_point (by decide) (by decide) h stops]
        simp

theorem stopsDigits_writeFraction (nano : Nat) : StopsDigits (writeFraction nano ++ ['Z']) := by
  unfold writeFraction
  split
  · exact Text.stopsDigits_cons.mpr (by decide)
  · split
    · exact Text.stopsDigits_cons.mpr (by decide)
    · split <;> exact Text.stopsDigits_cons.mpr (by decide)

theorem readTime_writeTime (t : TimeOfDay) :
    readTime (writeTime t ++ ['Z']) = some (t, ['Z']) := by
  have colon (cs : List Char) : StopsDigits (':' :: cs) := Text.stopsDigits_cons.mpr (by decide)
  have hour_lt : t.hour < 100 := by have := t.hour_lt; omega
  have minute_lt : t.minute < 100 := by have := t.minute_lt; omega
  have second_lt : t.second < 100 := by have := t.second_le; omega
  have hour := readNumber_two hour_lt
    (colon (padded 2 t.minute ++ ':' :: (padded 2 t.second ++ (writeFraction t.nano ++ ['Z']))))
  have minute := readNumber_two minute_lt
    (colon (padded 2 t.second ++ (writeFraction t.nano ++ ['Z'])))
  have second := readNumber_two second_lt (stopsDigits_writeFraction t.nano)
  simp only [readTime, writeTime, List.append_assoc, List.cons_append, hour, minute, second, bind,
    Option.bind, Text.trimStart_cons_of_not_blank (c := ':') (by decide), readMark_cons,
    readFraction_writeFraction t.nano_lt, TimeOfDay.make?_self]

/-! ## Timestamps -/

/-- An offset of nothing changes nothing. -/
theorem minusMinutes?_zero (t : Timestamp) : t.minusMinutes? 0 = some t := by
  have hour_lt := t.time.hour_lt
  have minute_lt := t.time.minute_lt
  have clock : ((t.time.hour * 60 + t.time.minute - 0 : Int) % 1440).toNat =
      t.time.hour * 60 + t.time.minute := by omega
  have hour : (t.time.hour * 60 + t.time.minute) / 60 = t.time.hour := by omega
  have minute : (t.time.hour * 60 + t.time.minute) % 60 = t.time.minute := by omega
  have today : ¬ (t.time.hour * 60 + t.time.minute - 0 : Int) < 0 := by omega
  have today' : ¬ 1440 ≤ (t.time.hour * 60 + t.time.minute - 0 : Int) := by omega
  simp only [minusMinutes?, if_neg today, if_neg today', clock, hour, minute, TimeOfDay.make?_self,
    bind, Option.bind]

/-- The text of a timestamp is read as that timestamp. -/
theorem ofText?_write (t : Timestamp) : ofText? t.write = some t := by
  have separator : StopsDigits ('T' :: (writeTime t.time ++ ['Z'])) :=
    Text.stopsDigits_cons.mpr (by decide)
  have date := readDate_writeDate t.date separator
  have mark (cs : List Char) : readSeparator ('T' :: cs) = some cs := by simp [readSeparator]
  have offset : readOffset ['Z'] = some (0, []) := by simp [readOffset]
  simp only [ofText?, write, List.append_assoc, List.cons_append, date, mark, readTime_writeTime,
    Text.trimStart_cons_of_not_blank (c := 'Z') (by decide), offset, bind, Option.bind]
  exact minusMinutes?_zero t

end Timestamp

end FlowGraph
