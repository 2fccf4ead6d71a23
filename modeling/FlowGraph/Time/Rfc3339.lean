import FlowGraph.Text.Blank
import FlowGraph.Text.Decimal
import FlowGraph.Time.Timestamp

/-!
# Timestamps as RFC 3339 texts

Written, a timestamp has a date, a `T`, a time of day and a `Z`. A year outside 0 to 9999 has a sign.
The fraction of the second has as many digits as it needs out of none, three, six and nine.

Reading takes more than writing gives: blanks around the parts, other separators between date and time,
numbers without leading zeros, fractions finer than a nanosecond, which are cut, and any offset of less
than a day, which is taken off.
-/

namespace FlowGraph.Timestamp

open Text (padded isDigit natural? trimStart)

/-- Four digits, or a sign and at least four. -/
def writeYear (year : Int) : List Char :=
  if 0 ≤ year ∧ year ≤ 9999 then padded 4 year.natAbs
  else (if year < 0 then '-' else '+') :: padded 4 year.natAbs

def writeDate (d : Date) : List Char :=
  writeYear d.year ++ '-' :: padded 2 d.month ++ '-' :: padded 2 d.day

/-- The fraction of a second, in the fewest groups of three digits. -/
def writeFraction (nano : Nat) : List Char :=
  if nano = 0 then []
  else if nano % 1000000 = 0 then '.' :: padded 3 (nano / 1000000)
  else if nano % 1000 = 0 then '.' :: padded 6 (nano / 1000)
  else '.' :: padded 9 nano

def writeTime (t : TimeOfDay) : List Char :=
  padded 2 t.hour ++ ':' :: padded 2 t.minute ++ ':' :: padded 2 t.second ++ writeFraction t.nano

/-- The text of a timestamp. -/
def write (t : Timestamp) : List Char :=
  writeDate t.date ++ 'T' :: writeTime t.time ++ ['Z']

def text (t : Timestamp) : String :=
  String.ofList t.write

/-- Reads a character. -/
def readMark (mark : Char) : List Char → Option (List Char)
  | c :: rest => if c = mark then some rest else none
  | [] => none

/-- Reads as many digits as there are, but at most `most` and at least one. -/
def readDigits (most : Nat) (cs : List Char) : Option (List Char × List Char) :=
  let ds := (cs.take most).takeWhile isDigit
  if ds.isEmpty then none else some (ds, cs.drop ds.length)

/-- Reads a number of at most `most` digits, after blanks. -/
def readNumber (most : Nat) (cs : List Char) : Option (Nat × List Char) := do
  let (ds, rest) ← readDigits most (trimStart cs)
  let n ← natural? ds
  some (n, rest)

/-- Reads a year, after blanks: at most four digits, or a sign and any number of digits. -/
def readYear (cs : List Char) : Option (Int × List Char) :=
  match trimStart cs with
  | c :: rest =>
    if c = '-' ∨ c = '+' then do
      let (ds, rest) ← readDigits rest.length rest
      let n ← natural? ds
      some (if c = '-' then -(n : Int) else n, rest)
    else do
      let (n, rest) ← readNumber 4 (c :: rest)
      some (n, rest)
  | [] => none

def readDate (cs : List Char) : Option (Date × List Char) := do
  let (year, cs) ← readYear cs
  let cs ← readMark '-' (trimStart cs)
  let (month, cs) ← readNumber 2 cs
  let cs ← readMark '-' (trimStart cs)
  let (day, cs) ← readNumber 2 cs
  let date ← Date.make? year month day
  some (date, cs)

/-- Reads what may stand between date and time. -/
def readSeparator : List Char → Option (List Char)
  | c :: rest => if c = 't' ∨ c = 'T' ∨ c = ' ' then some rest else none
  | [] => none

/-- Reads the fraction of a second as nanoseconds; without a point there is none. Digits after the
ninth do not count. -/
def readFraction : List Char → Option (Nat × List Char)
  | '.' :: cs => do
    let (ds, cs) ← readDigits 9 cs
    let n ← natural? ds
    some (n * Nat.pow 10 (9 - ds.length), cs.dropWhile isDigit)
  | cs => some (0, cs)

def readTime (cs : List Char) : Option (TimeOfDay × List Char) := do
  let (hour, cs) ← readNumber 2 cs
  let cs ← readMark ':' (trimStart cs)
  let (minute, cs) ← readNumber 2 cs
  let cs ← readMark ':' (trimStart cs)
  let (second, cs) ← readNumber 2 cs
  let (nano, cs) ← readFraction cs
  let time ← TimeOfDay.make? hour minute second nano
  some (time, cs)

/-- Reads two digits. -/
def readPair : List Char → Option (Nat × List Char)
  | a :: b :: rest => do
    let a ← Text.digitValue? a
    let b ← Text.digitValue? b
    some (10 * a + b, rest)
  | _ => none

/-- Reads the hours and minutes of an offset, in minutes. Any colons and blanks may stand between
them. -/
def readClock (cs : List Char) : Option (Nat × List Char) := do
  let (hours, cs) ← readPair cs
  let (minutes, cs) ← readPair (cs.dropWhile fun c => c = ':' ∨ Text.isBlank c)
  if minutes < 60 ∧ hours < 24 then some (60 * hours + minutes, cs) else none

/-- Reads an offset in minutes: `Z` or `UTC` in letters of either case, or a sign and hours and
minutes. The sign may be a true minus. -/
def readOffset : List Char → Option (Int × List Char)
  | [] => none
  | c :: rest =>
    if c = 'Z' ∨ c = 'z' then some (0, rest)
    else if c = '+' then (readClock rest).map fun (m, rest) => ((m : Int), rest)
    else if c = '-' ∨ c = '−' then (readClock rest).map fun (m, rest) => (-(m : Int), rest)
    else
      match c :: rest with
      | u :: t :: c :: rest =>
        if (u = 'U' ∨ u = 'u') ∧ (t = 'T' ∨ t = 't') ∧ (c = 'C' ∨ c = 'c') then some (0, rest)
        else none
      | _ => none

/-- The timestamp that a text holds. -/
def ofText? (cs : List Char) : Option Timestamp := do
  let (date, cs) ← readDate cs
  let cs ← readSeparator cs
  let (time, cs) ← readTime cs
  let (offset, cs) ← readOffset (trimStart cs)
  if (trimStart cs).isEmpty then Timestamp.minusMinutes? ⟨date, time⟩ offset else none

end FlowGraph.Timestamp
