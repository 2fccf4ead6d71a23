/-!
# Calendar dates

Dates of the Gregorian calendar, extended to all years from -262143 to 262142. A date is valid by
construction. Stepping to the next day and back covers all that offsets need; the number of days since
a fixed one gives distances.
-/

namespace FlowGraph

def isLeapYear (year : Int) : Bool :=
  year % 4 == 0 && (year % 100 != 0 || year % 400 == 0)

def daysInMonth (year : Int) (month : Nat) : Nat :=
  match month with
  | 2 => if isLeapYear year then 29 else 28
  | 4 | 6 | 9 | 11 => 30
  | _ => 31

structure Date where
  year : Int
  month : Nat
  day : Nat
  year_mem : -262143 ≤ year ∧ year ≤ 262142
  month_mem : 1 ≤ month ∧ month ≤ 12
  day_mem : 1 ≤ day ∧ day ≤ daysInMonth year month
deriving DecidableEq

namespace Date

/-- The date with these numbers, if there is one. -/
def make? (year : Int) (month day : Nat) : Option Date :=
  if h : (-262143 ≤ year ∧ year ≤ 262142) ∧ (1 ≤ month ∧ month ≤ 12) ∧
      (1 ≤ day ∧ day ≤ daysInMonth year month) then
    some ⟨year, month, day, h.1, h.2.1, h.2.2⟩
  else none

/-- The first of January 1970. -/
def epoch : Date :=
  ⟨1970, 1, 1, by decide, by decide, by decide⟩

instance : Inhabited Date :=
  ⟨epoch⟩

/-- The day after, except after the last date of all. -/
def next? (d : Date) : Option Date :=
  (make? d.year d.month (d.day + 1)).or
    ((make? d.year (d.month + 1) 1).or (make? (d.year + 1) 1 1))

/-- The day before, except before the first date of all. -/
def previous? (d : Date) : Option Date :=
  if 1 < d.day then make? d.year d.month (d.day - 1)
  else if 1 < d.month then make? d.year (d.month - 1) (daysInMonth d.year (d.month - 1))
  else make? (d.year - 1) 12 31

/-- The date a number of days later, or the last date of all. -/
def later (d : Date) : Nat → Date
  | 0 => d
  | n + 1 =>
    match d.next? with
    | some d => d.later n
    | none => d

/-- The number of days in the months before a month. -/
def daysBefore (year : Int) (month : Nat) : Nat :=
  (List.range (month - 1)).foldl (fun days i => days + daysInMonth year (i + 1)) 0

/-- The number of days since the last day of the year -1. -/
def number (d : Date) : Int :=
  let y := d.year - 1
  365 * y + y / 4 - y / 100 + y / 400 + daysBefore d.year d.month + d.day

@[simp] theorem make?_self (d : Date) : make? d.year d.month d.day = some d := by
  simp [make?, d.year_mem, d.month_mem, d.day_mem]

end Date

end FlowGraph
