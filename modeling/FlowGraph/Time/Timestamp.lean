import FlowGraph.Time.Date

/-!
# Timestamps

A timestamp is a date and a time of day of coordinated universal time, to the nanosecond. A minute may
have a sixty-first second, the leap second; a distance counts it only where it lies strictly between
the two times.
-/

namespace FlowGraph

structure TimeOfDay where
  hour : Nat
  minute : Nat
  second : Nat
  nano : Nat
  hour_lt : hour < 24
  minute_lt : minute < 60
  second_le : second ≤ 60
  nano_lt : nano < 1000000000
deriving DecidableEq

namespace TimeOfDay

/-- The time with these numbers, if there is one. -/
def make? (hour minute second nano : Nat) : Option TimeOfDay :=
  if h : hour < 24 ∧ minute < 60 ∧ second ≤ 60 ∧ nano < 1000000000 then
    some ⟨hour, minute, second, nano, h.1, h.2.1, h.2.2.1, h.2.2.2⟩
  else none

def midnight : TimeOfDay :=
  ⟨0, 0, 0, 0, by decide, by decide, by decide, by decide⟩

instance : Inhabited TimeOfDay :=
  ⟨midnight⟩

/-- Seconds since midnight, a leap second counting with the second before it. -/
def seconds (t : TimeOfDay) : Int :=
  t.hour * 3600 + t.minute * 60 + min t.second 59

/-- Nanoseconds since that second, more than a whole second during a leap second. -/
def fraction (t : TimeOfDay) : Int :=
  if t.second = 60 then t.nano + 1000000000 else t.nano

@[simp] theorem make?_self (t : TimeOfDay) : make? t.hour t.minute t.second t.nano = some t := by
  rw [make?, dif_pos ⟨t.hour_lt, t.minute_lt, t.second_le, t.nano_lt⟩]

end TimeOfDay

structure Timestamp where
  date : Date
  time : TimeOfDay
deriving DecidableEq, Inhabited

namespace Timestamp

/-- The time that is `minutes` less on the clock, for an offset of less than a day. -/
def minusMinutes? (t : Timestamp) (minutes : Int) : Option Timestamp := do
  let total : Int := t.time.hour * 60 + t.time.minute - minutes
  let date ←
    if total < 0 then t.date.previous?
    else if 1440 ≤ total then t.date.next?
    else some t.date
  let clock := (total % 1440).toNat
  let time ← TimeOfDay.make? (clock / 60) (clock % 60) t.time.second t.time.nano
  some ⟨date, time⟩

/-- The time a number of milliseconds after the start of 1970. -/
def ofMillis (ms : Nat) : Timestamp where
  date := Date.epoch.later (ms / 86400000)
  time :=
    { hour := ms / 3600000 % 24
      minute := ms / 60000 % 60
      second := ms / 1000 % 60
      nano := ms % 1000 * 1000000
      hour_lt := by omega
      minute_lt := by omega
      second_le := by omega
      nano_lt := by omega }

/-- The distance in nanoseconds from one timestamp to another. -/
def nanosSince (finish start : Timestamp) : Int :=
  let seconds := finish.time.seconds - start.time.seconds
  let fraction := finish.time.fraction - start.time.fraction
  let leap : Int :=
    if start.time.seconds < finish.time.seconds ∧ start.time.second = 60 then 1
    else if finish.time.seconds < start.time.seconds ∧ finish.time.second = 60 then -1
    else 0
  ((finish.date.number - start.date.number) * 86400 + seconds + leap) * 1000000000 + fraction

/-- The distance in whole milliseconds, what is left over being dropped. -/
def millisSince (finish start : Timestamp) : Int :=
  (finish.nanosSince start).tdiv 1000000

end Timestamp

end FlowGraph
