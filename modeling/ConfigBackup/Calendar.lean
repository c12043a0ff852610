import Mathlib.Data.Int.Basic
import Mathlib.Tactic.Common

/-!
Instants and their proleptic Gregorian calendar in UTC. An instant counts
microseconds from 1970-01-01T00:00:00Z; a date counts days from that day.
Year, month and day follow the civil-from-days computation in eras of 400
years; an ISO week belongs to the year of its Thursday.
-/

namespace ConfigBackup.Calendar

abbrev Instant := ℤ

abbrev Date := ℤ

def microsecondsPerSecond : ℤ := 1000000

def minutes (n : ℕ) : ℤ := n * 60 * microsecondsPerSecond

def days (n : ℕ) : ℤ := n * 86400 * microsecondsPerSecond

/-- `datetime.min`, the first microsecond of year 1. -/
def minInstant : Instant := -62135596800 * microsecondsPerSecond

/-- `now - timedelta(days=n)`, which raises `OverflowError` before year 1. -/
def daysBefore (now : Instant) (n : ℕ) : Option Instant :=
  if now - days n < minInstant then none else some (now - days n)

/-- The UTC date of an instant. -/
def date (t : Instant) : Date := t / (86400 * microsecondsPerSecond)

/-- Monday is 0; the epoch was a Thursday. -/
def weekday (d : Date) : ℤ := (d + 3) % 7

/-- The Monday of the date's week. -/
def weekStart (d : Date) : Date := d - weekday d

structure Civil where
  year : ℤ
  month : ℤ
  day : ℤ
deriving DecidableEq, Repr

/-- Day of a 400-year era to year of the era, both counted from 1 March. -/
def yearOfEra (doe : ℤ) : ℤ := (doe - doe / 1460 + doe / 36524 - doe / 146096) / 365

def civil (d : Date) : Civil :=
  let z := d + 719468
  let era := z / 146097
  let doe := z % 146097
  let yoe := yearOfEra doe
  let doy := doe - (365 * yoe + yoe / 4 - yoe / 100)
  let mp := (5 * doy + 2) / 153
  let month := if mp < 10 then mp + 3 else mp - 9
  { year := yoe + era * 400 + (if month ≤ 2 then 1 else 0)
    month := month
    day := doy - (153 * mp + 2) / 5 + 1 }

def year (d : Date) : ℤ := (civil d).year

def month (d : Date) : ℤ := (civil d).month

/-- The date of a civil year, month and day. -/
def ofCivil (y m d : ℤ) : Date :=
  let y' := if m ≤ 2 then y - 1 else y
  let era := y' / 400
  let yoe := y' % 400
  let doy := (153 * (if m > 2 then m - 3 else m + 9) + 2) / 5 + d - 1
  era * 146097 + (yoe * 365 + yoe / 4 - yoe / 100 + doy) - 719468

/-- ISO year and ISO week number of a date. -/
def isoWeek (d : Date) : ℤ × ℤ :=
  let thursday := weekStart d + 3
  (year thursday, (thursday - ofCivil (year thursday) 1 1) / 7 + 1)

example : civil 20590 = ⟨2026, 5, 17⟩ ∧ isoWeek (ofCivil 2027 1 3) = (2026, 53) := by decide

end ConfigBackup.Calendar
