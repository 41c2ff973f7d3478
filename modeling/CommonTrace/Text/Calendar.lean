/-!
# Time stamps in calendar form

A time that counts from the Unix epoch is written in the form of RFC 3339: date, `T`, time of day
with nine decimals, and `Z` for Coordinated Universal Time.

The date comes from counting days in years that start on the first of March, so that a leap day is
the last day of its year.  Four hundred such years are an era of 146097 days.

This follows the documentation of the `chrono` library: a time is made of the seconds since the
epoch, none of them a leap second, and the nanoseconds behind the last of them, and it is written in
the Gregorian calendar with all nine decimals and with `Z` in place of an offset of zero.
Nanoseconds of sixty-four bits end in the year 2554, so there is a date for each of them.
-/

namespace CommonTrace.Calendar

/-- A day of the Gregorian calendar. -/
structure Date where
  year : Nat
  month : Nat
  day : Nat
deriving DecidableEq, Repr

/-- The day that comes `days` days after the first of January 1970. -/
def dateOfDay (days : Nat) : Date :=
  -- 719468 days lie between the first of March of the year 0 and the epoch
  let shifted := days + 719468
  let era := shifted / 146097
  let dayOfEra := shifted % 146097
  let yearOfEra := (dayOfEra - dayOfEra / 1460 + dayOfEra / 36524 - dayOfEra / 146096) / 365
  let dayOfYear := dayOfEra - (365 * yearOfEra + yearOfEra / 4 - yearOfEra / 100)
  let monthFromMarch := (5 * dayOfYear + 2) / 153
  let month := if monthFromMarch < 10 then monthFromMarch + 3 else monthFromMarch - 9
  { year := yearOfEra + era * 400 + if month ≤ 2 then 1 else 0
    month
    day := dayOfYear - (153 * monthFromMarch + 2) / 5 + 1 }

def padded (width n : Nat) : String :=
  let digits := toString n
  String.ofList (List.replicate (width - digits.length) '0') ++ digits

/-- The text of a time given in nanoseconds since the epoch. -/
def rfc3339 (nanoseconds : Nat) : String :=
  let seconds := nanoseconds / 1000000000
  let date := dateOfDay (seconds / 86400)
  let second := seconds % 86400
  let day := s!"{padded 4 date.year}-{padded 2 date.month}-{padded 2 date.day}"
  let clock := s!"{padded 2 (second / 3600)}:{padded 2 (second / 60 % 60)}:{padded 2 (second % 60)}"
  s!"{day}T{clock}.{padded 9 (nanoseconds % 1000000000)}Z"

end CommonTrace.Calendar
