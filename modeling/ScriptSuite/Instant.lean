import ScriptSuite.Text.Numeral

/-!
# Instant — points in time and how they are written

An instant is a number of seconds since the beginning of 1970, and nanoseconds within the second.
It is written as RFC 3339 has it, in universal time: date, time, as many digits of the second's
fraction as are needed out of none, three, six and nine, and the offset.

Days become dates by counting in periods of 400 years from the first of March of year zero, so that
the leap day is the last of its year.
-/

namespace ScriptSuite

/-- A point in time. -/
structure Instant where
  seconds : Int
  nanoseconds : Nat
  deriving DecidableEq, Repr

namespace Instant

/-- The instant so many nanoseconds after the beginning of 1970. -/
def ofNanoseconds (n : Int) : Instant := ⟨n / 1000000000, (n % 1000000000).toNat⟩

/-- A date of the Gregorian calendar. -/
structure Date where
  year : Int
  month : Nat
  day : Nat
  deriving DecidableEq, Repr

/-- The days between the first of March of year zero and the beginning of 1970. -/
def daysToEpoch : Int := 719468

/-- The days in 400 years. -/
def daysInPeriod : Int := 146097

/-- The date that is so many days after the beginning of 1970. -/
def Date.ofDays (days : Int) : Date :=
  let z := days + daysToEpoch
  let period := z / daysInPeriod
  let inPeriod := (z % daysInPeriod).toNat
  let year := (inPeriod - inPeriod / 1460 + inPeriod / 36524 - inPeriod / 146096) / 365
  let inYear := inPeriod - (365 * year + year / 4 - year / 100)
  let fromMarch := (5 * inYear + 2) / 153
  let day := inYear - (153 * fromMarch + 2) / 5 + 1
  let month := if fromMarch < 10 then fromMarch + 3 else fromMarch - 9
  ⟨year + period * 400 + (if month ≤ 2 then 1 else 0), month, day⟩

/-- A year: four digits, and outside 0 to 9999 a sign in front. -/
def yearText (year : Int) : String :=
  if year < 0 then "-" ++ padded 4 year.natAbs
  else if year ≤ 9999 then padded 4 year.toNat
  else "+" ++ padded 4 year.toNat

/-- The fraction of a second, with no more digits than are needed out of none, three, six and
nine. -/
def fractionText (nanoseconds : Nat) : String :=
  if nanoseconds = 0 then ""
  else if nanoseconds % 1000000 = 0 then "." ++ padded 3 (nanoseconds / 1000000)
  else if nanoseconds % 1000 = 0 then "." ++ padded 6 (nanoseconds / 1000)
  else "." ++ padded 9 nanoseconds

/-- **An instant as text.**  Nanoseconds past the second are a leap second. -/
def text (i : Instant) : String :=
  let date := Date.ofDays (i.seconds / 86400)
  let inDay := (i.seconds % 86400).toNat
  let second := inDay % 60 + i.nanoseconds / 1000000000
  yearText date.year ++ "-" ++ padded 2 date.month ++ "-" ++ padded 2 date.day ++ "T" ++
    padded 2 (inDay / 3600) ++ ":" ++ padded 2 (inDay / 60 % 60) ++ ":" ++ padded 2 second ++
    fractionText (i.nanoseconds % 1000000000) ++ "+00:00"

end Instant

end ScriptSuite
