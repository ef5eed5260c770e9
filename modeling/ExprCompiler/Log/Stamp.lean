import ExprCompiler.Text.Bytes

/-!
Points in time as log lines show them, in universal time with milliseconds.
-/

namespace ExprCompiler.Stamp

structure Date where
  year : Nat
  month : Nat
  day : Nat
  deriving DecidableEq, Repr

/-- The date of a day counted from the first of January 1970. Years are taken to start in March, so
that a leap day is the last day of its year, and eras of four hundred years are all alike. -/
def dateOfDay (dayNumber : Nat) : Date :=
  let shifted := dayNumber + 719468
  let era := shifted / 146097
  let dayOfEra := shifted % 146097
  let yearOfEra := (dayOfEra - dayOfEra / 1460 + dayOfEra / 36524 - dayOfEra / 146096) / 365
  let dayOfYear := dayOfEra - (365 * yearOfEra + yearOfEra / 4 - yearOfEra / 100)
  let shiftedMonth := (5 * dayOfYear + 2) / 153
  let month := if shiftedMonth < 10 then shiftedMonth + 3 else shiftedMonth - 9
  ⟨yearOfEra + era * 400 + (if month ≤ 2 then 1 else 0), month,
    dayOfYear - (153 * shiftedMonth + 2) / 5 + 1⟩

def digits : Nat → Nat → Bytes
  | 0, _ => []
  | width + 1, value => digits width (value / 10) ++ [UInt8.ofNat (48 + value % 10)]

/-- A time in milliseconds since the start of 1970. -/
def text (milliseconds : Nat) : Bytes :=
  let seconds := milliseconds / 1000
  let date := dateOfDay (seconds / 86400)
  digits 4 date.year ++ utf8 "-" ++ digits 2 date.month ++ utf8 "-" ++ digits 2 date.day ++
    utf8 "T" ++ digits 2 (seconds / 3600 % 24) ++ utf8 ":" ++ digits 2 (seconds / 60 % 60) ++
    utf8 ":" ++ digits 2 (seconds % 60) ++ utf8 "." ++ digits 3 (milliseconds % 1000) ++ utf8 "Z"

/-- An elapsed time in nanoseconds, in milliseconds with three places. -/
def elapsedText (nanoseconds : Nat) : Bytes :=
  Text.decimal (nanoseconds / 1000000) ++ utf8 "." ++ digits 3 (nanoseconds / 1000 % 1000) ++
    utf8 "ms"

end ExprCompiler.Stamp
