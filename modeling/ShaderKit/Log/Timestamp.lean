namespace ShaderKit.Log

/-!
# Time stamps

A moment is a number of milliseconds since the start of 1970, negative before it. It is written as
date and time of day in the proleptic Gregorian calendar.

* `civilDate` — year, month and day of a day number
* `timestamp` — `YYYY-MM-DD HH:MM:SS.mmm`; a year outside 0 to 9999 carries its sign
-/

/-- A day of the Gregorian calendar. -/
structure CivilDate where
  year : Int
  month : Nat
  day : Nat
  deriving DecidableEq, Repr

/-- The day that lies `n` days after the first of January 1970. Years are counted from March, so
    that the leap day is the last of its year; 146097 days make 400 years. -/
def civilDate (n : Int) : CivilDate :=
  let z := n + 719468
  let era := z.fdiv 146097
  let dayOfEra := (z.fmod 146097).toNat
  let yearOfEra := (dayOfEra - dayOfEra / 1460 + dayOfEra / 36524 - dayOfEra / 146096) / 365
  let dayOfYear := dayOfEra - (365 * yearOfEra + yearOfEra / 4 - yearOfEra / 100)
  let monthFromMarch := (5 * dayOfYear + 2) / 153
  let month := if monthFromMarch < 10 then monthFromMarch + 3 else monthFromMarch - 9
  { year := era * 400 + yearOfEra + (if month ≤ 2 then 1 else 0)
    month
    day := dayOfYear - (153 * monthFromMarch + 2) / 5 + 1 }

/-- The decimal digits of `n`, with zeros in front up to `width`. -/
def padded (width n : Nat) : String :=
  let digits := Nat.toDigits 10 n
  String.ofList (List.replicate (width - digits.length) '0' ++ digits)

/-- A year of four digits; outside 0 to 9999 with a sign in front. -/
def yearText (year : Int) : String :=
  if 0 ≤ year ∧ year ≤ 9999 then padded 4 year.toNat
  else (if year < 0 then "-" else "+") ++ padded 4 year.natAbs

/-- The date and time of day of a moment. -/
def timestamp (milliseconds : Int) : String :=
  let date := civilDate (milliseconds.fdiv 86400000)
  let time := (milliseconds.fmod 86400000).toNat
  let dateText := s!"{yearText date.year}-{padded 2 date.month}-{padded 2 date.day}"
  let hours := padded 2 (time / 3600000)
  let minutes := padded 2 (time / 60000 % 60)
  let seconds := padded 2 (time / 1000 % 60)
  s!"{dateText} {hours}:{minutes}:{seconds}.{padded 3 (time % 1000)}"

example : timestamp 0 = "1970-01-01 00:00:00.000" := by decide +kernel

example : timestamp (-1) = "1969-12-31 23:59:59.999" := by decide +kernel

example : timestamp 951827696789 = "2000-02-29 12:34:56.789" := by decide +kernel

end ShaderKit.Log
