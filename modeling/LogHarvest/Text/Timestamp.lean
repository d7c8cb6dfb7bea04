import LogHarvest.Text.Blank

/-!
# Points in time

A point in time is written as a date and a time of the day in the calendar of the
world's standard time.  It is counted in hundredths of a second from the start of
the year 1970.
-/

namespace LogHarvest
namespace Text

def padded (width n : Nat) : String :=
  let digits := toString n
  String.ofList (List.replicate (width - digits.length) '0') ++ digits

/--
The year, month and day of the day with a number.  Years are taken from March on, so
that the day that is left out in most years is the last one; four hundred of them
have 146097 days, and the months from March on have 153 days in every five.
-/
def dateOf (day : Nat) : Nat × Nat × Nat :=
  let shifted := day + 719468
  let era := shifted / 146097
  let dayOfEra := shifted % 146097
  let yearOfEra := (dayOfEra - dayOfEra / 1460 + dayOfEra / 36524 - dayOfEra / 146096) / 365
  let dayOfYear := dayOfEra - (365 * yearOfEra + yearOfEra / 4 - yearOfEra / 100)
  let month := (5 * dayOfYear + 2) / 153
  let dayOfMonth := dayOfYear - (153 * month + 2) / 5 + 1
  let year := yearOfEra + era * 400
  if month < 10 then (year, month + 3, dayOfMonth) else (year + 1, month - 9, dayOfMonth)

def timestamp (hundredths : Nat) : String :=
  let seconds := hundredths / 100
  let (year, month, day) := dateOf (seconds / 86400)
  let ofDay := seconds % 86400
  let date := joined "-" [padded 4 year, padded 2 month, padded 2 day]
  let time :=
    joined ":" [padded 2 (ofDay / 3600), padded 2 (ofDay / 60 % 60), padded 2 (ofDay % 60)]
  let part := hundredths % 100
  let fraction :=
    if part == 0 then ""
    else if part % 10 == 0 then "." ++ toString (part / 10)
    else "." ++ padded 2 part
  date ++ "T" ++ time ++ fraction ++ "Z"

end Text
end LogHarvest
