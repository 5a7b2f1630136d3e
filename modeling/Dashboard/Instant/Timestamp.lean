import Dashboard.Instant
import Dashboard.Instant.Calendar
import Dashboard.Text.Scanner

/-!
# Timestamps

A timestamp is a date, a time of day and an offset from universal time. It is written in
universal time as `2024-05-01T12:00:00.250Z`, with the fewest of no, three, six or nine
digits of fraction that are exact.

Reading is more lenient. Blanks may stand between the fields of the date and of the time,
numbers may lack leading zeros, a blank or a small letter may stand for the `T`, a second
numbered sixty is a leap second, and the offset may be written with or without a colon.
-/

namespace Dashboard.Timestamp

/-! ### Writing -/

/-- A number with leading zeros up to a width. -/
def padded (width n : Nat) : List Char :=
  let digits := Nat.toDigits 10 n
  List.replicate (width - digits.length) '0' ++ digits

/-- A year: four digits, and a sign if that is not enough or the year is negative. -/
def yearText (year : Int) : List Char :=
  if 0 ≤ year ∧ year ≤ 9999 then padded 4 year.toNat
  else (if year < 0 then '-' else '+') :: padded 4 year.natAbs

/-- The fraction of a second, with the fewest digits that are exact. -/
def fractionText (nanos : Nat) : List Char :=
  if nanos = 0 then []
  else if nanos % 1000000 = 0 then '.' :: padded 3 (nanos / 1000000)
  else if nanos % 1000 = 0 then '.' :: padded 6 (nanos / 1000)
  else '.' :: padded 9 nanos

/-- The timestamp of an instant. -/
def render (t : Instant) : String :=
  let date := Calendar.Date.ofDayNumber (t.seconds / 86400)
  let second := (t.seconds % 86400).toNat
  let leap := if t.isLeap then 1 else 0
  let nanos := (t.nanos % nanosPerSecond).toNat
  String.ofList (
    yearText date.year ++ '-' :: padded 2 date.month.toNat ++ '-' :: padded 2 date.day.toNat ++
    'T' :: padded 2 (second / 3600) ++ ':' :: padded 2 (second / 60 % 60) ++
    ':' :: padded 2 (second % 60 + leap) ++ fractionText nanos ++ ['Z'])

/-! ### Reading -/

open Text (Scanner)
open Text.Scanner

/-- Takes a field of one or two digits that lies between bounds, behind blanks. -/
def field (low high : Nat) : Scanner Nat := do
  blanks
  let n := Decimal.natOfDigits (← digits 2)
  if low ≤ n ∧ n ≤ high then return n else failure

/-- Takes a character behind blanks. -/
def mark (c : Char) : Scanner Unit := do
  blanks
  char c

/-- Takes a year: up to four digits, or a sign and any number of digits. -/
def signedYear : Scanner Int := do
  blanks
  match ← get with
  | '-' :: rest => do
    set rest
    return -(Decimal.natOfDigits (← digits rest.length) : Int)
  | '+' :: rest => do
    set rest
    return (Decimal.natOfDigits (← digits rest.length) : Int)
  | _ => return (Decimal.natOfDigits (← digits 4) : Int)

/-- Takes a year that the calendar of timestamps reaches. -/
def year : Scanner Int := do
  let n ← signedYear
  if -262143 ≤ n ∧ n ≤ 262142 then return n else failure

/-- Takes the fraction of a second, in nanoseconds. Digits after the ninth count nothing. -/
def fraction : Scanner Nat :=
  (do
    char '.'
    let taken ← digits 9
    skipWhile Text.isDigit
    return Decimal.natOfDigits taken * Nat.pow 10 (9 - taken.length)) <|>
  (do
    if ← ahead '.' then failure else return 0)

/-- Takes the hours and minutes of an offset, in seconds. -/
def hoursAndMinutes : Scanner Int := do
  let sign ← satisfying fun c => c == '+' || c == '-' || c == '−'
  let hours ← fixed 2 0 23
  skipWhile fun c => c == ':' || Text.isBlank c
  let minutes ← fixed 2 0 59
  let seconds : Int := hours * 3600 + minutes * 60
  return if sign = '+' then seconds else -seconds

/-- Takes the word for universal time, in small or capital letters. -/
def universal : Scanner Int := fun text =>
  if (text.take 3).map Char.toUpper = ['U', 'T', 'C'] then some (0, text.drop 3) else none

/-- Takes an offset from universal time, in seconds. -/
def offset : Scanner Int := do
  blanks
  universal <|> (do
    let _ ← satisfying fun c => c == 'Z' || c == 'z'
    return 0) <|> hoursAndMinutes

/-- Takes a date. -/
def date : Scanner Calendar.Date := do
  let y ← year
  mark '-'
  let m ← field 1 12
  mark '-'
  let d ← field 1 31
  let date : Calendar.Date := ⟨y, m, d⟩
  if date.exists then return date else failure

/-- Takes a timestamp. -/
def instant : Scanner Instant := do
  let date ← date
  let _ ← satisfying fun c => c == 'T' || c == 't' || c == ' '
  let hour ← field 0 23
  mark ':'
  let minute ← field 0 59
  mark ':'
  let second ← field 0 60
  let nanos ← fraction
  let offset ← offset
  blanks
  let leap := if second = 60 then 1 else 0
  return {
    seconds := date.dayNumber * 86400 + hour * 3600 + minute * 60 + (second - leap) - offset
    nanos := nanos + leap * nanosPerSecond }

/-- The instant that a timestamp denotes. -/
def read? (text : String) : Option Instant :=
  instant.whole? text

end Dashboard.Timestamp
