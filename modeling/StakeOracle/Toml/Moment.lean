import StakeOracle.Text.Reader
import StakeOracle.Toml.Number

/-!
# Dates and times in settings

A date, a time of day, or both, in which case an offset from universal time may follow. Fields have
a fixed number of digits and a range, and the days of a month are counted with leap years.
-/

namespace StakeOracle.Toml

open Reader

/-- A field of a fixed number of digits that has to lie in a range. -/
def timeField (width low high : Nat) : Reader Nat := do
  let value := numberOf 10 (← times width Char.isDigit)
  require (low ≤ value && value ≤ high)
  return value

/-- Whether a year has a leap day. -/
def isLeapYear (year : Nat) : Bool := year % 4 = 0 && (year % 100 ≠ 0 || year % 400 = 0)

/-- The days of a month. -/
def daysOfMonth (year month : Nat) : Nat :=
  if month = 2 then if isLeapYear year then 29 else 28
  else if month = 4 ∨ month = 6 ∨ month = 9 ∨ month = 11 then 30
  else 31

/-- A date. -/
def date : Reader Unit := do
  let year ← timeField 4 0 9999
  char '-'
  let month ← timeField 2 1 12
  char '-'
  let _ ← timeField 2 1 (daysOfMonth year month)

/-- A time of day; a minute may have a leap second. -/
def timeOfDay : Reader Unit := do
  let _ ← timeField 2 0 23
  char ':'
  let _ ← timeField 2 0 59
  char ':'
  let _ ← timeField 2 0 60
  let _ ← optional do
    char '.'
    run1 Char.isDigit

/-- An offset from universal time. -/
def offset : Reader Unit := do
  let mark ← one fun c => c = 'Z' || c = 'z' || c = '+' || c = '-'
  if mark = '+' || mark = '-' then
    let _ ← timeField 2 0 23
    char ':'
    let _ ← timeField 2 0 59

/-- The time of day after a date, with its offset if there is one. -/
def timeAfterDate : Reader Unit := do
  let _ ← one fun c => c = 'T' || c = 't' || c = ' '
  timeOfDay
  let _ ← optional offset

/-- A date, a date with a time, or a time. -/
def moment : Reader Unit :=
  (do date; let _ ← optional timeAfterDate) <|> timeOfDay

end StakeOracle.Toml
