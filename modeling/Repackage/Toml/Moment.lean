import Repackage.Toml.Blank

/-!
Dates and times. A date may be followed by a time, and a date with a time by an offset;
a time may stand alone.
-/

namespace Repackage
namespace Toml

open Text (Reader expect oneOrMore decimalValue)

/-- Reads a number of so many digits that is neither too small nor too great. -/
def digitsWithin (count least greatest : Nat) : Reader Nat := fun s =>
  let digits := s.take count
  let n := decimalValue digits
  if digits.length = count && digits.all Char.isDigit && least ≤ n && n ≤ greatest then
    some (n, s.drop count)
  else none

def isLeapYear (year : Nat) : Bool :=
  year % 4 = 0 && (year % 100 ≠ 0 || year % 400 = 0)

def daysIn (year month : Nat) : Nat :=
  if month = 2 then if isLeapYear year then 29 else 28
  else if [4, 6, 9, 11].contains month then 30
  else 31

def date : Reader Unit := fun s => do
  let (year, s) ← digitsWithin 4 0 9999 s
  let ((), s) ← expect ['-'] s
  let (month, s) ← digitsWithin 2 1 12 s
  let ((), s) ← expect ['-'] s
  let (_, s) ← digitsWithin 2 1 (daysIn year month) s
  return ((), s)

def hoursAndMinutes : Reader Unit := fun s => do
  let (_, s) ← digitsWithin 2 0 23 s
  let ((), s) ← expect [':'] s
  let (_, s) ← digitsWithin 2 0 59 s
  return ((), s)

/-- Reads the digits of parts of a second, if there are any. -/
def secondParts (s : List Char) : List Char :=
  match s with
  | '.' :: rest =>
      match oneOrMore Char.isDigit rest with
      | some (_, rest) => rest
      | none => s
  | s => s

/-- Reads a time of day. A minute may have a leap second. -/
def time : Reader Unit := fun s => do
  let ((), s) ← hoursAndMinutes s
  let ((), s) ← expect [':'] s
  let (_, s) ← digitsWithin 2 0 60 s
  return ((), secondParts s)

def offset : Reader Unit
  | 'Z' :: rest | 'z' :: rest => some ((), rest)
  | '+' :: rest | '-' :: rest => hoursAndMinutes rest
  | _ => none

def timeBehindDate : Reader Unit
  | 'T' :: rest | 't' :: rest | ' ' :: rest => time rest
  | _ => none

def moment : Reader Unit := fun s =>
  match date s with
  | none => time s
  | some ((), rest) =>
      match timeBehindDate rest with
      | none => some ((), rest)
      | some ((), rest) => some ((offset rest).getD ((), rest))

end Toml
end Repackage
