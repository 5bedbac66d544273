import Repackage.Text.Hex
import Repackage.Toml.Blank
import Repackage.Toml.Value

/-!
Integers and floats. Single underscores may stand between digits, and a decimal number
has no zeros in front.
-/

namespace Repackage
namespace Toml

open Text (Reader expect hexValue? decimalValue)

/-- The digits at the front of a text that continues a number, and the rest. -/
def moreDigits (isDigit : Char → Bool) : List Char → List Char × List Char
  | [] => ([], [])
  | '_' :: c :: rest =>
      if isDigit c then
        let (cs, rest) := moreDigits isDigit rest
        (c :: cs, rest)
      else ([], '_' :: c :: rest)
  | c :: rest =>
      if isDigit c then
        let (cs, rest) := moreDigits isDigit rest
        (c :: cs, rest)
      else ([], c :: rest)

/-- Reads digits with single underscores between them. -/
def digits (isDigit : Char → Bool) : Reader (List Char)
  | [] => none
  | c :: rest =>
      if isDigit c then
        let (cs, rest) := moreDigits isDigit rest
        some (c :: cs, rest)
      else none

/-- Reads the sign of a number; whether it is a minus. -/
def sign : List Char → Bool × List Char
  | '-' :: rest => (true, rest)
  | '+' :: rest => (false, rest)
  | s => (false, s)

/-- Reads the digits of a decimal number in front of its point. -/
def wholeDigits : Reader (List Char)
  | '0' :: rest => some (['0'], rest)
  | s => digits Char.isDigit s

/-- The integer with this sign and magnitude, if documents can hold it. -/
def integer? (negative : Bool) (magnitude : Nat) : Option Value :=
  let n := if negative then -Int.ofNat magnitude else Int.ofNat magnitude
  if leastInteger ≤ n && n ≤ greatestInteger then some (.integer n) else none

/-- Reads an integer behind the mark of its base. -/
def integerInBase (base : Nat) : Reader Value := fun s => do
  let isDigit (c : Char) : Bool := (hexValue? c).any (· < base)
  let (ds, s) ← digits isDigit s
  let values ← ds.mapM hexValue?
  let value ← integer? false (values.foldl (fun n digit => base * n + digit) 0)
  return (value, s)

/-- Reads the digits behind the point of a float, if there is a point. -/
def fraction : Reader (Option (List Char))
  | '.' :: rest => do
      let (ds, rest) ← digits Char.isDigit rest
      return (some ds, rest)
  | s => some (none, s)

/-- Reads the exponent of a float, if there is one. -/
def exponent : Reader (Option Int)
  | c :: rest =>
      if c = 'e' || c = 'E' then do
        let (negative, rest) := sign rest
        let (ds, rest) ← digits Char.isDigit rest
        let n := Int.ofNat (decimalValue ds)
        return (some (if negative then -n else n), rest)
      else some (none, c :: rest)
  | [] => some (none, [])

/-- The float with these digits, if it is not too great. -/
def float? (negative : Bool) (whole behind : List Char) (power : Int) : Option Value :=
  let value :=
    Binary64.ofDecimal negative (decimalValue (whole ++ behind)) (power - behind.length)
  if value = .infinite false then none else some (.float value)

/-- Reads a decimal number behind its sign. -/
def decimal (negative : Bool) : Reader Value := fun s => do
  let (whole, s) ← wholeDigits s
  let (behind, s) ← fraction s
  let (power, s) ← exponent s
  let value ←
    if behind.isNone && power.isNone then integer? negative (decimalValue whole)
    else float? negative whole (behind.getD []) (power.getD 0)
  return (value, s)

def number : Reader Value
  | '0' :: 'x' :: rest => integerInBase 16 rest
  | '0' :: 'o' :: rest => integerInBase 8 rest
  | '0' :: 'b' :: rest => integerInBase 2 rest
  | s =>
      let (negative, rest) := sign s
      match rest with
      | 'i' :: 'n' :: 'f' :: rest => some (.float (.infinite negative), rest)
      | 'n' :: 'a' :: 'n' :: rest => some (.float .nan, rest)
      | rest => decimal negative rest

end Toml
end Repackage
