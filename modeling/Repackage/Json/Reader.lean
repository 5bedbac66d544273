import Repackage.Json.Basic
import Repackage.Text.Hex
import Repackage.Text.Reader

/-!
Reading JSON text. A document is one value with blanks around it. An escape that is
half of a surrogate pair makes its string ill formed and leaves the rest readable.
-/

namespace Repackage
namespace Json
namespace Read

open Text (Reader expect oneOrMore hexValue?)

def skipBlanks (s : List Char) : List Char :=
  s.dropWhile fun c => c = ' ' || c = '\n' || c = '\r' || c = '\t'

/-- The unit that four hexadecimal digits give. -/
def hexUnit : Reader Nat
  | a :: b :: c :: d :: rest => do
      let a ← hexValue? a
      let b ← hexValue? b
      let c ← hexValue? c
      let d ← hexValue? d
      return (((a * 16 + b) * 16 + c) * 16 + d, rest)
  | _ => none

def simpleEscape? : Char → Option Char
  | '"' => some '"'
  | '\\' => some '\\'
  | '/' => some '/'
  | 'b' => some '\x08'
  | 'f' => some '\x0c'
  | 'n' => some '\n'
  | 'r' => some '\r'
  | 't' => some '\t'
  | _ => none

/-- One unit of a string: a character, or a UTF-16 unit that an escape names. -/
inductive StringUnit where
  | char (c : Char)
  | utf16 (n : Nat)

/-- The units of a string behind its opening quote, and the text behind the closing
one. -/
def stringUnits : Nat → Reader (List StringUnit)
  | 0, _ => none
  | _ + 1, [] => none
  | _ + 1, '"' :: rest => some ([], rest)
  | bound + 1, '\\' :: 'u' :: rest => do
      let (n, rest) ← hexUnit rest
      let (units, rest) ← stringUnits bound rest
      return (.utf16 n :: units, rest)
  | _ + 1, '\\' :: [] => none
  | bound + 1, '\\' :: c :: rest => do
      let c ← simpleEscape? c
      let (units, rest) ← stringUnits bound rest
      return (.char c :: units, rest)
  | bound + 1, c :: rest =>
      if c.toNat < 32 then none
      else do
        let (units, rest) ← stringUnits bound rest
        return (.char c :: units, rest)

/-- The text of the units, if every surrogate among them is half of a pair. -/
def textOf : List StringUnit → Option (List Char)
  | [] => some []
  | .char c :: rest => (textOf rest).map (c :: ·)
  | .utf16 n :: rest =>
      if 0xD800 ≤ n && n < 0xDC00 then
        match rest with
        | .utf16 m :: rest =>
            if 0xDC00 ≤ m && m < 0xE000 then
              (textOf rest).map (Char.ofNat (0x10000 + (n - 0xD800) * 0x400 + (m - 0xDC00)) :: ·)
            else none
        | _ => none
      else if 0xDC00 ≤ n && n < 0xE000 then none
      else (textOf rest).map (Char.ofNat n :: ·)

/-- Reads a string literal behind its opening quote; no text if it is ill formed. -/
def stringBody : Reader (Option String) := fun s => do
  let (units, rest) ← stringUnits (s.length + 1) s
  return ((textOf units).map String.ofList, rest)

/-- Reads at least one decimal digit. -/
def digits : Reader (List Char) :=
  oneOrMore Char.isDigit

/-- Reads the digits before the point, which start with a zero only if that is all. -/
def integerPart : Reader (List Char)
  | '0' :: rest => if (rest.head?.map Char.isDigit).getD false then none else some (['0'], rest)
  | s => digits s

def fraction : Reader (List Char)
  | '.' :: rest => do
      let (ds, rest) ← digits rest
      return ('.' :: ds, rest)
  | s => some ([], s)

def exponent : Reader (List Char)
  | e :: rest =>
      if e = 'e' || e = 'E' then do
        let (sign, rest) :=
          match rest with
          | '+' :: rest => (['+'], rest)
          | '-' :: rest => (['-'], rest)
          | _ => ([], rest)
        let (ds, rest) ← digits rest
        return (e :: sign ++ ds, rest)
      else some ([], e :: rest)
  | [] => some ([], [])

def number : Reader Json := fun s => do
  let (sign, s) :=
    match s with
    | '-' :: rest => (['-'], rest)
    | _ => ([], s)
  let (whole, s) ← integerPart s
  let (part, s) ← fraction s
  let (power, s) ← exponent s
  return (.number (String.ofList (sign ++ whole ++ part ++ power)), s)

/-- An object from its fields, if each key is text. -/
def ofFields (fields : List (Option String × Json)) : Json :=
  match fields.mapM fun field => field.1.map (·, field.2) with
  | some fields => .object fields
  | none => .illFormed

mutual

/-- Reads a value from a text without blanks in front. The bound is on the number of
values, items and fields that are read. -/
def value : Nat → Reader Json
  | 0, _ => none
  | bound + 1, s =>
      match s with
      | '"' :: rest => do
          let (text, rest) ← stringBody rest
          return ((text.map Json.string).getD .illFormed, rest)
      | '[' :: rest =>
          match skipBlanks rest with
          | ']' :: rest => some (.array [], rest)
          | rest => do
              let (items, rest) ← items bound rest
              return (.array items, rest)
      | '\x7b' :: rest =>
          match skipBlanks rest with
          | '\x7d' :: rest => some (.object [], rest)
          | rest => do
              let (fields, rest) ← fields bound rest
              return (ofFields fields, rest)
      | 'n' :: _ => do
          let ((), rest) ← expect ['n', 'u', 'l', 'l'] s
          return (.null, rest)
      | 't' :: _ => do
          let ((), rest) ← expect ['t', 'r', 'u', 'e'] s
          return (.bool true, rest)
      | 'f' :: _ => do
          let ((), rest) ← expect ['f', 'a', 'l', 's', 'e'] s
          return (.bool false, rest)
      | s => number s

/-- Reads the items of an array and its closing bracket. -/
def items : Nat → Reader (List Json)
  | 0, _ => none
  | bound + 1, s => do
      let (item, rest) ← value bound s
      match skipBlanks rest with
      | ',' :: rest => do
          let (more, rest) ← items bound (skipBlanks rest)
          return (item :: more, rest)
      | ']' :: rest => return ([item], rest)
      | _ => none

/-- Reads the fields of an object and its closing brace. -/
def fields : Nat → Reader (List (Option String × Json))
  | 0, _ => none
  | bound + 1, s =>
      match s with
      | '"' :: rest => do
          let (key, rest) ← stringBody rest
          match skipBlanks rest with
          | ':' :: rest => do
              let (item, rest) ← value bound (skipBlanks rest)
              match skipBlanks rest with
              | ',' :: rest => do
                  let (more, rest) ← fields bound (skipBlanks rest)
                  return ((key, item) :: more, rest)
              | '\x7d' :: rest => return ([(key, item)], rest)
              | _ => none
          | _ => none
      | _ => none

end

end Read

/-- The value that a document holds. Each value, item and field takes a character, so
the bound is never reached. -/
def parse? (document : String) : Option Json := do
  let s := Read.skipBlanks document.toList
  let (value, rest) ← Read.value (2 * s.length + 2) s
  if (Read.skipBlanks rest).isEmpty then some value else none

end Json
end Repackage
