import Repackage.Text.Hex
import Repackage.Toml.Blank

/-!
TOML strings. A basic string has escapes and a literal one has none, and either may run
over several lines between tripled quotes.
-/

namespace Repackage
namespace Toml

open Text (Reader hexValue?)

/-- The character with this code point, if it is one. -/
def scalar? (n : Nat) : Option Char :=
  if n < 0xD800 || (0xDFFF < n && n ≤ 0x10FFFF) then some (Char.ofNat n) else none

/-- Reads so many hexadecimal digits as a code point. -/
def codePoint (count : Nat) : Reader Char := fun s => do
  let digits ← (s.take count).mapM hexValue?
  if digits.length = count then
    let c ← scalar? (digits.foldl (fun n digit => 16 * n + digit) 0)
    return (c, s.drop count)
  else none

/-- Reads an escape behind its backslash. -/
def escaped : Reader Char
  | 'b' :: rest => some ('\x08', rest)
  | 't' :: rest => some ('\t', rest)
  | 'n' :: rest => some ('\n', rest)
  | 'f' :: rest => some ('\x0c', rest)
  | 'r' :: rest => some ('\r', rest)
  | '"' :: rest => some ('"', rest)
  | '\\' :: rest => some ('\\', rest)
  | 'u' :: rest => codePoint 4 rest
  | 'U' :: rest => codePoint 8 rest
  | _ => none

/-- Reads a basic string of one line behind its opening quote. Each step takes a
character, and the bound is on the steps. -/
def basic : Nat → Reader (List Char)
  | _ + 1, '"' :: rest => some ([], rest)
  | bound + 1, '\\' :: rest => do
      let (c, rest) ← escaped rest
      let (cs, rest) ← basic bound rest
      return (c :: cs, rest)
  | bound + 1, c :: rest =>
      if isTextChar c then do
        let (cs, rest) ← basic bound rest
        return (c :: cs, rest)
      else none
  | _, _ => none

/-- Reads a literal string of one line behind its opening quote. -/
def literal : Reader (List Char) := fun s =>
  match s.dropWhile fun c => isTextChar c && c ≠ '\'' with
  | '\'' :: rest => some (s.takeWhile fun c => isTextChar c && c ≠ '\'', rest)
  | _ => none

/-- The text behind a backslash that ends its line: the line end is skipped, and so are
the blanks and line ends that follow it. -/
def continued? (s : List Char) : Option (List Char) := do
  let rest ← afterLineEnd? (skipBlanks s)
  return skipFillBlanks rest
where
  /-- Skips blanks and line ends. -/
  skipFillBlanks : List Char → List Char
    | [] => []
    | c :: rest =>
        if isBlank c || c = '\n' || (c = '\r' && rest.head? = some '\n') then
          skipFillBlanks rest
        else c :: rest

/-- Reads a string of several lines up to its closing quotes. Two quotes right before the
closing ones belong to the string. A line end is read as a line feed. -/
def multiline (quote : Char) (hasEscapes : Bool) : Nat → Reader (List Char)
  | 0, _ => none
  | _ + 1, [] => none
  | bound + 1, c :: rest =>
      if [quote, quote, quote].isPrefixOf (c :: rest) then
        let more := ((rest.drop 2).takeWhile (· = quote)).take 2
        some (more, rest.drop (2 + more.length))
      else if c = '\\' && hasEscapes then
        match continued? rest with
        | some rest => multiline quote hasEscapes bound rest
        | none => do
            let (c, rest) ← escaped rest
            let (cs, rest) ← multiline quote hasEscapes bound rest
            return (c :: cs, rest)
      else
        match afterLineEnd? (c :: rest) with
        | some rest => do
            let (cs, rest) ← multiline quote hasEscapes bound rest
            return ('\n' :: cs, rest)
        | none =>
            if isTextChar c then do
              let (cs, rest) ← multiline quote hasEscapes bound rest
              return (c :: cs, rest)
            else none

/-- Reads a string of several lines behind its opening quotes. A line end right behind
them is skipped. -/
def multilineBody (quote : Char) (hasEscapes : Bool) : Reader (List Char) := fun s =>
  let s := (afterLineEnd? s).getD s
  multiline quote hasEscapes (s.length + 1) s

/-- Reads a string of one line. -/
def singleLine : Reader String
  | '"' :: rest => do
      let (cs, rest) ← basic (rest.length + 1) rest
      return (String.ofList cs, rest)
  | '\'' :: rest => do
      let (cs, rest) ← literal rest
      return (String.ofList cs, rest)
  | _ => none

def string : Reader String
  | '"' :: '"' :: '"' :: rest => do
      let (cs, rest) ← multilineBody '"' true rest
      return (String.ofList cs, rest)
  | '\'' :: '\'' :: '\'' :: rest => do
      let (cs, rest) ← multilineBody '\'' false rest
      return (String.ofList cs, rest)
  | s => singleLine s

end Toml
end Repackage
