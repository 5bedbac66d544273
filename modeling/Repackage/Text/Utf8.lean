/-!
UTF-8: the bytes of a text, and the text that bytes show. Bytes that are no UTF-8 show a
replacement character for each longest run that begins a character and does not end it,
and for each byte that begins none.
-/

namespace Repackage
namespace Text

/-- The bytes of a text in UTF-8. -/
def bytes (text : String) : List UInt8 :=
  text.toUTF8.data.toList

/-- The least and the greatest byte that may stand at a place. -/
structure ByteRange where
  least : UInt8
  greatest : UInt8
  deriving DecidableEq, Repr

/-- A character of which some bytes have been read: the number that they spell, and the
bytes that are still to come. -/
structure Begun where
  spelled : Nat
  due : List ByteRange
  deriving DecidableEq, Repr

/-- What a byte behind the first of a character may be. -/
def continuation : ByteRange := ⟨0x80, 0xBF⟩

/-- What a byte begins, if a character can have it first. The second byte has narrower
bounds where the character could be written shorter, where it would be a surrogate, and
where it would be greater than the last one. -/
def begin? (byte : UInt8) : Option Begun :=
  if byte < 0x80 then some ⟨byte.toNat, []⟩
  else if byte < 0xC2 then none
  else if byte < 0xE0 then some ⟨byte.toNat % 32, [continuation]⟩
  else if byte = 0xE0 then some ⟨0, [⟨0xA0, 0xBF⟩, continuation]⟩
  else if byte = 0xED then some ⟨13, [⟨0x80, 0x9F⟩, continuation]⟩
  else if byte < 0xF0 then some ⟨byte.toNat % 16, [continuation, continuation]⟩
  else if byte = 0xF0 then some ⟨0, [⟨0x90, 0xBF⟩, continuation, continuation]⟩
  else if byte < 0xF4 then some ⟨byte.toNat % 8, [continuation, continuation, continuation]⟩
  else if byte = 0xF4 then some ⟨4, [⟨0x80, 0x8F⟩, continuation, continuation]⟩
  else none

/-- What stands for bytes that are no character. -/
def replacement : Char := '\uFFFD'

/-- The character, once its last byte has been read. -/
def settle (begun : Begun) : List Char × Option Begun :=
  if begun.due.isEmpty then ([Char.ofNat begun.spelled], none) else ([], some begun)

def readFirst (byte : UInt8) : List Char × Option Begun :=
  match begin? byte with
  | some begun => settle begun
  | none => ([replacement], none)

/-- Reads one more byte. A byte that cannot go on with what was begun puts a replacement
character in its place, and is read as a first byte. -/
def readByte : Option Begun → UInt8 → List Char × Option Begun
  | some ⟨spelled, range :: due⟩, byte =>
      if range.least ≤ byte && byte ≤ range.greatest then
        settle ⟨spelled * 64 + byte.toNat % 64, due⟩
      else (replacement :: (readFirst byte).1, (readFirst byte).2)
  | _, byte => readFirst byte

def readFrom (begun : Option Begun) : List UInt8 → List Char
  | [] => if begun.isSome then [replacement] else []
  | byte :: rest => (readByte begun byte).1 ++ readFrom (readByte begun byte).2 rest

/-- The text that bytes show, whether they are UTF-8 or not. -/
def lossy (bytes : List UInt8) : String :=
  String.ofList (readFrom none bytes)

end Text
end Repackage
