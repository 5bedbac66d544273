import Repackage.Text.Utf8

/-!
Names in directories. A name is any bytes, though most are texts in UTF-8. Names compare
byte by byte.
-/

namespace Repackage

structure FileName where
  bytes : List UInt8
  deriving DecidableEq, Repr

namespace FileName

def ofText (text : String) : FileName :=
  ⟨Text.bytes text⟩

instance : Coe String FileName :=
  ⟨ofText⟩

/-- The text that the name is in UTF-8, if it is one. -/
def text? (name : FileName) : Option String :=
  String.fromUTF8? ⟨⟨name.bytes⟩⟩

instance : LT FileName :=
  ⟨fun name other => name.bytes < other.bytes⟩

instance : DecidableLT FileName :=
  fun name other => inferInstanceAs (Decidable (name.bytes < other.bytes))

/-- A slash, which stands between the names of a path. -/
def slash : UInt8 := 0x2F

/-- The path that names make, in bytes. -/
def join : List FileName → List UInt8
  | [] => []
  | [name] => name.bytes
  | name :: next :: rest => name.bytes ++ slash :: join (next :: rest)

end FileName
end Repackage
