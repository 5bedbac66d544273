import Mathlib.Data.UInt
import Mathlib.Tactic.SplitIfs
import Repackage.Text.Utf8

/-!
What bytes show. The bytes of a text show the text: the first byte of a character leaves as many
to come as the character has, each within its bounds, and they spell its code point.
-/

namespace Repackage
namespace Text

theorem bytes_eq (text : String) : bytes text = text.toList.flatMap String.utf8EncodeChar := by
  have encoded : text.toByteArray = text.toList.utf8Encode := by
    rw [← String.toByteArray_ofList, String.ofList_toList]
  rw [bytes, String.toUTF8, encoded, List.utf8Encode, List.toList_data_toByteArray]

theorem bytes_append (a b : String) : bytes (a ++ b) = bytes a ++ bytes b := by
  simp only [bytes_eq, String.toList_append, List.flatMap_append]

theorem bytes_injective : Function.Injective bytes := by
  intro a b same
  apply String.toByteArray_inj.mp
  exact ByteArray.ext (Array.toList_inj.mp same)

theorem length_bytes (text : String) : (bytes text).length = text.utf8ByteSize :=
  rfl

section Reading

/-- All that is read, after what a byte has given. -/
def readOn (read : List Char × Option Begun) (rest : List UInt8) : List Char :=
  read.1 ++ readFrom read.2 rest

theorem readOn_settle_nil (spelled : Nat) (rest : List UInt8) :
    readOn (settle ⟨spelled, []⟩) rest = Char.ofNat spelled :: readFrom none rest :=
  rfl

/-- A byte within its bounds adds six bits to what is spelled. -/
theorem readOn_settle_cons {spelled value : Nat} {range : ByteRange} {due : List ByteRange}
    (least : range.least.toNat ≤ value) (greatest : value ≤ range.greatest.toNat)
    (rest : List UInt8) :
    readOn (settle ⟨spelled, range :: due⟩) (UInt8.ofNat value :: rest)
      = readOn (settle ⟨spelled * 64 + value % 64, due⟩) rest := by
  have size : (UInt8.ofNat value).toNat = value :=
    UInt8.toNat_ofNat_of_lt' (Nat.lt_of_le_of_lt greatest range.greatest.toNat_lt)
  simp [readOn, settle, readFrom, readByte, UInt8.le_iff_toNat_le, size, least, greatest]

theorem continuation_bounds {bits : Nat} (few : bits < 64) :
    continuation.least.toNat ≤ bits + 128 ∧ bits + 128 ≤ continuation.greatest.toNat :=
  ⟨Nat.le_add_left 128 bits, Nat.add_le_add_right (Nat.le_of_lt_succ few) 128⟩

theorem readOn_continuation {spelled bits : Nat} {due : List ByteRange} (few : bits < 64)
    (rest : List UInt8) :
    readOn (settle ⟨spelled, continuation :: due⟩) (UInt8.ofNat (bits + 128) :: rest)
      = readOn (settle ⟨spelled * 64 + bits, due⟩) rest := by
  obtain ⟨least, greatest⟩ := continuation_bounds few
  rw [readOn_settle_cons least greatest]
  congr 3
  omega

theorem readFrom_first {value : Nat} {begun : Begun}
    (first : begin? (UInt8.ofNat value) = some begun) (rest : List UInt8) :
    readFrom none (UInt8.ofNat value :: rest) = readOn (settle begun) rest := by
  simp [readFrom, readByte, readFirst, first, readOn]

theorem begin?_ofNat {value : Nat} (small : value < 256) : begin? (UInt8.ofNat value) =
    if value < 0x80 then some ⟨value, []⟩
    else if value < 0xC2 then none
    else if value < 0xE0 then some ⟨value % 32, [continuation]⟩
    else if value = 0xE0 then some ⟨0, [⟨0xA0, 0xBF⟩, continuation]⟩
    else if value = 0xED then some ⟨13, [⟨0x80, 0x9F⟩, continuation]⟩
    else if value < 0xF0 then some ⟨value % 16, [continuation, continuation]⟩
    else if value = 0xF0 then some ⟨0, [⟨0x90, 0xBF⟩, continuation, continuation]⟩
    else if value < 0xF4 then some ⟨value % 8, [continuation, continuation, continuation]⟩
    else if value = 0xF4 then some ⟨4, [⟨0x80, 0x8F⟩, continuation, continuation]⟩
    else none := by
  have size : (UInt8.ofNat value).toNat = value := UInt8.toNat_ofNat_of_lt' small
  simp only [begin?, UInt8.lt_iff_toNat_lt, ← UInt8.toNat_inj, UInt8.reduceToNat, size]

end Reading

section Encoded

variable {v : Nat}

theorem begin?_one (most : v ≤ 127) : begin? (UInt8.ofNat v) = some ⟨v, []⟩ := by
  rw [begin?_ofNat (by omega), if_pos (by omega)]

theorem begin?_two (least : 127 < v) (most : v ≤ 2047) :
    begin? (UInt8.ofNat (v / 64 % 32 + 192)) = some ⟨v / 64, [continuation]⟩ := by
  rw [begin?_ofNat (by omega), if_neg (by omega), if_neg (by omega), if_pos (by omega)]
  congr 2
  omega

theorem begin?_three (least : 2047 < v) (most : v ≤ 65535)
    (valid : v < 0xD800 ∨ 0xDFFF < v ∧ v < 0x110000) :
    ∃ range, begin? (UInt8.ofNat (v / 4096 % 16 + 224))
        = some ⟨v / 4096, [range, continuation]⟩ ∧
      range.least.toNat ≤ v / 64 % 64 + 128 ∧ v / 64 % 64 + 128 ≤ range.greatest.toNat := by
  rw [begin?_ofNat (by omega), if_neg (by omega), if_neg (by omega), if_neg (by omega)]
  split_ifs
  · exact ⟨_, by congr 2; omega, by simp; omega, by simp; omega⟩
  · exact ⟨_, by congr 2; omega, by simp, by simp; omega⟩
  · exact ⟨_, by congr 2; omega, continuation_bounds (by omega)⟩
  all_goals omega

theorem begin?_four (least : 65535 < v) (valid : v < 0x110000) :
    ∃ range, begin? (UInt8.ofNat (v / 262144 % 8 + 240))
        = some ⟨v / 262144, [range, continuation, continuation]⟩ ∧
      range.least.toNat ≤ v / 4096 % 64 + 128 ∧ v / 4096 % 64 + 128 ≤ range.greatest.toNat := by
  rw [begin?_ofNat (by omega), if_neg (by omega), if_neg (by omega), if_neg (by omega),
    if_neg (by omega), if_neg (by omega), if_neg (by omega)]
  split_ifs
  · exact ⟨_, by congr 2; omega, by simp; omega, by simp; omega⟩
  · exact ⟨_, by congr 2; omega, continuation_bounds (by omega)⟩
  · exact ⟨_, by congr 2; omega, by simp, by simp; omega⟩
  · omega

end Encoded

theorem readFrom_encode (c : Char) (rest : List UInt8) :
    readFrom none (String.utf8EncodeChar c ++ rest) = c :: readFrom none rest := by
  have same : Char.ofNat c.val.toNat = c := Char.ofNat_toNat c
  have valid : c.val.toNat < 0xD800 ∨ 0xDFFF < c.val.toNat ∧ c.val.toNat < 0x110000 := c.valid
  rw [String.utf8EncodeChar]
  generalize c.val.toNat = v at same valid
  simp only [List.cons_append, List.nil_append, apply_ite (· ++ rest)]
  split_ifs with one two three
  · rw [readFrom_first (begin?_one one), readOn_settle_nil, same]
  · rw [readFrom_first (begin?_two (by omega) two), readOn_continuation (by omega),
      readOn_settle_nil, ← same]
    congr 2
    omega
  · obtain ⟨range, first, least, greatest⟩ := begin?_three (by omega) three valid
    rw [readFrom_first first, readOn_settle_cons least greatest, readOn_continuation (by omega),
      readOn_settle_nil, ← same]
    congr 2
    omega
  · obtain ⟨range, first, least, greatest⟩ := begin?_four (v := v) (by omega) (by omega)
    rw [readFrom_first first, readOn_settle_cons least greatest, readOn_continuation (by omega),
      readOn_continuation (by omega), readOn_settle_nil, ← same]
    congr 2
    omega

/-- The bytes of a text show the text. -/
theorem lossy_bytes (text : String) : lossy (bytes text) = text := by
  have read (chars : List Char) :
      readFrom none (chars.flatMap String.utf8EncodeChar) = chars := by
    induction chars with
    | nil => rfl
    | cons c rest ih => rw [List.flatMap_cons, readFrom_encode, ih]
  rw [lossy, bytes_eq, read, String.ofList_toList]

end Text
end Repackage
