import Repackage.Text.Quoted
import Repackage.Toml.Value

/-!
Records as TOML values. A record is written as a table, or as an array of its fields in
order whose last optional fields may be left out. The first fault in the order of the
document is reported, and a field that is missing comes after all faults of the others.
-/

namespace Repackage
namespace Toml

/-- What kind of value stands in the document. -/
def Value.describe : Value → String
  | .string text => s!"string {Text.quoted text}"
  | .integer n => s!"integer `{n}`"
  | .float x => s!"floating point `{x.render}`"
  | .boolean b => s!"boolean `{b}`"
  | .array _ => "sequence"
  | .moment | .table _ => "map"

/-- Why a value is not what it must be. -/
inductive Mismatch where
  | wrongKind (found : Value) (expected : String)
  | unknownField (name : String) (known : List String)
  | missingField (name : String)
  /-- An array of fields that ends before a field that must be there. -/
  | tooShort (length : Nat) (record : String) (fields : Nat)

def ticked (name : String) : String :=
  s!"`{name}`"

/-- A choice of names. -/
def oneOf : List String → String
  | [first, second] => s!"{ticked first} or {ticked second}"
  | names => "one of " ++ ", ".intercalate (names.map ticked)

def Mismatch.message : Mismatch → String
  | .wrongKind found expected => s!"invalid type: {found.describe}, expected {expected}"
  | .unknownField name known => s!"unknown field {ticked name}, expected {oneOf known}"
  | .missingField name => s!"missing field {ticked name}"
  | .tooShort length record fields =>
      s!"invalid length {length}, expected struct {record} with {fields} elements"

/-- A field of records of type `α`, and what its value does to a record. -/
structure FieldForm (α : Type) where
  name : String
  isRequired : Bool
  fill : Value → α → Except Mismatch α

/-- How records of type `α` are written. -/
structure RecordForm (α : Type) where
  name : String
  /-- The record before any of its fields is filled. -/
  blank : α
  fields : List (FieldForm α)
  ignoresUnknown : Bool := false

namespace RecordForm

variable {α : Type}

def fillEntry (form : RecordForm α) (record : α) (entry : String × Value) :
    Except Mismatch α :=
  match form.fields.find? (·.name = entry.1) with
  | some field => field.fill entry.2 record
  | none =>
      if form.ignoresUnknown then .ok record
      else .error (.unknownField entry.1 (form.fields.map (·.name)))

def ofTable (form : RecordForm α) (entries : List (String × Value)) : Except Mismatch α := do
  let record ← entries.foldlM form.fillEntry form.blank
  match form.fields.find? fun field =>
      field.isRequired && (entries.lookup field.name).isNone with
  | some field => throw (.missingField field.name)
  | none => return record

/-- Fills fields from items in order. `index` is the place of the first of the fields.
Items behind the last field are ignored. -/
def fillInOrder (form : RecordForm α) (index : Nat) (record : α) :
    List (FieldForm α) → List Value → Except Mismatch α
  | [], _ => .ok record
  | field :: fields, [] =>
      if field.isRequired then .error (.tooShort index form.name form.fields.length)
      else form.fillInOrder (index + 1) record fields []
  | field :: fields, item :: items => do
      let record ← field.fill item record
      form.fillInOrder (index + 1) record fields items

/-- The entry that a date or time shows in place of a table's. -/
def momentEntry : String × Value :=
  ("$__toml_private_datetime", .string "")

def ofValue (form : RecordForm α) : Value → Except Mismatch α
  | .table entries => form.ofTable entries
  | .moment => form.ofTable [momentEntry]
  | .array items => form.fillInOrder 0 form.blank form.fields items
  | value => .error (.wrongKind value s!"struct {form.name}")

end RecordForm

def stringOf (expected : String) : Value → Except Mismatch String
  | .string text => .ok text
  | value => .error (.wrongKind value expected)

def text : Value → Except Mismatch String :=
  stringOf "a string"

def path : Value → Except Mismatch String :=
  stringOf "path string"

/-- A list whose items are all as `item` says. -/
def listOf {α : Type} (item : Value → Except Mismatch α) : Value → Except Mismatch (List α)
  | .array items => items.mapM item
  | value => .error (.wrongKind value "a sequence")

end Toml
end Repackage
