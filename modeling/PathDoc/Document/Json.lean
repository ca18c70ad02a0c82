import PathDoc.Document.Basic
import PathDoc.Json.Printer
import PathDoc.Json.Reader

/-!
# Documents as JSON

Sets become lists and records become objects. `toJson` builds an object field by field, so a
repeated field name keeps its first place and last value; `written` writes every field of a record.
Numbers that are not finite become null. In the other direction integers that fit a word stay
integers, all other numbers become floating-point numbers.
-/

set_option autoImplicit false

namespace PathDoc

/-- The JSON value of a leaf. -/
def Scalar.toJson : Scalar → Json
  | .null => .null
  | .bool value => .bool value
  | .int value => .int value.toInt
  | .float value => if value.isFinite then .float value else .null
  | .string value => .string value

namespace Document

mutual

/-- The JSON value of a document. -/
def toJson : Document → Json
  | scalar value => value.toJson
  | mapping entries => .object (entriesToJson entries)
  | sequence items => .array (itemsToJson items)
  | set members => .array (itemsToJson members)
  | record _ fields => .object (Entries.ofList (entriesToJson fields))

/-- The JSON values of items. -/
def itemsToJson : List Document → List Json
  | [] => []
  | item :: rest => item.toJson :: itemsToJson rest

/-- The JSON values of entries. -/
def entriesToJson : List (String × Document) → List (String × Json)
  | [] => []
  | (name, value) :: rest => (name, value.toJson) :: entriesToJson rest

end

mutual

/-- The JSON value that is written out for a document, with every field of every record. -/
def written : Document → Json
  | scalar value => value.toJson
  | mapping entries => .object (writtenEntries entries)
  | sequence items => .array (writtenItems items)
  | set members => .array (writtenItems members)
  | record _ fields => .object (writtenEntries fields)

/-- The JSON values that are written out for items. -/
def writtenItems : List Document → List Json
  | [] => []
  | item :: rest => item.written :: writtenItems rest

/-- The JSON values that are written out for entries. -/
def writtenEntries : List (String × Document) → List (String × Json)
  | [] => []
  | (name, value) :: rest => (name, value.written) :: writtenEntries rest

end

mutual

/-- The document of a JSON value. -/
def ofJson : Json → Document
  | .null => null
  | .bool value => bool value
  | .int value =>
    match Decimal.word? value with
    | some word => int word
    | none => float (Float.ofInt value)
  | .float value => float value
  | .string value => string value
  | .array items => sequence (itemsOfJson items)
  | .object entries => mapping (entriesOfJson entries)

/-- The documents of JSON values. -/
def itemsOfJson : List Json → List Document
  | [] => []
  | item :: rest => ofJson item :: itemsOfJson rest

/-- The entries of a JSON object. -/
def entriesOfJson : List (String × Json) → List (String × Document)
  | [] => []
  | (name, value) :: rest => (name, ofJson value) :: entriesOfJson rest

end

/-- The text of a document on one line, with each name of an object once. -/
def render (document : Document) : String :=
  document.toJson.compact

/-- The JSON text of a document, on one line or on indented lines. -/
def dump (document : Document) (indented : Bool) : String :=
  if indented then document.written.pretty else document.written.compact

end Document

end PathDoc
