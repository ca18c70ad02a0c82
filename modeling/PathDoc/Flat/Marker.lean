import PathDoc.Document.Json
import PathDoc.Error

/-!
# Markers

A marker records the kind of a container whose children are listed elsewhere; the marker of a record
also keeps its name and its field names. A marker is encoded as a mapping with the entry `$marker`;
`Marker.ofJson?` reads the encoding back and ignores further entries.
-/

set_option autoImplicit false

namespace PathDoc

/-- The kind of a container, apart from its children. -/
inductive Marker where
  /-- A mapping. -/
  | mapping
  /-- A sequence. -/
  | sequence
  /-- A set. -/
  | set
  /-- A record with its name and the names of its fields. -/
  | record (name : String) (fields : List String)
  deriving DecidableEq

namespace Marker

/-- The marker of a container. -/
def ofDocument? : Document → Option Marker
  | .scalar _ => none
  | .mapping _ => some mapping
  | .sequence _ => some sequence
  | .set _ => some set
  | .record name fields => some (record name (fields.map Prod.fst))

/-- The text of a marker. -/
def text : Marker → String
  | mapping => "<mapping>"
  | sequence => "<sequence>"
  | set => "<set>"
  | record name fields => "<record " ++ name ++ "(" ++ ", ".intercalate fields ++ ")>"

/-- The name of the entry that makes a mapping the encoding of a marker. -/
def entryName : String := "$marker"

/-- The kind named in the encoding. -/
def kindName : Marker → String
  | mapping => "mapping"
  | sequence => "sequence"
  | set => "set"
  | record _ _ => "record"

/-- The encoding of a marker. -/
def toJson : Marker → Json
  | record name fields =>
    .object [(entryName, .string "record"), ("name", .string name),
      ("fields", .array (fields.map .string))]
  | marker => .object [(entryName, .string marker.kindName)]

/-- The texts in a list of JSON strings. -/
def texts? : List Json → Option (List String)
  | [] => some []
  | .string s :: rest => (texts? rest).map (s :: ·)
  | _ => none

/-- Reads the encoding of a marker. -/
def ofJson? : Json → Option Marker
  | .object entries =>
    match Entries.get? entries entryName with
    | some (.string "mapping") => some mapping
    | some (.string "sequence") => some sequence
    | some (.string "set") => some set
    | some (.string "record") =>
      match Entries.get? entries "name", Entries.get? entries "fields" with
      | some (.string name), some (.array fields) => (texts? fields).map (record name)
      | _, _ => none
    | _ => none
  | _ => none

/-- Reading back a list of texts. -/
theorem texts?_map (texts : List String) : texts? (texts.map .string) = some texts := by
  induction texts with
  | nil => rfl
  | cons text rest ih => simp [texts?, ih]

/-- **An encoded marker is read back as itself.** -/
theorem ofJson?_toJson (marker : Marker) : ofJson? marker.toJson = some marker := by
  cases marker with
  | record name fields =>
    simp [ofJson?, toJson, entryName, Entries.get?, texts?_map]
  | mapping => rfl
  | sequence => rfl
  | set => rfl

end Marker

end PathDoc
