import PathDoc.Flat.Dict
import PathDoc.Path.Parser
import PathDoc.Path.Text

/-!
# Path dictionaries as documents

A path dictionary is encoded as a mapping from the texts of its paths to its values; markers become
mappings with the entry `$marker`. Decoding reads the texts as paths and every mapping that has such
an entry as a marker.
-/

set_option autoImplicit false

namespace PathDoc

/-- The encoding of an entry. -/
def Entry.encode : Entry → Document
  | .value document => document
  | .marker kind => .ofJson kind.toJson

/-- The JSON value of an entry. -/
def Entry.toJson : Entry → Json
  | .value document => document.toJson
  | .marker kind => kind.toJson

/-- Whether a document is taken for the encoding of a marker. -/
def Document.encodesMarker : Document → Bool
  | mapping entries => Entries.contains entries Marker.entryName
  | _ => false

/-- The entry that a document encodes under a path text. -/
def Entry.decode (path : String) (document : Document) : Outcome Entry :=
  if document.encodesMarker then
    match Marker.ofJson? document.toJson with
    | some kind => .ok (.marker kind)
    | none => .error (.serialization ("bad marker at '" ++ path ++ "'"))
  else .ok (.value document)

namespace PathDict

/-- The encoding of a dictionary as a mapping. -/
def toDocument (dict : PathDict) : Document :=
  .ofPairs (dict.entries.map fun entry => (entry.1.text, entry.2.encode))

/-- The JSON object of a dictionary. -/
def toJson (dict : PathDict) : Json :=
  .object (Entries.ofList (dict.entries.map fun entry => (entry.1.text, entry.2.toJson)))

/-- Decodes the entries of a mapping, one after the other. -/
def decodeEntries : List (String × Document) → Outcome (List (Path × Entry))
  | [] => .ok []
  | (text, document) :: rest => do
    let entry ← Entry.decode text document
    let path ← Path.parse text
    let entries ← decodeEntries rest
    .ok ((path, entry) :: entries)

/-- The dictionary that a document encodes. -/
def ofDocument : Document → Outcome PathDict
  | .mapping entries => (decodeEntries entries).map ofList
  | document =>
    .error (.typeMismatch ("expected a path mapping, found " ++ document.kind.name))

end PathDict

end PathDoc
