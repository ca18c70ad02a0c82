import PathDoc.Entries
import PathDoc.Path.Token

/-!
# Documents

A document is a leaf value or one of four containers: a mapping with named entries in insertion
order, a sequence, a set (whose order carries no meaning) or a record, a named list of fields that
are addressed by position. `children` lists the direct parts of a document with the token that
addresses each; `nodeCount` counts all parts and decreases from a container to its children
(`nodeCount_children`).

No name stands twice in a mapping of the program. The type does not say so: it is built up together
with the lists in it, and a constructor of such a type cannot ask for a proof about its own parts.
Mappings are made by inserting entries by name (`Entries.insert`), which keeps names apart.
-/

set_option autoImplicit false

namespace PathDoc

/-- A leaf value. -/
inductive Scalar where
  /-- Nothing. -/
  | null
  /-- A truth value. -/
  | bool (value : Bool)
  /-- An integer of one word. -/
  | int (value : Int64)
  /-- A floating-point number. -/
  | float (value : Float)
  /-- A text. -/
  | string (value : String)
  deriving Inhabited

/-- A tree of values. -/
inductive Document where
  /-- A leaf. -/
  | scalar (value : Scalar)
  /-- Named entries in insertion order. -/
  | mapping (entries : List (String × Document))
  /-- Items in order. -/
  | sequence (items : List Document)
  /-- Members, in an order that carries no meaning. -/
  | set (members : List Document)
  /-- The named fields of a named record, addressed by position. -/
  | record (name : String) (fields : List (String × Document))
  deriving Inhabited

/-- The kinds of documents. -/
inductive Kind where
  /-- Any leaf. -/
  | scalar
  /-- Named entries. -/
  | mapping
  /-- Ordered items. -/
  | sequence
  /-- Unordered members. -/
  | set
  /-- Named fields by position. -/
  | record
  deriving DecidableEq

/-- The name of a kind. -/
def Kind.name : Kind → String
  | scalar => "scalar"
  | mapping => "mapping"
  | sequence => "sequence"
  | set => "set"
  | record => "record"

/-- The kind with a name. -/
def Kind.ofName? : String → Option Kind
  | "scalar" => some .scalar
  | "mapping" => some .mapping
  | "sequence" => some .sequence
  | "set" => some .set
  | "record" => some .record
  | _ => none

namespace Document

/-- The null document. -/
def null : Document := scalar .null

/-- A truth value. -/
def bool (value : Bool) : Document := scalar (.bool value)

/-- An integer. -/
def int (value : Int64) : Document := scalar (.int value)

/-- A floating-point number. -/
def float (value : Float) : Document := scalar (.float value)

/-- A text. -/
def string (value : String) : Document := scalar (.string value)

/-- A mapping built by inserting pairs in order. -/
def ofPairs (pairs : List (String × Document)) : Document :=
  mapping (Entries.ofList pairs)

/-- The kind of a document. -/
def kind : Document → Kind
  | scalar _ => .scalar
  | mapping _ => .mapping
  | sequence _ => .sequence
  | set _ => .set
  | record _ _ => .record

/-- Whether a document can have children. -/
def isContainer : Document → Bool
  | scalar _ => false
  | _ => true

/-- The number of children of a container. -/
def length? : Document → Option Nat
  | scalar _ => none
  | mapping entries => some entries.length
  | sequence items => some items.length
  | set members => some members.length
  | record _ fields => some fields.length

/-- Whether a document is a container without children. -/
def isEmpty (document : Document) : Bool :=
  document.length? == some 0

/-- Items with the position of each, counted from `start`. -/
def positions (start : Nat) : List Document → List (Token × Document)
  | [] => []
  | item :: rest => (.index start, item) :: positions (start + 1) rest

/-- The direct children of a document with the token that addresses each. -/
def children : Document → List (Token × Document)
  | scalar _ => []
  | mapping entries => entries.map fun entry => (.key entry.1, entry.2)
  | sequence items => positions 0 items
  | set members => positions 0 members
  | record _ fields => positions 0 (fields.map Prod.snd)

/-- The text of a string document. -/
def string? : Document → Option String
  | scalar (.string value) => some value
  | _ => none

/-- The value of an integer document. -/
def int? : Document → Option Int64
  | scalar (.int value) => some value
  | _ => none

/-- The value of a truth value. -/
def bool? : Document → Option Bool
  | scalar (.bool value) => some value
  | _ => none

/-- The numeric value of a number; integers are rounded to the nearest double. -/
def number? : Document → Option Float
  | scalar (.int value) => some (Float.ofInt value.toInt)
  | scalar (.float value) => some value
  | _ => none

/-- The entries of a mapping. -/
def entries? : Document → Option (List (String × Document))
  | mapping entries => some entries
  | _ => none

/-- The items of a sequence. -/
def items? : Document → Option (List Document)
  | sequence items => some items
  | _ => none

/-- Whether a document is the null document. -/
def isNull : Document → Bool
  | scalar .null => true
  | _ => false

/-- Whether a document counts as true: all but null, false, zero, the empty text and empty
containers. -/
def isTruthy : Document → Bool
  | scalar .null => false
  | scalar (.bool value) => value
  | scalar (.int value) => value != 0
  | scalar (.float value) => !(value == 0)
  | scalar (.string value) => !value.isEmpty
  | container => !container.isEmpty

/-- The position of the first field with a name. -/
def fieldPosition? : Document → String → Option Nat
  | record _ fields, name => fields.findIdx? fun field => field.1 == name
  | _, _ => none

/-- The value of the first field with a name. -/
def field? (document : Document) (name : String) : Option Document :=
  match document with
  | record _ fields => Entries.get? fields name
  | _ => none

/-! ## Counting the parts -/

mutual

/-- The number of parts of a document, itself included. -/
def nodeCount : Document → Nat
  | scalar _ => 1
  | mapping entries => 1 + countEntries entries
  | sequence items => 1 + countItems items
  | set members => 1 + countItems members
  | record _ fields => 1 + countEntries fields

/-- The number of parts of all items. -/
def countItems : List Document → Nat
  | [] => 0
  | item :: rest => item.nodeCount + countItems rest

/-- The number of parts of all entries. -/
def countEntries : List (String × Document) → Nat
  | [] => 0
  | (_, value) :: rest => value.nodeCount + countEntries rest

end

/-- The items of numbered items. -/
theorem positions_values (start : Nat) (items : List Document) :
    (positions start items).map Prod.snd = items := by
  induction items generalizing start with
  | nil => rfl
  | cons item rest ih => simp [positions, ih]

/-- The parts of the values of entries. -/
theorem countItems_values (entries : List (String × Document)) :
    countItems (entries.map Prod.snd) = countEntries entries := by
  induction entries with
  | nil => rfl
  | cons entry rest ih =>
    obtain ⟨name, value⟩ := entry
    simp [countItems, countEntries, ih]

/-- **A document has one part more than its children together.** -/
theorem nodeCount_children (document : Document) :
    document.nodeCount = 1 + countItems (document.children.map Prod.snd) := by
  cases document with
  | scalar value => rfl
  | mapping entries =>
    simp only [nodeCount, children, List.map_map]
    rw [← countItems_values]
    rfl
  | sequence items => simp only [nodeCount, children, positions_values]
  | set members => simp only [nodeCount, children, positions_values]
  | record name fields => simp only [nodeCount, children, positions_values, countItems_values]

end Document

end PathDoc
