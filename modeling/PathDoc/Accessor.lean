import PathDoc.Document.Basic

/-!
# Attribute accessors

An accessor exposes some children of a node under names of their own. A registry holds at most one
accessor for each record name and for each kind of node; the accessor of a record's name wins over
the accessor of its kind.
-/

set_option autoImplicit false

namespace PathDoc

/-- Gives the position of the child that a node exposes under a name. -/
abbrev Accessor := Document → String → Option Nat

namespace Accessor

/-- The fields of a record under their names. -/
def recordFields : Accessor := Document.fieldPosition?

/-- The first and the last item of a sequence that is not empty. -/
def sequenceEnds : Accessor
  | .sequence (_ :: _), "first" => some 0
  | .sequence (_ :: rest), "last" => some rest.length
  | _, _ => none

/-- The positions of a table, the same for every node; the first row with a name counts. -/
def table (rows : List (String × Nat)) : Accessor :=
  fun _ name => Entries.get? rows name

end Accessor

/-- The accessors in use. -/
structure Registry where
  /-- The accessor of each record name. -/
  byRecord : Entries Accessor
  /-- The accessor of each kind. -/
  byKind : Kind → Option Accessor

namespace Registry

/-- No accessors. -/
def empty : Registry := ⟨[], fun _ => none⟩

/-- Uses an accessor for every node of a kind. -/
def registerKind (registry : Registry) (kind : Kind) (accessor : Accessor) : Registry :=
  ⟨registry.byRecord, fun k => if k = kind then some accessor else registry.byKind k⟩

/-- Uses an accessor for the records of a name. -/
def registerRecord (registry : Registry) (name : String) (accessor : Accessor) : Registry :=
  ⟨registry.byRecord.insert name accessor, registry.byKind⟩

/-- Record fields by name, and the ends of sequences. -/
def standard : Registry :=
  (empty.registerKind .record Accessor.recordFields).registerKind .sequence Accessor.sequenceEnds

/-- Whether no accessor is in use. -/
def isEmpty (registry : Registry) : Bool :=
  registry.byRecord.isEmpty &&
    [Kind.scalar, .mapping, .sequence, .set, .record].all fun kind =>
      (registry.byKind kind).isNone

/-- The accessor that is responsible for a node. -/
def accessor? (registry : Registry) (target : Document) : Option Accessor :=
  match target with
  | .record name _ => (registry.byRecord.get? name).or (registry.byKind .record)
  | other => registry.byKind other.kind

/-- The position that a node exposes under a name. -/
def position? (registry : Registry) (target : Document) (name : String) : Option Nat :=
  (registry.accessor? target).bind fun accessor => accessor target name

end Registry

end PathDoc
