import PathDoc.Document.Basic

/-!
# Equality of documents

Mappings are equal when they hold equal values under the same names, in any order; sets when their
members can be paired off, one after the other, with equal ones; sequences and records compare in
order. Integers and floating-point numbers are never equal to each other, and `NaN` equals nothing.

Containers are compared by what they hold and never by where they are stored. The shortcut that
takes a container in shared storage for equal to itself without a look inside is left out; it makes
a difference only to containers that hold a `NaN`, which then equal themselves but none of their
copies.

`Document.eqUpTo` takes some pairs for the same from the outset; `Document.eq` takes none and
`Document.agrees` those of `NaN` with itself. `Document.ofMembers` builds a set and leaves out
members equal to an earlier one.
-/

set_option autoImplicit false

namespace PathDoc

/-- Equality of leaf values; floating-point numbers compare as numbers. -/
def Scalar.eq : Scalar → Scalar → Bool
  | .null, .null => true
  | .bool a, .bool b => a == b
  | .int a, .int b => a == b
  | .float a, .float b => a == b
  | .string a, .string b => a == b
  | _, _ => false

namespace Document

/-- Pairs of parts, at a depth, that are taken for the same without a look inside. -/
abbrev Known := Nat → Document → Document → Bool

mutual

/-- Equality of documents up to known pairs; the first document stands at a depth. Pairs that are
not known are compared by content, also where both are one container in shared storage. -/
def eqUpTo (known : Known) (depth : Nat) : Document → Document → Bool
  | scalar a, b =>
    known depth (scalar a) b || match b with
      | scalar b => a.eq b
      | _ => false
  | mapping as, b =>
    known depth (mapping as) b || match b with
      | mapping bs => as.length == bs.length && eqEntries known (depth + 1) as bs
      | _ => false
  | sequence as, b =>
    known depth (sequence as) b || match b with
      | sequence bs => eqItems known (depth + 1) as bs
      | _ => false
  | set as, b =>
    known depth (set as) b || match b with
      | set bs => as.length == bs.length && eqMembers known (depth + 1) as bs
      | _ => false
  | record n as, b =>
    known depth (record n as) b || match b with
      | record m bs => n == m && eqFields known (depth + 1) as bs
      | _ => false
termination_by structural x => x

/-- Equality of items in order. -/
def eqItems (known : Known) (depth : Nat) : List Document → List Document → Bool
  | [], [] => true
  | a :: as, b :: bs => a.eqUpTo known depth b && eqItems known depth as bs
  | _, _ => false
termination_by structural x => x

/-- Whether each member is equal to one of the others that is not paired off yet. -/
def eqMembers (known : Known) (depth : Nat) : List Document → List Document → Bool
  | [], _ => true
  | a :: as, bs =>
    bs.any (fun b => a.eqUpTo known depth b) &&
      eqMembers known depth as (bs.eraseP fun b => a.eqUpTo known depth b)
termination_by structural x => x

/-- Whether each entry has an equal value under its name. -/
def eqEntries (known : Known) (depth : Nat) :
    List (String × Document) → List (String × Document) → Bool
  | [], _ => true
  | (name, a) :: as, bs =>
    (match Entries.get? bs name with
      | some b => a.eqUpTo known depth b
      | none => false) && eqEntries known depth as bs
termination_by structural x => x

/-- Equality of named fields in order. -/
def eqFields (known : Known) (depth : Nat) :
    List (String × Document) → List (String × Document) → Bool
  | [], [] => true
  | (n, a) :: as, (m, b) :: bs => n == m && a.eqUpTo known depth b && eqFields known depth as bs
  | _, _ => false
termination_by structural x => x

end

/-- Equality of documents by content: no container that holds a `NaN` equals itself, even in shared
storage. -/
def eq (a b : Document) : Bool :=
  a.eqUpTo (fun _ _ _ => false) 0 b

/-- Whether a document is `NaN`. -/
def isNaN : Document → Bool
  | scalar (.float value) => value.isNaN
  | _ => false

/-- Equality with `NaN` equal to itself. -/
def agrees (a b : Document) : Bool :=
  a.eqUpTo (fun _ x y => x.isNaN && y.isNaN) 0 b

/-- Whether a container is the same as another document that it was carried over from: nothing in it
changed, so `NaN` in it does not count. A leaf is compared as usual. -/
def isCarriedOver (a b : Document) : Bool :=
  if a.isContainer then a.agrees b else a.eq b

instance : BEq Document := ⟨eq⟩

/-- A list without the items equal to an earlier one. -/
def distinct (items : List Document) : List Document :=
  items.foldl (fun kept item => if kept.any (· == item) then kept else kept ++ [item]) []

/-- A set of items, each equal class once. -/
def ofMembers (items : List Document) : Document :=
  set (distinct items)

/-- Equality of a sought value and a candidate: truth values equal only truth values, numbers
compare as numbers whether integer or not, all else is equality of documents. -/
def looselyEqual (target candidate : Document) : Bool :=
  match target, candidate with
  | scalar (.bool a), scalar (.bool b) => a == b
  | scalar (.bool _), _ => false
  | _, scalar (.bool _) => false
  | target, candidate =>
    match target.number?, candidate.number? with
    | some a, some b => a == b
    | _, _ => target == candidate

end Document

end PathDoc
