import PathDoc.Path.Parser

/-!
# Surface forms of paths

Callers write a path as nothing, a text, one token or a list of tokens. `Surface.resolve` gives the
path that a form denotes, `Surface.combine` joins two forms and `Path.minimize` picks the smallest
form of a path. `Path.ofFileName` reads the slash-separated name of a file.
-/

set_option autoImplicit false

namespace PathDoc

/-- A path in one of its written forms. -/
inductive Surface where
  /-- The root. -/
  | root
  /-- A path text that has not been read. -/
  | text (source : String)
  /-- A single token. -/
  | token (token : Token)
  /-- A list of tokens. -/
  | tokens (path : Path)
  deriving DecidableEq

namespace Surface

/-- The path that a form denotes. -/
def resolve : Surface → Outcome Path
  | root => .ok []
  | text source => Path.parse source
  | token t => .ok [t]
  | tokens path => .ok path

/-- Joins two path texts, with a dot between them unless the second brings its own separator. -/
def joinTexts (left right : String) : String :=
  if left.isEmpty then right
  else if right.isEmpty then left
  else
    match right.toList with
    | '[' :: _ => left ++ right
    | '.' :: _ => left ++ right
    | _ => left ++ "." ++ right

/-- Joins two forms. Two texts are joined as texts, all other forms as lists of tokens. -/
def combine : Surface → Surface → Outcome Surface
  | text left, text right => .ok (text (joinTexts left right))
  | left, right => do
    let head ← left.resolve
    let tail ← right.resolve
    .ok (tokens (head ++ tail))

end Surface

namespace Path

/-- The smallest form of a path: the root, a bare token or the list of tokens. -/
def minimize : Path → Surface
  | [] => .root
  | [token] => .token token
  | path => .tokens path

/-- The path of a slash-separated file name. Empty, `.` and `..` components are left out. -/
def ofFileName (name : String) : Path :=
  let parts := name.toList.splitOn '/'
  (parts.filter fun part => part != [] && part != ['.'] && part != ['.', '.']).map segmentToken

/-- The path without its last token, and that token. -/
def splitLast? (path : Path) : Option (Path × Token) :=
  path.getLast?.map fun last => (path.dropLast, last)

/-- Whether the second path lies at or above the first. -/
def startsWith (path above : Path) : Bool :=
  above.isPrefixOf path

/-- Resolving the smallest form of a path gives the path. -/
theorem resolve_minimize (path : Path) : path.minimize.resolve = .ok path := by
  unfold minimize
  split <;> rfl

end Path

end PathDoc
