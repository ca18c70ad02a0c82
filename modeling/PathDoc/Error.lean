import PathDoc.Decimal.Whole

/-!
# Errors

One constructor per cause of failure, and the message of each. Only `navigation` is a missing path,
the failure that a caller may ask to skip.
-/

set_option autoImplicit false

namespace PathDoc

/-- What is wrong with a path text. -/
inductive PathFault where
  /-- Nothing stands between two separators. -/
  | emptySegment
  /-- A closing bracket or a quote inside a bare segment. -/
  | strayCharacter
  /-- Neither a dot nor an opening bracket follows a segment. -/
  | missingSeparator
  /-- Neither a quote nor an integer follows an opening bracket. -/
  | badBracket
  /-- The text ends right after an opening bracket. -/
  | openBracket
  /-- Something other than a closing bracket follows the content of a bracket. -/
  | missingClose
  /-- The text ends where a closing bracket is due. -/
  | missingCloseAtEnd
  /-- The text ends right after a backslash. -/
  | danglingEscape
  /-- The text ends inside a quoted key. -/
  | openQuote
  /-- A bracketed integer is a lone sign or does not fit a word. -/
  | badIndex
  deriving DecidableEq

/-- The wording of a fault in a path text. -/
def PathFault.message : PathFault → String
  | .emptySegment => "empty path segment"
  | .strayCharacter => "unexpected character in key"
  | .missingSeparator => "expected '.' or '['"
  | .badBracket => "expected quoted key or index"
  | .openBracket => "unterminated bracket"
  | .missingClose => "expected ']'"
  | .missingCloseAtEnd => "expected ']', got end of input"
  | .danglingEscape => "dangling escape"
  | .openQuote => "unterminated quoted key"
  | .badIndex => "invalid index"

/-- Why an operation on documents failed. -/
inductive Error where
  /-- A path text is malformed at a byte offset. -/
  | pathSyntax (path : String) (offset : Nat) (fault : PathFault)
  /-- A token of a path leads nowhere. -/
  | navigation (path token reason : String)
  /-- The operation does not apply to a value of this kind. -/
  | typeMismatch (detail : String)
  /-- The input can be read in two ways. -/
  | ambiguity (detail : String)
  /-- A pattern does not compile, or it lacks the requested group. -/
  | invalidPattern (detail : String)
  /-- A step is unknown or its arguments are malformed. -/
  | invalidStep (detail : String)
  /-- A query does not parse or names an unknown variable. -/
  | invalidQuery (detail : String)
  /-- A function supplied by the caller failed. -/
  | task (detail : String)
  /-- A value could not be written or read. -/
  | serialization (detail : String)
  /-- A configuration holds a value out of range. -/
  | config (detail : String)
  deriving DecidableEq

/-- The message of an error. -/
def Error.message : Error → String
  | .pathSyntax path offset fault =>
    "Invalid path '" ++ path ++ "' at offset " ++ String.ofList (Decimal.natText offset) ++ ": " ++
      fault.message
  | .navigation path token reason =>
    "Path not found: '" ++ path ++ "' (at '" ++ token ++ "'): " ++ reason
  | .typeMismatch detail => "Type mismatch: " ++ detail
  | .ambiguity detail => "Ambiguous input: " ++ detail
  | .invalidPattern detail => "Invalid pattern: " ++ detail
  | .invalidStep detail => "Invalid step: " ++ detail
  | .invalidQuery detail => "Invalid query: " ++ detail
  | .task detail => "Task failed: " ++ detail
  | .serialization detail => "Serialization error: " ++ detail
  | .config detail => "Invalid configuration: " ++ detail

/-- Whether an error reports a missing path. -/
def Error.isMissingPath : Error → Bool
  | .navigation .. => true
  | _ => false

/-- The outcome of an operation on documents. -/
abbrev Outcome := Except Error

section

variable {ε α β : Type} {x : Except ε α} {result : β}

/-- Two operations one after the other succeed if each of them does. -/
theorem bind_eq_ok_iff {f : α → Except ε β} :
    (x >>= f) = .ok result ↔ ∃ value, x = .ok value ∧ f value = .ok result := by
  cases x with
  | error failure => exact ⟨fun h => (nomatch h), fun ⟨_, h, _⟩ => (nomatch h)⟩
  | ok value => simp [bind, Except.bind]

/-- Two operations one after the other fail if the first one does, or the second one behind it. -/
theorem bind_eq_error_iff {f : α → Except ε β} {failure : ε} :
    (x >>= f) = .error failure ↔
      x = .error failure ∨ ∃ value, x = .ok value ∧ f value = .error failure := by
  cases x with
  | error other => simp [bind, Except.bind]
  | ok value => simp [bind, Except.bind]

theorem map_eq_ok_iff {f : α → β} :
    x.map f = .ok result ↔ ∃ value, x = .ok value ∧ f value = result := by
  cases x with
  | error failure => exact ⟨fun h => (nomatch h), fun ⟨_, h, _⟩ => (nomatch h)⟩
  | ok value => simp [Except.map]

theorem map_eq_error_iff {f : α → β} {failure : ε} :
    x.map f = .error failure ↔ x = .error failure := by
  cases x with
  | error other => simp [Except.map]
  | ok value => simp [Except.map]

/-- The result and the error are rewritten independently. -/
theorem mapError_map {ε' : Type} (f : α → β) (g : ε → ε') (outcome : Except ε α) :
    (outcome.map f).mapError g = (outcome.mapError g).map f := by
  cases outcome <;> rfl

end

end PathDoc
