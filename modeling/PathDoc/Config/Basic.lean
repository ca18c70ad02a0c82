import PathDoc.Decimal.Layout
import PathDoc.Error
import PathDoc.Find
import PathDoc.Flat.Flatten
import PathDoc.Text.Numeric

/-!
# Configurations

A configuration holds the settings that operations fall back on. A layer of overrides replaces the
settings that it names. `Config.validate` refuses a query variable that is no identifier and a
similarity threshold outside its range.
-/

set_option autoImplicit false

namespace PathDoc

/-- The settings of an engine. -/
structure Config where
  /-- The depth from which containers are not expanded. -/
  maxDepth : Nat
  /-- The greatest number of children of a container that is expanded. -/
  maxLength : Nat
  /-- The order of walks. -/
  traversal : Order
  /-- Whether text patterns ignore case. -/
  ignoreCase : Bool
  /-- Whether names may address attributes. -/
  attributeAccess : Bool
  /-- Whether missing paths are skipped. -/
  skipMissing : Bool
  /-- Whether the documents of a collection may be processed side by side. -/
  parallel : Bool
  /-- The size of a collection from which that happens. -/
  parallelThreshold : Nat
  /-- The name under which queries see the document. -/
  queryVariable : String
  /-- The similarity that approximate matches need. -/
  fuzzyThreshold : Float

/-- The settings of one layer, those that are not given left open. -/
structure Overrides where
  /-- The depth from which containers are not expanded. -/
  maxDepth : Option Nat
  /-- The greatest number of children of a container that is expanded. -/
  maxLength : Option Nat
  /-- The order of walks. -/
  traversal : Option Order
  /-- Whether text patterns ignore case. -/
  ignoreCase : Option Bool
  /-- Whether names may address attributes. -/
  attributeAccess : Option Bool
  /-- Whether missing paths are skipped. -/
  skipMissing : Option Bool
  /-- Whether the documents of a collection may be processed side by side. -/
  parallel : Option Bool
  /-- The size of a collection from which that happens. -/
  parallelThreshold : Option Nat
  /-- The name under which queries see the document. -/
  queryVariable : Option String
  /-- The similarity that approximate matches need. -/
  fuzzyThreshold : Option Float

namespace Config

/-- The settings in force unless others are given. -/
def standard : Config where
  maxDepth := 128
  maxLength := 0xffffffffffffffff
  traversal := .depthFirst
  ignoreCase := false
  attributeAccess := true
  skipMissing := false
  parallel := true
  parallelThreshold := 32
  queryVariable := "d"
  fuzzyThreshold := Match.defaultThreshold

/-- Whether a text is an identifier. -/
def isIdentifier : List Char → Bool
  | [] => false
  | c :: rest => Text.isIdentifierStart c && rest.all Text.isIdentifierChar

/-- Whether a number lies between 0 and 100. -/
def isPercentage (x : Float) : Bool :=
  0.0 ≤ x && x ≤ 100.0

/-- Checks the ranges of the settings. -/
def validate (config : Config) : Outcome Unit :=
  if !isIdentifier config.queryVariable.toList then
    .error (.config
      ("query_variable must be an identifier, got '" ++ config.queryVariable ++ "'"))
  else if !isPercentage config.fuzzyThreshold then
    .error (.config ("fuzzy_threshold must be within [0, 100], got " ++
      String.ofList (Decimal.floatText Decimal.plain config.fuzzyThreshold)))
  else .ok ()

/-- The settings under a layer of overrides. -/
def override (config : Config) (overrides : Overrides) : Config where
  maxDepth := overrides.maxDepth.getD config.maxDepth
  maxLength := overrides.maxLength.getD config.maxLength
  traversal := overrides.traversal.getD config.traversal
  ignoreCase := overrides.ignoreCase.getD config.ignoreCase
  attributeAccess := overrides.attributeAccess.getD config.attributeAccess
  skipMissing := overrides.skipMissing.getD config.skipMissing
  parallel := overrides.parallel.getD config.parallel
  parallelThreshold := overrides.parallelThreshold.getD config.parallelThreshold
  queryVariable := overrides.queryVariable.getD config.queryVariable
  fuzzyThreshold := overrides.fuzzyThreshold.getD config.fuzzyThreshold

/-- The walk of searches. -/
def walk (config : Config) : Traversal :=
  ⟨config.traversal, [], [], config.maxLength, config.maxDepth⟩

/-- The options of searches. -/
def search (config : Config) : SearchOptions :=
  ⟨config.skipMissing, config.walk⟩

/-- The options of flattening. -/
def flatten (config : Config) (annotateAll : Bool) : FlattenOptions where
  annotateAll := annotateAll
  maxDepth := config.maxDepth
  maxLength := config.maxLength

/-- The options of text patterns under a strategy. -/
def textOptions (config : Config) (strategy : Match.Strategy) : Match.TextOptions :=
  ⟨strategy, config.ignoreCase, none, none, some config.fuzzyThreshold⟩

end Config

end PathDoc
