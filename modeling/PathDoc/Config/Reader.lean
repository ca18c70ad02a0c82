import PathDoc.Config.Basic
import PathDoc.Json.Value

/-!
# Reading configurations

A configuration is written as an object with a field per setting, or as a list of the settings in
order. Settings that are left out keep their defaults and unknown fields are ignored. In a layer of
overrides null leaves a setting open.
-/

set_option autoImplicit false

namespace PathDoc.Config

/-- The names of the settings, in order. -/
def settings : List String :=
  ["max_depth", "max_len", "traversal", "ignore_case", "attribute_access", "skip_missing",
    "parallel", "parallel_threshold", "query_variable", "fuzzy_threshold"]

/-- The failure to read a configuration. -/
def malformed {α : Type} (what : String) : Outcome α :=
  .error (.serialization ("invalid " ++ what))

/-- The settings that are given, by name. -/
def given : Json → Outcome (Entries Json)
  | .object entries => .ok entries
  | .array items =>
    if items.length ≤ settings.length then .ok (settings.zip items)
    else malformed "configuration"
  | _ => malformed "configuration"

/-- Reads a count that fits a word. -/
def readCount : Json → Option Nat
  | .int n => if 0 ≤ n ∧ n < 0x10000000000000000 then some n.toNat else none
  | _ => none

/-- Reads a truth value. -/
def readBool : Json → Option Bool
  | .bool b => some b
  | _ => none

/-- Reads a text. -/
def readText : Json → Option String
  | .string s => some s
  | _ => none

/-- Reads a number. -/
def readNumber : Json → Option Float
  | .int n => some (Float.ofInt n)
  | .float x => some x
  | _ => none

/-- Reads an order: its name, or an object with the name over null. -/
def readOrder : Json → Option Order
  | .string s => Order.ofName? s
  | .object [(name, .null)] => Order.ofName? name
  | _ => none

/-- A setting, if it is given. -/
def setting? {α : Type} (entries : Entries Json) (name : String) (read : Json → Option α) :
    Outcome (Option α) :=
  match entries.get? name with
  | none => .ok none
  | some value =>
    match read value with
    | some setting => .ok (some setting)
    | none => malformed name

/-- Reads the settings that are given. -/
def readLayer (entries : Entries Json) : Outcome Overrides := do
  .ok {
    maxDepth := ← setting? entries "max_depth" readCount
    maxLength := ← setting? entries "max_len" readCount
    traversal := ← setting? entries "traversal" readOrder
    ignoreCase := ← setting? entries "ignore_case" readBool
    attributeAccess := ← setting? entries "attribute_access" readBool
    skipMissing := ← setting? entries "skip_missing" readBool
    parallel := ← setting? entries "parallel" readBool
    parallelThreshold := ← setting? entries "parallel_threshold" readCount
    queryVariable := ← setting? entries "query_variable" readText
    fuzzyThreshold := ← setting? entries "fuzzy_threshold" readNumber }

/-- Reads a configuration; what is not given is taken from the standard one. -/
def ofJson (json : Json) : Outcome Config := do
  let layer ← readLayer (← given json)
  .ok (standard.override layer)

/-- Reads a layer of overrides; null counts as not given. -/
def overridesOfJson (json : Json) : Outcome Overrides := do
  let entries ← given json
  readLayer (entries.filter fun entry => match entry.2 with
    | .null => false
    | _ => true)

end PathDoc.Config
