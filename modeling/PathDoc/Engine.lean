import PathDoc.Config.Basic

/-!
# Engines

An engine holds a valid configuration and the registry of attribute accessors, and derives from them
how paths are followed and what options operations use.
-/

set_option autoImplicit false

namespace PathDoc

/-- A configuration with a registry of accessors. -/
structure Engine where
  /-- The settings. -/
  config : Config
  /-- The accessors. -/
  registry : Registry

/-- What a step of a pipeline sees of an engine. -/
structure Context where
  /-- The settings. -/
  config : Config
  /-- How paths are followed. -/
  navigator : Navigator

/-- The standard configuration and the standard accessors. -/
def Context.standard : Context := ⟨.standard, .standard⟩

namespace Engine

/-- The engine of a configuration, with the standard accessors. -/
def create (config : Config) : Outcome Engine := do
  config.validate
  .ok ⟨config, .standard⟩

/-- The engine with other accessors. -/
def withRegistry (engine : Engine) (registry : Registry) : Engine :=
  { engine with registry }

/-- The engine under a layer of overrides. -/
def override (engine : Engine) (overrides : Overrides) : Outcome Engine := do
  let config := engine.config.override overrides
  config.validate
  .ok { engine with config }

/-- How paths are followed. -/
def navigator (engine : Engine) : Navigator :=
  if engine.config.attributeAccess then ⟨some engine.registry⟩ else .itemsOnly

/-- What steps see of the engine. -/
def context (engine : Engine) : Context :=
  ⟨engine.config, engine.navigator⟩

/-- The matcher of criteria under the settings of the engine. -/
def matcher (engine : Engine) (criteria : List Match.Criterion) (all : Bool) :
    Outcome Match.ValueMatcher :=
  Match.ValueMatcher.compile criteria all (engine.config.textOptions .contains)

end Engine

end PathDoc
