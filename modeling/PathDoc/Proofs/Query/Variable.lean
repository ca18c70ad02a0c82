import PathDoc.Proofs.Query.Operands
import PathDoc.Step.Basic

/-!
# The variable of queries

A variable is an identifier that names no literal (`isVariable_iff`), and what follows it is the
path below it (`spells_lookup_iff`). An identifier alone is therefore read as the variable with the
empty path (`parse_variable`), which is the document (`eval_variable`), or as the literal that it
names (`parse_constant`).

The name of the variable comes from the configuration. An engine is built from a configuration that
was checked (`Engine.Built.validate`), and what is checked is that the name is an identifier
(`Config.validate_eq_ok_iff`). The named literals are identifiers as well, so an engine may be built
whose documents no query can name (`Engine.query_variable_iff`).
-/

set_option autoImplicit false

namespace PathDoc

/-- **What a configuration is checked for.** -/
theorem Config.validate_eq_ok_iff {config : Config} :
    config.validate = .ok () ↔
      isIdentifier config.queryVariable.toList = true ∧
        isPercentage config.fuzzyThreshold = true := by
  rw [validate]
  cases isIdentifier config.queryVariable.toList <;>
    cases isPercentage config.fuzzyThreshold <;> simp

namespace Query

open Text (span_append)

/-! ## Names in the grammar -/

/-- What starts a name is left by no blanks. -/
theorem Skips.eq_of_isIdentifierStart {first : Char} {tail text : List Char}
    (h : Skips (first :: tail) text) (hf : Text.isIdentifierStart first = true) :
    text = first :: tail := by
  cases h with
  | none => rfl
  | blank hblank _ => cases hf.symm.trans (isIdentifierStart_of_isBlank hblank)

/-- A literal or a variable is an expression of its own. -/
theorem Atom.derives {text rest : List Char} {expr : Expr} (h : Atom text expr rest) :
    Derives .disjunction text expr rest :=
  .ofConjunction (.ofNegation (.ofComparison (.ofOperand (.atom (.none text) h))))

/-- A variable with a path derives as an operand or in parentheses. -/
theorem Derives.lookup_cases {level : Level} {input rest : List Char} {name : String} {path : Path}
    (h : Derives level input (.lookup name path) rest) :
    (∃ text, Skips input text ∧ Atom text (.lookup name path) rest) ∨
      ∃ inside, Skips input ('(' :: inside) := by
  generalize he : Expr.lookup name path = expr at h
  induction h with
  | ofConjunction _ ih | ofNegation _ ih | ofComparison _ ih | ofOperand _ ih => exact ih he
  | or | and | not | compare => cases he
  | atom blanks h => exact Or.inl ⟨_, blanks, he ▸ h⟩
  | group opening => exact Or.inr ⟨_, opening⟩

/-- The variable at the front of a text is the identifier there, and its path follows. -/
theorem Atom.steps_of_lookup {first : Char} {name after rest : List Char} {found : String}
    {path : Path} (hc : ∀ c ∈ name, Text.isIdentifierChar c = true) (hb : BreaksName after)
    (h : Atom (first :: (name ++ after)) (.lookup found path) rest) :
    found = String.ofList (first :: name) ∧ Steps after path rest := by
  generalize htext : first :: (name ++ after) = text at h
  cases h with
  | @lookup _ name' after' _ _ start chars ends other steps =>
      obtain ⟨rfl, hsplit⟩ := List.cons.inj htext
      -- both splits are the one between the characters of a name and the rest
      obtain ⟨hname, hafter⟩ := span_append hc hb
      obtain ⟨hname', hafter'⟩ := span_append chars ends
      rw [hsplit] at hname hafter
      rw [← hname, ← hafter, hname', hafter']
      exact ⟨rfl, steps⟩

/-- A variable is an identifier that names no literal. -/
theorem isVariable_iff {name : String} :
    IsVariable name ↔
      Config.isIdentifier name.toList = true ∧ ∀ literal, (name, literal) ∉ constants := by
  constructor
  · rintro ⟨first, more, hname, hstart, hchars, hnone⟩
    rw [hname, Config.isIdentifier, hstart, List.all_eq_true.2 hchars]
    exact ⟨rfl, hnone⟩
  · rintro ⟨hi, hnone⟩
    cases hname : name.toList with
    | nil =>
        rw [hname] at hi
        cases hi
    | cons first more =>
        rw [hname, Config.isIdentifier, Bool.and_eq_true, List.all_eq_true] at hi
        exact ⟨first, more, hname, hi.1, hi.2, hnone⟩

/-- **What a variable with a path behind it stands for.** -/
theorem spells_lookup_iff {identifier : String} (hv : IsVariable identifier) {text : List Char}
    (hb : BreaksName text) {name : String} {path : Path} :
    Spells (identifier.toList ++ text) (.lookup name path) ↔
      name = identifier ∧ ∃ rest, Steps text path rest ∧ Skips rest [] := by
  obtain ⟨first, more, hname, hstart, hchars, hnone⟩ := hv
  obtain rfl : String.ofList (first :: more) = identifier := by rw [← hname, String.ofList_toList]
  rw [hname]
  constructor
  · rintro ⟨rest, hderives, hrest⟩
    rcases hderives.lookup_cases with ⟨found, hskips, hatom⟩ | ⟨inside, hskips⟩
    · rw [hskips.eq_of_isIdentifierStart hstart] at hatom
      obtain ⟨hfound, hsteps⟩ := hatom.steps_of_lookup hchars hb
      exact ⟨hfound, rest, hsteps, hrest⟩
    · -- a parenthesis starts no name
      obtain ⟨rfl, -⟩ := List.cons.inj (hskips.eq_of_isIdentifierStart hstart)
      cases hstart.symm.trans (isIdentifierStart_of_mem (by simp))
  · rintro ⟨rfl, rest, hsteps, hrest⟩
    exact ⟨rest, (Atom.lookup hstart hchars hb hnone hsteps).derives, hrest⟩

/-- No name goes on at the end of a text. -/
theorem breaksName_nil : BreaksName [] := fun c hc => by cases hc

/-- A variable alone is read as one, with the empty path. -/
theorem parse_variable {name : String} (hv : IsVariable name) :
    parse name = .ok (.lookup name []) := by
  rw [parse_eq_ok_iff_chars, parseChars_eq_ok_iff, ← List.append_nil name.toList]
  exact (spells_lookup_iff hv breaksName_nil).2 ⟨rfl, [], .nil [], .none []⟩

/-- The name of a literal is read as the literal. -/
theorem parse_constant {name : String} {literal : Literal} (h : (name, literal) ∈ constants) :
    parse name = .ok (.literal literal) := by
  rw [parse_eq_ok_iff_chars, parseChars_eq_ok_iff, ← List.append_nil name.toList]
  exact ⟨[], (Atom.constant h breaksName_nil).derives, .none []⟩

/-- The variable without a path is the document. -/
theorem eval_variable (scope : Scope) :
    (Expr.lookup scope.name []).eval scope = .ok scope.document := by
  rw [Expr.eval, Expr.read, Scope.lookup, if_pos rfl]
  rfl

end Query

/-! ## The configured name -/

namespace Engine

/-- The engines that can be built. -/
inductive Built : Engine → Prop
  | create {config : Config} {engine : Engine} (created : create config = .ok engine) : Built engine
  | withRegistry {engine : Engine} (built : Built engine) (registry : Registry) :
      Built (engine.withRegistry registry)
  | override {engine layered : Engine} (built : Built engine) {overrides : Overrides}
      (overridden : engine.override overrides = .ok layered) : Built layered

/-- A valid configuration has an engine. -/
theorem built_create {config : Config} (h : config.validate = .ok ()) :
    Built ⟨config, .standard⟩ :=
  .create (bind_eq_ok_iff.2 ⟨(), h, rfl⟩)

/-- A valid layer over an engine has one as well. -/
theorem Built.layered {engine : Engine} (h : engine.Built) {overrides : Overrides}
    (hv : (engine.config.override overrides).validate = .ok ()) :
    Built ⟨engine.config.override overrides, engine.registry⟩ :=
  h.override (bind_eq_ok_iff.2 ⟨(), hv, rfl⟩)

/-- **Every engine has checked its configuration.** -/
theorem Built.validate {engine : Engine} (h : engine.Built) : engine.config.validate = .ok () := by
  induction h with
  | create created =>
      obtain ⟨⟨⟩, hvalid, h⟩ := bind_eq_ok_iff.1 created
      cases h
      exact hvalid
  | withRegistry _ _ ih => exact ih
  | override _ overridden _ =>
      obtain ⟨⟨⟩, hvalid, h⟩ := bind_eq_ok_iff.1 overridden
      cases h
      exact hvalid

/-- The variable of an engine is an identifier. -/
theorem Built.isIdentifier {engine : Engine} (h : engine.Built) :
    Config.isIdentifier engine.config.queryVariable.toList = true :=
  (Config.validate_eq_ok_iff.1 h.validate).1

/-- The variable of an engine gives the document, unless it names a literal. -/
theorem query_variable {engine : Engine} (h : engine.Built)
    (ho : ∀ literal, (engine.config.queryVariable, literal) ∉ Query.constants)
    (document : Document) : engine.query document engine.config.queryVariable = .ok document := by
  rw [query, Query.parse_variable (Query.isVariable_iff.2 ⟨h.isIdentifier, ho⟩)]
  exact Query.eval_variable (engine.context.scope document)

/-- The name of a literal gives the literal, whatever the variable is. -/
theorem query_constant (engine : Engine) (document : Document) {name : String}
    {literal : Query.Literal} (h : (name, literal) ∈ Query.constants) :
    engine.query document name = .ok literal.toDocument := by
  rw [query, Query.parse_constant h]
  rfl

/-- **Which variables name the document.** The variable of an engine that was built, as a query of
its own, gives every document back exactly if it is not the name of a literal; where it is one, the
query gives that literal for every document. -/
theorem query_variable_iff {engine : Engine} (h : engine.Built) :
    ((∀ document, engine.query document engine.config.queryVariable = .ok document) ↔
        ∀ literal, (engine.config.queryVariable, literal) ∉ Query.constants) ∧
      ∀ literal, (engine.config.queryVariable, literal) ∈ Query.constants → ∀ document,
        engine.query document engine.config.queryVariable = .ok literal.toDocument := by
  refine ⟨⟨fun hall literal hm => ?_, query_variable h⟩,
    fun literal hm document => query_constant engine document hm⟩
  -- no literal is a mapping
  have hmapping := (query_constant engine (.mapping []) hm).symm.trans (hall (.mapping []))
  cases literal <;> cases hmapping

/-- The variable of the standard configuration, and one from a layer over it that names a literal:
either gives what it stands for. -/
theorem query_variable_iff_layered :
    let standard : Engine := ⟨.standard, .standard⟩
    let overrides : Overrides :=
      ⟨none, none, none, none, none, none, none, none, some "null", none⟩
    let layered : Engine := ⟨Config.standard.override overrides, .standard⟩
    standard.Built ∧ layered.Built ∧
      (∀ document, standard.query document "d" = .ok document) ∧
        ∀ document, layered.query document "null" = .ok .null := by
  intro standard overrides layered
  have hstandard : standard.Built := built_create rfl
  have hlayered : layered.Built :=
    hstandard.layered (Config.validate_eq_ok_iff.2 ⟨by decide, by decide⟩)
  refine ⟨hstandard, hlayered, (query_variable_iff hstandard).1.2 ?_,
    (query_variable_iff hlayered).2 .null ?_⟩
  · simp [standard, Config.standard, Query.constants]
  · simp [layered, overrides, Config.override, Query.constants]

/-- An engine whose variable is `true` can be built, and as a query the variable gives that truth
value instead of the document. -/
theorem not_query_variable_reserved :
    let engine : Engine := ⟨{ Config.standard with queryVariable := "true" }, .standard⟩
    let document : Document := .mapping [("a", .int 1)]
    engine.Built ∧ engine.query document engine.config.queryVariable = .ok (.bool true) ∧
      ¬ ∀ engine : Engine, engine.Built → ∀ document,
        engine.query document engine.config.queryVariable = .ok document := by
  intro engine document
  have hbuilt : engine.Built := built_create rfl
  have hquery : engine.query document engine.config.queryVariable = .ok (.bool true) :=
    query_constant engine document List.mem_cons_self
  refine ⟨hbuilt, hquery, fun hall => ?_⟩
  have heq : Document.bool true = .mapping [("a", .int 1)] :=
    Except.ok.inj (hquery.symm.trans (hall engine hbuilt document))
  cases heq

end Engine

end PathDoc
