import PathDoc.Proofs.Step.Skipping
import PathDoc.Proofs.Write.Uniqueness

/-!
# What queries fail with

A path that leads nowhere is null to a query, so only two things fail it: the name of a variable
that is not bound, and a path that goes on with a position where a leaf is (`Scope.Refuses`).
`Expr.Reaches` says which paths an evaluation comes to, from left to right: the right side of a
comparison when the left one has a value, that of "and" when the left one counts as true, and that
of "or" when it does not.

Following a path fails with something else than a missing path exactly where it goes below a leaf
(`Navigator.follow_eq_error_iff`). By induction on the expression an evaluation fails exactly if it
comes to a path that is refused (`Expr.eval_eq_error_iff_refused`). This is never a missing path, so
steps that evaluate a query do not depend on whether missing paths are skipped
(`Expr.eval_eq_error_iff`).
-/

set_option autoImplicit false

namespace PathDoc

/-! ## Paths below leaves -/

namespace Navigator

variable {navigator : Navigator} {node : Document} {token : Token} {error : Error}

/-- Whether a path goes on with a position where a leaf is. -/
def IndexesLeaf (navigator : Navigator) (document : Document) (path : Path) : Prop :=
  ∃ (above : Path) (position : Int) (below : Path) (leaf : Scalar),
    path = above ++ .index position :: below ∧ navigator.get document above = .ok (.scalar leaf)

theorem attributeOr_ne_mismatch (name what reason : String) :
    navigator.attributeOr node name what ≠ .error (.mismatch reason) := by
  intro h
  rw [attributeOr] at h
  split at h <;> cases h

theorem positionOr_ne_mismatch (position : Int) (length : Nat) (reason : String) :
    positionOr node position length ≠ .error (.mismatch reason) := by
  intro h
  rw [positionOr] at h
  split at h <;> cases h

/-- Whether a token is of the wrong kind is known before its child is looked at. -/
theorem child_eq_mismatch_iff_locate {reason : String} :
    navigator.child node token = .error (.mismatch reason) ↔
      navigator.locate node token = .error (.mismatch reason) := by
  rw [child]
  cases navigator.locate node token with
  | error miss => simp
  | ok slot =>
      dsimp only
      split <;> simp [Miss.stale]

/-- **A token is of the wrong kind only if it is a position below a leaf.** -/
theorem child_eq_mismatch_iff {reason : String} :
    navigator.child node token = .error (.mismatch reason) ↔
      (∃ leaf position, node = .scalar leaf ∧ token = .index position) ∧
        reason = "indexing into a scalar" := by
  rw [child_eq_mismatch_iff_locate]
  constructor
  · intro h
    cases token with
    | key name =>
        -- a name is looked for and at worst not found
        cases node with
        | mapping entries =>
            rw [locate] at h
            split at h
            · cases h
            · exact absurd h (attributeOr_ne_mismatch _ _ _)
        | _ => exact absurd h (attributeOr_ne_mismatch _ _ _)
    | index position =>
        cases node with
        | scalar leaf =>
            cases h
            exact ⟨⟨leaf, position, rfl, rfl⟩, rfl⟩
        | mapping entries =>
            rw [locate] at h
            split at h <;> cases h
        | _ => exact absurd h (positionOr_ne_mismatch _ _ _)
  · rintro ⟨⟨leaf, position, rfl, rfl⟩, rfl⟩
    rfl

/-- A path goes below a leaf where it does so behind its first child. -/
theorem indexesLeaf_cons_of_child {child : Document} {slot : Slot} {rest : Path}
    (hc : navigator.child node token = .ok (slot, child)) :
    navigator.IndexesLeaf node (token :: rest) ↔ navigator.IndexesLeaf child rest := by
  constructor
  · rintro ⟨above, position, below, leaf, hpath, hget⟩
    cases above with
    | nil =>
        cases hpath
        cases hget
        cases hc.symm.trans (child_eq_mismatch_iff.2 ⟨⟨leaf, position, rfl, rfl⟩, rfl⟩)
    | cons first above =>
        cases hpath
        exact ⟨above, position, below, leaf, rfl, (get_cons_eq_ok_iff hc).1 hget⟩
  · rintro ⟨above, position, below, leaf, rfl, hget⟩
    exact ⟨token :: above, position, below, leaf, rfl, (get_cons_eq_ok_iff hc).2 hget⟩

/-- A path whose first token leads nowhere goes below a leaf only if it starts at one. -/
theorem indexesLeaf_cons_of_miss {miss : Miss} {rest : Path}
    (hc : navigator.child node token = .error miss) :
    navigator.IndexesLeaf node (token :: rest) ↔ miss = .mismatch "indexing into a scalar" := by
  constructor
  · rintro ⟨above, position, below, leaf, hpath, hget⟩
    cases above with
    | nil =>
        cases hpath
        cases hget
        exact Except.error.inj
          (hc.symm.trans (child_eq_mismatch_iff.2 ⟨⟨leaf, position, rfl, rfl⟩, rfl⟩))
    | cons first above =>
        cases hpath
        obtain ⟨slot, child, hchild, -⟩ := get_cons_cases hget
        cases hc.symm.trans hchild
  · rintro rfl
    obtain ⟨⟨leaf, position, rfl, rfl⟩, -⟩ := child_eq_mismatch_iff.1 hc
    exact ⟨[], position, rest, leaf, rfl, rfl⟩

/-- **Following a path fails with something else than a missing path exactly below leaves.** -/
theorem follow_eq_error_iff {path : Path} {tokens : List Token}
    (hm : error.isMissingPath = false) :
    navigator.follow path node tokens = .error error ↔
      navigator.IndexesLeaf node tokens ∧
        error = .typeMismatch ("indexing into a scalar at '" ++ path.text ++ "'") := by
  -- induction on the tokens: the first one that leads nowhere decides the error
  induction tokens generalizing node with
  | nil =>
      refine ⟨nofun, ?_⟩
      rintro ⟨⟨above, position, below, leaf, hpath, -⟩, -⟩
      exact absurd hpath (List.append_ne_nil_of_right_ne_nil above (List.cons_ne_nil _ _)).symm
  | cons token rest ih =>
      rw [follow]
      cases hc : navigator.child node token with
      | ok found => rw [ih, indexesLeaf_cons_of_child hc]
      | error miss =>
          rw [indexesLeaf_cons_of_miss hc]
          cases miss with
          | missing reason =>
              -- a child that is not there is a missing path, which is excluded
              constructor
              · intro h
                cases h
                cases hm
              · rintro ⟨h, -⟩
                cases h
          | mismatch reason =>
              obtain ⟨-, rfl⟩ := child_eq_mismatch_iff.1 hc
              constructor
              · intro h
                cases h
                exact ⟨rfl, rfl⟩
              · rintro ⟨-, rfl⟩
                rfl

end Navigator

namespace Query

variable {scope : Scope} {error : Error}

/-! ## Paths that are refused -/

/-- A path that a query cannot read, and what is reported. -/
inductive Scope.Refuses (scope : Scope) : String → Path → Error → Prop
  /-- The variable is not bound. -/
  | unknown {name : String} (path : Path) (other : name ≠ scope.name) :
      Refuses scope name path (.invalidQuery ("unknown variable '" ++ name ++ "'"))
  /-- The path goes on with a position where a leaf is. -/
  | leaf {path : Path} (below : scope.navigator.IndexesLeaf scope.document path) :
      Refuses scope scope.name path
        (.typeMismatch ("indexing into a scalar at '" ++ path.text ++ "'"))

/-- A refused path is none that is missing. -/
theorem Scope.Refuses.isMissingPath {name : String} {path : Path}
    (h : scope.Refuses name path error) : error.isMissingPath = false := by
  cases h <;> rfl

/-- **A path is read unless it is refused.** -/
theorem Scope.lookup_eq_error_iff {name : String} {path : Path} :
    scope.lookup name path = .error error ↔ scope.Refuses name path error := by
  rw [lookup]
  by_cases hn : name = scope.name
  · subst hn
    rw [if_pos rfl]
    constructor
    · intro h
      cases hg : scope.navigator.get scope.document path with
      | ok value =>
          rw [hg] at h
          cases h
      | error failure =>
          -- a missing path is null
          cases hm : failure.isMissingPath with
          | true => simp [hg, hm] at h
          | false =>
              simp only [hg, hm] at h
              cases h
              obtain ⟨hbelow, rfl⟩ := (Navigator.follow_eq_error_iff hm).1 hg
              exact .leaf hbelow
    · intro h
      cases h with
      | unknown path other => exact absurd rfl other
      | leaf below =>
          have hg : scope.navigator.get scope.document path = .error _ :=
            (Navigator.follow_eq_error_iff rfl).2 ⟨below, rfl⟩
          rw [hg]
          rfl
  · rw [if_neg hn]
    constructor
    · intro h
      cases h
      exact .unknown path hn
    · intro h
      cases h with
      | unknown path other => rfl
      | leaf below => exact absurd rfl hn

/-! ## Paths that are reached -/

namespace Expr

/-- The paths that an evaluation comes to, from left to right and no further than it has to go. -/
inductive Reaches (scope : Scope) : Expr → String → Path → Prop
  | lookup (name : String) (path : Path) : Reaches scope (lookup name path) name path
  | compareLeft {left right : Expr} {comparison : Comparison} {name : String} {path : Path}
      (h : Reaches scope left name path) : Reaches scope (compare left comparison right) name path
  | compareRight {left right : Expr} {comparison : Comparison} {name : String} {path : Path}
      {value : Document} (read : left.eval scope = .ok value) (h : Reaches scope right name path) :
      Reaches scope (compare left comparison right) name path
  | andLeft {a b : Expr} {name : String} {path : Path} (h : Reaches scope a name path) :
      Reaches scope (and a b) name path
  | andRight {a b : Expr} {name : String} {path : Path} {value : Document}
      (read : a.eval scope = .ok value) (undecided : value.isTruthy = true)
      (h : Reaches scope b name path) : Reaches scope (and a b) name path
  | orLeft {a b : Expr} {name : String} {path : Path} (h : Reaches scope a name path) :
      Reaches scope (or a b) name path
  | orRight {a b : Expr} {name : String} {path : Path} {value : Document}
      (read : a.eval scope = .ok value) (undecided : value.isTruthy = false)
      (h : Reaches scope b name path) : Reaches scope (or a b) name path
  | not {a : Expr} {name : String} {path : Path} (h : Reaches scope a name path) :
      Reaches scope (not a) name path

/-- Whether an evaluation comes to a path that is refused with an error. -/
def Refused (scope : Scope) (expr : Expr) (error : Error) : Prop :=
  ∃ name path, expr.Reaches scope name path ∧ scope.Refuses name path error

/-! ## What an evaluation fails with -/

theorem eval_eq_error_iff_read {expr : Expr} :
    expr.eval scope = .error error ↔ expr.read scope = .error error :=
  map_eq_error_iff

/-- What is said of a value only does not depend on the place that it was read from. -/
theorem exists_read_iff {expr : Expr} {p : Document → Prop} :
    (∃ operand, expr.read scope = .ok operand ∧ p operand.value) ↔
      ∃ value, expr.eval scope = .ok value ∧ p value := by
  constructor
  · rintro ⟨operand, hread, hp⟩
    exact ⟨operand.value, map_eq_ok_iff.2 ⟨operand, hread, rfl⟩, hp⟩
  · rintro ⟨value, heval, hp⟩
    obtain ⟨operand, hread, rfl⟩ := map_eq_ok_iff.1 heval
    exact ⟨operand, hread, hp⟩

/-- A comparison fails on its left side or, behind that, on its right side. -/
theorem eval_compare_eq_error_iff {left right : Expr} {comparison : Comparison} :
    (compare left comparison right).eval scope = .error error ↔
      left.eval scope = .error error ∨
        ∃ value, left.eval scope = .ok value ∧ right.eval scope = .error error := by
  rw [← exists_read_iff, eval_eq_error_iff_read, eval_eq_error_iff_read, eval_eq_error_iff_read,
    read, bind_eq_error_iff]
  simp [bind_eq_error_iff]

/-- "And" fails on its left side or, if that counts as true, on its right side. -/
theorem eval_and_eq_error_iff {a b : Expr} :
    (and a b).eval scope = .error error ↔
      a.eval scope = .error error ∨
        ∃ value, a.eval scope = .ok value ∧ value.isTruthy = true ∧
          b.eval scope = .error error := by
  rw [← exists_read_iff, eval_eq_error_iff_read, eval_eq_error_iff_read, eval_eq_error_iff_read,
    read, bind_eq_error_iff]
  refine or_congr_right (exists_congr fun operand => ?_)
  cases operand.value.isTruthy <;> simp [bind_eq_error_iff]

/-- "Or" fails on its left side or, if that does not count as true, on its right side. -/
theorem eval_or_eq_error_iff {a b : Expr} :
    (or a b).eval scope = .error error ↔
      a.eval scope = .error error ∨
        ∃ value, a.eval scope = .ok value ∧ value.isTruthy = false ∧
          b.eval scope = .error error := by
  rw [← exists_read_iff, eval_eq_error_iff_read, eval_eq_error_iff_read, eval_eq_error_iff_read,
    read, bind_eq_error_iff]
  refine or_congr_right (exists_congr fun operand => ?_)
  cases operand.value.isTruthy <;> simp [bind_eq_error_iff]

theorem eval_not_eq_error_iff {a : Expr} :
    (not a).eval scope = .error error ↔ a.eval scope = .error error := by
  rw [eval_eq_error_iff_read, eval_eq_error_iff_read, read, bind_eq_error_iff]
  simp

/-! ## What is refused on the way -/

theorem not_refused_literal (value : Literal) : ¬ (literal value).Refused scope error := by
  rintro ⟨name, path, h, -⟩
  cases h

theorem refused_lookup_iff {name : String} {path : Path} :
    (lookup name path).Refused scope error ↔ scope.Refuses name path error := by
  constructor
  · rintro ⟨_, _, h, hrefused⟩
    cases h
    exact hrefused
  · exact fun h => ⟨name, path, .lookup name path, h⟩

theorem refused_compare_iff {left right : Expr} {comparison : Comparison} :
    (compare left comparison right).Refused scope error ↔
      left.Refused scope error ∨
        ∃ value, left.eval scope = .ok value ∧ right.Refused scope error := by
  constructor
  · rintro ⟨name, path, h, hrefused⟩
    cases h with
    | compareLeft h => exact Or.inl ⟨name, path, h, hrefused⟩
    | compareRight read h => exact Or.inr ⟨_, read, name, path, h, hrefused⟩
  · rintro (⟨name, path, h, hrefused⟩ | ⟨value, read, name, path, h, hrefused⟩)
    · exact ⟨name, path, .compareLeft h, hrefused⟩
    · exact ⟨name, path, .compareRight read h, hrefused⟩

theorem refused_and_iff {a b : Expr} :
    (and a b).Refused scope error ↔
      a.Refused scope error ∨
        ∃ value, a.eval scope = .ok value ∧ value.isTruthy = true ∧ b.Refused scope error := by
  constructor
  · rintro ⟨name, path, h, hrefused⟩
    cases h with
    | andLeft h => exact Or.inl ⟨name, path, h, hrefused⟩
    | andRight read undecided h => exact Or.inr ⟨_, read, undecided, name, path, h, hrefused⟩
  · rintro (⟨name, path, h, hrefused⟩ | ⟨value, read, undecided, name, path, h, hrefused⟩)
    · exact ⟨name, path, .andLeft h, hrefused⟩
    · exact ⟨name, path, .andRight read undecided h, hrefused⟩

theorem refused_or_iff {a b : Expr} :
    (or a b).Refused scope error ↔
      a.Refused scope error ∨
        ∃ value, a.eval scope = .ok value ∧ value.isTruthy = false ∧ b.Refused scope error := by
  constructor
  · rintro ⟨name, path, h, hrefused⟩
    cases h with
    | orLeft h => exact Or.inl ⟨name, path, h, hrefused⟩
    | orRight read undecided h => exact Or.inr ⟨_, read, undecided, name, path, h, hrefused⟩
  · rintro (⟨name, path, h, hrefused⟩ | ⟨value, read, undecided, name, path, h, hrefused⟩)
    · exact ⟨name, path, .orLeft h, hrefused⟩
    · exact ⟨name, path, .orRight read undecided h, hrefused⟩

theorem refused_not_iff {a : Expr} : (not a).Refused scope error ↔ a.Refused scope error := by
  constructor
  · rintro ⟨name, path, h, hrefused⟩
    cases h with
    | not h => exact ⟨name, path, h, hrefused⟩
  · exact fun ⟨name, path, h, hrefused⟩ => ⟨name, path, .not h, hrefused⟩

/-- **An evaluation fails exactly if it comes to a path that is refused.** -/
theorem eval_eq_error_iff_refused {expr : Expr} :
    expr.eval scope = .error error ↔ expr.Refused scope error := by
  -- an operator fails on the sides that the evaluation comes to, and is refused there
  induction expr with
  | literal value =>
      constructor
      · intro h
        cases h
      · exact fun h => absurd h (not_refused_literal value)
  | lookup name path =>
      rw [eval_eq_error_iff_read, read, Scope.lookup_eq_error_iff, refused_lookup_iff]
  | compare left comparison right ihl ihr =>
      rw [eval_compare_eq_error_iff, refused_compare_iff, ihl, ihr]
  | and a b iha ihb => rw [eval_and_eq_error_iff, refused_and_iff, iha, ihb]
  | or a b iha ihb => rw [eval_or_eq_error_iff, refused_or_iff, iha, ihb]
  | not a ih => rw [eval_not_eq_error_iff, refused_not_iff, ih]

/-- An evaluation reports no missing path. -/
theorem isMissingPath_of_eval {expr : Expr} (h : expr.eval scope = .error error) :
    error.isMissingPath = false := by
  obtain ⟨name, path, -, hrefused⟩ := eval_eq_error_iff_refused.1 h
  exact hrefused.isMissingPath

end Expr

end Query

/-! ## Steps that evaluate a query -/

/-- A run that reports no missing path is the same where they are skipped. -/
theorem Step.dropMissing_of_isMissingPath {skip : Bool} {outcome : Outcome (Option Document)}
    (h : ∀ error, outcome = .error error → error.isMissingPath = false) :
    dropMissing skip outcome = outcome := by
  cases outcome with
  | ok result => rfl
  | error failure => rw [dropMissing, h failure rfl, Bool.and_false, if_neg Bool.false_ne_true]

namespace Query.Expr

variable {context : Context} {document : Document}

/-- The value of a query as a step, whatever is said about missing paths. -/
theorem run_query (expr : Expr) (override : Option Bool) :
    (Step.action (.query expr) override).run context document =
      (expr.eval (context.scope document)).map some := by
  rw [Step.run]
  apply Step.dropMissing_of_isMissingPath
  exact fun error h => isMissingPath_of_eval (map_eq_error_iff.1 h)

/-- A query as a filter, whatever is said about missing paths. -/
theorem run_filter (expr : Expr) (override : Option Bool) :
    (Step.action (.filter expr) override).run context document =
      (expr.isTrue (context.scope document)).map
        fun keep => if keep then some document else none := by
  rw [Step.run]
  apply Step.dropMissing_of_isMissingPath
  exact fun error h => isMissingPath_of_eval (map_eq_error_iff.1 (map_eq_error_iff.1 h))

/-- **What a query fails with.** Evaluating a query fails exactly if it comes, from left to right
and no further than it has to go, to a path of an unknown variable or to one that goes on with a
position below a leaf, and it reports that path; it never reports a missing path. So a query gives
the same as a step and as a filter, on every document, whether missing paths are skipped or not, be
it by the configuration or for the step alone. -/
theorem eval_eq_error_iff (expr : Expr) :
    (∀ (scope : Scope) (error : Error), expr.eval scope = .error error ↔
        ∃ name path, expr.Reaches scope name path ∧ scope.Refuses name path error) ∧
      (∀ (scope : Scope) (path token reason : String),
        expr.eval scope ≠ .error (.navigation path token reason)) ∧
      ∀ (context : Context) (document : Document) (configured configured' : Bool)
        (override override' : Option Bool),
        (Step.action (.query expr) override).run (context.skipping configured) document =
            (Step.action (.query expr) override').run (context.skipping configured') document ∧
          (Step.action (.filter expr) override).run (context.skipping configured) document =
            (Step.action (.filter expr) override').run (context.skipping configured') document := by
  refine ⟨fun scope error => eval_eq_error_iff_refused, fun scope path token reason h => ?_,
    fun context document configured configured' override override' => ⟨?_, ?_⟩⟩
  · cases isMissingPath_of_eval h
  · -- the settings are no part of what a query sees
    rw [run_query, run_query]
    rfl
  · rw [run_filter, run_filter]
    rfl

/-- The right side of "and" is not looked at if the left one does not count as true: its variable
may be unknown. -/
example : (and (lookup "d" [.key "a"]) (lookup "e" [])).eval ⟨"d", .mapping [], .standard⟩ =
    .ok (.bool false) := rfl

end Query.Expr

end PathDoc
