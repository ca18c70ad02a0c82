import Mathlib.Data.Set.Function
import PathDoc.Match.Value
import PathDoc.Proofs.Double.Integers
import PathDoc.Query.Eval

/-!
# Comparing integers

Queries and value matchers compare numbers as doubles, also two integers. So every comparison of two
integers gives the answer for the integers rounded to 53 binary digits, and gives the answer for the
integers themselves wherever no two of them are rounded to the same one (`comparesBy_iff`). That is
so below 2 to the power 53 (`comparesBy_toInt_of_small`), and it fails for the first integer that
needs one digit more.
-/

set_option autoImplicit false

namespace PathDoc.Query

open Double (nearest)
open Match (ValueMatcher TextOptions)

/-- Whether a comparison accepts two numbers that are in some order. -/
def Comparison.accepts (order : Ordering) : Comparison → Bool
  | equal => order == .eq
  | unequal => order != .eq
  | less => order == .lt
  | atMost => order != .gt
  | greater => order == .gt
  | atLeast => order != .lt
  -- a number has no members
  | member => false

/-- Whether integers are compared by a value of each of them: in queries, as members, and as the
values that a matcher looks for. -/
structure ComparesBy (words : Set Int64) (value : Int64 → Int) : Prop where
  /-- Every comparison of a query gives the answer for the values of its sides. -/
  queries : ∀ (scope : Scope) (left right : Expr) (comparison : Comparison), ∀ a ∈ words,
    ∀ b ∈ words, left.eval scope = .ok (.int a) → right.eval scope = .ok (.int b) →
      (Expr.compare left comparison right).eval scope =
        .ok (.bool (comparison.accepts (compare (value a) (value b))))
  /-- An integer is in a container of integers, other than a mapping, if some integer there has the
  same value. -/
  members : ∀ (scope : Scope) (left right : Expr) (whole : Document) (items : List Int64),
    ∀ a ∈ words, (∀ b ∈ items, b ∈ words) → left.eval scope = .ok (.int a) →
      right.eval scope = .ok whole → whole.entries? = none →
      whole.children.map Prod.snd = items.map Document.int →
        (Expr.compare left .member right).eval scope =
          .ok (.bool (items.any fun b => decide (value a = value b)))
  /-- A sought integer equals the integers with the same value. -/
  values : ∀ a ∈ words, ∀ b ∈ words,
    (Document.int a).looselyEqual (.int b) = decide (value a = value b)
  /-- A matcher that looks for an integer matches the integers with the same value. -/
  targets : ∀ (options : TextOptions) (all : Bool), ∀ a ∈ words, ∀ b ∈ words,
    ∃ matcher, ValueMatcher.compile [.value (.int a)] all options = .ok matcher ∧
      matcher.isMatch (.int b) = decide (value a = value b)

/-! ## Values -/

theorem natAbs_toInt_lt (a : Int64) : a.toInt.natAbs < 2 ^ 64 := by
  have hlow := a.le_toInt
  have hhigh := a.toInt_lt
  omega

/-- Integers are equal as sought values if they are rounded to the same one. -/
theorem looselyEqual_int (a b : Int64) :
    (Document.int a).looselyEqual (.int b) = decide (nearest a.toInt = nearest b.toInt) :=
  Double.ofInt_beq (natAbs_toInt_lt a) (natAbs_toInt_lt b)

/-- Integers are in the order of the integers that they are rounded to. -/
theorem ordering?_int (a b : Int64) :
    ordering? (.int a) (.int b) = some (compare (nearest a.toInt) (nearest b.toInt)) := by
  have hlt := Double.ofInt_lt_iff (natAbs_toInt_lt a) (natAbs_toInt_lt b)
  have hgt := Double.ofInt_lt_iff (natAbs_toInt_lt b) (natAbs_toInt_lt a)
  have heq := Double.ofInt_beq (natAbs_toInt_lt a) (natAbs_toInt_lt b)
  change (if Float.ofInt a.toInt < Float.ofInt b.toInt then some Ordering.lt
    else if Float.ofInt b.toInt < Float.ofInt a.toInt then some .gt
    else if Float.ofInt a.toInt == Float.ofInt b.toInt then some .eq else none) = _
  simp only [hlt, hgt, heq]
  rcases lt_trichotomy (nearest a.toInt) (nearest b.toInt) with h | h | h
  · rw [if_pos h, compare_lt_iff_lt.2 h]
  · rw [if_neg h.not_lt, if_neg h.not_gt, if_pos (decide_eq_true h), compare_eq_iff_eq.2 h]
  · rw [if_neg h.not_gt, if_pos h, compare_gt_iff_gt.2 h]

/-! ## Operands -/

/-- An integer is not a container, so its place does not make it equal to anything. -/
theorem equals_int {left right : Operand} {a b : Int64} (hleft : left.value = .int a)
    (hright : right.value = .int b) :
    left.equals right = decide (nearest a.toInt = nearest b.toInt) := by
  rw [Operand.equals, Operand.isSame, hleft, hright, looselyEqual_int]
  rfl

/-- **A comparison of integers accepts the order of the integers that they are rounded to.** -/
theorem holds_int {left right : Operand} {a b : Int64} (hleft : left.value = .int a)
    (hright : right.value = .int b) (comparison : Comparison) :
    comparison.holds left right =
      comparison.accepts (compare (nearest a.toInt) (nearest b.toInt)) := by
  -- the three answers that comparisons ask for, each for the rounded integers
  have hequal : left.equals right = (compare (nearest a.toInt) (nearest b.toInt) == .eq) := by
    rw [equals_int hleft hright, Bool.eq_iff_iff, decide_eq_true_eq, beq_iff_eq,
      compare_eq_iff_eq]
  have horder : ordering? left.value right.value =
      some (compare (nearest a.toInt) (nearest b.toInt)) := by
    rw [hleft, hright, ordering?_int]
  have hmember : right.holds left = false := by
    rw [Operand.holds, hright]
    dsimp only [Document.int]
    rw [Operand.children, hright]
    rfl
  cases comparison with
  | equal => exact hequal
  | unequal => exact congrArg Bool.not hequal
  | member => exact hmember
  | less | atMost | greater | atLeast =>
      rw [Comparison.holds, horder]
      cases compare (nearest a.toInt) (nearest b.toInt) <;> rfl

/-- Some operand equals an integer if one of their values is rounded to the same one. -/
theorem any_equals_int {part : Operand} {a : Int64} (hpart : part.value = .int a)
    {operands : List Operand} {items : List Int64}
    (h : operands.map Operand.value = items.map Document.int) :
    (operands.any fun item => item.equals part) =
      items.any fun b => decide (nearest a.toInt = nearest b.toInt) := by
  induction items generalizing operands with
  | nil =>
      obtain rfl := List.map_eq_nil_iff.1 h
      rfl
  | cons b items ih =>
      obtain ⟨item, rest, rfl, hitem, hrest⟩ := List.map_eq_cons_iff.1 h
      rw [List.any_cons, List.any_cons, ih hrest, equals_int hitem hpart]
      congr 1
      rw [decide_eq_decide]
      exact eq_comm

theorem value_children (whole : Operand) :
    whole.children.map Operand.value = whole.value.children.map Prod.snd := by
  rw [Operand.children]
  refine List.ext_getElem? fun position => ?_
  simp only [List.getElem?_map, List.getElem?_mapIdx, Option.map_map]
  rfl

/-- The members of a container of integers are its children. -/
theorem holds_of_children {whole part : Operand} {a : Int64} {items : List Int64}
    (hpart : part.value = .int a) (hentries : whole.value.entries? = none)
    (hitems : whole.value.children.map Prod.snd = items.map Document.int) :
    whole.holds part = items.any fun b => decide (nearest a.toInt = nearest b.toInt) := by
  rw [← any_equals_int hpart ((value_children whole).trans hitems)]
  obtain ⟨value, place⟩ := whole
  cases value with
  | scalar leaf =>
      cases leaf with
      | string text =>
          -- an integer is not a part of a text, and a text has no children
          rw [Operand.holds, hpart]
          rfl
      | null | bool _ | int _ | float _ => rfl
  | mapping entries => nomatch hentries
  | sequence _ | set _ | record _ _ => rfl

/-! ## Queries -/

/-- A comparison of two queries is one of operands with their values. -/
theorem eval_compare {scope : Scope} {left right : Expr} {x y : Document}
    (hleft : left.eval scope = .ok x) (hright : right.eval scope = .ok y)
    (comparison : Comparison) :
    ∃ l r : Operand, l.value = x ∧ r.value = y ∧
      (Expr.compare left comparison right).eval scope = .ok (.bool (comparison.holds l r)) := by
  obtain ⟨l, hl, hx⟩ := map_eq_ok_iff.1 hleft
  obtain ⟨r, hr, hy⟩ := map_eq_ok_iff.1 hright
  refine ⟨l, r, hx, hy, ?_⟩
  rw [Expr.eval, Expr.read, hl, hr]
  rfl

/-- **Integers are compared by what they are rounded to.** -/
theorem comparesBy_nearest (words : Set Int64) : ComparesBy words fun a => nearest a.toInt where
  queries scope left right comparison a _ b _ hleft hright := by
    obtain ⟨l, r, hl, hr, heval⟩ := eval_compare hleft hright comparison
    rw [heval, holds_int hl hr]
  members scope left right whole items a _ _ hleft hright hentries hitems := by
    obtain ⟨l, r, hl, hr, heval⟩ := eval_compare hleft hright .member
    rw [heval, Comparison.holds, holds_of_children hl (by rw [hr, hentries]) (by rw [hr, hitems])]
  values a _ b _ := looselyEqual_int a b
  targets options all a _ b _ := by
    refine ⟨⟨[⟨false, .value (.int a)⟩], all⟩, rfl, ?_⟩
    rw [← looselyEqual_int]
    cases all <;> simp [ValueMatcher.isMatch, Match.Requirement.meets, Match.Check.passes]

/-- Values in the same order give the same answers. -/
theorem ComparesBy.congr {words : Set Int64} {value value' : Int64 → Int}
    (h : ComparesBy words value)
    (heq : ∀ a ∈ words, ∀ b ∈ words, compare (value a) (value b) = compare (value' a) (value' b)) :
    ComparesBy words value' := by
  -- equality is one case of the order
  have hsame : ∀ a ∈ words, ∀ b ∈ words,
      decide (value a = value b) = decide (value' a = value' b) := by
    intro a ha b hb
    rw [decide_eq_decide, ← compare_eq_iff_eq, heq a ha b hb, compare_eq_iff_eq]
  constructor
  · intro scope left right comparison a ha b hb hleft hright
    rw [h.queries scope left right comparison a ha b hb hleft hright, heq a ha b hb]
  · intro scope left right whole items a ha hitems hleft hright hentries hchildren
    rw [h.members scope left right whole items a ha hitems hleft hright hentries hchildren]
    congr 2
    rw [Bool.eq_iff_iff, List.any_eq_true, List.any_eq_true]
    refine exists_congr fun b => and_congr_right fun hb => ?_
    rw [hsame a ha b (hitems b hb)]
  · intro a ha b hb
    rw [h.values a ha b hb, hsame a ha b hb]
  · intro options all a ha b hb
    obtain ⟨matcher, hcompile, hmatch⟩ := h.targets options all a ha b hb
    exact ⟨matcher, hcompile, hmatch.trans (hsame a ha b hb)⟩

/-- Integers that are not rounded to the same one are compared as integers. -/
theorem comparesBy_toInt {words : Set Int64}
    (h : Set.InjOn (fun a : Int64 => nearest a.toInt) words) : ComparesBy words Int64.toInt := by
  refine (comparesBy_nearest words).congr fun a ha b hb => Double.compare_nearest ?_
  by_cases heq : nearest a.toInt = nearest b.toInt
  · exact Or.inl (congrArg Int64.toInt (h ha hb heq))
  · exact Or.inr heq

/-- **The integers of a set are compared as the integers rounded to 53 binary digits, and they are
compared as integers exactly if no two of them are rounded to the same one.** -/
theorem comparesBy_iff (words : Set Int64) :
    ComparesBy words (fun a => nearest a.toInt) ∧
      (ComparesBy words Int64.toInt ↔ Set.InjOn (fun a : Int64 => nearest a.toInt) words) := by
  refine ⟨comparesBy_nearest words, fun h a ha b hb heq => ?_, comparesBy_toInt⟩
  have hvalues : decide (a.toInt = b.toInt) = true := by
    rw [← h.values a ha b hb, looselyEqual_int, decide_eq_true_eq]
    exact heq
  exact Int64.toInt_inj.1 (of_decide_eq_true hvalues)

/-- Two integers next to each other are equal if the second one has one digit too many. -/
theorem not_comparesBy_toInt_neighbours :
    (Document.int 9007199254740992).looselyEqual (.int 9007199254740993) = true ∧
      ¬ ComparesBy Set.univ Int64.toInt := by
  have hequal : (Document.int 9007199254740992).looselyEqual (.int 9007199254740993) = true := by
    decide +kernel
  refine ⟨hequal, fun h => ?_⟩
  rw [h.values _ (Set.mem_univ _) _ (Set.mem_univ _)] at hequal
  exact absurd (of_decide_eq_true hequal) (by decide)

/-- **Integers of at most 53 binary digits are compared as integers.** -/
theorem comparesBy_toInt_of_small :
    ComparesBy {a | a.toInt.natAbs < 2 ^ 53} Int64.toInt := by
  refine comparesBy_toInt fun a ha b hb heq => Int64.toInt_inj.1 ?_
  calc a.toInt = nearest a.toInt := (Double.nearest_eq_self ha).symm
    _ = nearest b.toInt := heq
    _ = b.toInt := Double.nearest_eq_self hb

end PathDoc.Query
