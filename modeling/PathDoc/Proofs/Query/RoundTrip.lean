import PathDoc.Proofs.Query.Operands

/-!
# Reading back the text of a query

`Expr.ReadsBack` says which queries come back when their text is read: those without a comparison or
a negation as a side of a comparison, whose literals and paths come back by themselves. For them the
text derives the query from the grammar (`derives_render`). For all others the reader is followed
through the text (`follows`): it fails, or it stops inside, where neither the end nor a sign that
goes on can follow (`Blocked`), or it comes to the end with another query. Both together make
`parse_text_iff`, for every query that was read from some text.
-/

set_option autoImplicit false

namespace PathDoc.Query

namespace Expr

/-- Whether an expression is an operand without parentheses around its text. -/
def isOperand : Expr → Bool
  | compare _ _ _ => false
  | not _ => false
  | _ => true

/-- Whether a query is read back from its text: no side of a comparison is a comparison or a
negation, and every literal and every name in a path is read back. -/
def ReadsBack : Expr → Prop
  | literal value => value.ReadsBack
  | lookup _ path => ∀ token ∈ path, TokenReadsBack token
  | compare left _ right =>
    (left.isOperand = true ∧ left.ReadsBack) ∧ right.isOperand = true ∧ right.ReadsBack
  | and a b => a.ReadsBack ∧ b.ReadsBack
  | or a b => a.ReadsBack ∧ b.ReadsBack
  | not a => a.ReadsBack

/-- Whether an expression can be read from a text at all: its variables have names of variables, and
positions fit a word. -/
def Proper : Expr → Prop
  | literal _ => True
  | lookup name path => IsVariable name ∧ path.inRange = true
  | compare left _ right => left.Proper ∧ right.Proper
  | and a b => a.Proper ∧ b.Proper
  | or a b => a.Proper ∧ b.Proper
  | not a => a.Proper

theorem render_compare (left : Expr) (comparison : Comparison) (right : Expr) (rest : List Char) :
    (compare left comparison right).render ++ rest =
      left.render ++ ' ' :: (comparison.sign.toList ++ ' ' :: (right.render ++ rest)) := by
  simp [render]

theorem render_and (a b : Expr) (rest : List Char) :
    (and a b).render ++ rest =
      '(' :: (a.render ++ ' ' :: '&' :: '&' :: ' ' :: (b.render ++ ')' :: rest)) := by
  simp [render]

theorem render_or (a b : Expr) (rest : List Char) :
    (or a b).render ++ rest =
      '(' :: (a.render ++ ' ' :: '|' :: '|' :: ' ' :: (b.render ++ ')' :: rest)) := by
  simp [render]

end Expr

open PathDoc.Query.Expr

/-! ## Queries that come back -/

theorem breaksName_blank (text : List Char) : BreaksName (' ' :: text) := by
  intro c hc
  cases hc
  decide +kernel

theorem skips_blank (text : List Char) : Skips (' ' :: text) text :=
  .blank (by decide) (.none text)

/-- **The text of a query that is read back derives it.** -/
theorem derives_render {expr : Expr} (hp : expr.Proper) (hr : expr.ReadsBack) :
    (expr.isOperand = true → ∀ rest, Follow rest →
      Derives .operand (expr.render ++ rest) expr rest) ∧
    ∀ rest, Closer rest → Derives .negation (expr.render ++ rest) expr rest := by
  -- an operand is also a comparison and a negation
  have hoperand : ∀ {expr : Expr},
      (∀ rest, Follow rest → Derives .operand (expr.render ++ rest) expr rest) →
        (expr.isOperand = true → ∀ rest, Follow rest →
          Derives .operand (expr.render ++ rest) expr rest) ∧
        ∀ rest, Closer rest → Derives .negation (expr.render ++ rest) expr rest :=
    fun h => ⟨fun _ => h, fun rest hc => .ofComparison (.ofOperand (h rest (.closer hc)))⟩
  induction expr with
  | literal value =>
      exact hoperand fun rest hf => .atom (.none _) (atom_literal hr hf.breaksName)
  | lookup name path =>
      refine hoperand fun rest hf => .atom (.none _) ?_
      rw [render, List.append_assoc]
      exact atom_lookup hp.1 hp.2 hr hf
  | compare left comparison right ihl ihr =>
      obtain ⟨⟨hlo, hlr⟩, hro, hrr⟩ := hr
      refine ⟨nofun, fun rest hc => ?_⟩
      rw [render_compare]
      exact .ofComparison (.compare ((ihl hp.1 hlr).1 hlo _ (.sign comparison _))
        (skips_blank _) (fun _ => breaksName_blank _)
        (.skips (skips_blank _) ((ihr hp.2 hrr).1 hro rest (.closer hc))))
  | and a b iha ihb =>
      refine hoperand fun rest _ => ?_
      rw [render_and]
      exact .group (.none _) (.ofConjunction (.and (.ofNegation ((iha hp.1 hr.1).2 _ (.and _)))
        (skips_blank _) (.skips (skips_blank _) ((ihb hp.2 hr.2).2 _ (.paren rest))))) (.none _)
  | or a b iha ihb =>
      refine hoperand fun rest _ => ?_
      rw [render_or]
      exact .group (.none _) (.or (.ofConjunction (.ofNegation ((iha hp.1 hr.1).2 _ (.or _))))
        (skips_blank _)
        (.ofNegation (.skips (skips_blank _) ((ihb hp.2 hr.2).2 _ (.paren rest))))) (.none _)
  | not a ih =>
      exact ⟨nofun, fun rest hc => .not (.none _) ((ih hp hr).2 rest hc)⟩

/-! ## Reading through a text -/

/-- Whether what is read from the front of a text is the whole front, unless reading stops before.
What is read then has a property. -/
def Completes (reading : Reading Expr) (front rest : List Char) (property : Expr → Prop) : Prop :=
  ∀ found rest', reading (front ++ rest) = .ok (found, rest') →
    (Text.dropBlanks rest' = Text.dropBlanks rest ∧ property found) ∨ Blocked rest'

theorem Completes.mono {reading : Reading Expr} {front rest : List Char}
    {property property' : Expr → Prop} (h : Completes reading front rest property)
    (hp : ∀ found, property found → property' found) : Completes reading front rest property' := by
  intro found rest' hread
  rcases h found rest' hread with ⟨hdrop, hfound⟩ | hblocked
  · exact Or.inl ⟨hdrop, hp found hfound⟩
  · exact Or.inr hblocked

section Chain

variable {sign : Char} {join : Expr → Expr → Expr} {item : Reading Expr} {level : Level}
  {front back rest : List Char} {property property' : Expr → Prop}

theorem not_sign_of_ne {c : Char} {tail : List Char} (hd : Text.dropBlanks rest = c :: tail)
    (hc : c ≠ sign) : ¬ [sign, sign] <+: Text.dropBlanks rest := by
  rw [hd]
  rintro ⟨more, he⟩
  exact hc (List.cons.inj he).1.symm

theorem not_sign_paren (hs : sign ≠ ')') (rest : List Char) :
    ¬ [sign, sign] <+: Text.dropBlanks (')' :: rest) :=
  not_sign_of_ne (dropBlanks_cons (by decide) rest) hs.symm

theorem Blocked.not_sign (h : Blocked rest) (hs : sign ∈ ['&', '|', ')']) :
    ¬ [sign, sign] <+: Text.dropBlanks rest := by
  obtain ⟨c, tail, hdrop, hc⟩ := h
  exact not_sign_of_ne hdrop fun he => hc (he ▸ hs)

theorem Blocked.of_dropBlanks {a b : List Char} (h : Blocked a)
    (hd : Text.dropBlanks b = Text.dropBlanks a) : Blocked b := by
  rwa [Blocked, hd]

/-- A chain of one item ends where its sign does not follow. -/
theorem chain_of_item (hi : Sound level item) {input middle rest' : List Char} {first found : Expr}
    (hf : item input = .ok (first, middle)) (hs : ¬ [sign, sign] <+: Text.dropBlanks middle)
    (h : chain sign join item input = .ok (found, rest')) :
    found = first ∧ Text.dropBlanks rest' = Text.dropBlanks middle := by
  have hpasses : Passes sign join item input first middle := .first hi ⟨middle, hf, rfl⟩
  obtain ⟨last, hread, hlast⟩ := hpasses.reads hs
  cases h.symm.trans hread
  exact ⟨rfl, hlast⟩

/-- A chain of one item is read like that item. -/
theorem Completes.chain_one (hi : Sound level item) (hs : sign ∈ ['&', '|', ')'])
    (h : Completes item front rest property) (hn : ¬ [sign, sign] <+: Text.dropBlanks rest) :
    Completes (chain sign join item) front rest property := by
  intro found rest' hread
  obtain ⟨⟨first, middle⟩, hf, -⟩ := bind_eq_ok_iff.1 hread
  rcases h first middle hf with ⟨hdrop, hfirst⟩ | hblocked
  · obtain ⟨rfl, hrest⟩ := chain_of_item hi hf (hdrop ▸ hn) hread
    exact Or.inl ⟨hrest.trans hdrop, hfirst⟩
  · obtain ⟨rfl, hrest⟩ := chain_of_item hi hf (hblocked.not_sign hs) hread
    exact Or.inr (hblocked.of_dropBlanks hrest)

/-- A chain whose sign follows reads a second item. -/
theorem exists_second (hi : Sound level item) {input middle after rest' : List Char}
    {first found : Expr} (hf : item input = .ok (first, middle))
    (hm : Text.dropBlanks middle = sign :: sign :: after)
    (h : chain sign join item input = .ok (found, rest')) :
    ∃ second last, item after = .ok (second, last) := by
  have hmiddle := hi.length_le hf
  have hle := (skips_dropBlanks middle).length_le
  rw [hm] at hle
  simp only [List.length_cons] at hle
  obtain ⟨fuel, hfuel⟩ : ∃ less, input.length = less + 1 := ⟨input.length - 1, by omega⟩
  rw [chain, hf] at h
  simp only [bind, Except.bind, hfuel, chainTail, hm, and_self, if_true] at h
  cases hs : item after with
  | error stop =>
      rw [hs] at h
      cases h
  | ok result => exact ⟨result.1, result.2, rfl⟩

/-- A chain of two items is read item by item. -/
theorem Completes.chain_two (hi : Sound level item) (hs : sign ∈ ['&', '|', ')'])
    (hb : Text.isBlank sign = false)
    (h : Completes item front (' ' :: sign :: sign :: ' ' :: (back ++ rest)) property)
    (h' : Completes item (' ' :: back) rest property')
    (hn : ¬ [sign, sign] <+: Text.dropBlanks rest) :
    Completes (chain sign join item) (front ++ ' ' :: sign :: sign :: ' ' :: back) rest
      (fun found => ∃ a b, found = join a b ∧ property a ∧ property' b) := by
  intro found rest' hread
  have htext : front ++ ' ' :: sign :: sign :: ' ' :: back ++ rest =
      front ++ ' ' :: sign :: sign :: ' ' :: (back ++ rest) := by
    simp
  rw [htext] at hread
  obtain ⟨⟨first, middle⟩, hf, -⟩ := bind_eq_ok_iff.1 hread
  rcases h first middle hf with ⟨hdrop, hfirst⟩ | hblocked
  · -- the first item is complete, so the sign comes next and a second item is read
    have hsign : Skips (' ' :: sign :: sign :: ' ' :: (back ++ rest))
        (sign :: sign :: ' ' :: (back ++ rest)) := .blank (by decide) (.none _)
    obtain ⟨second, last, hsecond⟩ :=
      exists_second hi hf (hdrop.trans (hsign.dropBlanks_eq hb)) hread
    have hpasses : Passes sign join item _ (join first second) last :=
      (Passes.first hi ⟨middle, hf, hdrop⟩).next hi hb hsign ⟨last, hsecond, rfl⟩
    rcases h' second last hsecond with ⟨hlast, hback⟩ | hblocked
    · obtain ⟨behind, hchain, hbehind⟩ := hpasses.reads (hlast ▸ hn)
      cases hread.symm.trans hchain
      exact Or.inl ⟨hbehind.trans hlast, first, second, rfl, hfirst, hback⟩
    · obtain ⟨behind, hchain, hbehind⟩ := hpasses.reads (hblocked.not_sign hs)
      cases hread.symm.trans hchain
      exact Or.inr (hblocked.of_dropBlanks hbehind)
  · obtain ⟨rfl, hrest⟩ := chain_of_item hi hf (hblocked.not_sign hs) hread
    exact Or.inr (hblocked.of_dropBlanks hrest)

end Chain

/-! ### The first character -/

/-- The text of an expression begins with no blank and no sign of equality, and that of an operand
not with the sign of negation. -/
theorem exists_head_of_proper {expr : Expr} (hp : expr.Proper) :
    ∃ c tail, expr.render = c :: tail ∧ Text.isBlank c = false ∧ c ≠ '=' ∧
      (expr.isOperand = true → c ≠ '!') := by
  -- a literal and a name begin like a word, and no word begins with a sign
  have hatom : ∀ {text : List Char} {expr : Expr}, (∃ c tail, text = c :: tail ∧ AtomHead c) →
      ∃ c tail, text = c :: tail ∧ Text.isBlank c = false ∧ c ≠ '=' ∧
        (expr.isOperand = true → c ≠ '!') := by
    rintro text expr ⟨c, tail, rfl, hc⟩
    obtain ⟨hblank, -, hnot, hequal⟩ := hc.spec
    exact ⟨c, tail, rfl, hblank, hequal, fun _ => hnot⟩
  induction expr with
  | literal value => exact hatom value.exists_head
  | lookup name path =>
      obtain ⟨⟨first, more, hname, hfirst, -⟩, -⟩ := hp
      refine hatom ⟨first, more ++ renderBelow path, ?_, .name hfirst⟩
      rw [render, hname, List.cons_append]
  | compare left comparison right ihl ihr =>
      obtain ⟨c, tail, hleft, hblank, hequal, -⟩ := ihl hp.1
      refine ⟨c, tail ++ ' ' :: (comparison.sign.toList ++ ' ' :: right.render), ?_, hblank, hequal,
        nofun⟩
      rw [render, hleft, List.cons_append]
  | and a b _ _ => exact ⟨'(', _, rfl, by decide, by decide, fun _ => by decide⟩
  | or a b _ _ => exact ⟨'(', _, rfl, by decide, by decide, fun _ => by decide⟩
  | not a _ => exact ⟨'!', _, rfl, by decide, by decide, nofun⟩

/-! ### Single steps of the reader -/

section Step

variable {inner : Reading Expr} {c : Char} {tail text rest : List Char}

theorem operand_blank (text : List Char) : operand inner (' ' :: text) = operand inner text := by
  rw [operand, operand]
  rfl

theorem negation_blank (text : List Char) : negation inner (' ' :: text) = negation inner text := by
  have hblank : splitNegations (' ' :: text) = splitNegations text := by
    rw [splitNegations, if_pos (by decide)]
  rw [negation, negation, hblank]

/-- Reading negations skips a blank. -/
theorem Completes.blank {front : List Char} {property : Expr → Prop}
    (h : Completes (negation inner) front rest property) :
    Completes (negation inner) (' ' :: front) rest property := by
  intro found rest' hread
  rw [List.cons_append, negation_blank] at hread
  exact h found rest' hread

theorem negation_eq_comparison (hb : Text.isBlank c = false) (hc : c ≠ '!') :
    negation inner (c :: tail) = comparison inner (c :: tail) := by
  rw [negation, splitNegations_of_head (dropBlanks_cons hb tail) hc]
  cases comparison inner (c :: tail) <;> rfl

theorem negation_render {expr : Expr} (hp : expr.Proper) (ho : expr.isOperand = true)
    (rest : List Char) :
    negation inner (expr.render ++ rest) = comparison inner (expr.render ++ rest) := by
  obtain ⟨c, tail, hhead, hblank, -, hnot⟩ := exists_head_of_proper hp
  rw [hhead]
  exact negation_eq_comparison hblank (hnot ho)

/-- What is read behind a sign of negation. -/
theorem negation_sign (hn : text.head? ≠ some '=') {found : Expr} {rest' : List Char}
    (h : negation inner ('!' :: text) = .ok (found, rest')) :
    ∃ below, negation inner text = .ok (below, rest') ∧ found = .not below := by
  rw [negation, splitNegations_of_sign (.none _) hn] at h
  obtain ⟨⟨compared, last⟩, hread, he⟩ := map_eq_ok_iff.1 h
  cases he
  exact ⟨_, map_eq_ok_iff.2 ⟨_, hread, rfl⟩, rfl⟩

theorem comparison_of_none {found : Expr} {middle rest' : List Char} {left : Expr}
    (hl : operand inner text = .ok (left, middle))
    (hs : splitComparison? (Text.dropBlanks middle) = none)
    (h : comparison inner text = .ok (found, rest')) :
    found = left ∧ rest' = Text.dropBlanks middle := by
  rw [comparison, hl] at h
  simp only [bind, Except.bind, hs] at h
  cases h
  exact ⟨rfl, rfl⟩

theorem comparison_of_sign {found left : Expr} {sign : Comparison} {rest' : List Char}
    (hl : operand inner text = .ok (left, ' ' :: (sign.sign.toList ++ ' ' :: rest)))
    (h : comparison inner text = .ok (found, rest')) :
    ∃ right, operand inner rest = .ok (right, rest') ∧ found = .compare left sign right := by
  have hsplit : splitComparison? (sign.sign.toList ++ ' ' :: rest) = some (sign, ' ' :: rest) :=
    splitComparison?_complete (fun _ => breaksName_blank rest) (by simp)
  rw [comparison, hl] at h
  simp only [bind, Except.bind, dropBlanks_sign, hsplit, operand_blank] at h
  obtain ⟨⟨right, last⟩, hr, h⟩ := bind_eq_ok_iff.1 h
  cases h
  exact ⟨right, hr, rfl⟩

end Step

/-! ## Reading through the text of an expression -/

/-- What is read as an operand from the text of an expression: all of it if it is an operand, unless
reading stops before, and then no comparison goes on. -/
def FollowsOperand (expr : Expr) : Prop :=
  ∀ ⦃depth : Nat⦄ ⦃rest rest' : List Char⦄ ⦃found : Expr⦄, Follow rest →
    operand (expression depth) (expr.render ++ rest) = .ok (found, rest') →
      (expr.isOperand = true ∧ rest' = rest ∧ (found = expr → expr.ReadsBack)) ∨
        (Blocked rest' ∧
          (expr.isOperand = true → splitComparison? (Text.dropBlanks rest') = none))

/-- What is read as a negation from the text of an expression. -/
def FollowsNegation (expr : Expr) : Prop :=
  ∀ ⦃depth : Nat⦄ ⦃rest : List Char⦄, Closer rest →
    Completes (negation (expression depth)) expr.render rest
      (fun found => found = expr → expr.ReadsBack)

/-- What is read as a negation from the text of a comparison with an expression on its left. -/
def FollowsComparison (left : Expr) : Prop :=
  ∀ ⦃depth : Nat⦄ ⦃comparison : Comparison⦄ ⦃right : Expr⦄ ⦃rest : List Char⦄,
    FollowsOperand right → Follow rest →
      Completes (negation (expression depth)) (compare left comparison right).render rest
        (fun found => found = compare left comparison right →
          (compare left comparison right).ReadsBack)

/-- An expression in parentheses is read up to the closing one. -/
theorem followsOperand_group {expr : Expr} (inside : List Char) (ho : expr.isOperand = true)
    (ht : expr.render = '(' :: (inside ++ [')']))
    (h : ∀ depth rest, Completes (expression (depth + 1)) inside (')' :: rest)
      (fun found => found = expr → expr.ReadsBack)) : FollowsOperand expr := by
  intro depth rest rest' found _ hread
  have htext : expr.render ++ rest = '(' :: (inside ++ ')' :: rest) := by
    rw [ht, List.cons_append, List.append_assoc]
    rfl
  -- the parenthesis sends the reader one level down, to the expression inside
  rw [htext, operand_of_paren (dropBlanks_cons (by decide) _)] at hread
  cases depth with
  | zero => cases hread
  | succ depth =>
      cases hi : expression (depth + 1) (inside ++ ')' :: rest) with
      | error stop =>
          rw [hi] at hread
          cases hread
      | ok result =>
          obtain ⟨within, closing⟩ := result
          rw [hi] at hread
          rcases h depth rest within closing hi with ⟨hdrop, hback⟩ | ⟨c, tail, hdrop, hc⟩
          · rw [dropBlanks_cons (by decide)] at hdrop
            simp only [hdrop] at hread
            cases hread
            exact Or.inl ⟨ho, rfl, hback⟩
          · -- reading stopped at something else than the closing parenthesis
            simp only [hdrop] at hread
            split at hread
            · rename_i hparen
              cases hparen
              exact absurd (by simp) hc
            · cases hread

theorem followsOperand_and {a b : Expr} (ha : FollowsNegation a) (hb : FollowsNegation b) :
    FollowsOperand (and a b) := by
  refine followsOperand_group (a.render ++ ' ' :: '&' :: '&' :: ' ' :: b.render) rfl
    (by simp [render]) fun depth rest => ?_
  have hchain : Completes (chain '&' .and (negation (expression depth))) _ (')' :: rest) _ :=
    Completes.chain_two (negation_sound (expression_sound depth)) (by simp) (by decide)
      (ha (.and _)) (hb (.paren rest)).blank (not_sign_paren (by decide) rest)
  refine (hchain.chain_one (conjunction_sound (expression_sound depth)) (by simp)
    (not_sign_paren (by decide) rest)).mono ?_
  rintro found ⟨x, y, rfl, hx, hy⟩ he
  cases he
  exact ⟨hx rfl, hy rfl⟩

theorem followsOperand_or {a b : Expr} (ha : FollowsNegation a) (hb : FollowsNegation b) :
    FollowsOperand (or a b) := by
  refine followsOperand_group (a.render ++ ' ' :: '|' :: '|' :: ' ' :: b.render) rfl
    (by simp [render]) fun depth rest => ?_
  have hfirst :
      ¬ ['&', '&'] <+: Text.dropBlanks (' ' :: '|' :: '|' :: ' ' :: (b.render ++ ')' :: rest)) :=
    not_sign_of_ne ((skips_blank _).dropBlanks_eq (by decide)) (by decide)
  have hsound : Sound .negation (negation (expression depth)) :=
    negation_sound (expression_sound depth)
  have hchain : Completes (expression (depth + 1)) _ (')' :: rest) _ :=
    Completes.chain_two (conjunction_sound (expression_sound depth)) (by simp) (by decide)
      ((ha (.or _)).chain_one hsound (by simp) hfirst)
      ((hb (.paren rest)).blank.chain_one hsound (by simp) (not_sign_paren (by decide) rest))
      (not_sign_paren (by decide) rest)
  refine Completes.mono hchain ?_
  rintro found ⟨x, y, rfl, hx, hy⟩ he
  cases he
  exact ⟨hx rfl, hy rfl⟩

/-- An operand without a negation in front and without a comparison behind. -/
theorem followsNegation_of_operand {expr : Expr} (hp : expr.Proper) (ho : expr.isOperand = true)
    (h : FollowsOperand expr) : FollowsNegation expr := by
  intro depth rest hc found rest' hread
  rw [negation_render hp ho] at hread
  obtain ⟨⟨left, middle⟩, hl, -⟩ := bind_eq_ok_iff.1 hread
  rcases h (.closer hc) hl with ⟨-, rfl, hback⟩ | ⟨hblocked, hsign⟩
  · -- all of the operand is read, and what follows closes the expression
    obtain ⟨rfl, rfl⟩ := comparison_of_none hl hc.splitComparison?_eq_none hread
    exact Or.inl ⟨dropBlanks_dropBlanks _, hback⟩
  · obtain ⟨rfl, rfl⟩ := comparison_of_none hl (hsign ho) hread
    exact Or.inr (hblocked.of_dropBlanks (dropBlanks_dropBlanks _))

/-- An operand on the left of a comparison. -/
theorem followsComparison_of_operand {left : Expr} (hp : left.Proper) (ho : left.isOperand = true)
    (h : FollowsOperand left) : FollowsComparison left := by
  intro depth sign right rest hright hf found rest' hread
  rw [render_compare, negation_render hp ho] at hread
  obtain ⟨⟨first, middle⟩, hl, -⟩ := bind_eq_ok_iff.1 hread
  rcases h (.sign sign _) hl with ⟨-, rfl, hback⟩ | ⟨hblocked, hsign⟩
  · -- all of the left side is read, so its sign is found and the right side is read
    obtain ⟨second, hr, rfl⟩ := comparison_of_sign hl hread
    rcases hright hf hr with ⟨hro, rfl, hrback⟩ | ⟨hblocked, -⟩
    · refine Or.inl ⟨rfl, fun he => ?_⟩
      cases he
      exact ⟨⟨ho, hback rfl⟩, hro, hrback rfl⟩
    · exact Or.inr hblocked
  · obtain ⟨rfl, rfl⟩ := comparison_of_none hl (hsign ho) hread
    exact Or.inr (hblocked.of_dropBlanks (dropBlanks_dropBlanks _))

theorem followsNegation_not {a : Expr} (hp : a.Proper) (h : FollowsNegation a) :
    FollowsNegation (not a) := by
  intro depth rest hc found rest' hread
  obtain ⟨c, tail, hhead, -, hequal, -⟩ := exists_head_of_proper hp
  obtain ⟨below, hbelow, rfl⟩ := negation_sign (by simpa [hhead] using hequal) hread
  rcases h hc below rest' hbelow with ⟨hdrop, hback⟩ | hblocked
  · refine Or.inl ⟨hdrop, fun he => ?_⟩
    cases he
    exact hback rfl
  · exact Or.inr hblocked

/-- A negation on the left of a comparison is read as one of the whole comparison. -/
theorem followsComparison_not {a : Expr} (hp : a.Proper) (h : FollowsComparison a) :
    FollowsComparison (not a) := by
  intro depth sign right rest hright hf found rest' hread
  obtain ⟨c, tail, hhead, -, hequal, -⟩ := exists_head_of_proper hp
  have htext : (compare (not a) sign right).render ++ rest =
      '!' :: ((compare a sign right).render ++ rest) := by
    simp [render]
  rw [htext] at hread
  obtain ⟨below, hbelow, rfl⟩ := negation_sign (by simpa [render, hhead] using hequal) hread
  rcases h hright hf below rest' hbelow with ⟨hdrop, -⟩ | hblocked
  · exact Or.inl ⟨hdrop, nofun⟩
  · exact Or.inr hblocked

/-- A comparison on the left of a comparison is read on its own. -/
theorem followsComparison_compare {left right : Expr} {sign : Comparison}
    (h : FollowsComparison left) (hr : FollowsOperand right) :
    FollowsComparison (compare left sign right) := by
  intro depth sign' right' rest hright hf found rest' hread
  rw [render_compare] at hread
  -- a comparison is not gone on with, so reading stops before the second sign at the latest
  refine Or.inr ?_
  rcases h hr (.sign sign' (right'.render ++ rest)) found rest' hread with ⟨hdrop, -⟩ | hblocked
  · exact (blocked_sign sign' _).of_dropBlanks hdrop
  · exact hblocked

theorem followsOperand_compare {left right : Expr} {sign : Comparison} (h : FollowsOperand left) :
    FollowsOperand (compare left sign right) := by
  intro depth rest rest' found hf hread
  rw [render_compare] at hread
  refine Or.inr ⟨?_, nofun⟩
  rcases h (.sign sign (right.render ++ rest)) hread with ⟨-, rfl, -⟩ | ⟨hblocked, -⟩
  · exact blocked_sign sign _
  · exact hblocked

/-- A negation is no operand. -/
theorem followsOperand_not (a : Expr) : FollowsOperand (not a) := by
  intro depth rest rest' found _ hread
  have hstart : Text.isIdentifierStart '!' = false := isIdentifierStart_of_mem (by simp)
  rw [render, List.cons_append, operand, dropBlanks_cons (by decide)] at hread
  simp [hstart] at hread

/-- **The reader on the text of an expression.** -/
theorem follows {expr : Expr} (hp : expr.Proper) :
    FollowsOperand expr ∧ FollowsNegation expr ∧ FollowsComparison expr := by
  have hoperand : ∀ {expr : Expr}, expr.Proper → expr.isOperand = true → FollowsOperand expr →
      FollowsOperand expr ∧ FollowsNegation expr ∧ FollowsComparison expr :=
    fun hp ho h => ⟨h, followsNegation_of_operand hp ho h, followsComparison_of_operand hp ho h⟩
  -- induction on the expression; what is read as a negation or on the left of a comparison follows
  -- from what is read as an operand, except below a negation and in a comparison itself
  induction expr with
  | literal value =>
      refine hoperand hp rfl fun depth rest rest' found hf hread => ?_
      obtain ⟨hrest, hback⟩ := operand_literal hf hread
      exact Or.inl ⟨rfl, hrest, hback⟩
  | lookup name path =>
      refine hoperand hp rfl fun depth rest rest' found hf hread => ?_
      rw [render, List.append_assoc] at hread
      rcases operand_lookup hp.1 hp.2 hf hread with ⟨hback, hrest⟩ | ⟨hblocked, hsign⟩
      · exact Or.inl ⟨rfl, hrest, fun _ => hback⟩
      · exact Or.inr ⟨hblocked, fun _ => hsign⟩
  | compare left comparison right ihl ihr =>
      obtain ⟨hlo, -, hlc⟩ := ihl hp.1
      obtain ⟨hro, -, -⟩ := ihr hp.2
      exact ⟨followsOperand_compare hlo, fun _ _ hc => hlc hro (.closer hc),
        followsComparison_compare hlc hro⟩
  | and a b iha ihb => exact hoperand hp rfl (followsOperand_and (iha hp.1).2.1 (ihb hp.2).2.1)
  | or a b iha ihb => exact hoperand hp rfl (followsOperand_or (iha hp.1).2.1 (ihb hp.2).2.1)
  | not a ih =>
      obtain ⟨-, hn, hc⟩ := ih hp
      exact ⟨followsOperand_not a, followsNegation_not hp hn, followsComparison_not hp hc⟩

/-! ## Whole queries -/

/-- A text is read back as the expression it was written for exactly if that expression is read
back. -/
theorem parseChars_render_iff {expr : Expr} (hp : expr.Proper) :
    parseChars expr.render = .ok expr ↔ expr.ReadsBack := by
  constructor
  · intro h
    -- at the end of the text no chain goes on
    have hnone : ∀ sign, ¬ [sign, sign] <+: Text.dropBlanks [] := by
      intro sign hs
      cases List.prefix_nil.1 hs
    have hcompletes : ∀ depth, Completes (expression (depth + 1)) expr.render [] _ := fun depth =>
      ((follows hp).2.1 .nil).chain_one (negation_sound (expression_sound depth)) (by simp)
        (hnone '&') |>.chain_one (conjunction_sound (expression_sound depth)) (by simp) (hnone '|')
    rw [parseChars] at h
    cases hread : expression (expr.render.length + 1) expr.render with
    | error stop =>
        rw [hread] at h
        cases h
    | ok result =>
        obtain ⟨found, rest⟩ := result
        rw [hread] at h
        rw [← List.append_nil expr.render] at hread
        rcases hcompletes _ found rest hread with ⟨hdrop, hback⟩ | ⟨c, tail, hdrop, -⟩
        · simp only [hdrop] at h
          cases h
          exact hback rfl
        · simp only [hdrop] at h
          cases h
  · intro hr
    -- a derivation of the whole text is read, whatever the levels it passes through
    have hderives := (derives_render hp hr).2 [] .nil
    rw [List.append_nil] at hderives
    exact parseChars_eq_ok_iff.2 ⟨[], .ofConjunction (.ofNegation hderives), .none []⟩

theorem inRange_of_fitsWord {n : Int} (h : Path.FitsWord n) : (Token.index n).inRange = true := by
  rw [Token.inRange, Option.isSome_iff_ne_none]
  exact fun hnone => Path.word?_eq_none_iff.1 hnone h

theorem Steps.inRange {input rest : List Char} {path : Path} (h : Steps input path rest) :
    path.inRange = true := by
  rw [Path.inRange, List.all_eq_true]
  induction h with
  | nil => exact List.forall_mem_nil _
  | name spelled ends more ih =>
      refine List.forall_mem_cons.2 ⟨?_, ih⟩
      cases spelled with
      | position digits fits => exact inRange_of_fitsWord fits
      | key => rfl
  | bracket opening spelled closed more ih =>
      refine List.forall_mem_cons.2 ⟨?_, ih⟩
      cases spelled with
      | name => rfl
      | position spelled fits => exact inRange_of_fitsWord fits

theorem Atom.proper {text rest : List Char} {expr : Expr} (h : Atom text expr rest) :
    expr.Proper := by
  cases h with
  | string | number | constant => trivial
  | lookup start chars ends other steps =>
      exact ⟨⟨_, _, String.toList_ofList, start, chars, other⟩, steps.inRange⟩

theorem Derives.proper {level : Level} {input rest : List Char} {expr : Expr}
    (h : Derives level input expr rest) : expr.Proper := by
  induction h with
  | ofConjunction _ ih | ofNegation _ ih | ofComparison _ ih | ofOperand _ ih => exact ih
  | or _ _ _ ih ih' => exact ⟨ih, ih'⟩
  | and _ _ _ ih ih' => exact ⟨ih, ih'⟩
  | compare _ _ _ _ ih ih' => exact ⟨ih, ih'⟩
  | not _ _ ih => exact ih
  | atom _ h => exact h.proper
  | group _ _ _ ih => exact ih

theorem proper_of_parse {source : String} {expr : Expr} (h : parse source = .ok expr) :
    expr.Proper := by
  obtain ⟨rest, hderives, -⟩ := parseChars_eq_ok_iff.1 (parse_eq_ok_iff_chars.1 h)
  exact hderives.proper

/-- **When the text of a query gives the query back.** A query that was read comes back from its
text if and only if no side of a comparison in it is a comparison or a negation, no name that the
text shows without quotes holds a hyphen or a dollar sign, and every floating-point number is
written with a point and as a text that denotes it. -/
theorem parse_text_iff {source : String} {expr : Expr} (h : parse source = .ok expr) :
    parse expr.text = .ok expr ↔ expr.ReadsBack := by
  rw [parse_eq_ok_iff_chars, text, String.toList_ofList]
  exact parseChars_render_iff (proper_of_parse h)

set_option maxRecDepth 20000 in
theorem parse_text_iff_mixed :
    ∃ expr, parse "d['a b'][0] == 'it' && !(d.x in d.y)" = .ok expr ∧
      expr.text = "(d['a b'][0] == 'it' && !d.x in d.y)" ∧ parse expr.text = .ok expr := by
  let left : Expr := compare (lookup "d" [.key "a b", .index 0]) .equal (literal (.string "it"))
  let right : Expr := not (compare (lookup "d" [.key "x"]) .member (lookup "d" [.key "y"]))
  have hread : parse "d['a b'][0] == 'it' && !(d.x in d.y)" = .ok (and left right) := rfl
  refine ⟨and left right, hread, rfl, (parse_text_iff hread).2 ?_⟩
  simp [left, right, ReadsBack, Literal.ReadsBack, TokenReadsBack, isOperand]

set_option maxRecDepth 20000 in
/-- A path shows the name `a-b` without quotes, and a query that is read stops at the hyphen. -/
theorem not_parse_text_hyphen :
    parse "d['a-b']" = .ok (lookup "d" [.key "a-b"]) ∧
      (lookup "d" [.key "a-b"]).text = "d.a-b" ∧
        parse "d.a-b" ≠ .ok (lookup "d" [.key "a-b"]) := by
  have herror : parse "d.a-b" =
      .error (.invalidQuery "unexpected trailing input at offset 3 in 'd.a-b'") := rfl
  refine ⟨rfl, rfl, ?_⟩
  rw [herror]
  exact nofun

set_option maxRecDepth 20000 in
/-- A negation on the left of a comparison loses its parentheses. -/
example :
    parse "(!d.a) == 1" =
        .ok (compare (not (lookup "d" [.key "a"])) .equal (literal (.int 1))) ∧
      (compare (not (lookup "d" [.key "a"])) .equal (literal (.int 1))).text = "!d.a == 1" ∧
        parse "!d.a == 1" = .ok (not (compare (lookup "d" [.key "a"]) .equal (literal (.int 1)))) :=
  ⟨rfl, rfl, rfl⟩

end PathDoc.Query
