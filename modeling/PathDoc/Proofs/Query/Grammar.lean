import PathDoc.Proofs.Query.Atoms

/-!
# The grammar of queries

`Derives` says, without a reader, which expression a text stands for on each level of precedence,
and what is left of the text behind it. "Or" and "and" join to the left, a negation stands before a
comparison of two operands, and comparisons are not chained. What follows matters in two places
only: a name goes on as long as its characters do, and `in` is a comparison only where no name goes
on.

What is read derives from the grammar (`expression_sound`), and what derives from a level is read
where nothing behind it would be read on (`Derives.reached`). So reading accepts exactly the grammar
(`parse_iff_spells`), and no text stands for two expressions (`Spells.unique`).
-/

set_option autoImplicit false

namespace PathDoc.Query

/-! ## The rules -/

/-- The levels of precedence, from the loosest to the tightest binding. -/
inductive Level where
  | disjunction
  | conjunction
  | negation
  | comparison
  | operand

/-- An expression of a level at the front of a text, and what is left of the text. -/
inductive Derives : Level → List Char → Expr → List Char → Prop
  | ofConjunction {input rest : List Char} {expr : Expr}
      (h : Derives .conjunction input expr rest) : Derives .disjunction input expr rest
  | or {input middle after rest : List Char} {left right : Expr}
      (first : Derives .disjunction input left middle) (sign : Skips middle ('|' :: '|' :: after))
      (second : Derives .conjunction after right rest) :
      Derives .disjunction input (.or left right) rest
  | ofNegation {input rest : List Char} {expr : Expr}
      (h : Derives .negation input expr rest) : Derives .conjunction input expr rest
  | and {input middle after rest : List Char} {left right : Expr}
      (first : Derives .conjunction input left middle) (sign : Skips middle ('&' :: '&' :: after))
      (second : Derives .negation after right rest) :
      Derives .conjunction input (.and left right) rest
  | ofComparison {input rest : List Char} {expr : Expr}
      (h : Derives .comparison input expr rest) : Derives .negation input expr rest
  | not {input after rest : List Char} {expr : Expr} (sign : Skips input ('!' :: after))
      (h : Derives .negation after expr rest) : Derives .negation input (.not expr) rest
  | ofOperand {input rest : List Char} {expr : Expr}
      (h : Derives .operand input expr rest) : Derives .comparison input expr rest
  | compare {input middle after rest : List Char} {left right : Expr} {comparison : Comparison}
      (first : Derives .operand input left middle)
      (sign : Skips middle (comparison.sign.toList ++ after))
      (ends : comparison = .member → BreaksName after)
      (second : Derives .operand after right rest) :
      Derives .comparison input (.compare left comparison right) rest
  | atom {input text rest : List Char} {expr : Expr} (blanks : Skips input text)
      (h : Atom text expr rest) : Derives .operand input expr rest
  | group {input inside closing rest : List Char} {expr : Expr}
      (opening : Skips input ('(' :: inside)) (h : Derives .disjunction inside expr closing)
      (closed : Skips closing (')' :: rest)) : Derives .operand input expr rest

/-- A text and the expression that it stands for. Blanks may follow. -/
def Spells (text : List Char) (expr : Expr) : Prop :=
  ∃ rest, Derives .disjunction text expr rest ∧ Skips rest []

namespace Derives

/-- Blanks may come first. -/
theorem skips {level : Level} {text input rest : List Char} {expr : Expr} (hs : Skips text input)
    (h : Derives level input expr rest) : Derives level text expr rest := by
  induction h with
  | ofConjunction _ ih => exact .ofConjunction (ih hs)
  | or _ sign second ih _ => exact .or (ih hs) sign second
  | ofNegation _ ih => exact .ofNegation (ih hs)
  | and _ sign second ih _ => exact .and (ih hs) sign second
  | ofComparison _ ih => exact .ofComparison (ih hs)
  | not sign h _ => exact .not (hs.trans sign) h
  | ofOperand _ ih => exact .ofOperand (ih hs)
  | compare _ sign ends second ih _ => exact .compare (ih hs) sign ends second
  | atom blanks h => exact .atom (hs.trans blanks) h
  | group opening h closed _ => exact .group (hs.trans opening) h closed

theorem length_le {level : Level} {input rest : List Char} {expr : Expr}
    (h : Derives level input expr rest) : rest.length ≤ input.length := by
  -- induction on the derivation: every sign and every word takes something off the text
  induction h with
  | ofConjunction _ ih => exact ih
  | or _ sign _ ih ih' =>
      have hsign := sign.length_le
      simp only [List.length_cons] at hsign
      omega
  | ofNegation _ ih => exact ih
  | and _ sign _ ih ih' =>
      have hsign := sign.length_le
      simp only [List.length_cons] at hsign
      omega
  | ofComparison _ ih => exact ih
  | not sign _ ih =>
      have hsign := sign.length_le
      simp only [List.length_cons] at hsign
      omega
  | ofOperand _ ih => exact ih
  | compare _ sign _ _ ih ih' =>
      have hsign := sign.length_le
      simp only [List.length_append] at hsign
      omega
  | atom blanks h =>
      have hblanks := blanks.length_le
      have hatom := h.length_le
      omega
  | group opening _ closed ih =>
      have hopening := opening.length_le
      have hclosed := closed.length_le
      simp only [List.length_cons] at hopening hclosed
      omega

/-- Whether an expression of a level can begin with a character. -/
def Opens : Level → Char → Prop
  | .comparison, c | .operand, c => c ≠ '=' ∧ c ≠ '!'
  | _, c => c ≠ '='

/-- No expression begins with the sign of equality, and a comparison not with that of negation. -/
theorem exists_head {level : Level} {input rest : List Char} {expr : Expr}
    (h : Derives level input expr rest) :
    ∃ c tail, Text.dropBlanks input = c :: tail ∧ Opens level c := by
  -- what stands first opens the whole expression, so only the first part of each rule matters
  induction h with
  | ofConjunction _ ih => exact ih
  | or _ _ _ ih _ => exact ih
  | ofNegation _ ih => exact ih
  | and _ _ _ ih _ => exact ih
  | ofComparison _ ih =>
      obtain ⟨c, tail, hc, hopens⟩ := ih
      exact ⟨c, tail, hc, hopens.1⟩
  | not sign _ _ =>
      refine ⟨'!', _, sign.dropBlanks_eq (by decide), ?_⟩
      exact Char.ne_of_val_ne (by decide)
  | ofOperand _ ih => exact ih
  | compare _ _ _ _ ih _ => exact ih
  | atom blanks h =>
      obtain ⟨c, tail, rfl, hc⟩ := h.exists_head
      obtain ⟨hblank, -, hnot, hequal⟩ := hc.spec
      exact ⟨c, tail, blanks.dropBlanks_eq hblank, hequal, hnot⟩
  | group opening _ _ _ =>
      refine ⟨'(', _, opening.dropBlanks_eq (by decide), ?_⟩
      exact ⟨by decide, by decide⟩

end Derives

/-! ## What is read derives -/

/-- Whether what is read derives from a level, up to blanks behind it. -/
def Sound (level : Level) (reading : Reading Expr) : Prop :=
  ∀ {input rest : List Char} {expr : Expr}, reading input = .ok (expr, rest) →
    ∃ middle, Derives level input expr middle ∧ Skips middle rest

theorem operand_sound {inner : Reading Expr} (hi : Sound .disjunction inner) :
    Sound .operand (operand inner) := by
  intro input rest expr h
  rcases operand_cases h with ⟨text, htext, hatom⟩ | ⟨inside, closing, hopening, hinner, hclosing⟩
  · exact ⟨rest, .atom htext hatom, .none rest⟩
  · obtain ⟨middle, hinside, hmiddle⟩ := hi hinner
    exact ⟨rest, .group hopening hinside (hmiddle.trans hclosing), .none rest⟩

/-- The sign that was split off, and what follows it. -/
theorem splitComparison?_sound {input rest : List Char} {comparison : Comparison}
    (h : splitComparison? input = some (comparison, rest)) :
    input = comparison.sign.toList ++ rest ∧ (comparison = .member → BreaksName rest) := by
  unfold splitComparison? at h
  split at h
  case h_7 after =>
    -- `in`, where no name may go on
    split at h
    · cases h
    · rename_i hends
      cases h
      refine ⟨rfl, ?_⟩
      intro _ c hc
      rw [Option.mem_def.1 hc] at hends
      simpa using hends
  case h_8 => cases h
  all_goals
    cases h
    exact ⟨rfl, nofun⟩

theorem comparison_sound {inner : Reading Expr} (hi : Sound .disjunction inner) :
    Sound .comparison (comparison inner) := by
  intro input rest expr h
  obtain ⟨⟨left, middle⟩, hl, h⟩ := bind_eq_ok_iff.1 h
  obtain ⟨before, hleft, hbefore⟩ := operand_sound hi hl
  have hskips := hbefore.trans (skips_dropBlanks middle)
  dsimp only at h
  split at h
  · rename_i found after hsplit
    obtain ⟨hsign, hends⟩ := splitComparison?_sound hsplit
    obtain ⟨⟨right, last⟩, hr, h⟩ := bind_eq_ok_iff.1 h
    cases h
    obtain ⟨behind, hright, hbehind⟩ := operand_sound hi hr
    rw [hsign] at hskips
    exact ⟨behind, .compare hleft hskips hends hright, hbehind⟩
  · cases h
    exact ⟨before, .ofOperand hleft, hskips⟩

/-- Negations in front of a comparison. -/
theorem derives_negate {input rest : List Char} {expr : Expr}
    (h : Derives .comparison (splitNegations input).2 expr rest) :
    Derives .negation input (negate (splitNegations input).1 expr) rest := by
  induction input with
  | nil => exact .ofComparison h
  | cons c input ih =>
      rw [splitNegations] at h ⊢
      split at h
      · rename_i hblank
        rw [if_pos hblank]
        exact .skips (.blank hblank (.none input)) (ih h)
      · rename_i hblank
        split at h
        · rename_i hsign
          rw [if_neg hblank, if_pos hsign, hsign.1]
          exact .not (.none _) (ih h)
        · rename_i hsign
          rw [if_neg hblank, if_neg hsign]
          exact .ofComparison h

theorem negation_sound {inner : Reading Expr} (hi : Sound .disjunction inner) :
    Sound .negation (negation inner) := by
  intro input rest expr h
  obtain ⟨⟨found, after⟩, hc, he⟩ := map_eq_ok_iff.1 h
  cases he
  obtain ⟨middle, hfound, hmiddle⟩ := comparison_sound hi hc
  exact ⟨middle, derives_negate hfound, hmiddle⟩

section Chain

variable {sign : Char} {join : Expr → Expr → Expr} {item : Reading Expr} {level below : Level}

/-- What is read behind the first item of a chain. -/
theorem chainTail_sound (hi : Sound below item)
    (hj : ∀ {input middle after rest left right}, Derives level input left middle →
      Skips middle (sign :: sign :: after) → Derives below after right rest →
        Derives level input (join left right) rest)
    {fuel : Nat} {start middle input rest : List Char} {left expr : Expr}
    (hl : Derives level start left middle) (hs : Skips middle input)
    (h : chainTail sign join item fuel left input = .ok (expr, rest)) :
    ∃ middle, Derives level start expr middle ∧ Skips middle rest := by
  -- induction on the fuel with the expression so far as what has been derived on the level
  induction fuel generalizing middle input left with
  | zero =>
      cases h
      exact ⟨middle, hl, hs⟩
  | succ fuel ih =>
      have hskips := hs.trans (skips_dropBlanks input)
      rw [chainTail] at h
      split at h
      · rename_i a b after hdrop
        rw [hdrop] at hskips
        split at h
        · rename_i hsign
          obtain ⟨rfl, rfl⟩ := hsign
          cases hr : item after with
          | error stop =>
              rw [hr] at h
              cases h
          | ok result =>
              obtain ⟨right, last⟩ := result
              rw [hr] at h
              obtain ⟨next, hright, hnext⟩ := hi hr
              exact ih (hj hl hskips hright) hnext h
        · -- another sign: the chain ends here
          cases h
          exact ⟨middle, hl, hskips⟩
      · cases h
        exact ⟨middle, hl, hskips⟩

theorem chain_sound (hi : Sound below item)
    (hf : ∀ {input expr rest}, Derives below input expr rest → Derives level input expr rest)
    (hj : ∀ {input middle after rest left right}, Derives level input left middle →
      Skips middle (sign :: sign :: after) → Derives below after right rest →
        Derives level input (join left right) rest) :
    Sound level (chain sign join item) := by
  intro input rest expr h
  obtain ⟨⟨first, after⟩, hr, h⟩ := bind_eq_ok_iff.1 h
  obtain ⟨middle, hfirst, hmiddle⟩ := hi hr
  exact chainTail_sound hi hj (hf hfirst) hmiddle h

end Chain

theorem conjunction_sound {inner : Reading Expr} (hi : Sound .disjunction inner) :
    Sound .conjunction (chain '&' .and (negation inner)) :=
  chain_sound (negation_sound hi) .ofNegation .and

/-- **What is read derives from the grammar.** -/
theorem expression_sound (depth : Nat) : Sound .disjunction (expression depth) := by
  induction depth with
  | zero =>
      intro input rest expr h
      cases h
  | succ depth ih => exact chain_sound (conjunction_sound ih) .ofConjunction .or

theorem Sound.length_le {level : Level} {reading : Reading Expr} (hs : Sound level reading)
    {input rest : List Char} {expr : Expr} (h : reading input = .ok (expr, rest)) :
    rest.length ≤ input.length := by
  obtain ⟨middle, hderives, hskips⟩ := hs h
  exact Nat.le_trans hskips.length_le hderives.length_le

/-! ## What derives is read -/

/-- Whether an expression is read, up to blanks behind it. -/
def Reads (reading : Reading Expr) (input : List Char) (expr : Expr) (rest : List Char) : Prop :=
  ∃ middle, reading input = .ok (expr, middle) ∧ Text.dropBlanks middle = Text.dropBlanks rest

/-- Whether the reader of a chain comes to an expression on its way. -/
def Passes (sign : Char) (join : Expr → Expr → Expr) (item : Reading Expr) (input : List Char)
    (expr : Expr) (rest : List Char) : Prop :=
  ∃ fuel middle, chain sign join item input = chainTail sign join item fuel expr middle ∧
    Text.dropBlanks middle = Text.dropBlanks rest ∧ middle.length ≤ fuel

section Chain

variable {sign : Char} {join : Expr → Expr → Expr} {item : Reading Expr} {level : Level}
  {input middle after rest : List Char} {expr left right : Expr}

/-- A chain begins with its first item. -/
theorem Passes.first (hi : Sound level item) (h : Reads item input expr rest) :
    Passes sign join item input expr rest := by
  obtain ⟨middle, hread, hdrop⟩ := h
  refine ⟨input.length, middle, ?_, hdrop, hi.length_le hread⟩
  rw [chain, hread]
  rfl

/-- A chain goes on with a sign and an item. -/
theorem Passes.next (hi : Sound level item) (hb : Text.isBlank sign = false)
    (h : Passes sign join item input left middle) (hs : Skips middle (sign :: sign :: after))
    (hr : Reads item after right rest) : Passes sign join item input (join left right) rest := by
  obtain ⟨fuel, current, hchain, hdrop, hfuel⟩ := h
  obtain ⟨last, hread, hlast⟩ := hr
  have hcurrent : Text.dropBlanks current = sign :: sign :: after := by
    rw [hdrop, hs.dropBlanks_eq hb]
  -- the sign and the item take more characters than the one that the fuel loses
  have hle := (skips_dropBlanks current).length_le
  have hlength := hi.length_le hread
  rw [hcurrent] at hle
  simp only [List.length_cons] at hle
  obtain ⟨fuel, rfl⟩ : ∃ less, fuel = less + 1 := ⟨fuel - 1, by omega⟩
  refine ⟨fuel, last, ?_, hlast, by omega⟩
  rw [hchain, chainTail, hcurrent]
  simp only [hread, and_self, if_true]

/-- A chain ends where its sign does not follow. -/
theorem Passes.reads (h : Passes sign join item input expr rest)
    (hs : ¬ [sign, sign] <+: Text.dropBlanks rest) :
    Reads (chain sign join item) input expr rest := by
  obtain ⟨fuel, current, hchain, hdrop, -⟩ := h
  rw [← hdrop] at hs
  -- the reader stops in front of the rest, with blanks dropped or not
  suffices hstop : ∃ last, chainTail sign join item fuel expr current = .ok (expr, last) ∧
      Text.dropBlanks last = Text.dropBlanks current by
    obtain ⟨last, htail, hlast⟩ := hstop
    exact ⟨last, hchain.trans htail, hlast.trans hdrop⟩
  cases fuel with
  | zero => exact ⟨current, rfl, rfl⟩
  | succ fuel =>
      refine ⟨Text.dropBlanks current, ?_, dropBlanks_dropBlanks current⟩
      rw [chainTail]
      split
      · rename_i a b tail hcurrent
        rw [hcurrent] at hs ⊢
        rw [if_neg]
        rintro ⟨rfl, rfl⟩
        exact hs (by simp)
      · rfl

end Chain

/-- What must not follow an expression of a level for it to end there. -/
def Closes : Level → List Char → Prop
  | .operand, rest => Ends rest
  | .disjunction, rest =>
    Ends rest ∧ splitComparison? (Text.dropBlanks rest) = none ∧
      ¬ ['&', '&'] <+: Text.dropBlanks rest
  | _, rest => Ends rest ∧ splitComparison? (Text.dropBlanks rest) = none

/-- Whether an expression of a level is read, or passed on the way if the level is a chain. -/
def Reached (depth : Nat) : Level → List Char → Expr → List Char → Prop
  | .disjunction => Passes '|' .or (chain '&' .and (negation (expression depth)))
  | .conjunction => Passes '&' .and (negation (expression depth))
  | .negation => Reads (negation (expression depth))
  | .comparison => Reads (comparison (expression depth))
  | .operand => Reads (operand (expression depth))

/-- The end of a text or a sign behind an expression closes it. -/
theorem closes_of_skips {rest text : List Char} (hs : Skips rest text)
    (ht : text = [] ∨ (∃ after, text = '|' :: '|' :: after) ∨ ∃ after, text = ')' :: after) :
    Closes .disjunction rest := by
  rcases ht with rfl | ⟨after, rfl⟩ | ⟨after, rfl⟩
  · refine ⟨hs.ends nofun, ?_⟩
    rw [hs.dropBlanks]
    exact ⟨rfl, by simp [Text.dropBlanks]⟩
  · refine ⟨hs.ends (.cons (by decide) _), ?_⟩
    rw [hs.dropBlanks_eq (by decide)]
    exact ⟨rfl, by simp⟩
  · refine ⟨hs.ends (.cons (by decide) _), ?_⟩
    rw [hs.dropBlanks_eq (by decide)]
    exact ⟨rfl, by simp⟩

/-- The sign of a comparison is split off, unless another one goes on. -/
theorem splitComparison?_complete {after : List Char} {comparison : Comparison}
    (he : comparison = .member → BreaksName after) (hn : after.head? ≠ some '=') :
    splitComparison? (comparison.sign.toList ++ after) = some (comparison, after) := by
  cases comparison with
  | equal => rfl
  | unequal => rfl
  | atMost => rfl
  | atLeast => rfl
  | less =>
      -- with a sign of equality behind it, it would be the sign of `atMost`
      change splitComparison? ('<' :: after) = _
      rw [splitComparison?]
      rintro more rfl
      exact hn rfl
  | greater =>
      change splitComparison? ('>' :: after) = _
      rw [splitComparison?]
      rintro more rfl
      exact hn rfl
  | member =>
      change splitComparison? ('i' :: 'n' :: after) = _
      rw [splitComparison?, if_neg]
      intro hany
      obtain ⟨c, hc, hchar⟩ := Option.any_eq_true _ _ |>.1 hany
      cases hchar.symm.trans (he rfl c hc)

/-- Negations that are none leave a text without its blanks. -/
theorem splitNegations_of_head {input tail : List Char} {c : Char}
    (hd : Text.dropBlanks input = c :: tail) (hc : c ≠ '!') :
    splitNegations input = (0, c :: tail) := by
  induction input with
  | nil => cases hd
  | cons d input ih =>
      rw [splitNegations]
      by_cases hblank : Text.isBlank d = true
      · rw [if_pos hblank]
        rw [Text.dropBlanks, List.dropWhile_cons_of_pos hblank] at hd
        exact ih hd
      · rw [dropBlanks_cons (Bool.eq_false_iff.2 hblank)] at hd
        cases hd
        rw [if_neg hblank, if_neg fun h => hc h.1]

/-- A sign of negation is split off, unless it is one of inequality. -/
theorem splitNegations_of_sign {input after : List Char} (hs : Skips input ('!' :: after))
    (hn : after.head? ≠ some '=') :
    splitNegations input = ((splitNegations after).1 + 1, (splitNegations after).2) := by
  generalize htext : '!' :: after = text at hs
  induction hs with
  | none text =>
      subst htext
      rw [splitNegations, if_neg (by decide), if_pos ⟨rfl, hn⟩]
  | blank hblank _ ih =>
      rw [splitNegations, if_pos hblank]
      exact ih htext

namespace Derives

/-- The sign of equality does not come first. -/
theorem head?_ne {level : Level} {input rest : List Char} {expr : Expr}
    (h : Derives level input expr rest) : input.head? ≠ some '=' := by
  obtain ⟨c, tail, hdrop, hopens⟩ := h.exists_head
  have hequal : c ≠ '=' := by
    cases level with
    | comparison => exact hopens.1
    | operand => exact hopens.1
    | _ => exact hopens
  intro hhead
  obtain ⟨more, rfl⟩ := List.head?_eq_some_iff.1 hhead
  rw [dropBlanks_cons (by decide)] at hdrop
  exact hequal (List.cons.inj hdrop).1.symm

/-- A sign of comparison ends the operand before it. -/
theorem ends_of_skips_sign {middle after : List Char} {comparison : Comparison}
    (hs : Skips middle (comparison.sign.toList ++ after)) :
    Ends middle ∧ Text.dropBlanks middle = comparison.sign.toList ++ after := by
  have hsign : ∃ c tail, comparison.sign.toList = c :: tail ∧ Text.isBlank c = false ∧
      c.isDigit = false ∧ c ≠ '.' ∧ c ≠ '[' := by
    cases comparison <;> exact ⟨_, _, rfl, by decide⟩
  obtain ⟨c, tail, htext, hblank, hends⟩ := hsign
  rw [htext] at hs ⊢
  exact ⟨hs.ends (.cons hends _), hs.dropBlanks_eq hblank⟩

/-- An operand with nothing to compare it with is read as a comparison. -/
theorem reads_of_operand {inner : Reading Expr} {input rest : List Char} {expr : Expr}
    (h : Reads (operand inner) input expr rest)
    (hc : splitComparison? (Text.dropBlanks rest) = none) :
    Reads (comparison inner) input expr rest := by
  obtain ⟨middle, hread, hdrop⟩ := h
  refine ⟨Text.dropBlanks middle, ?_, (dropBlanks_dropBlanks middle).trans hdrop⟩
  rw [comparison, hread]
  simp only [bind, Except.bind, hdrop, hc]

/-- Two operands with the sign of a comparison between them are read as one. -/
theorem reads_of_compare {inner : Reading Expr} {input middle after rest : List Char}
    {left right : Expr} {comparison : Comparison} (hl : Reads (operand inner) input left middle)
    (hm : Text.dropBlanks middle = comparison.sign.toList ++ after)
    (he : comparison = .member → BreaksName after) (hn : after.head? ≠ some '=')
    (hr : Reads (operand inner) after right rest) :
    Reads (Query.comparison inner) input (.compare left comparison right) rest := by
  obtain ⟨current, hleft, hcurrent⟩ := hl
  obtain ⟨last, hright, hlast⟩ := hr
  refine ⟨last, ?_, hlast⟩
  rw [Query.comparison, hleft]
  simp only [bind, Except.bind, hcurrent, hm, splitComparison?_complete he hn, hright]

/-- A comparison without a negation in front is read as a negation. -/
theorem reads_of_comparison {inner : Reading Expr} {input tail rest : List Char} {c : Char}
    {expr : Expr} (hd : Text.dropBlanks input = c :: tail) (hc : c ≠ '!')
    (h : Reads (comparison inner) input expr rest) : Reads (negation inner) input expr rest := by
  obtain ⟨middle, hread, hdrop⟩ := h
  refine ⟨middle, ?_, hdrop⟩
  -- without a negation only the blanks are split off, and an operand skips them as well
  have hsame : comparison inner (c :: tail) = comparison inner input := by
    rw [← hd, comparison, comparison, operand, operand, dropBlanks_dropBlanks]
  rw [negation, splitNegations_of_head hd hc, hsame, hread]
  rfl

/-- The sign of negation is read in front of a negation. -/
theorem reads_of_not {inner : Reading Expr} {input after rest : List Char} {expr : Expr}
    (hs : Skips input ('!' :: after)) (hn : after.head? ≠ some '=')
    (h : Reads (negation inner) after expr rest) :
    Reads (negation inner) input (.not expr) rest := by
  obtain ⟨middle, hread, hdrop⟩ := h
  obtain ⟨⟨found, last⟩, hc, he⟩ := map_eq_ok_iff.1 hread
  cases he
  refine ⟨middle, ?_, hdrop⟩
  rw [negation, splitNegations_of_sign hs hn]
  exact map_eq_ok_iff.2 ⟨(found, middle), hc, rfl⟩

/-- **What derives from the grammar is read**, if the parentheses do not nest too deeply. -/
theorem reached {level : Level} {input rest : List Char} {expr : Expr}
    (h : Derives level input expr rest) {depth : Nat} (hd : input.length ≤ depth)
    (hc : Closes level rest) : Reached depth level input expr rest := by
  -- induction on the derivation; what is to the left of a sign is closed by the sign, and what is
  -- in parentheses by the closing one
  induction h generalizing depth with
  | ofConjunction h ih =>
      have hread := (ih hd ⟨hc.1, hc.2.1⟩).reads hc.2.2
      exact .first (conjunction_sound (expression_sound depth)) hread
  | @or input middle after rest left right first sign second ih ih' =>
      have hlength := first.length_le
      have hsign := sign.length_le
      simp only [List.length_cons] at hsign
      have hafter : after.length ≤ depth := by omega
      have hleft := ih hd (closes_of_skips sign (Or.inr (Or.inl ⟨after, rfl⟩)))
      have hright := (ih' hafter ⟨hc.1, hc.2.1⟩).reads hc.2.2
      exact hleft.next (conjunction_sound (expression_sound depth)) (by decide) sign hright
  | ofNegation h ih => exact .first (negation_sound (expression_sound depth)) (ih hd hc)
  | @and input middle after rest left right first sign second ih ih' =>
      have hlength := first.length_le
      have hsign := sign.length_le
      simp only [List.length_cons] at hsign
      have hdrop : Text.dropBlanks middle = '&' :: '&' :: after := sign.dropBlanks_eq (by decide)
      have hends : Ends middle := sign.ends (.cons (by decide) _)
      have hafter : after.length ≤ depth := by omega
      have hleft := ih hd ⟨hends, by rw [hdrop]; rfl⟩
      have hright := ih' hafter hc
      exact hleft.next (negation_sound (expression_sound depth)) (by decide) sign hright
  | ofComparison h ih =>
      obtain ⟨c, tail, hdrop, hopens⟩ := h.exists_head
      exact reads_of_comparison hdrop hopens.2 (ih hd hc)
  | not sign h ih =>
      have hsign := sign.length_le
      simp only [List.length_cons] at hsign
      exact reads_of_not sign h.head?_ne (ih (by omega) hc)
  | ofOperand h ih => exact reads_of_operand (ih hd hc.1) hc.2
  | @compare input middle after rest left right comparison first sign ends second ih ih' =>
      have hlength := first.length_le
      have hsign := sign.length_le
      simp only [List.length_append] at hsign
      obtain ⟨hends, hdrop⟩ := ends_of_skips_sign sign
      have hafter : after.length ≤ depth := by omega
      have hright := ih' hafter hc.1
      exact reads_of_compare (ih hd hends) hdrop ends second.head?_ne hright
  | atom blanks h => exact ⟨_, operand_of_atom blanks h hc, rfl⟩
  | @group input inside closing rest expr opening h closed ih =>
      have hopening := opening.length_le
      simp only [List.length_cons] at hopening
      obtain ⟨less, rfl⟩ : ∃ less, depth = less + 1 := ⟨depth - 1, by omega⟩
      have hclosing : Text.dropBlanks closing = ')' :: rest := closed.dropBlanks_eq (by decide)
      have hless : inside.length ≤ less := by omega
      have hinside := ih hless (closes_of_skips closed (Or.inr (Or.inr ⟨rest, rfl⟩)))
      obtain ⟨middle, hread, hdrop⟩ := hinside.reads (by rw [hclosing]; simp)
      refine ⟨rest, ?_, rfl⟩
      rw [operand_of_paren (opening.dropBlanks_eq (by decide))]
      have hexpression : expression (less + 1) inside = .ok (expr, middle) := hread
      rw [hexpression]
      simp only [hdrop, hclosing]

end Derives

/-! ## Whole texts -/

theorem parseChars_eq_ok_iff {input : List Char} {expr : Expr} :
    parseChars input = .ok expr ↔ Spells input expr := by
  rw [parseChars]
  constructor
  · intro h
    cases hr : expression (input.length + 1) input with
    | error stop =>
        rw [hr] at h
        cases h
    | ok result =>
        obtain ⟨found, rest⟩ := result
        rw [hr] at h
        dsimp only at h
        split at h
        · rename_i hnil
          cases h
          -- nothing but blanks is left behind the expression
          obtain ⟨middle, hderives, hskips⟩ := expression_sound _ hr
          exact ⟨middle, hderives, hskips.trans (hnil ▸ skips_dropBlanks rest)⟩
        · cases h
  · rintro ⟨rest, hderives, hskips⟩
    -- nothing stands behind the expression that would be read on
    have hdrop : Text.dropBlanks rest = [] := hskips.dropBlanks
    have hpasses := hderives.reached (Nat.le_refl _) (closes_of_skips hskips (Or.inl rfl))
    obtain ⟨middle, hread, hmiddle⟩ := hpasses.reads (by rw [hdrop]; simp)
    have hexpression : expression (input.length + 1) input = .ok (expr, middle) := hread
    rw [hexpression]
    simp only [hmiddle, hdrop]

/-- No text stands for two expressions. -/
theorem Spells.unique {text : List Char} {a b : Expr} (ha : Spells text a) (hb : Spells text b) :
    a = b :=
  Except.ok.inj ((parseChars_eq_ok_iff.2 ha).symm.trans (parseChars_eq_ok_iff.2 hb))

theorem parse_eq_ok_iff_chars {source : String} {expr : Expr} :
    parse source = .ok expr ↔ parseChars source.toList = .ok expr := by
  rw [parse]
  cases parseChars source.toList with
  | ok found => simp
  | error stop => simp

/-- **Reading accepts exactly the grammar.** A text is read as a query if and only if the grammar
derives that query from it, and every other text is refused as an invalid query. -/
theorem parse_iff_spells (source : String) :
    (∀ expr, parse source = .ok expr ↔ Spells source.toList expr) ∧
      ((∃ detail, parse source = .error (.invalidQuery detail)) ↔
        ∀ expr, ¬ Spells source.toList expr) := by
  have hiff : ∀ expr, parse source = .ok expr ↔ Spells source.toList expr := by
    intro expr
    rw [← parseChars_eq_ok_iff, parse]
    cases parseChars source.toList with
    | ok found => simp
    | error stop => simp
  refine ⟨hiff, ?_⟩
  constructor
  · rintro ⟨detail, h⟩ expr hs
    cases h.symm.trans ((hiff expr).2 hs)
  · intro h
    cases hp : parseChars source.toList with
    | ok expr => exact absurd (parseChars_eq_ok_iff.1 hp) (h expr)
    | error stop => exact ⟨_, by rw [parse, hp]⟩

end PathDoc.Query
