import PathDoc.Proofs.Match.Distance
import PathDoc.Proofs.Match.Occurrences
import PathDoc.Proofs.Regex.Caseless

/-!
# Approximation without edits

At distance zero an approximate matcher looks for a stretch that is the pattern once both are
prepared (`TextMatcher.isMatch_approximate_zero_iff`), and a substring matcher for one that is alike
character by character (`TextMatcher.isMatch_contains_iff`). Preparing lowers characters and being
alike compares their foldings, so the two agree on every candidate exactly if lowering and folding
identify the same characters with those of the pattern
(`TextMatcher.approximate_zero_iff_contains`). They do not for `i`, the first character of the lower
case form of the dotted capital letter (`TextMatcher.not_approximate_zero_contains_dotted`), nor for
`s`, which the long s folds to.
-/

set_option autoImplicit false

namespace PathDoc.Match

open Text

variable {pattern : String} {ignoreCase : Bool}

/-! ## Lowered texts -/

/-- Whether two characters are the same once they are prepared. -/
def lowered (ignoreCase : Bool) (c d : Char) : Bool :=
  if ignoreCase then lowerFirst c == lowerFirst d else c == d

/-- Prepared texts are equal if their characters are. -/
theorem prepare_eq_prepare_iff {ignoreCase : Bool} {a b : List Char} :
    prepare ignoreCase a = prepare ignoreCase b ↔
      List.Forall₂ (fun c d => lowered ignoreCase c d = true) a b := by
  cases ignoreCase with
  | false => simp [prepare, lowered, List.forall₂_eq_eq_eq]
  | true =>
      rw [prepare, prepare, if_pos rfl, if_pos rfl, ← List.forall₂_eq_eq_eq,
        List.forall₂_map_left_iff, List.forall₂_map_right_iff]
      simp [lowered]

/-- A text stands somewhere in another one, up to how characters are compared. -/
def StandsIn (same : Char → Char → Bool) (pattern text : List Char) : Prop :=
  ∃ middle, middle <:+: text ∧ List.Forall₂ (fun c d => same c d = true) pattern middle

/-- A text of the length of the pattern has no other stretch of this length. -/
theorem standsIn_of_length_eq {same : Char → Char → Bool} {pattern text : List Char}
    (h : text.length = pattern.length) :
    StandsIn same pattern text ↔ List.Forall₂ (fun c d => same c d = true) pattern text := by
  constructor
  · rintro ⟨middle, hinfix, hsame⟩
    obtain rfl := hinfix.sublist.eq_of_length (hsame.length_eq.symm.trans h.symm)
    exact hsame
  · intro hsame
    exact ⟨text, List.infix_rfl, hsame⟩

/-! ## Both matchers -/

namespace TextMatcher

/-- **At distance zero a prepared stretch is the prepared pattern.** -/
theorem isMatch_approximate_zero_iff {pattern : List Char} (hp : pattern ≠ []) (ignoreCase : Bool)
    (text : List Char) :
    isMatch (.approximate pattern ignoreCase 0) text = true ↔
      StandsIn (lowered ignoreCase) pattern text := by
  have hmatch : isMatch (.approximate pattern ignoreCase 0) text = true ↔
      occurrences ignoreCase 0 pattern text ≠ [] := by
    simp [isMatch, spans]
  rw [hmatch]
  constructor
  · intro hfound
    obtain ⟨found, hm⟩ := List.exists_mem_of_ne_nil _ hfound
    obtain ⟨hlt, hstop, hle, hleast⟩ := isLeast_of_mem_occurrences hm
    obtain ⟨before, middle, after, hsplit, -, hmiddle, -⟩ := exists_split text hlt hstop
    -- no edits are needed only between equal texts
    have hedits := hleast.1
    rw [Set.mem_ofPred_eq, Nat.le_zero.1 hle, edits_zero_iff, prepare_eq_prepare_iff,
      hmiddle] at hedits
    exact ⟨middle, ⟨before, after, hsplit.symm⟩, hedits⟩
  · rintro ⟨middle, ⟨before, after, rfl⟩, hsame⟩
    -- a prepared text is as long as the text, so the stretch is not empty
    have hmiddle : middle ≠ [] := by
      rintro rfl
      exact hp (List.forall₂_nil_right_iff.1 hsame)
    have hedits := edits_zero_iff.2 (prepare_eq_prepare_iff.2 hsame)
    exact occurrences_ne_nil hp hmiddle (Nat.le_refl 0) hedits

/-- The program of a substring matcher is the one of the escaped pattern. -/
theorem exists_program_of_compile_contains {group maxDistance : Option Nat}
    {threshold : Option Float} {matcher : TextMatcher}
    (h : compile pattern ⟨.contains, ignoreCase, group, maxDistance, threshold⟩ = .ok matcher) :
    ∃ program : Regex.Program, matcher = .regex program.finder.searcher 0 ∧
      program.code.toList = Regex.readingCode ignoreCase pattern.toList := by
  have hcompile : compile pattern ⟨.contains, ignoreCase, group, maxDistance, threshold⟩ =
      ((Regex.parse ignoreCase (Regex.escape pattern.toList)).mapError fun fault =>
        .invalidPattern (pattern ++ ": " ++ fault.message)).bind fun parsed =>
          (groupOf pattern parsed.groupCount group).map fun group =>
            .regex parsed.finder.searcher group := by
    cases hp : Regex.parse ignoreCase (Regex.escape pattern.toList) <;>
      simp only [compile, expression, hp, Except.mapError, Except.bind]
  rw [hcompile] at h
  cases hp : Regex.parse ignoreCase (Regex.escape pattern.toList) with
  | error fault =>
      rw [hp] at h
      cases h
  | ok parsed =>
      rw [hp, Except.mapError, Except.bind, Regex.groupCount_of_parse_escape hp] at h
      refine ⟨.ofPattern parsed, ?_, Regex.toList_code_of_parse hp⟩
      cases group with
      | none =>
          cases h
          rfl
      | some group =>
          -- there is no group but the whole match
          rw [groupOf] at h
          split at h
          · rename_i hle
            cases h
            obtain rfl := Nat.le_zero.1 hle
            rfl
          · cases h

theorem exists_eq_ok_of_isOk {outcome : Outcome TextMatcher} (h : outcome.isOk = true) :
    ∃ matcher, outcome = .ok matcher := by
  cases outcome with
  | error e => cases h
  | ok matcher => exact ⟨matcher, rfl⟩

/-- **A substring matcher looks for a stretch that is alike.** -/
theorem isMatch_contains_iff {program : Regex.Program} {pattern : List Char}
    (h : program.code.toList = Regex.readingCode ignoreCase pattern) (text : List Char) :
    isMatch (.regex program.finder.searcher 0) text = true ↔
      StandsIn (Regex.alike ignoreCase) pattern text := by
  rw [isMatch, Finder.searcher, Finder.hits_iff]
  constructor
  · rintro ⟨before, rest, rfl, hf⟩
    obtain ⟨hit, hf⟩ := Option.isSome_iff_exists.1 hf
    obtain ⟨middle, after, rfl, hsame, -⟩ := (Regex.Program.finder_reading_eq_some_iff h).1 hf
    exact ⟨middle, ⟨before, after, List.append_assoc _ _ _⟩, hsame⟩
  · rintro ⟨middle, ⟨before, after, rfl⟩, hsame⟩
    refine ⟨before, middle ++ after, List.append_assoc _ _ _, ?_⟩
    apply Option.isSome_iff_exists.2
    exact ⟨_, (Regex.Program.finder_reading_eq_some_iff h).2 ⟨middle, after, rfl, hsame, rfl⟩⟩

/-- **Two ways to compare characters find the same texts** exactly if they take the same characters
for those of the pattern. -/
theorem standsIn_congr_iff {same other : Char → Char → Bool} (hsame : ∀ c, same c c = true)
    (hother : ∀ c, other c c = true) (pattern : List Char) :
    (∀ text, StandsIn same pattern text ↔ StandsIn other pattern text) ↔
      ∀ c ∈ pattern, same c = other c := by
  constructor
  · intro h c hc
    funext d
    obtain ⟨before, after, rfl⟩ := List.append_of_mem hc
    have hself : ∀ {same : Char → Char → Bool}, (∀ c, same c c = true) → ∀ text,
        List.Forall₂ (fun c d => same c d = true) text text := by
      intro same hrefl text
      exact List.forall₂_same.2 fun c _ => hrefl c
    -- the pattern with the character replaced
    have hreplaced : ∀ {same : Char → Char → Bool}, (∀ c, same c c = true) →
        (StandsIn same (before ++ c :: after) (before ++ d :: after) ↔ same c d = true) := by
      intro same hrefl
      rw [standsIn_of_length_eq (by simp)]
      constructor
      · intro hall
        have hdrop := List.forall₂_drop before.length hall
        rw [List.drop_left, List.drop_left] at hdrop
        exact (List.forall₂_cons.1 hdrop).1
      · intro hcd
        exact List.rel_append (hself hrefl before) (.cons hcd (hself hrefl after))
    rw [Bool.eq_iff_iff, ← hreplaced hsame, ← hreplaced hother]
    exact h _
  · intro h text
    have hall : ∀ middle, List.Forall₂ (fun c d => same c d = true) pattern middle ↔
        List.Forall₂ (fun c d => other c d = true) pattern middle := by
      intro middle
      rw [List.forall₂_iff_get, List.forall₂_iff_get]
      have hget : ∀ i (hi : i < pattern.length), same (pattern.get ⟨i, hi⟩) =
          other (pattern.get ⟨i, hi⟩) := fun i hi => h _ (List.get_mem _ _)
      simp only [hget]
    simp only [StandsIn, hall]

/-- **Approximation without edits is substring search where lowering and folding agree.** At
distance zero an approximate matcher finds the pattern up to the first characters of the lower case
forms, and a substring matcher up to simple case folding. So both match the same candidates if case
counts; if it does not, they do exactly if the two maps identify the same characters with each
character of the pattern. -/
theorem approximate_zero_iff_contains {group group' maxDistance : Option Nat}
    {threshold threshold' : Option Float} {fuzzy contains : TextMatcher} (hp : pattern ≠ "")
    (hf : compile pattern ⟨.fuzzy, ignoreCase, group, some 0, threshold⟩ = .ok fuzzy)
    (hc : compile pattern ⟨.contains, ignoreCase, group', maxDistance, threshold'⟩ =
      .ok contains) :
    (∀ candidate : String, fuzzy.isMatch candidate.toList = true ↔
      StandsIn (lowered ignoreCase) pattern.toList candidate.toList) ∧
    (∀ candidate : String, contains.isMatch candidate.toList = true ↔
      StandsIn (Regex.alike ignoreCase) pattern.toList candidate.toList) ∧
    ((∀ candidate : String,
        fuzzy.isMatch candidate.toList = contains.isMatch candidate.toList) ↔
      (ignoreCase = true → ∀ c ∈ pattern.toList, ∀ d,
        lowerFirst c = lowerFirst d ↔ sameFold c d = true)) := by
  have hne : pattern.toList ≠ [] := by
    rwa [Ne, String.toList_eq_nil_iff]
  obtain ⟨program, rfl, hcode⟩ := exists_program_of_compile_contains hc
  obtain rfl : .approximate pattern.toList ignoreCase 0 = fuzzy := Except.ok.inj hf
  have hfuzzy := fun candidate : String =>
    isMatch_approximate_zero_iff hne ignoreCase candidate.toList
  have hcontains := fun candidate : String => isMatch_contains_iff hcode candidate.toList
  refine ⟨hfuzzy, hcontains, ?_⟩
  have hstands : (∀ candidate : String,
      isMatch (.approximate pattern.toList ignoreCase 0) candidate.toList =
        isMatch (.regex program.finder.searcher 0) candidate.toList) ↔
      ∀ text, StandsIn (lowered ignoreCase) pattern.toList text ↔
        StandsIn (Regex.alike ignoreCase) pattern.toList text := by
    constructor
    · intro h text
      have hcandidate := h (String.ofList text)
      rw [Bool.eq_iff_iff, hfuzzy, hcontains, String.toList_ofList] at hcandidate
      exact hcandidate
    · intro h candidate
      rw [Bool.eq_iff_iff, hfuzzy, hcontains]
      exact h candidate.toList
  rw [hstands]
  cases ignoreCase with
  | false =>
      -- case counts, so both compare characters for equality
      exact iff_of_true (fun text => Iff.rfl) nofun
  | true =>
      have hlowered : ∀ c, lowered true c c = true := fun c => beq_self_eq_true (lowerFirst c)
      have halike : ∀ c, Regex.alike true c c = true := sameFold_self
      have hsame : ∀ c d, lowered true c d = Regex.alike true c d ↔
          (lowerFirst c = lowerFirst d ↔ sameFold c d = true) := by
        intro c d
        rw [Bool.eq_iff_iff, lowered, if_pos rfl, beq_iff_eq]
        rfl
      rw [standsIn_congr_iff hlowered halike]
      simp only [funext_iff, hsame, true_imp_iff]

/-- Both matchers of the letter a with case variants. -/
theorem approximate_zero_iff_contains_letter :
    ∃ fuzzy contains,
      compile "a" ⟨.fuzzy, true, none, some 0, none⟩ = .ok fuzzy ∧
      compile "a" ⟨.contains, true, none, none, none⟩ = .ok contains ∧
      ((∀ candidate : String,
          fuzzy.isMatch candidate.toList = contains.isMatch candidate.toList) ↔
        (true = true →
          ∀ c ∈ "a".toList, ∀ d, lowerFirst c = lowerFirst d ↔ sameFold c d = true)) := by
  obtain ⟨contains, hc⟩ : ∃ matcher,
      compile "a" ⟨.contains, true, none, none, none⟩ = .ok matcher :=
    exists_eq_ok_of_isOk (by decide +kernel)
  exact ⟨_, contains, rfl, hc, (approximate_zero_iff_contains (by decide) rfl hc).2.2⟩

/-- The lower case form of the dotted capital letter is an i and a dot, of which only the i is
compared, but the capital letter is no case variant of i: approximation without edits finds it,
substring search does not. -/
theorem not_approximate_zero_contains_dotted :
    ∃ fuzzy contains,
      compile "i" ⟨.fuzzy, true, none, some 0, none⟩ = .ok fuzzy ∧
      compile "i" ⟨.contains, true, none, none, none⟩ = .ok contains ∧
      fuzzy.isMatch "İ".toList = true ∧ contains.isMatch "İ".toList = false := by
  obtain ⟨contains, hc⟩ : ∃ matcher,
      compile "i" ⟨.contains, true, none, none, none⟩ = .ok matcher :=
    exists_eq_ok_of_isOk (by decide +kernel)
  obtain ⟨program, rfl, hcode⟩ := exists_program_of_compile_contains hc
  refine ⟨_, _, rfl, hc, by decide +kernel, ?_⟩
  have hlength : "İ".toList.length = "i".toList.length := rfl
  rw [Bool.eq_false_iff, Ne, isMatch_contains_iff hcode, standsIn_of_length_eq hlength]
  intro halike
  have hfold : Regex.alike true 'i' 'İ' = false := by decide +kernel
  exact Bool.false_ne_true (hfold.symm.trans (List.forall₂_cons.1 halike).1)

end TextMatcher

end PathDoc.Match
